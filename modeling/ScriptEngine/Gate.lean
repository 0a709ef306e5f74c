/-! Step gates. A host limits how much of a call runs now: the gate is asked each time a body is
entered or gone on with, and a call that is declined has yielded. -/

namespace ScriptEngine

inductive Gate where
  | unlimited
  /-- Allows as many bodies as remain. -/
  | budget (remaining : Nat)
  /-- Gives the answers in turn and allows all bodies behind them; counts how often it was asked. -/
  | scripted (answers : List Bool) (queries : Nat)
deriving DecidableEq, Repr, Inhabited

def Gate.ask : Gate → Bool × Gate
  | .unlimited => (true, .unlimited)
  | .budget 0 => (false, .budget 0)
  | .budget (remaining + 1) => (true, .budget remaining)
  | .scripted [] queries => (true, .scripted [] (queries + 1))
  | .scripted (answer :: rest) queries => (answer, .scripted rest (queries + 1))

theorem Gate.ask_declined {gate after : Gate} (declined : gate.ask = (false, after)) :
    after ≠ .unlimited := by
  intro free
  subst free
  cases gate with
  | unlimited => simp [ask] at declined
  | budget remaining => cases remaining <;> simp [ask] at declined
  | scripted answers queries => cases answers <;> simp [ask] at declined

end ScriptEngine
