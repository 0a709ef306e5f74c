import ScriptEngine.Error
import ScriptEngine.Identity
import ScriptEngine.ParamList
/-! Which function a call means. Candidates of the called name are scored by how far the argument
types are from the parameter types, and the nearest wins. A call site that was resolved before keeps
the identity it found and looks for that first. -/

namespace ScriptEngine

/-- The cost of passing `given` for `expected`: the ranks it is widened by, or ten times the ranks
it is narrowed by. -/
def conversionCost (expected given : DataType) : Nat :=
  if given.rank < expected.rank then expected.rank - given.rank
  else 10 * (given.rank - expected.rank)

inductive Score where
  | distance (cost : Nat)
  | incompatible
  | tooMany
  | tooFew
deriving DecidableEq, Repr

namespace Score

def add (cost : Nat) : Score → Score
  | .distance more => .distance (cost + more)
  | score => score

/-- How parameter types fit argument types. Pairs are compared in order, so a pair that does not fit
is reported even if the counts differ behind it. -/
def of (hierarchy : Hierarchy) : List DataType → List DataType → Score
  | expected :: moreExpected, given :: moreGiven =>
      if expected.accepts hierarchy given then
        (of hierarchy moreExpected moreGiven).add (conversionCost expected given)
      else .incompatible
  | [], _ :: _ => .tooMany
  | _ :: _, [] => .tooFew
  | [], [] => .distance 0

end Score

/-- What overload resolution looks at in a function. -/
structure Callable where
  id : FunctionId
  name : String
  params : ParamList
  returns : DataType
deriving DecidableEq, Repr, Inhabited

namespace Overload

variable {α : Type}

/-- The cause reported so far, after one more candidate that does not fit. A type that does not fit
says most; counts that are too high here and too low there say only that the count is wrong. -/
def worsen (cause : CompileCause) : Score → CompileCause
  | .distance _ => cause
  | .incompatible => .badParameterType
  | .tooMany =>
      match cause with
      | .tooFewParameters => .ambiguousParameterCount
      | .undefinedCall => .tooManyParameters
      | other => other
  | .tooFew =>
      match cause with
      | .tooManyParameters => .ambiguousParameterCount
      | .undefinedCall => .tooFewParameters
      | other => other

/-- The state of a search: the cause to report if nothing fits, or the nearest candidate. -/
inductive Best (α : Type) where
  | nothing (cause : CompileCause)
  | candidate (function : α) (distance : Nat)

/-- Search the candidates for the nearest, the earliest of equally near ones; the search ends at one
that fits exactly. -/
def nearest (score : α → Score) : Best α → List α → Best α
  | best, [] => best
  | best, function :: rest =>
      match score function, best with
      | .distance 0, _ => .candidate function 0
      | .distance cost, .candidate found least =>
          let nearer : Best α :=
            if cost < least then .candidate function cost else .candidate found least
          nearest score nearer rest
      | .distance cost, .nothing _ => nearest score (.candidate function cost) rest
      | misfit, .nothing cause => nearest score (.nothing (worsen cause misfit)) rest
      | _, .candidate found least => nearest score (.candidate found least) rest

def named (view : α → Callable) (name : String) (candidates : List α) : List α :=
  candidates.filter fun function => (view function).name = name

def search (view : α → Callable) (hierarchy : Hierarchy) (name : String) (args : List DataType)
    (candidates : List α) : Except CompileCause α :=
  let score function := Score.of hierarchy (view function).params.types args
  match nearest score (.nothing .undefinedCall) (named view name candidates) with
  | .candidate function _ => .ok function
  | .nothing cause => .error cause

/-- The function `name(args)` means, and the identity to keep for the next time. The identity kept
from the last time is looked for among all candidates, also among public ones that take no part in
the search by name. A search that fails keeps the identity as it was. -/
def resolve (view : α → Callable) (hierarchy : Hierarchy) (withPublic : Bool)
    (kept : Option FunctionId) (name : String) (args : List DataType) (own published : List α) :
    Except CompileCause α × Option FunctionId :=
  let known := kept.bind fun id => (own ++ published).find? fun function => (view function).id = id
  match known with
  | some function => (.ok function, kept)
  | none =>
      match search view hierarchy name args (own ++ if withPublic then published else []) with
      | .ok function => (.ok function, some (view function).id)
      | .error cause => (.error cause, kept)

/-- The method `name(args)` means on a receiver whose classes, the most derived first, offer the
candidates of `offered`. The first class that has one decides; if none has, the first class's
problem is reported. -/
def resolveAlong (view : α → Callable) (hierarchy : Hierarchy) (kept : Option FunctionId)
    (name : String) (args : List DataType) :
    Option CompileCause → List (List α) → Except CompileCause α × Option FunctionId
  | first, [] => (.error (first.getD .undefinedCall), kept)
  | first, offered :: rest =>
      match resolve view hierarchy false kept name args offered [] with
      | (.ok function, found) => (.ok function, found)
      | (.error cause, _) =>
          resolveAlong view hierarchy kept name args (some (first.getD cause)) rest

end Overload

end ScriptEngine
