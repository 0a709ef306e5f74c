import ScriptEngine.Evaluation
/-! What resolution can find: a function offered to it, and so one that is loaded. A loaded function
is found again by its identities, which is all that a frame keeps of it. -/

namespace ScriptEngine

namespace Overload

variable {α : Type} {view : α → Callable} {hierarchy : Hierarchy} {name : String}
  {args : List DataType}

theorem nearest_mem {score : α → Score} {function : α} {distance : Nat} {candidates : List α} :
    ∀ {best : Best α}, nearest score best candidates = .candidate function distance →
      (∃ found, best = .candidate function found) ∨ function ∈ candidates := by
  induction candidates with
  | nil =>
      intro best found
      exact Or.inl ⟨distance, found⟩
  | cons first rest ih =>
      intro best found
      unfold nearest at found
      split at found
      · cases found
        exact Or.inr (List.mem_cons_self ..)
      · split at found
        all_goals rcases ih found with ⟨least, same⟩ | among
        · cases same
          exact Or.inr (List.mem_cons_self ..)
        · exact Or.inr (List.mem_cons_of_mem _ among)
        · cases same
          exact Or.inl ⟨_, rfl⟩
        · exact Or.inr (List.mem_cons_of_mem _ among)
      · rcases ih found with ⟨least, same⟩ | among
        · cases same
          exact Or.inr (List.mem_cons_self ..)
        · exact Or.inr (List.mem_cons_of_mem _ among)
      · rcases ih found with ⟨least, same⟩ | among
        · cases same
        · exact Or.inr (List.mem_cons_of_mem _ among)
      · rcases ih found with ⟨least, same⟩ | among
        · cases same
          exact Or.inl ⟨_, rfl⟩
        · exact Or.inr (List.mem_cons_of_mem _ among)

theorem search_mem {candidates : List α} {function : α}
    (found : search view hierarchy name args candidates = .ok function) :
    function ∈ candidates := by
  unfold search at found
  dsimp only at found
  split at found
  · rename_i best distance chosen
    cases found
    rcases nearest_mem chosen with ⟨least, same⟩ | among
    · cases same
    · exact (List.mem_filter.mp among).1
  · cases found

theorem resolve_mem {withPublic : Bool} {kept found? : Option FunctionId} {own published : List α}
    {function : α}
    (found : resolve view hierarchy withPublic kept name args own published =
      (.ok function, found?)) : function ∈ own ++ published := by
  unfold resolve at found
  dsimp only at found
  split at found
  · rename_i known
    cases found
    cases kept with
    | none => cases known
    | some id => exact List.mem_of_find?_eq_some known
  · split at found
    · rename_i searched
      cases found
      have among := search_mem searched
      rcases List.mem_append.mp among with own | «public»
      · exact List.mem_append_left _ own
      · cases withPublic with
        | false => cases «public»
        | true => exact List.mem_append_right _ «public»
    · cases found

theorem resolveAlong_mem {kept found? : Option FunctionId} {function : α}
    {offered : List (List α)} :
    ∀ {first : Option CompileCause},
      resolveAlong view hierarchy kept name args first offered = (.ok function, found?) →
      ∃ candidates ∈ offered, function ∈ candidates := by
  induction offered with
  | nil =>
      intro first found
      simp [resolveAlong] at found
  | cons candidates rest ih =>
      intro first found
      unfold resolveAlong at found
      split at found
      · rename_i resolved
        cases found
        have among := resolve_mem resolved
        rw [List.append_nil] at among
        exact ⟨candidates, List.mem_cons_self .., among⟩
      · obtain ⟨further, offered, among⟩ := ih found
        exact ⟨further, List.mem_cons_of_mem _ offered, among⟩

end Overload

namespace Code

def Owns (code : Code) (function : Function) : Prop :=
  code.programs.function? function.program function.id = some function

structure Consistent (code : Code) : Prop where
  own : ∀ program ∈ code.programs, ∀ function ∈ program.functions, code.Owns function
  published : ∀ function ∈ code.publicFunctions, code.Owns function

variable {code : Code}

theorem Consistent.resolveCall (consistent : code.Consistent) {program : ProgramId}
    {kept found? : Option FunctionId} {name : String} {args : List DataType} {function : Function}
    (found : code.resolveCall program kept name args = (.ok function, found?)) :
    code.Owns function := by
  unfold Code.resolveCall at found
  rcases List.mem_append.mp (Overload.resolve_mem found) with own | «public»
  · split at own
    · rename_i loaded known
      simp only [Program.free, List.mem_filter] at own
      exact consistent.own loaded (Programs.mem_of_get? known).1 function own.1
    · cases own
  · exact consistent.published function «public»

theorem classBlock_of_resolveMethod {className : String} {kept found? : Option FunctionId}
    {name : String} {args : List DataType} {function : Function}
    (found : code.resolveMethod className kept name args = (.ok function, found?)) :
    function.signature.classBlock.isSome = true := by
  obtain ⟨candidates, offered, among⟩ := Overload.resolveAlong_mem found
  obtain ⟨decl, _, rfl⟩ := List.mem_map.mp offered
  obtain ⟨_, _, _, enclosed⟩ := Programs.mem_classMethods among
  rw [enclosed]
  rfl

theorem Consistent.resolveMethod (consistent : code.Consistent) {className : String}
    {kept found? : Option FunctionId} {name : String} {args : List DataType} {function : Function}
    (found : code.resolveMethod className kept name args = (.ok function, found?)) :
    code.Owns function := by
  obtain ⟨candidates, offered, among⟩ := Overload.resolveAlong_mem found
  obtain ⟨decl, _, rfl⟩ := List.mem_map.mp offered
  obtain ⟨program, loaded, declared, _⟩ := Programs.mem_classMethods among
  exact consistent.own program loaded function declared

end Code

theorem Evaluation.callee_chosen {code : Code} {frame : Frame} {kept found? : Option FunctionId}
    {function : Function} {resolved : Except CompileCause Function × Option FunctionId}
    (chosen : Evaluation.callee code frame kept resolved = .found function found?) :
    (∃ call, frame.call? = some call ∧
        code.programs.function? call.program call.function = some function) ∨
      frame.call? = none ∧ resolved = (.ok function, found?) := by
  unfold Evaluation.callee at chosen
  cases held : frame.call? with
  | none =>
      simp only [held] at chosen
      split at chosen
      · cases chosen
        exact Or.inr ⟨rfl, rfl⟩
      · cases chosen
  | some call =>
      simp only [held] at chosen
      split at chosen
      · rename_i loaded
        cases chosen
        exact Or.inl ⟨call, rfl, loaded⟩
      · cases chosen

end ScriptEngine
