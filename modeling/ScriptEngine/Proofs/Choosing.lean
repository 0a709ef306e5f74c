import ScriptEngine.Proofs.Scoring
/-! Which overload a call means: of the candidates that take its arguments, the first of those that
cost least. -/

namespace ScriptEngine

namespace Overload

variable {α : Type} {view : α → Callable} {hierarchy : Hierarchy} {name : String}
  {args : List DataType} {withPublic : Bool} {kept : Option FunctionId}
  {candidates own published : List α} {function : α} {distance : Nat}

def eligible (withPublic : Bool) (own published : List α) : List α :=
  own ++ if withPublic then published else []

/-- Whether a call can mean a function: it has the name, and the arguments are as many as the
parameters, each accepted in its place. -/
def Viable (hierarchy : Hierarchy) (name : String) (args : List DataType) (callable : Callable) :
    Prop :=
  callable.name = name ∧
    List.Forall₂ (fun param arg => param.accepts hierarchy arg = true) callable.params.types args

instance {callable : Callable} : Decidable (Viable hierarchy name args callable) :=
  inferInstanceAs (Decidable (_ ∧ _))

def cost (args : List DataType) (callable : Callable) : Nat := Score.cost callable.params.types args

/-- The earliest of the viable candidates that cost least. -/
structure Foremost (view : α → Callable) (hierarchy : Hierarchy) (name : String)
    (args : List DataType) (candidates : List α) (function : α) : Prop where
  viable : Viable hierarchy name args (view function)
  first : ∃ before after, candidates = before ++ function :: after ∧
    (∀ other ∈ before, Viable hierarchy name args (view other) →
      cost args (view function) < cost args (view other)) ∧
    ∀ other ∈ after, Viable hierarchy name args (view other) →
      cost args (view function) ≤ cost args (view other)

theorem Foremost.le (foremost : Foremost view hierarchy name args candidates function) {other : α}
    (among : other ∈ candidates) (viable : Viable hierarchy name args (view other)) :
    cost args (view function) ≤ cost args (view other) := by
  obtain ⟨_, before, after, rfl, early, late⟩ := foremost
  rcases List.mem_append.mp among with sooner | later
  · exact Nat.le_of_lt (early other sooner viable)
  · rcases List.mem_cons.mp later with rfl | later
    · exact Nat.le_refl _
    · exact late other later viable

theorem fits_iff_viable {callable : Callable} :
    Fits hierarchy name args callable ↔ Viable hierarchy name args callable := by
  simp only [Fits, Viable, Score.of_eq_distance_iff, exists_and_left, exists_eq', and_true]

theorem nearest_filter_iff {score : α → Score} {wanted : α → Bool} :
    Nearest score (candidates.filter wanted) function distance ↔
      wanted function = true ∧ score function = .distance distance ∧
      ∃ before after, candidates = before ++ function :: after ∧
        (∀ other ∈ before, wanted other = true → ∀ cost, score other = .distance cost →
          distance < cost) ∧
        ∀ other ∈ after, wanted other = true → ∀ cost, score other = .distance cost →
          distance ≤ cost := by
  constructor
  · rintro ⟨fits, before, after, split, early, late⟩
    obtain ⟨front, back, rfl, rfl, rest⟩ := List.filter_eq_append_iff.mp split
    obtain ⟨skipped, behind, rfl, unwanted, isWanted, rfl⟩ := List.filter_eq_cons_iff.mp rest
    refine ⟨isWanted, fits, front ++ skipped, behind, by simp, fun other among also => ?_,
      fun other among also => late other (List.mem_filter.mpr ⟨among, also⟩)⟩
    rcases List.mem_append.mp among with known | known
    · exact early other (List.mem_filter.mpr ⟨known, also⟩)
    · exact absurd also (unwanted other known)
  · rintro ⟨isWanted, fits, before, after, rfl, early, late⟩
    refine ⟨fits, before.filter wanted, after.filter wanted, ?_, fun other among => ?_,
      fun other among => ?_⟩
    · rw [List.filter_append, List.filter_cons_of_pos isWanted]
    · exact early other (List.mem_filter.mp among).1 (List.mem_filter.mp among).2
    · exact late other (List.mem_filter.mp among).1 (List.mem_filter.mp among).2

theorem search_eq_ok_iff_foremost : search view hierarchy name args candidates = .ok function ↔
    Foremost view hierarchy name args candidates function := by
  simp only [search_eq_ok_iff, named, nearest_filter_iff, Score.of_eq_distance_iff,
    decide_eq_true_eq]
  constructor
  · rintro ⟨_, isNamed, ⟨accepted, rfl⟩, before, after, split, early, late⟩
    refine ⟨⟨isNamed, accepted⟩, before, after, split, fun other among viable => ?_,
      fun other among viable => ?_⟩
    · exact early other among viable.1 _ ⟨viable.2, rfl⟩
    · exact late other among viable.1 _ ⟨viable.2, rfl⟩
  · rintro ⟨⟨isNamed, accepted⟩, before, after, split, early, late⟩
    refine ⟨_, isNamed, ⟨accepted, rfl⟩, before, after, split, ?_, ?_⟩
    · rintro other among also _ ⟨fits, rfl⟩
      exact early other among ⟨also, fits⟩
    · rintro other among also _ ⟨fits, rfl⟩
      exact late other among ⟨also, fits⟩

theorem search_succeeds_iff : (∃ function, search view hierarchy name args candidates = .ok function) ↔
    ∃ function ∈ candidates, Viable hierarchy name args (view function) := by
  constructor
  · rintro ⟨function, found⟩
    exact ⟨function, search_mem found, fits_iff_viable.mp (search_fits found)⟩
  · rintro ⟨function, among, viable⟩
    exact search_of_fits among (fits_iff_viable.mpr viable)

theorem resolve_of_unkept (unkept : ∀ function ∈ own ++ published, kept ≠ some (view function).id) :
    resolve view hierarchy withPublic kept name args own published =
      match search view hierarchy name args (eligible withPublic own published) with
      | .ok function => (.ok function, some (view function).id)
      | .error cause => (.error cause, kept) := by
  have unknown : (kept.bind fun id =>
      (own ++ published).find? fun function => (view function).id = id) = none := by
    cases kept with
    | none => rfl
    | some id =>
        refine List.find?_eq_none.mpr fun function among same => ?_
        exact unkept function among (congrArg some (of_decide_eq_true same).symm)
  simp only [resolve, unknown]
  rfl

/-- Resolution gives the first of the cheapest viable candidates if there is a viable one, whatever the
lists, and keeps its identity; a resolution that fails keeps what was kept. -/
theorem overloads_resolve_to_foremost
    (unkept : ∀ function ∈ own ++ published, kept ≠ some (view function).id) :
    (∀ function cell, resolve view hierarchy withPublic kept name args own published =
        (.ok function, cell) ↔
      Foremost view hierarchy name args (eligible withPublic own published) function ∧
        cell = some (view function).id) ∧
    ((∃ function cell, resolve view hierarchy withPublic kept name args own published =
        (.ok function, cell)) ↔
      ∃ function ∈ eligible withPublic own published, Viable hierarchy name args (view function)) ∧
    ∀ cause cell, resolve view hierarchy withPublic kept name args own published =
      (.error cause, cell) → cell = kept := by
  rw [resolve_of_unkept unkept, ← search_succeeds_iff]
  simp only [← search_eq_ok_iff_foremost]
  cases search view hierarchy name args (eligible withPublic own published) with
  | ok found =>
      refine ⟨fun function cell => ?_, ?_, fun _ _ same => nomatch same⟩
      · constructor
        · intro same
          cases same
          exact ⟨rfl, rfl⟩
        · rintro ⟨same, rfl⟩
          cases same
          rfl
      · exact ⟨fun _ => ⟨found, rfl⟩, fun _ => ⟨found, _, rfl⟩⟩
  | error cause =>
      refine ⟨fun function cell => ?_, ?_, fun _ _ same => (Prod.mk.inj same).2.symm⟩
      · exact ⟨fun same => (nomatch same), fun same => (nomatch same.1)⟩
      · exact ⟨fun ⟨_, _, same⟩ => (nomatch same), fun ⟨_, same⟩ => (nomatch same)⟩

def pick (number : Nat) (types : List DataType) : Callable :=
  { id := ⟨number⟩, name := "pick", returns := .int,
    params := { params := types.map fun type => ⟨"value", type, .nowhere⟩ } }

theorem overloads_resolve_to_foremost_of_tied :
    let own := [pick 1 [.ofKind .short]]
    let published := [pick 2 [.float], pick 3 [.long], pick 4 [.long]]
    (∀ function ∈ own ++ published, some ⟨9⟩ ≠ some (id function).id) ∧
      resolve id .flat true (some ⟨9⟩) "pick" [.int] own published =
        (.ok (pick 3 [.long]), some ⟨3⟩) ∧
      Foremost id .flat "pick" [.int] (eligible true own published) (pick 3 [.long]) := by
  intro own published
  have unkept : ∀ function ∈ own ++ published, some ⟨9⟩ ≠ some (id function).id := by decide
  have resolved : resolve id .flat true (some ⟨9⟩) "pick" [.int] own published =
      (.ok (pick 3 [.long]), some ⟨3⟩) := by
    decide
  exact ⟨unkept, resolved, (((overloads_resolve_to_foremost unkept).1 _ _).mp resolved).1⟩

end Overload

end ScriptEngine
