import ScriptEngine.Proofs.Choosing
/-! Why a call means nothing. What a search reports where no candidate is viable depends only on which
misfits there are among the candidates of the name, and so not on their order. -/

namespace ScriptEngine

namespace Score

def isMisfit : Score → Bool
  | .distance _ => false
  | .incompatible | .tooMany | .tooFew => true

theorem isMisfit_iff {score : Score} : score.isMisfit = true ↔ ∀ cost, score ≠ .distance cost := by
  cases score <;> simp [isMisfit]

end Score

namespace Overload

variable {α : Type} {seen others : List Score}

def blame (misfits : List Score) : CompileCause :=
  if .incompatible ∈ misfits then .badParameterType
  else if .tooMany ∈ misfits then
    if .tooFew ∈ misfits then .ambiguousParameterCount else .tooManyParameters
  else if .tooFew ∈ misfits then .tooFewParameters
  else .undefinedCall

theorem blame_congr (same : ∀ misfit, misfit ∈ seen ↔ misfit ∈ others) : blame seen = blame others := by
  unfold blame
  simp only [same]

theorem worsen_blame {misfit : Score} (misfits : misfit.isMisfit = true) :
    worsen (blame seen) misfit = blame (misfit :: seen) := by
  cases misfit with
  | distance cost => cases misfits
  | incompatible => simp [blame, worsen]
  | tooMany | tooFew =>
      by_cases bad : Score.incompatible ∈ seen <;> by_cases many : Score.tooMany ∈ seen <;>
        by_cases few : Score.tooFew ∈ seen <;> simp [blame, worsen, bad, many, few]

theorem nearest_blame {score : α → Score} : ∀ {candidates : List α} {seen : List Score},
    (∀ other ∈ candidates, (score other).isMisfit = true) →
      nearest score (.nothing (blame seen)) candidates =
        .nothing (blame (candidates.map score ++ seen)) := by
  intro candidates
  induction candidates with
  | nil => exact fun _ => rfl
  | cons first rest ih =>
      intro seen misfits
      obtain ⟨here, further⟩ := List.forall_mem_cons.mp misfits
      have step : nearest score (.nothing (blame seen)) (first :: rest) =
          nearest score (.nothing (worsen (blame seen) (score first))) rest := by
        cases fits : score first with
        | distance cost =>
            rw [fits] at here
            cases here
        | incompatible | tooMany | tooFew => simp only [nearest, fits]
      rw [step, worsen_blame here, ih further]
      exact congrArg _ (blame_congr fun misfit => by simp [or_left_comm])

theorem blame_eq_iff (within : ∀ misfit ∈ seen, misfit ∈ others) :
    blame seen = blame others ↔
      .incompatible ∈ seen ∨ .incompatible ∉ others ∧ (.tooMany ∈ others → .tooMany ∈ seen) ∧
        (.tooFew ∈ others → .tooFew ∈ seen) := by
  have bad := within .incompatible
  have many := within .tooMany
  have few := within .tooFew
  unfold blame
  split_ifs <;> simp_all

section

variable {α : Type} {view : α → Callable} {hierarchy : Hierarchy} {name : String}
  {args : List DataType} {kept : Option FunctionId} {candidates others own published : List α}
  {cause : CompileCause} {misfit : Score}

def AnyNamed (view : α → Callable) (name : String) (candidates : List α)
    (holds : List DataType → Prop) : Prop :=
  ∃ function ∈ candidates, (view function).name = name ∧ holds (view function).params.types

instance {holds : List DataType → Prop} [DecidablePred holds] :
    Decidable (AnyNamed view name candidates holds) :=
  inferInstanceAs (Decidable (∃ function ∈ candidates,
    (view function).name = name ∧ holds (view function).params.types))

/-- What is wrong with a call that no candidate takes. An argument that does not convert to its
parameter comes before counts that are wrong, and counts that are wrong in one way only say in which. -/
inductive Diagnosed (view : α → Callable) (hierarchy : Hierarchy) (name : String)
    (args : List DataType) (candidates : List α) : CompileCause → Prop
  | badType : AnyNamed view name candidates (Score.Rejects hierarchy · args) →
      Diagnosed view hierarchy name args candidates .badParameterType
  | ambiguous : ¬ AnyNamed view name candidates (Score.Rejects hierarchy · args) →
      AnyNamed view name candidates (·.length < args.length) →
      AnyNamed view name candidates (args.length < ·.length) →
      Diagnosed view hierarchy name args candidates .ambiguousParameterCount
  | tooMany : ¬ AnyNamed view name candidates (Score.Rejects hierarchy · args) →
      AnyNamed view name candidates (·.length < args.length) →
      ¬ AnyNamed view name candidates (args.length < ·.length) →
      Diagnosed view hierarchy name args candidates .tooManyParameters
  | tooFew : ¬ AnyNamed view name candidates (Score.Rejects hierarchy · args) →
      ¬ AnyNamed view name candidates (·.length < args.length) →
      AnyNamed view name candidates (args.length < ·.length) →
      Diagnosed view hierarchy name args candidates .tooFewParameters
  | unnamed : ¬ AnyNamed view name candidates (fun _ => True) →
      Diagnosed view hierarchy name args candidates .undefinedCall

def misfits (view : α → Callable) (hierarchy : Hierarchy) (name : String) (args : List DataType)
    (candidates : List α) : List Score :=
  (named view name candidates).map fun function =>
    Score.of hierarchy (view function).params.types args

theorem mem_misfits_iff : misfit ∈ misfits view hierarchy name args candidates ↔
    AnyNamed view name candidates (Score.of hierarchy · args = misfit) := by
  simp only [misfits, named, AnyNamed, List.mem_map, List.mem_filter, decide_eq_true_eq, and_assoc]

theorem misfits_perm (permuted : others.Perm candidates) :
    misfit ∈ misfits view hierarchy name args others ↔
      misfit ∈ misfits view hierarchy name args candidates := by
  simp only [mem_misfits_iff, AnyNamed, permuted.mem_iff]

theorem misfit_cases {callable : Callable} (called : callable.name = name)
    (unviable : ¬ Viable hierarchy name args callable) :
    (Score.of hierarchy callable.params.types args).isMisfit = true := by
  refine Score.isMisfit_iff.mpr fun cost scored => unviable ?_
  exact ⟨called, (Score.of_eq_distance_iff.mp scored).1⟩

theorem search_of_unviable
    (unviable : ∀ function ∈ candidates, ¬ Viable hierarchy name args (view function)) :
    search view hierarchy name args candidates =
      .error (blame (misfits view hierarchy name args candidates)) := by
  have refused : ∀ function ∈ named view name candidates,
      (Score.of hierarchy (view function).params.types args).isMisfit = true := by
    intro function among
    obtain ⟨listed, called⟩ := List.mem_filter.mp among
    exact misfit_cases (of_decide_eq_true called) (unviable function listed)
  have ended : nearest (fun function => Score.of hierarchy (view function).params.types args)
      (.nothing .undefinedCall) (named view name candidates) =
        .nothing (blame (misfits view hierarchy name args candidates)) := by
    have blamed := @nearest_blame _ _ _ [] refused
    rwa [List.append_nil] at blamed
  simp only [search, ended]

theorem AnyNamed.called {holds : List DataType → Prop} (any : AnyNamed view name candidates holds) :
    AnyNamed view name candidates fun _ => True := by
  obtain ⟨function, among, called, _⟩ := any
  exact ⟨function, among, called, trivial⟩

theorem Diagnosed.unique {other : CompileCause}
    (first : Diagnosed view hierarchy name args candidates cause)
    (second : Diagnosed view hierarchy name args candidates other) : cause = other := by
  cases first <;> cases second <;>
    first
      | rfl
      | contradiction
      | exact absurd (AnyNamed.called ‹_›) ‹_›

theorem anyNamed_and_iff {refused holds : List DataType → Prop}
    (accepted : ¬ AnyNamed view name candidates refused) :
    AnyNamed view name candidates (fun expected => ¬ refused expected ∧ holds expected) ↔
      AnyNamed view name candidates holds := by
  constructor
  · rintro ⟨function, among, called, _, also⟩
    exact ⟨function, among, called, also⟩
  · rintro ⟨function, among, called, also⟩
    exact ⟨function, among, called, fun bad => accepted ⟨function, among, called, bad⟩, also⟩

theorem diagnosed_blame
    (unviable : ∀ function ∈ candidates, ¬ Viable hierarchy name args (view function)) :
    Diagnosed view hierarchy name args candidates
      (blame (misfits view hierarchy name args candidates)) := by
  have bad := @mem_misfits_iff _ view hierarchy name args candidates .incompatible
  have many := @mem_misfits_iff _ view hierarchy name args candidates .tooMany
  have few := @mem_misfits_iff _ view hierarchy name args candidates .tooFew
  simp only [Score.of_eq_incompatible_iff, Score.of_eq_tooMany_iff, Score.of_eq_tooFew_iff]
    at bad many few
  unfold blame
  by_cases rejects : AnyNamed view name candidates (Score.Rejects hierarchy · args)
  · rw [if_pos (bad.mpr rejects)]
    exact .badType rejects
  rw [anyNamed_and_iff rejects] at many few
  rw [if_neg (mt bad.mp rejects)]
  by_cases short : AnyNamed view name candidates (·.length < args.length) <;>
    by_cases long : AnyNamed view name candidates (args.length < ·.length)
  · rw [if_pos (many.mpr short), if_pos (few.mpr long)]
    exact .ambiguous rejects short long
  · rw [if_pos (many.mpr short), if_neg (mt few.mp long)]
    exact .tooMany rejects short long
  · rw [if_neg (mt many.mp short), if_pos (few.mpr long)]
    exact .tooFew rejects short long
  · rw [if_neg (mt many.mp short), if_neg (mt few.mp long)]
    refine .unnamed fun ⟨function, among, called, _⟩ => ?_
    have misfit := misfit_cases called (unviable function among)
    cases scored : Score.of hierarchy (view function).params.types args with
    | distance cost =>
        rw [scored] at misfit
        cases misfit
    | incompatible =>
        exact rejects ⟨function, among, called, Score.of_eq_incompatible_iff.mp scored⟩
    | tooMany => exact short ⟨function, among, called, (Score.of_eq_tooMany_iff.mp scored).2⟩
    | tooFew => exact long ⟨function, among, called, (Score.of_eq_tooFew_iff.mp scored).2⟩

theorem diagnosed_iff
    (unviable : ∀ function ∈ candidates, ¬ Viable hierarchy name args (view function)) :
    Diagnosed view hierarchy name args candidates cause ↔
      blame (misfits view hierarchy name args candidates) = cause :=
  ⟨(diagnosed_blame unviable).unique, fun same => same ▸ diagnosed_blame unviable⟩

/-- Resolution with public candidates that fails reports what is wrong, in whatever order the candidates
stand and whichever of them are public. -/
theorem misfits_reported_in_any_order
    (unkept : ∀ function ∈ own ++ published, kept ≠ some (view function).id)
    (unviable : ∀ function ∈ own ++ published, ¬ Viable hierarchy name args (view function)) :
    (∃ cause, Diagnosed view hierarchy name args (own ++ published) cause) ∧
    ∀ cause mine theirs, (mine ++ theirs).Perm (own ++ published) →
      (resolve view hierarchy true kept name args mine theirs = (.error cause, kept) ↔
        Diagnosed view hierarchy name args (own ++ published) cause) := by
  refine ⟨⟨_, diagnosed_blame unviable⟩, fun cause mine theirs permuted => ?_⟩
  have fails : search view hierarchy name args (mine ++ theirs) =
      .error (blame (misfits view hierarchy name args (mine ++ theirs))) :=
    search_of_unviable fun function among => unviable function (permuted.mem_iff.mp among)
  have alike : blame (misfits view hierarchy name args (mine ++ theirs)) =
      blame (misfits view hierarchy name args (own ++ published)) :=
    blame_congr fun _ => misfits_perm permuted
  rw [resolve_of_unkept fun function among => unkept function (permuted.mem_iff.mp among), eligible,
    if_pos rfl, fails, diagnosed_iff unviable, alike]
  simp

end

theorem misfits_reported_in_any_order_of_mixed :
    let own := [pick 1 [], pick 2 [.int, .int]]
    let published := [pick 3 [.string]]
    (∀ function ∈ own ++ published, none ≠ some (id function).id) ∧
      (∀ function ∈ own ++ published, ¬ Viable .flat "pick" [.int] (id function)) ∧
      resolve id .flat true none "pick" [.int] published own = (.error .badParameterType, none) ∧
      Diagnosed id .flat "pick" [.int] (own ++ published) .badParameterType := by
  intro own published
  have unkept : ∀ function ∈ own ++ published, none ≠ some (id function).id := fun _ _ => nofun
  have unviable : ∀ function ∈ own ++ published, ¬ Viable .flat "pick" [.int] (id function) := by
    decide
  have resolved : resolve id .flat true none "pick" [.int] published own =
      (.error .badParameterType, none) := by
    decide
  refine ⟨unkept, unviable, resolved, ?_⟩
  exact ((misfits_reported_in_any_order unkept unviable).2 _ _ _ List.perm_append_comm).mp resolved

end Overload

end ScriptEngine
