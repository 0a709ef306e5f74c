import ScriptEngine.Proofs.Resolution
/-! What a search among candidates finds: the first of the nearest. So the order of the candidates
decides only between those that are equally near. -/

namespace ScriptEngine

namespace Overload

variable {α β : Type}

structure Nearest (score : α → Score) (candidates : List α) (function : α) (distance : Nat) :
    Prop where
  fits : score function = .distance distance
  first : ∃ before after, candidates = before ++ function :: after ∧
    (∀ other ∈ before, ∀ cost, score other = .distance cost → distance < cost) ∧
    ∀ other ∈ after, ∀ cost, score other = .distance cost → distance ≤ cost

section

variable {score : α → Score} {candidates own loaded : List α} {function other : α}
  {distance least : Nat}

theorem Nearest.mem (nearest : Nearest score candidates function distance) :
    function ∈ candidates := by
  obtain ⟨before, after, rfl, _⟩ := nearest.first
  simp

theorem Nearest.le (nearest : Nearest score candidates function distance) {cost : Nat}
    (among : other ∈ candidates) (scored : score other = .distance cost) : distance ≤ cost := by
  obtain ⟨before, after, rfl, farther, behind⟩ := nearest.first
  rcases List.mem_append.mp among with early | late
  · exact Nat.le_of_lt (farther other early cost scored)
  · rcases List.mem_cons.mp late with rfl | late
    · rw [nearest.fits] at scored
      exact Nat.le_of_eq (Score.distance.inj scored)
    · exact behind other late cost scored

theorem Nearest.cons (nearest : Nearest score candidates function distance)
    (farther : ∀ cost, score other = .distance cost → distance < cost) :
    Nearest score (other :: candidates) function distance := by
  obtain ⟨fits, before, after, rfl, early, late⟩ := nearest
  refine ⟨fits, other :: before, after, rfl, fun known among => ?_, late⟩
  rcases List.mem_cons.mp among with rfl | among
  · exact farther
  · exact early known among

theorem Nearest.head {rest : List α} (fits : score function = .distance distance)
    (behind : ∀ other ∈ rest, ∀ cost, score other = .distance cost → distance ≤ cost) :
    Nearest score (function :: rest) function distance :=
  ⟨fits, [], rest, rfl, nofun, behind⟩

theorem Nearest.insert {head : α} (nearest : Nearest score (head :: candidates) function distance)
    (farther : ∀ cost, score other = .distance cost →
      ∃ least, score head = .distance least ∧ least ≤ cost) :
    Nearest score (head :: other :: candidates) function distance := by
  have bound : ∀ cost, score other = .distance cost → distance ≤ cost := by
    intro cost scored
    obtain ⟨least, same, less⟩ := farther cost scored
    exact Nat.le_trans (nearest.le (List.mem_cons_self ..) same) less
  obtain ⟨fits, before, after, split, early, late⟩ := nearest
  cases before with
  | nil =>
      obtain ⟨rfl, rfl⟩ := List.cons.inj split
      refine .head fits fun known among => ?_
      rcases List.mem_cons.mp among with rfl | among
      · exact bound
      · exact late known among
  | cons front before =>
      obtain ⟨rfl, rfl⟩ := List.cons.inj split
      refine ⟨fits, head :: other :: before, after, rfl, fun known among => ?_, late⟩
      rcases List.mem_cons.mp among with rfl | among
      · exact early known (List.mem_cons_self ..)
      · rcases List.mem_cons.mp among with rfl | among
        · intro cost scored
          obtain ⟨least, same, less⟩ := farther cost scored
          exact Nat.lt_of_lt_of_le (early head (List.mem_cons_self ..) least same) less
        · exact early known (List.mem_cons_of_mem _ among)

theorem Nearest.unique (nearest : Nearest score candidates function distance)
    (also : Nearest score candidates other least) : other = function := by
  have same : distance = least := Nat.le_antisymm (nearest.le also.mem also.fits)
    (also.le nearest.mem nearest.fits)
  subst same
  have fits := nearest.fits
  have again := also.fits
  obtain ⟨before, after, split, early, _⟩ := nearest.first
  obtain ⟨front, back, cut, sooner, _⟩ := also.first
  rw [split] at cut
  rcases List.append_eq_append_iff.mp cut with ⟨between, rfl, rest⟩ | ⟨between, rfl, rest⟩
  · cases between with
    | nil => exact (List.cons.inj rest).1.symm
    | cons head tail =>
        obtain ⟨rfl, _⟩ := List.cons.inj rest
        exact absurd (sooner function (by simp) distance fits) (Nat.lt_irrefl _)
  · cases between with
    | nil => exact (List.cons.inj rest).1
    | cons head tail =>
        obtain ⟨rfl, _⟩ := List.cons.inj rest
        exact absurd (early other (by simp) distance again) (Nat.lt_irrefl _)

theorem Nearest.swapped (nearest : Nearest score (own ++ loaded) function distance)
    (apart : function ∈ own → ∀ other ∈ loaded, score other ≠ .distance distance) :
    Nearest score (loaded ++ own) function distance := by
  have among := nearest.mem
  obtain ⟨fits, before, after, split, early, late⟩ := nearest
  rcases List.append_eq_append_iff.mp split with ⟨between, rfl, rest⟩ | ⟨between, rfl, rest⟩
  · -- The nearest one is loaded, and all of the unit stand before it.
    refine ⟨fits, between, after ++ own, by simp [rest], ?_, ?_⟩
    · exact fun other known => early other (List.mem_append_right _ known)
    · intro other known cost scored
      rcases List.mem_append.mp known with old | new
      · exact late other old cost scored
      · exact Nat.le_of_lt (early other (List.mem_append_left _ new) cost scored)
  · cases between with
    | nil =>
        simp only [List.nil_append] at rest
        refine ⟨fits, [], after ++ before, by simp [← rest], nofun, ?_⟩
        intro other known cost scored
        rcases List.mem_append.mp known with old | new
        · exact late other old cost scored
        · exact Nat.le_of_lt (early other new cost scored)
    | cons head tail =>
        simp only [List.cons_append, List.cons.injEq] at rest
        obtain ⟨rfl, rfl⟩ := rest
        refine ⟨fits, loaded ++ before, tail, by simp, fun other known cost scored => ?_, ?_⟩
        · rcases List.mem_append.mp known with old | new
          · have bound := late other (List.mem_append_right _ old) cost scored
            have different := apart (by simp) other old
            refine Nat.lt_of_le_of_ne bound fun same => different ?_
            rw [scored, same]
          · exact early other new cost scored
        · exact fun other known => late other (List.mem_append_left _ known)

theorem Nearest.map {view : α → β} {score : β → Score} {function : β}
    (nearest : Nearest score (candidates.map view) function distance) :
    ∃ found, view found = function ∧
      Nearest (fun candidate => score (view candidate)) candidates found distance := by
  obtain ⟨fits, before, after, split, early, late⟩ := nearest
  obtain ⟨front, rest, rfl, rfl, rest_eq⟩ := List.map_eq_append_iff.mp split
  obtain ⟨found, back, rfl, rfl, rfl⟩ := List.map_eq_cons_iff.mp rest_eq
  exact ⟨found, rfl, fits, front, back, rfl,
    (fun other among => early _ (List.mem_map_of_mem among)),
    fun other among => late _ (List.mem_map_of_mem among)⟩

theorem nearest_candidate : ∀ {candidates : List α} {found : α} {least : Nat},
    score found = .distance least → 0 < least → ∃ function distance,
      nearest score (.candidate found least) candidates = .candidate function distance ∧
        Nearest score (found :: candidates) function distance := by
  intro candidates
  induction candidates with
  | nil =>
      intro found least scored _
      exact ⟨found, least, rfl, .head scored nofun⟩
  | cons first rest ih =>
      intro found least scored positive
      cases fits : score first with
      | distance cost =>
          cases cost with
          | zero =>
              refine ⟨first, 0, by simp only [nearest, fits], (Nearest.head fits ?_).cons ?_⟩
              · exact fun _ _ cost _ => Nat.zero_le cost
              · intro cost same
                rw [scored] at same
                exact Score.distance.inj same ▸ positive
          | succ cost =>
              by_cases nearer : cost + 1 < least
              · obtain ⟨function, distance, result, nearest⟩ := ih fits (Nat.succ_pos cost)
                refine ⟨function, distance, ?_, nearest.cons fun other same => ?_⟩
                · simpa only [Overload.nearest, fits, if_pos nearer] using result
                · rw [scored] at same
                  have bound := nearest.le (List.mem_cons_self ..) fits
                  exact Score.distance.inj same ▸ Nat.lt_of_le_of_lt bound nearer
              · obtain ⟨function, distance, result, nearest⟩ := ih scored positive
                refine ⟨function, distance, ?_, nearest.insert fun other same => ?_⟩
                · simpa only [Overload.nearest, fits, if_neg nearer] using result
                · rw [fits] at same
                  exact ⟨least, scored, Score.distance.inj same ▸ Nat.le_of_not_lt nearer⟩
      | incompatible | tooMany | tooFew =>
          obtain ⟨function, distance, result, nearest⟩ := ih scored positive
          refine ⟨function, distance, ?_, nearest.insert fun other same => ?_⟩
          · simpa only [Overload.nearest, fits] using result
          · rw [fits] at same
            cases same

theorem nearest_nothing : ∀ {candidates : List α} {cause : CompileCause},
    (∃ function distance, nearest score (.nothing cause) candidates = .candidate function distance ∧
        Nearest score candidates function distance) ∨
      ∃ worse, nearest score (.nothing cause) candidates = .nothing worse ∧
        ∀ other ∈ candidates, ∀ cost, score other ≠ .distance cost := by
  intro candidates
  induction candidates with
  | nil => exact fun {cause} => Or.inr ⟨cause, rfl, nofun⟩
  | cons first rest ih =>
      intro cause
      cases fits : score first with
      | distance cost =>
          cases cost with
          | zero =>
              refine Or.inl ⟨first, 0, by simp only [nearest, fits], .head fits ?_⟩
              exact fun _ _ cost _ => Nat.zero_le cost
          | succ cost =>
              obtain ⟨function, distance, result, nearest⟩ :=
                @nearest_candidate _ _ rest _ _ fits (Nat.succ_pos cost)
              refine Or.inl ⟨function, distance, ?_, nearest⟩
              simpa only [Overload.nearest, fits] using result
      | incompatible | tooMany | tooFew =>
          have misfit : ∀ cost, score first ≠ .distance cost := by
            intro cost same
            rw [fits] at same
            cases same
          simp only [Overload.nearest, fits]
          rcases @ih (worsen cause _) with ⟨function, distance, result, nearest⟩ |
            ⟨worse, result, misfits⟩
          · exact Or.inl ⟨function, distance, result,
              nearest.cons fun cost same => absurd same (misfit cost)⟩
          · refine Or.inr ⟨worse, result, fun other among => ?_⟩
            rcases List.mem_cons.mp among with rfl | among
            · exact misfit
            · exact misfits other among

end

variable {view : α → Callable} {hierarchy : Hierarchy} {name : String} {args : List DataType}
  {candidates own loaded : List α} {function : α}

/-- A search finds the first of the nearest candidates of a name. -/
theorem search_eq_ok_iff : search view hierarchy name args candidates = .ok function ↔
    ∃ distance, Nearest (fun other => Score.of hierarchy (view other).params.types args)
      (named view name candidates) function distance := by
  unfold search
  dsimp only
  rcases @nearest_nothing α (fun other => Score.of hierarchy (view other).params.types args)
    (named view name candidates) .undefinedCall with ⟨found, distance, result, nearest⟩ |
      ⟨worse, result, misfits⟩
  · rw [result]
    constructor
    · intro same
      cases same
      exact ⟨distance, nearest⟩
    · rintro ⟨least, also⟩
      rw [also.unique nearest]
  · rw [result]
    constructor
    · intro same
      cases same
    · rintro ⟨least, nearest⟩
      exact absurd nearest.fits (misfits function nearest.mem least)

/-- A search of a unit's own candidates before others finds what it finds behind them, unless one of
the others is as near. -/
theorem search_swapped
    (found : search view hierarchy name args (own ++ loaded) = .ok function)
    (apart : function ∈ own → ∀ other ∈ loaded, (view other).name = name →
      Score.of hierarchy (view other).params.types args ≠
        Score.of hierarchy (view function).params.types args) :
    search view hierarchy name args (loaded ++ own) = .ok function := by
  obtain ⟨distance, nearest⟩ := search_eq_ok_iff.mp found
  refine search_eq_ok_iff.mpr ⟨distance, ?_⟩
  have fits := nearest.fits
  unfold named at nearest ⊢
  rw [List.filter_append] at nearest ⊢
  refine nearest.swapped fun among other known same => ?_
  obtain ⟨known, called⟩ := List.mem_filter.mp known
  refine apart (List.mem_filter.mp among).1 other known (by simpa using called) ?_
  rw [same, fits]

theorem search_apart (found : search view hierarchy name args (loaded ++ own) = .ok function)
    (new : function ∉ loaded) {other : α} (among : other ∈ loaded) (called : (view other).name = name) :
    Score.of hierarchy (view other).params.types args ≠
      Score.of hierarchy (view function).params.types args := by
  obtain ⟨distance, nearest⟩ := search_eq_ok_iff.mp found
  intro same
  rw [nearest.fits] at same
  unfold named at nearest
  rw [List.filter_append] at nearest
  obtain ⟨_, before, after, split, early, _⟩ := nearest
  have known : other ∈ loaded.filter fun function => (view function).name = name :=
    List.mem_filter.mpr ⟨among, by simpa using called⟩
  rcases List.append_eq_append_iff.mp split with ⟨between, rfl, _⟩ | ⟨between, listed, _⟩
  · exact absurd (early other (List.mem_append_left _ known) distance same) (Nat.lt_irrefl _)
  · cases between with
    | nil =>
        rw [List.append_nil] at listed
        exact absurd (early other (listed ▸ known) distance same) (Nat.lt_irrefl _)
    | cons head tail =>
        rename_i rest
        obtain ⟨rfl, _⟩ := List.cons.inj rest
        have old : function ∈ loaded.filter fun function => (view function).name = name := by
          rw [listed]
          simp
        exact new (List.mem_filter.mp old).1

theorem search_map {candidates : List α} {found : Callable}
    (done : search id hierarchy name args (candidates.map view) = .ok found) :
    ∃ function, view function = found ∧
      search view hierarchy name args candidates = .ok function := by
  obtain ⟨distance, nearest⟩ := search_eq_ok_iff.mp done
  have same : named id name (candidates.map view) = (named view name candidates).map view := by
    unfold named
    rw [List.filter_map]
    rfl
  rw [same] at nearest
  obtain ⟨function, viewed, found⟩ := nearest.map
  exact ⟨function, viewed, search_eq_ok_iff.mpr ⟨distance, found⟩⟩

end Overload

end ScriptEngine
