import ScriptEngine.Proofs.Overriding
/-! What a score says. Pairs of a parameter and an argument are all looked at before the counts, so
there are four cases, told apart by the pairs and the lengths alone; where a call fits, the distance
is what the conversions of its arguments cost together. -/

namespace ScriptEngine

namespace DataType

variable {hierarchy : Hierarchy} {expected given : DataType}

theorem rank_le (type : DataType) : type.rank ≤ 11 := by
  unfold rank
  cases type.kind <;> decide

theorem conversionCost_le (accepted : expected.accepts hierarchy given = true) :
    conversionCost expected given ≤ 60 := by
  have numeric : ∀ type : DataType, type.kind.isNumeric = true → 1 ≤ type.rank ∧ type.rank ≤ 7 := by
    intro type number
    unfold rank
    cases kind : type.kind <;> rw [kind] at number <;> first | decide | cases number
  unfold conversionCost
  rcases accepts_cases accepted with ⟨first, second⟩ | ⟨null, reference⟩ | ⟨same, _, _⟩
  · have above := numeric expected first
    have below := numeric given second
    split <;> omega
  · have lowest : 10 ≤ expected.rank := by
      unfold rank
      cases kind : expected.kind <;> rw [kind] at reference <;> first | decide | cases reference
    have above := rank_le expected
    have below := rank_le given
    split <;> omega
  · have equal : expected.rank = given.rank := by
      unfold rank
      rw [same]
    rw [equal]
    simp

end DataType

namespace Score

variable {hierarchy : Hierarchy} {expected given : List DataType} {total : Nat}

def cost (expected given : List DataType) : Nat :=
  (List.zipWith conversionCost expected given).sum

def Rejects (hierarchy : Hierarchy) (expected given : List DataType) : Prop :=
  ∃ pair ∈ expected.zip given, pair.1.accepts hierarchy pair.2 = false

instance : Decidable (Rejects hierarchy expected given) :=
  inferInstanceAs (Decidable (∃ pair ∈ expected.zip given, pair.1.accepts hierarchy pair.2 = false))

theorem rejects_cons {param arg : DataType} :
    Rejects hierarchy (param :: expected) (arg :: given) ↔
      param.accepts hierarchy arg = false ∨ Rejects hierarchy expected given := by
  simp [Rejects]

theorem of_eq (hierarchy : Hierarchy) (expected given : List DataType) :
    of hierarchy expected given =
      if Rejects hierarchy expected given then .incompatible
      else if expected.length < given.length then .tooMany
      else if given.length < expected.length then .tooFew
      else .distance (cost expected given) := by
  fun_induction of hierarchy expected given with
  | case1 param params arg args accepted ih =>
      rw [ih]
      simp only [rejects_cons, accepted, Bool.true_eq_false, false_or, List.length_cons,
        Nat.add_lt_add_iff_right, cost, List.zipWith_cons_cons, List.sum_cons]
      split
      · rfl
      · split
        · rfl
        · split <;> rfl
  | case2 param params arg args refused =>
      rw [if_pos (rejects_cons.mpr (Or.inl (by simpa using refused)))]
  | case3 | case4 | case5 => simp [Rejects, cost]

theorem of_eq_incompatible_iff :
    of hierarchy expected given = .incompatible ↔ Rejects hierarchy expected given := by
  rw [of_eq]
  split_ifs <;> simp_all

theorem of_eq_tooMany_iff : of hierarchy expected given = .tooMany ↔
    ¬ Rejects hierarchy expected given ∧ expected.length < given.length := by
  rw [of_eq]
  split_ifs <;> simp_all

theorem of_eq_tooFew_iff : of hierarchy expected given = .tooFew ↔
    ¬ Rejects hierarchy expected given ∧ given.length < expected.length := by
  rw [of_eq]
  split_ifs <;> simp_all
  omega

theorem of_eq_distance_iff : of hierarchy expected given = .distance total ↔
    List.Forall₂ (fun param arg => param.accepts hierarchy arg = true) expected given ∧
      cost expected given = total := by
  constructor
  · intro scored
    refine ⟨of_distance scored, ?_⟩
    rw [of_eq] at scored
    split_ifs at scored
    exact distance.inj scored
  · rintro ⟨accepted, rfl⟩
    have rejects : ¬ Rejects hierarchy expected given := by
      rintro ⟨pair, among, refused⟩
      rw [(List.forall₂_iff_zip.mp accepted).2 among] at refused
      cases refused
    have lengths := accepted.length_eq
    rw [of_eq, if_neg rejects, if_neg (by omega), if_neg (by omega)]

/-- No call that fits costs more than sixty for an argument, so distances stay far below what a signed
word of 32 bits holds for any list that is shorter than 35 million. -/
theorem cost_le
    (accepted : List.Forall₂ (fun param arg => param.accepts hierarchy arg = true) expected given) :
    cost expected given ≤ 60 * given.length := by
  induction accepted with
  | nil => exact Nat.le_refl 0
  | cons first _ ih =>
      have here := DataType.conversionCost_le first
      simp only [cost, List.zipWith_cons_cons, List.sum_cons, List.length_cons] at ih ⊢
      omega

end Score

end ScriptEngine
