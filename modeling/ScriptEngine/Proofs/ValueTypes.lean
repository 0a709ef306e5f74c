import ScriptEngine.Proofs.Conversions
import ScriptEngine.Proofs.Discipline
/-! Values of types. A value fits a type if a variable of the type holds it as it is and if an object
that it means is one of the class. Whatever the type rules accept goes into a variable of a type, and
operations on values that fit give values that fit. -/

namespace ScriptEngine

/-- A value is one of a type. -/
structure Value.Fits (realm : Realm) (type : DataType) (value : Value) : Prop where
  kept : value.convert? type = some value
  refers : ∀ handle className, value = .object handle → type.className? = some className →
    realm.Refers handle className

namespace Kind

variable {kind left right : Kind}

theorem wider_numeric (first : left.isNumeric = true) (second : right.isNumeric = true) :
    ((left.wider right).wider .int).isNumeric = true ∧
      ((left.wider right).wider .int).isIntegral = (left.isIntegral && right.isIntegral) := by
  cases left with
  | byte | short | char | int | long | float | double =>
      cases right with
      | byte | short | char | int | long | float | double => exact ⟨rfl, rfl⟩
      | void | bool | string | array | object | null => cases second
  | void | bool | string | array | object | null => cases first

end Kind

namespace DataType

variable {hierarchy : Hierarchy} {expected given : DataType}

theorem accepts_cases (accepted : expected.accepts hierarchy given = true) :
    (expected.kind.isNumeric = true ∧ given.kind.isNumeric = true) ∨
      (given.kind = .null ∧ expected.kind.isReference = true) ∨
      (expected.kind = given.kind ∧ given.kind ≠ .void ∧ (given.kind = .object →
        ∃ base derived, expected.className? = some base ∧ given.className? = some derived ∧
          hierarchy derived base = true)) := by
  unfold accepts at accepted
  split at accepted
  · cases accepted
  · rename_i present
    simp only [Bool.or_eq_true, not_or, isVoid, beq_iff_eq] at present
    split at accepted
    · rename_i numeric
      exact Or.inl (Bool.and_eq_true_iff.mp numeric)
    · split at accepted
      · rename_i null
        exact Or.inr (Or.inl ⟨null, accepted⟩)
      · split at accepted
        · cases accepted
        · rename_i same
          refine Or.inr (Or.inr ⟨not_not.mp same, present.2, fun object => ?_⟩)
          rw [not_not] at same
          rw [same, object] at accepted
          cases base : expected.className? <;> cases derived : given.className? <;>
            rw [base, derived] at accepted
          case some.some above below => exact ⟨above, below, rfl, rfl, accepted⟩
          all_goals cases accepted

theorem promote_numeric {left right : DataType} (first : left.kind.isNumeric = true)
    (second : right.kind.isNumeric = true) : (left.promote right).kind.isNumeric = true ∧
      (left.promote right).kind.isIntegral = (left.kind.isIntegral && right.kind.isIntegral) :=
  Kind.wider_numeric first second

/-- Whether all values of one type are values of another: the types are equal, or the class of the one
derives from that of the other. -/
def specializes (hierarchy : Hierarchy) (special general : DataType) : Bool :=
  special = general || (special.kind = .object && general.kind = .object &&
    match special.className?, general.className? with
    | some derived, some base => hierarchy derived base
    | _, _ => false)

theorem specializes_refl (type : DataType) : type.specializes hierarchy type = true := by
  simp [specializes]

theorem specializes_mono {older newer : Hierarchy} {special general : DataType}
    (grows : ∀ derived base, older derived base = true → newer derived base = true)
    (specializes : special.specializes older general = true) :
    special.specializes newer general = true := by
  unfold DataType.specializes at specializes ⊢
  simp only [Bool.or_eq_true, Bool.and_eq_true] at specializes ⊢
  refine specializes.imp_right fun ⟨kinds, derives⟩ => ⟨kinds, ?_⟩
  split at derives
  · exact grows _ _ derives
  · cases derives

theorem specializes_cases {special general : DataType}
    (specializes : special.specializes hierarchy general = true) :
    special = general ∨ (special.kind = .object ∧ general.kind = .object ∧
      ∃ derived base, special.className? = some derived ∧ general.className? = some base ∧
        hierarchy derived base = true) := by
  unfold DataType.specializes at specializes
  simp only [Bool.or_eq_true, decide_eq_true_eq, Bool.and_eq_true] at specializes
  refine specializes.imp_right fun ⟨⟨first, second⟩, derives⟩ => ⟨first, second, ?_⟩
  cases below : special.className? <;> cases above : general.className? <;>
    rw [below, above] at derives
  case some.some derived base => exact ⟨derived, base, rfl, rfl, derives⟩
  all_goals cases derives

end DataType

namespace Value

variable {realm after : Realm} {type given special : DataType} {value written : Value}

theorem convert?_object {handle : Handle} :
    convert? (.object handle) type = some value ↔ type.kind = .object ∧ value = .object handle := by
  simp only [convert?]
  split
  · rename_i object
    simp [object, eq_comm]
  · rename_i different
    simp [different]

theorem convert?_number (numeric : type.kind.isNumeric = true)
    (number : (∃ whole, value = .int whole) ∨ ∃ real, value = .float real) :
    ∃ stored, value.convert? type = some stored ∧ stored.asObject? = none := by
  cases kind : type.kind with
  | byte | short | char | int | long =>
      rcases number with ⟨whole, rfl⟩ | ⟨real, rfl⟩ <;>
        simp [convert?, kind, Kind.isIntegral, asObject?]
  | float | double =>
      rcases number with ⟨whole, rfl⟩ | ⟨real, rfl⟩ <;>
        simp [convert?, kind, Kind.isIntegral, asObject?]
  | void | bool | string | array | object | null =>
      rw [kind] at numeric
      cases numeric

theorem number_of_kept (kept : value.convert? given = some value)
    (numeric : given.kind.isNumeric = true) :
    (∃ whole, value = .int whole) ∨ ∃ real, value = .float real := by
  cases value with
  | int whole => exact Or.inl ⟨whole, rfl⟩
  | float real => exact Or.inr ⟨real, rfl⟩
  | void | bool | string | object | null =>
      cases kind : given.kind with
      | byte | short | char | int | long | float | double =>
          simp [convert?, kind, Kind.isReference] at kept
      | void | bool | string | array | object | null =>
          rw [kind] at numeric
          cases numeric

theorem convert?_congr (same : type.kind = given.kind) :
    value.convert? type = value.convert? given := by
  unfold convert?
  rw [same]

/-- What the type rules accept is stored; an object stays the same one, and its type names a class
that derives from that of the variable. -/
theorem convert?_of_accepts {hierarchy : Hierarchy} (accepted : type.accepts hierarchy given = true)
    (kept : value.convert? given = some value) :
    ∃ stored, value.convert? type = some stored ∧ ∀ handle, stored = .object handle →
      value = .object handle ∧ ∃ derived base, given.className? = some derived ∧
        type.className? = some base ∧ hierarchy derived base = true := by
  rcases DataType.accepts_cases accepted with ⟨numeric, from?⟩ | ⟨null, reference⟩ |
    ⟨same, present, classes⟩
  · obtain ⟨stored, converted, plain⟩ := convert?_number numeric (number_of_kept kept from?)
    refine ⟨stored, converted, ?_⟩
    rintro handle rfl
    cases plain
  · cases value with
    | null =>
        refine ⟨.null, by simp [convert?, reference], ?_⟩
        rintro handle ⟨⟩
    | void | bool | int | float | string | object =>
        simp [convert?, null, Kind.isIntegral] at kept
  · refine ⟨value, (convert?_congr same).trans kept, ?_⟩
    rintro handle rfl
    obtain ⟨base, derived, above, below, derives⟩ := classes (convert?_object.mp kept).1
    exact ⟨rfl, derived, base, below, above, derives⟩

namespace Fits

theorem later (fits : value.Fits realm type) (leads : realm.Leads after) :
    value.Fits after type where
  kept := fits.kept
  refers := fun handle className same named => (fits.refers handle className same named).later leads

theorem of_converted (converted : written.convert? type = some value)
    (plain : value.asObject? = none) : value.Fits realm type where
  kept := convert?_convert? converted
  refers := by
    rintro handle className rfl _
    cases plain

theorem object {handle : Handle} {className : String} (refers : realm.Refers handle className) :
    (Value.object handle).Fits realm (.object className) where
  kept := rfl
  refers := by
    rintro _ _ ⟨⟩ ⟨⟩
    exact refers

theorem default (realm : Realm) (type : DataType) : (Value.default type).Fits realm type := by
  refine of_converted (convert?_default type) ?_
  cases kind : type.kind <;> simp only [Value.default, kind] <;> rfl

theorem int (fits : value.Fits realm given) (integral : given.kind.isIntegral = true) :
    ∃ whole, value = .int whole := by
  have kept := fits.kept
  cases value with
  | int whole => exact ⟨whole, rfl⟩
  | float real => simp [convert?, integral] at kept
  | void | bool | string | object | null =>
      cases kind : given.kind with
      | byte | short | char | int | long => simp [convert?, kind, Kind.isReference] at kept
      | void | bool | float | double | string | array | object | null =>
          rw [kind] at integral
          cases integral

theorem number (fits : value.Fits realm given) (numeric : given.kind.isNumeric = true) :
    (∃ whole, value = .int whole) ∨ ∃ real, value = .float real :=
  number_of_kept fits.kept numeric

theorem float? (fits : value.Fits realm given) (numeric : given.kind.isNumeric = true) :
    ∃ real, value.asFloat? = some real := by
  rcases fits.number numeric with ⟨whole, rfl⟩ | ⟨real, rfl⟩
  · exact ⟨_, rfl⟩
  · exact ⟨real, rfl⟩

end Fits

section

variable (founded : ClassTable.Founded realm.classes.classes)

include founded

theorem Fits.stored (fits : value.Fits realm given)
    (accepted : type.accepts realm.classes.derives given = true) :
    ∃ stored, value.convert? type = some stored ∧ stored.Fits realm type := by
  obtain ⟨stored, converted, object⟩ := convert?_of_accepts accepted fits.kept
  refine ⟨stored, converted, convert?_convert? converted, fun handle className same named => ?_⟩
  obtain ⟨was, derived, base, below, above, derives⟩ := object handle same
  rw [named] at above
  cases above
  exact (fits.refers handle derived was below).base founded derives

/-- Values of a type are values of the types that it specializes. -/
theorem Fits.general (fits : value.Fits realm special)
    (specializes : special.specializes realm.classes.derives type = true) :
    value.Fits realm type := by
  rcases DataType.specializes_cases specializes with rfl |
    ⟨kind, also, derived, base, below, above, derives⟩
  · exact fits
  · refine ⟨(convert?_congr (also.trans kind.symm)).trans fits.kept,
      fun handle className object named => ?_⟩
    rw [named] at above
    cases above
    exact (fits.refers handle derived object below).base founded derives

end

end Value

namespace Evaluation

variable {realm : Realm} {type leftType rightType : DataType} {value left right : Value}
  {operator : Operator} (span : Span)

theorem convert_fits (numeric : type.kind.isNumeric = true)
    (number : (∃ whole, value = .int whole) ∨ ∃ real, value = .float real) :
    ∃ stored, convert value type span = .ok stored ∧ stored.Fits realm type := by
  obtain ⟨stored, converted, plain⟩ := Value.convert?_number numeric number
  exact ⟨stored, by rw [convert, converted], .of_converted converted plain⟩

theorem negate_fits (fits : value.Fits realm type) (numeric : type.kind.isNumeric = true) :
    ∃ opposite, negate value (type.promote type) span = .ok opposite ∧
      opposite.Fits realm (type.promote type) := by
  have promoted := (DataType.promote_numeric numeric numeric).1
  rcases fits.number numeric with ⟨whole, rfl⟩ | ⟨real, rfl⟩
  · exact convert_fits span promoted (Or.inl ⟨_, rfl⟩)
  · exact convert_fits span promoted (Or.inr ⟨_, rfl⟩)

variable {span}

theorem computeInt_fails {first second : Int64} {error : RuntimeError}
    (failed : computeInt operator first second span = .error error) :
    error.cause = .divisionByZero := by
  unfold computeInt at failed
  split at failed
  case h_4 =>
    split at failed
    · cases failed
      rfl
    · cases failed
  all_goals cases failed

theorem computeFloat_fails {first second : Float} {error : RuntimeError}
    (failed : computeFloat operator first second span = .error error) :
    error.cause = .divisionByZero := by
  unfold computeFloat at failed
  split at failed
  case h_4 =>
    split at failed
    · cases failed
      rfl
    · cases failed
  all_goals cases failed

variable (span)

theorem compute_fits (first : left.Fits realm leftType) (second : right.Fits realm rightType)
    (numeric : leftType.kind.isNumeric = true) (also : rightType.kind.isNumeric = true) :
    match compute operator left right (leftType.promote rightType) span with
    | .ok value => value.Fits realm (leftType.promote rightType)
    | .error error => error.cause = .divisionByZero := by
  obtain ⟨promoted, integral⟩ := DataType.promote_numeric numeric also
  have ends : ∀ {number : Value}, ((∃ whole, number = .int whole) ∨ ∃ real, number = .float real) →
      match convert number (leftType.promote rightType) span with
      | .ok value => value.Fits realm (leftType.promote rightType)
      | .error error => error.cause = .divisionByZero := by
    intro number given
    obtain ⟨stored, converted, fits⟩ := convert_fits span promoted given
    rw [converted]
    exact fits
  unfold compute
  rw [integral]
  by_cases whole : (leftType.kind.isIntegral && rightType.kind.isIntegral) = true
  · rw [if_pos whole]
    obtain ⟨one, rfl⟩ := first.int (Bool.and_eq_true_iff.mp whole).1
    obtain ⟨other, rfl⟩ := second.int (Bool.and_eq_true_iff.mp whole).2
    simp only [Value.asInt?]
    cases computed : computeInt operator one other span with
    | error error => exact computeInt_fails computed
    | ok number => exact ends (Or.inl ⟨number, rfl⟩)
  · rw [if_neg whole]
    obtain ⟨one, same⟩ := first.float? numeric
    obtain ⟨other, alike⟩ := second.float? also
    simp only [same, alike]
    cases computed : computeFloat operator one other span with
    | error error => exact computeFloat_fails computed
    | ok number => exact ends (Or.inr ⟨number, rfl⟩)

theorem operate_fits (gives : operator.Gives leftType rightType type)
    (first : left.Fits realm leftType) (second : right.Fits realm rightType) :
    match operate operator leftType rightType type [left, right] span with
    | .ok value => value.Fits realm type
    | .error error => error.cause = .divisionByZero := by
  unfold operate
  rcases gives with ⟨numeric, also, rfl⟩ | ⟨_, rfl⟩
  · rw [if_neg]
    · exact compute_fits span first second numeric also
    · intro text
      have promoted := (DataType.promote_numeric numeric also).1
      rw [text] at promoted
      cases promoted
  · have kept : ∀ text : String, (Value.string text).convert? .string = some (.string text) :=
      fun _ => rfl
    exact .of_converted (kept _) rfl

end Evaluation

end ScriptEngine
