import ScriptEngine.Proofs.Documents
import ScriptEngine.Snapshot
/-! How a decoder reads what an encoder wrote: as a given outcome, if the levels it has left are as
many as the document is deep. Records, lists and named forms are read so if their parts are. -/

namespace ScriptEngine

namespace Json

mutual

def depth : Json → Nat
  | .null | .bool _ | .number _ | .string _ => 0
  | .array items => itemsDepth items + 1
  | .object members => membersDepth members + 1

def itemsDepth : List Json → Nat
  | [] => 0
  | item :: more => max item.depth (itemsDepth more)

def membersDepth : List (List Char × Json) → Nat
  | [] => 0
  | (_, value) :: more => max value.depth (membersDepth more)

end

end Json

@[simp] theorem DataType.ofParts_eq (type : DataType) :
    DataType.ofParts type.kind type.className? type.element? = type := by
  cases type <;> rfl

namespace Snapshot

open Json

def within {α : Type} (levels depth : Nat) (outcome : Option α) : Option α :=
  if depth ≤ levels then outcome else none

section

variable {α β : Type} (levels depth other : Nat) (outcome : Option α)

@[simp] theorem within_zero : within levels 0 outcome = outcome := if_pos (Nat.zero_le _)

@[simp] theorem within_succ :
    within (levels + 1) (depth + 1) outcome = within levels depth outcome := by
  simp [within]

@[simp] theorem within_none : within 0 (depth + 1) outcome = none := if_neg (by simp)

@[simp] theorem within_within :
    within levels depth (within levels other outcome) =
      within levels (max other depth) outcome := by
  simp only [within, Nat.max_comm other, Nat.max_le, ite_and]

@[simp] theorem within_bind (next : α → Option β) :
    (within levels depth outcome).bind next = within levels depth (outcome.bind next) := by
  unfold within
  split <;> rfl

@[simp] theorem bind_within (next : α → Option β) :
    (outcome.bind fun value => within levels depth (next value)) =
      within levels depth (outcome.bind next) := by
  unfold within
  split
  · rfl
  · cases outcome <;> rfl

@[simp] theorem within_map (change : α → β) :
    (within levels depth outcome).map change = within levels depth (outcome.map change) := by
  unfold within
  split <;> rfl

end

structure Reads {α : Type} (decode : Decoder α) (json : Json) (outcome : Option α) : Prop where
  spelled : json.IsSpelled
  read : ∀ levels, decode levels json = within levels json.depth outcome

theorem Reads.load {α : Type} {decode : Decoder α} {json : Json} {outcome : Option α}
    (reads : Reads decode json outcome) :
    load? decode json.render = within maxLevels json.depth outcome := by
  rw [load?, parse?_render reads.spelled, Option.bind_some, reads.read]

def Plain (names : List String) : Prop :=
  (∀ name ∈ names, escape name.toList = name.toList) ∧ names.Nodup

instance (names : List String) : Decidable (Plain names) := by
  unfold Plain
  infer_instance

theorem unescape?_plain {names : List String} (plain : Plain names) {name : String}
    (among : name ∈ names) : unescape? name.toList = some name := by
  have read := unescape?_escape name
  rwa [plain.1 name among] at read

theorem unescaped_members {members : Record} (plain : Plain (members.map Prod.fst)) :
    ((members.map fun member => (member.1.toList, member.2)).mapM fun (key, value) =>
      (unescape? key).map fun name => (name, value)) = some members := by
  have each : ∀ member ∈ members, unescape? member.1.toList = some member.1 := fun _ among =>
    unescape?_plain plain (List.mem_map_of_mem among)
  clear plain
  induction members with
  | nil => rfl
  | cons member more ih =>
      rw [List.map_cons, List.mapM_cons,
        ih fun other among => each other (List.mem_cons_of_mem _ among)]
      simp only [each member (List.mem_cons_self ..)]
      rfl

theorem membersDepth_eq (members : Record) :
    membersDepth (members.map fun member => (member.1.toList, member.2)) =
      itemsDepth (members.map Prod.snd) := by
  induction members with
  | nil => rfl
  | cons member more ih => rw [List.map_cons, membersDepth, ih, List.map_cons, itemsDepth]

theorem record?_ofMembers {α : Type} {names : List String} {members : Record}
    {take : Record → Option α} (given : List String) (same : members.map Prod.fst = given)
    (plain : Plain given ∧ ∀ name ∈ given, name ∈ names) :
    (record? names (ofMembers members) >>= take) = take members := by
  subst same
  obtain ⟨plain, known⟩ := plain
  have all : members.filter (fun member => member.1 ∈ names) = members := by
    rw [List.filter_eq_self]
    intro member among
    simpa using known member.1 (List.mem_map_of_mem among)
  simp only [record?, ofMembers, unescaped_members plain, Option.bind_eq_bind, Option.bind_some,
    all]
  rw [if_pos plain.2, Option.bind_some]

theorem isSpelled_ofMembers {members : Record} (plain : Plain (members.map Prod.fst))
    (spelled : ∀ json ∈ members.map Prod.snd, json.IsSpelled) :
    (ofMembers members).IsSpelled := by
  rw [ofMembers, IsSpelled, areMembersSpelled_iff, List.forall_mem_map]
  intro member among
  refine ⟨?_, spelled _ (List.mem_map_of_mem among)⟩
  have same := plain.1 member.1 (List.mem_map_of_mem among)
  rw [← same]
  exact isQuotable_escape _

theorem depth_ofMembers (members : Record) :
    (ofMembers members).depth = itemsDepth (members.map Prod.snd) + 1 := by
  rw [ofMembers, depth, membersDepth_eq]

theorem reads_record {α : Type} {decode : Decoder α} {names : List String}
    {take : Nat → Record → Option α} {members : Record} {outcome : Option α}
    (exhausted : ∀ json, decode 0 json = none)
    (levelled : ∀ levels json, decode (levels + 1) json = record? names json >>= take levels)
    (given : List String) (same : members.map Prod.fst = given)
    (plain : Plain given ∧ ∀ name ∈ given, name ∈ names)
    (spelled : ∀ json ∈ members.map Prod.snd, json.IsSpelled)
    (taken : ∀ levels, take levels members =
      within levels (itemsDepth (members.map Prod.snd)) outcome) :
    Reads decode (.ofMembers members) outcome := by
  refine ⟨isSpelled_ofMembers (same ▸ plain.1) spelled, fun levels => ?_⟩
  rw [depth_ofMembers]
  cases levels with
  | zero => rw [exhausted, within_none]
  | succ levels => rw [levelled, record?_ofMembers given same plain, taken, within_succ]

theorem required_read {α : Type} {record : Record} {name : String} {json : Json}
    (found : record.lookup name = some json) {decode : Json → Option α} {outcome : Option α}
    (read : decode json = outcome) : record.required name decode = outcome := by
  rw [Record.required, found, Option.bind_some, read]

theorem required_found {α : Type} {record : Record} {name : String} {json : Json}
    (found : record.lookup name = some json) {decode : Decoder α} {outcome : Option α}
    (reads : Reads decode json outcome) (levels : Nat) :
    record.required name (decode levels) = within levels json.depth outcome :=
  required_read found (reads.read levels)

theorem nullable_missing {α : Type} {record : Record} {name : String}
    (missing : record.lookup name = none) (decode : Json → Option α) :
    record.nullable name decode = some none := by
  simp only [Record.nullable, missing]

theorem nullable_found {α : Type} {record : Record} {name : String} {json : Json}
    (found : record.lookup name = some json) (filled : json ≠ .null) {decode : Decoder α}
    {outcome : Option α} (reads : Reads decode json outcome) (levels : Nat) :
    record.nullable name (decode levels) = within levels json.depth (outcome.map some) := by
  have read := reads.read levels
  rw [← within_map, ← read]
  simp only [Record.nullable, found]

theorem nullable_orNull {α β : Type} {record : Record} {name : String} {encode : α → Json}
    {saved : Option α} (found : record.lookup name = some (orNull encode saved))
    (filled : ∀ value, encode value ≠ .null) {decode : Decoder β} {reread : α → Option β}
    (reads : ∀ value ∈ saved, Reads decode (encode value) (reread value)) (levels : Nat) :
    record.nullable name (decode levels) =
      within levels (orNull encode saved).depth (saved.mapM reread) := by
  cases saved with
  | none =>
      simp only [Record.nullable, found, orNull]
      exact (within_zero ..).symm
  | some value => exact nullable_found found (filled value) (reads value rfl) levels

theorem Reads.items {α β : Type} {decode : Decoder β} {encode : α → Json} {reread : α → Option β}
    {values : List α} (each : ∀ value ∈ values, Reads decode (encode value) (reread value)) :
    Reads (items decode) (.array (values.map encode)) (values.mapM reread) where
  spelled := by
    rw [IsSpelled, areSpelled_iff, List.forall_mem_map]
    exact fun value among => (each value among).spelled
  read := by
    have listed : ∀ levels, (values.map encode).mapM (decode levels) =
        within levels (itemsDepth (values.map encode)) (values.mapM reread) := by
      intro levels
      induction values with
      | nil => exact (within_zero ..).symm
      | cons value more ih =>
          have rest := ih fun other among => each other (List.mem_cons_of_mem _ among)
          rw [List.map_cons, List.mapM_cons, (each value (List.mem_cons_self ..)).read, rest,
            List.mapM_cons, itemsDepth]
          simp only [Option.bind_eq_bind, Option.pure_def, within_bind, bind_within,
            within_within]
    intro levels
    cases levels with
    | zero => exact (within_none ..).symm
    | succ levels => rw [Snapshot.items, listed, depth, within_succ]

theorem encodeType_eq (type : DataType) :
    encodeType type = .ofMembers
      [("kind", .ofText (kindName type.kind)), ("class", .orNull Json.ofText type.className?),
        ("element", .orNull encodeType type.element?)] := by
  cases type <;> rfl

theorem reads_text (text : String) : Reads (fun _ => Json.text?) (.ofText text) (some text) where
  spelled := isQuotable_escape _
  read _ := (text?_ofText text).trans (within_zero ..).symm

theorem isSpelled_orNull {α : Type} {encode : α → Json} {saved : Option α}
    (spelled : ∀ value ∈ saved, (encode value).IsSpelled) : (orNull encode saved).IsSpelled := by
  cases saved with
  | none => trivial
  | some value => exact spelled value rfl

theorem reads_oneOf {α : Type} {name : α → String} {values : List α} {value : α}
    (found : values.find? (fun other => name other = name value) = some value) :
    Reads (oneOf name values) (.ofText (name value)) (some value) where
  spelled := isQuotable_escape _
  read levels := by
    have chosen : choice? levels (.ofText (name value)) = some (name value, .null, levels) := by
      simp only [choice?, ofText, unescape?_escape, Option.map_some]
    simp only [oneOf, chosen, found]
    rfl

theorem reads_kind (kind : Kind) :
    Reads (oneOf kindName Kind.all) (.ofText (kindName kind)) (some kind) := by
  refine reads_oneOf ?_
  cases kind <;> decide

@[simp] theorem mapM_some {α : Type} (saved : Option α) : saved.mapM some = some saved := by
  cases saved <;> rfl

theorem reads_parts (type : DataType) (element : ∀ inner ∈ type.element?,
      Reads decodeType (encodeType inner) (some inner)) :
    Reads decodeType (encodeType type) (some type) := by
  have kind := reads_kind type.kind
  rw [encodeType_eq]
  refine reads_record (fun _ => rfl) (fun _ _ => rfl) ["kind", "class", "element"] rfl (by decide)
    ?_ fun levels => ?_
  · simp only [List.map_cons, List.map_nil, List.forall_mem_cons, List.not_mem_nil,
      false_implies, implies_true, and_true]
    exact ⟨kind.spelled, isSpelled_orNull fun name _ => isQuotable_escape _,
      isSpelled_orNull fun inner among => (element inner among).spelled⟩
  · rw [nullable_orNull rfl (fun _ => Json.noConfusion) (fun name _ => reads_text name) levels]
    have filled : ∀ inner, encodeType inner ≠ .null := fun inner => by
      rw [encodeType_eq]
      exact Json.noConfusion
    rw [required_found rfl kind levels, nullable_orNull rfl filled element levels]
    simp [itemsDepth]

theorem reads_type (type : DataType) : Reads decodeType (encodeType type) (some type) := by
  induction type with
  | single kind className => exact reads_parts _ nofun
  | _ kind className element ih =>
      refine reads_parts _ fun inner among => ?_
      rw [← Option.some.inj among]
      exact ih

theorem natBelow?_ofNat {bound number : Nat} (small : number < bound) :
    (ofNat number).natBelow? bound = some number := by
  have inside : (0 ≤ (number : Int) && (number : Int) < bound) = true := by
    simpa using small
  rw [natBelow?, int?_ofNat, Option.bind_some, if_pos inside, Int.toNat_natCast]

theorem reads_word {number : Nat} (small : number < UInt32.size) :
    Reads (fun _ => word?) (.ofNat number) (some number) where
  spelled := isNumber_toDigits _
  read _ := (natBelow?_ofNat small).trans (within_zero ..).symm

theorem reads_longWord {number : Nat} (small : number < UInt64.size) :
    Reads (fun _ => longWord?) (.ofNat number) (some number) where
  spelled := isNumber_toDigits _
  read _ := (natBelow?_ofNat small).trans (within_zero ..).symm

theorem reads_bool (value : Bool) : Reads (fun _ => bool?) (.bool value) (some value) :=
  ⟨trivial, fun _ => rfl⟩

theorem reads_int64 (number : Int64) :
    Reads (fun _ => int64?) (.ofInt number.toInt) (some number) where
  spelled := isNumber_toString _
  read _ := by
    have inside : (Int64.minValue.toInt ≤ number.toInt &&
        number.toInt ≤ Int64.maxValue.toInt) = true := by
      simpa using ⟨number.minValue_le_toInt, number.toInt_le⟩
    rw [int64?, int?_ofInt, Option.bind_some, if_pos inside, Int64.ofInt_toInt]
    exact (within_zero ..).symm

theorem reads_float (number : Float) :
    Reads (fun _ => float?) (.ofFloat number) (ofFloat number).float? := by
  rcases ofFloat_spelled number with null | ⟨spelling, spelled, isNumber⟩
  · rw [null]
    exact ⟨trivial, fun _ => rfl⟩
  · rw [spelled]
    exact ⟨isNumber, fun _ => rfl⟩

theorem choice?_ofText (levels : Nat) (name : String) :
    choice? levels (.ofText name) = some (name, .null, levels) := by
  simp only [choice?, ofText, unescape?_escape, Option.map_some]

theorem choice?_form (levels : Nat) {name : String} (plain : escape name.toList = name.toList)
    (json : Json) : choice? levels (form name json) =
      match levels with
      | 0 => none
      | levels + 1 => some (name, json, levels) := by
  have read := unescape?_escape name
  rw [plain] at read
  cases levels with
  | zero => rfl
  | succ levels => simp [choice?, form, ofMembers, read]

theorem reads_form {α : Type} {decode : Decoder α} {name : String} {json : Json}
    {outcome : Option α} (plain : escape name.toList = name.toList) (spelled : json.IsSpelled)
    (exhausted : decode 0 (form name json) = none)
    (levelled : ∀ levels, decode (levels + 1) (form name json) = within levels json.depth outcome) :
    Reads decode (form name json) outcome := by
  refine ⟨?_, fun levels => ?_⟩
  · have quotable := isQuotable_escape name.toList
    rw [plain] at quotable
    exact ⟨quotable, spelled, trivial⟩
  · have deeper : (form name json).depth = json.depth + 1 := by
      simp [form, ofMembers, depth, membersDepth]
    cases levels with
    | zero => rw [exhausted, deeper, within_none]
    | succ levels => rw [levelled, deeper, within_succ]

end Snapshot

end ScriptEngine
