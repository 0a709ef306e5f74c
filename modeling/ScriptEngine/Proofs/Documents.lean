import ScriptEngine.Proofs.Spelling
/-! A document that is written is read as it was. The reader is followed through the text of a
document: what is written of a value takes it from before the value to behind it, inside whatever is
open there. -/

namespace ScriptEngine.Json

mutual

def IsSpelled : Json → Prop
  | .null | .bool _ => True
  | .number spelling => IsNumber spelling
  | .string spelling => IsQuotable spelling
  | .array items => AreSpelled items
  | .object members => AreMembersSpelled members

def AreSpelled : List Json → Prop
  | [] => True
  | item :: more => item.IsSpelled ∧ AreSpelled more

def AreMembersSpelled : List (List Char × Json) → Prop
  | [] => True
  | (key, value) :: more => IsQuotable key ∧ value.IsSpelled ∧ AreMembersSpelled more

end

namespace Mark

theorem ofSymbol?_blank {symbol : Char} {mark : Mark} (named : ofSymbol? symbol = some mark) :
    isBlank symbol = false := by
  unfold ofSymbol? at named
  split at named <;> first | rfl | cases named

theorem ofText?_symbol {symbol : Char} {mark : Mark} (named : ofSymbol? symbol = some mark)
    (rest : List Char) : ofText? (symbol :: rest) = (ofText? rest).map (mark :: ·) := by
  rw [ofText?, if_neg (by simp [ofSymbol?_blank named]), named]

theorem ofText?_quoted {spelling : List Char} (quotable : IsQuotable spelling)
    (rest : List Char) :
    ofText? (writeQuoted spelling rest) = (ofText? rest).map (.string spelling :: ·) := by
  have behind : (spelling ++ '"' :: rest).drop (spelling.length + 1) = rest := by
    rw [← List.drop_drop, List.drop_left, List.drop_succ_cons, List.drop_zero]
  have symbol : ofSymbol? '"' = none := rfl
  rw [writeQuoted, List.cons_append, ofText?, if_neg (by decide)]
  simp only [symbol, if_true, quotable rest, Option.bind_some, behind]

theorem ofText?_plain {first : Char} {more rest : List Char} {json : Json}
    (blank : isBlank first = false) (symbol : ofSymbol? first = none) (quote : first ≠ '"')
    (taken : plain? (first :: more ++ rest) = some (json, more.length + 1)) :
    ofText? (first :: more ++ rest) = (ofText? rest).map (.plain json :: ·) := by
  rw [List.cons_append] at taken ⊢
  rw [ofText?, if_neg (by simp [blank]), symbol, if_neg quote, taken, Option.bind_some]
  dsimp only
  rw [Nat.add_sub_cancel, List.drop_left]

def others : List Char :=
  ['n', 't', 'f', ' ', '\n', '\t', '\r', '[', ']', '{', '}', ',', ':', '"']

theorem not_mem_others {char : Char} (starts : Reading.isDigit char = true ∨ char = '-') :
    char ∉ others := by
  have unlike : others.any (fun char => Reading.isDigit char || char == '-') = false := rfl
  intro among
  exact List.any_eq_false.mp unlike char among (by simpa using starts)

theorem ofText?_number {spelling rest : List Char} (isNumber : IsNumber spelling)
    (behind : IsBehind rest) :
    ofText? (spelling ++ rest) = (ofText? rest).map (.plain (.number spelling) :: ·) := by
  have taken := isNumber.taken behind
  obtain ⟨first, more, rfl, starts⟩ := isNumber.first
  have other := not_mem_others starts
  simp only [others, List.mem_cons, List.not_mem_nil, or_false, not_or] at other
  refine ofText?_plain (by simp [isBlank, other]) (by simp [ofSymbol?, other]) (by simp [other]) ?_
  have noWord : ∀ {char : Char} {letters : List Char}, first ≠ char →
      ¬ (char :: letters).isPrefixOf (first :: (more ++ rest)) = true := by
    intro char letters differ
    simp [Ne.symm differ]
  obtain ⟨noNull, noTrue, noFalse, _⟩ := other
  rw [List.cons_append] at taken ⊢
  have letters : "null".toList = ['n', 'u', 'l', 'l'] ∧ "true".toList = ['t', 'r', 'u', 'e'] ∧
      "false".toList = ['f', 'a', 'l', 's', 'e'] := by decide
  rw [plain?, letters.1, letters.2.1, letters.2.2, if_neg (noWord noNull),
    if_neg (noWord noTrue), if_neg (noWord noFalse), taken]
  rfl

theorem ofText?_null (rest : List Char) :
    ofText? ("null".toList ++ rest) = (ofText? rest).map (.plain .null :: ·) :=
  @ofText?_plain 'n' ['u', 'l', 'l'] rest .null rfl rfl (by decide) rfl

theorem ofText?_bool (value : Bool) (rest : List Char) :
    ofText? ((if value then "true" else "false").toList ++ rest) =
      (ofText? rest).map (.plain (.bool value) :: ·) := by
  cases value with
  | true => exact @ofText?_plain 't' ['r', 'u', 'e'] rest (.bool true) rfl rfl (by decide) rfl
  | false =>
      exact @ofText?_plain 'f' ['a', 'l', 's', 'e'] rest (.bool false) rfl rfl (by decide) rfl

end Mark

namespace Reader

def after (reader : Reader) (text : List Char) : Option Reader :=
  (Mark.ofText? text).bind fun marks => marks.foldlM feed reader

theorem after_mark {text rest : List Char} {mark : Mark} {reader fed : Reader}
    (taken : Mark.ofText? text = (Mark.ofText? rest).map (mark :: ·))
    (feeds : reader.feed mark = some fed) : reader.after text = fed.after rest := by
  simp only [after, taken]
  cases Mark.ofText? rest with
  | none => rfl
  | some marks =>
      rw [Option.map_some, Option.bind_some, List.foldlM_cons, feeds]
      rfl

theorem after_symbol {symbol : Char} {mark : Mark} {reader fed : Reader} {rest : List Char}
    (named : Mark.ofSymbol? symbol = some mark) (feeds : reader.feed mark = some fed) :
    reader.after (symbol :: rest) = fed.after rest :=
  after_mark (Mark.ofText?_symbol named rest) feeds

end Reader

theorem isBehind_writeItems (items : List Json) (rest : List Char) :
    IsBehind (writeItems items (']' :: rest)) := by
  cases items with
  | nil => exact startsIn_cons (by decide)
  | cons item more => exact startsIn_cons (by decide)

theorem isBehind_writeMembers (members : List (List Char × Json)) (rest : List Char) :
    IsBehind (writeMembers members ('}' :: rest)) := by
  cases members with
  | nil => exact startsIn_cons (by decide)
  | cons member more => exact startsIn_cons (by decide)

mutual

theorem after_write : ∀ (json : Json) (first : Bool) (opened : List Open) (rest : List Char),
    json.IsSpelled → IsBehind rest →
      (Reader.value first opened).after (json.write rest) = (Reader.behind json opened).after rest
  | .null, _, _, rest, _, _ => Reader.after_mark (Mark.ofText?_null rest) rfl
  | .bool value, _, _, rest, _, _ => Reader.after_mark (Mark.ofText?_bool value rest) rfl
  | .number _, _, _, _, spelled, ends => Reader.after_mark (Mark.ofText?_number spelled ends) rfl
  | .string _, _, _, rest, spelled, _ => Reader.after_mark (Mark.ofText?_quoted spelled rest) rfl
  | .array [], _, _, _, _, _ => by
      rw [write, Reader.after_symbol rfl rfl, Reader.after_symbol rfl rfl]
  | .array (item :: more), _, opened, rest, spelled, _ => by
      obtain ⟨isSpelled, areSpelled⟩ := spelled
      rw [write, Reader.after_symbol rfl rfl,
        after_write item _ _ _ isSpelled (isBehind_writeItems more rest),
        after_writeItems more item [] opened rest areSpelled]
      rfl
  | .object [], _, _, _, _, _ => by
      rw [write, Reader.after_symbol rfl rfl, Reader.after_symbol rfl rfl]
  | .object ((key, value) :: more), _, opened, rest, spelled, _ => by
      obtain ⟨quotable, isSpelled, areSpelled⟩ := spelled
      rw [write, Reader.after_symbol rfl rfl,
        Reader.after_mark (Mark.ofText?_quoted quotable _) rfl, Reader.after_symbol rfl rfl,
        after_write value _ _ _ isSpelled (isBehind_writeMembers more rest),
        after_writeMembers more key value [] opened rest areSpelled]
      rfl

theorem after_writeItems : ∀ (items : List Json) (item : Json) (before : List Json)
    (opened : List Open) (rest : List Char), AreSpelled items →
      (Reader.behind item (.array before :: opened)).after (writeItems items (']' :: rest)) =
        (Reader.behind (.array (before.reverse ++ item :: items)) opened).after rest
  | [], item, before, opened, rest, _ => by
      rw [writeItems, Reader.after_symbol rfl rfl, List.reverse_cons]
  | next :: more, item, before, opened, rest, spelled => by
      obtain ⟨isSpelled, areSpelled⟩ := spelled
      rw [writeItems, Reader.after_symbol rfl rfl,
        after_write next _ _ _ isSpelled (isBehind_writeItems more rest),
        after_writeItems more next _ opened rest areSpelled, List.reverse_cons,
        List.append_assoc]
      rfl

theorem after_writeMembers : ∀ (members : List (List Char × Json)) (key : List Char)
    (value : Json) (before : List (List Char × Json)) (opened : List Open) (rest : List Char),
    AreMembersSpelled members →
      (Reader.behind value (.object before key :: opened)).after
          (writeMembers members ('}' :: rest)) =
        (Reader.behind (.object (before.reverse ++ (key, value) :: members)) opened).after rest
  | [], key, value, before, opened, rest, _ => by
      rw [writeMembers, Reader.after_symbol rfl rfl, List.reverse_cons]
  | (name, next) :: more, key, value, before, opened, rest, spelled => by
      obtain ⟨quotable, isSpelled, areSpelled⟩ := spelled
      rw [writeMembers, Reader.after_symbol rfl rfl,
        Reader.after_mark (Mark.ofText?_quoted quotable _) rfl, Reader.after_symbol rfl rfl,
        after_write next _ _ _ isSpelled (isBehind_writeMembers more rest),
        after_writeMembers more name next _ opened rest areSpelled, List.reverse_cons,
        List.append_assoc]
      rfl

end

/-- A document that is spelled well is read as it was written. -/
theorem parse?_render {json : Json} (spelled : json.IsSpelled) :
    parse? json.render = some json := by
  have ends : IsBehind [] := nofun
  have read : (Reader.value false []).after (json.write []) = some (.behind json []) := by
    rw [after_write json _ _ _ spelled ends]
    simp [Reader.after, Mark.ofText?]
  obtain ⟨marks, marked, fed⟩ := Option.bind_eq_some_iff.mp read
  simp [parse?, render, marked, fed]

theorem areSpelled_iff {items : List Json} :
    AreSpelled items ↔ ∀ item ∈ items, item.IsSpelled := by
  induction items with
  | nil => simp [AreSpelled]
  | cons item more ih => simp [AreSpelled, ih]

theorem areMembersSpelled_iff {members : List (List Char × Json)} :
    AreMembersSpelled members ↔
      ∀ member ∈ members, IsQuotable member.1 ∧ member.2.IsSpelled := by
  induction members with
  | nil => simp [AreMembersSpelled]
  | cons member more ih => simp [AreMembersSpelled, ih, and_assoc]

end ScriptEngine.Json
