import Mathlib.Data.List.Nodup
import ScriptEngine.Proofs.Accepting
import ScriptEngine.Proofs.Params
import ScriptEngine.Proofs.Words
/-! Parameter lists read back from their text. The text of a list that was read is lexed as a parameter
list of the same names and types, and every such list is read up to its end. -/

namespace ScriptEngine

open Grammar TokenStream Lexer

namespace Grammar

variable {classes : ClassTable} {sentence : List Token}

theorem IsType.begins {type : DataType} (isType : IsType classes sentence type) :
    Begins typeMarks sentence := by
  cases isType with
  | arrays isBase dimensions => exact begins_cons isBase.mark

theorem IsParam.begins {param : String × DataType} (isParam : IsParam classes sentence param) :
    Begins typeMarks sentence := by
  cases isParam with
  | typed isType => exact isType.begins.append _

theorem Separated.begins {params : List (String × DataType)}
    (isParams : Separated (IsParam classes) sentence params) : Begins typeMarks sentence := by
  cases isParams with
  | last isParam => exact isParam.begins
  | more isParam => exact isParam.begins.append _

end Grammar

def Succeeds {α : Type} (result : Except CompileError α) (good : α → Prop) : Prop :=
  ∃ value, result = .ok value ∧ good value

theorem Succeeds.bind {α β : Type} {first : Except CompileError α} {next : α → Except CompileError β}
    {good : α → Prop} {better : β → Prop} (succeeds : Succeeds first good)
    (further : ∀ value, good value → Succeeds (next value) better) :
    Succeeds (first >>= next) better := by
  obtain ⟨value, rfl, known⟩ := succeeds
  exact further value known

theorem succeeds_ok {α : Type} {value : α} {good : α → Prop} (known : good value) :
    Succeeds (.ok value) good := ⟨value, rfl, known⟩

namespace ParamList

variable {classes : ClassTable}

theorem readParam_of_ahead {earlier : List Param} {stream : TokenStream}
    {sentence behind : List Token} {param : String × DataType}
    (isParam : IsParam classes sentence param) (fresh : param.1 ∉ earlier.map Param.name)
    (ahead : stream.ahead = sentence ++ behind) :
    Succeeds (readParam classes earlier stream) fun found =>
      found.value.heading = param ∧ found.rest.ahead = behind := by
  cases isParam with
  | @typed sentence type name isType present identifier =>
      rw [List.append_assoc] at ahead
      obtain ⟨typed, read, rfl, between⟩ := TypeName.read?_of_ahead isType ahead
        (avoids_cons (by rw [identifier]; decide))
      simp only [readParam, read, present, Bool.false_eq_true, if_false]
      refine Succeeds.bind (take_of_ahead between identifier .expectedIdentifier (by decide))
        fun named taken => ?_
      obtain ⟨spelled, left⟩ := taken
      have unknown : ¬ (earlier.any fun param => param.name = named.value.lexeme) = true := by
        simpa [spelled] using fresh
      rw [if_neg unknown]
      exact succeeds_ok ⟨by rw [Param.heading, spelled], left⟩

theorem readParams_of_ahead {sentence behind : List Token} {params : List (String × DataType)}
    (isParams : Separated (IsParam classes) sentence params) {earlier : List Param} {stream : TokenStream}
    (distinct : (earlier.map Param.name ++ params.map Prod.fst).Nodup)
    (ahead : stream.ahead = sentence ++ behind) (ends : Avoids [.comma] behind) :
    Succeeds (readParams classes earlier stream) fun found =>
      found.value.map Param.heading = earlier.map Param.heading ++ params ∧
        found.rest.ahead = behind := by
  induction isParams generalizing earlier stream with
  | @last sentence param isParam =>
      have fresh : param.1 ∉ earlier.map Param.name := fun known =>
        (List.disjoint_of_nodup_append distinct) known (List.mem_singleton_self _)
      rw [readParams]
      refine (readParam_of_ahead isParam fresh ahead).bind fun found known => ?_
      obtain ⟨heading, left⟩ := known
      rw [take?_of_avoids (left ▸ ends) (List.mem_singleton_self _)]
      exact succeeds_ok ⟨by rw [List.map_append, List.map_singleton, heading], left⟩
  | @more sentence rest param params comma isParam separates isParams ih =>
      rw [List.append_assoc, List.cons_append] at ahead
      have fresh : param.1 ∉ earlier.map Param.name := fun known =>
        (List.disjoint_of_nodup_append distinct) known (List.mem_cons_self ..)
      rw [readParams]
      refine (readParam_of_ahead isParam fresh ahead).bind fun found known => ?_
      obtain ⟨heading, between⟩ := known
      obtain ⟨next, taken, -, further⟩ := take?_of_ahead between separates (by decide)
      have named : found.value.name = param.1 := congrArg Prod.fst heading
      have distinct : ((earlier ++ [found.value]).map Param.name ++ params.map Prod.fst).Nodup := by
        simpa [named] using distinct
      rw [taken]
      refine (ih distinct further).bind fun all known => succeeds_ok ⟨?_, known.2⟩
      rw [known.1, List.map_append, List.map_singleton, heading, List.append_assoc,
        List.singleton_append]

theorem read_of_ahead {sentence behind : List Token} {params : List (String × DataType)}
    {stream : TokenStream} (isParamList : Listed (IsParam classes) sentence params)
    (distinct : (params.map Prod.fst).Nodup) (ahead : stream.ahead = sentence ++ behind) :
    Succeeds (ParamList.read classes stream) fun found =>
      found.value.params.map Param.heading = params ∧ found.rest.ahead = behind := by
  unfold ParamList.read
  cases isParamList with
  | none opens closes =>
      refine Succeeds.bind (take_of_ahead ahead opens .expectedOpenParen (by decide))
        fun opening opened => ?_
      have between := opened.2
      obtain ⟨closing, taken, -, left⟩ := take?_of_ahead between closes (by decide)
      rw [taken]
      exact succeeds_ok ⟨rfl, left⟩
  | some opens isParams closes =>
      rw [List.cons_append, List.cons_append, List.append_assoc] at ahead
      refine Succeeds.bind (take_of_ahead ahead opens .expectedOpenParen (by decide))
        fun opening opened => ?_
      have between := opened.2
      have filled : Avoids [.rightParen] opening.rest.ahead := by
        rw [between]
        exact (isParams.begins.append _).avoids (by decide)
      rw [take?_of_avoids filled (List.mem_singleton_self _)]
      have distinct : (([] : List Param).map Param.name ++ params.map Prod.fst).Nodup := distinct
      refine (readParams_of_ahead isParams distinct between
        (avoids_cons (by rw [closes]; decide))).bind fun found known => ?_
      obtain ⟨headings, further⟩ := known
      exact Succeeds.bind (take_of_ahead further closes .expectedCloseParen (by decide))
        fun closing taken => succeeds_ok ⟨headings, taken.2⟩

end ParamList

section

variable {classes : ClassTable} {sentence : List Token}

theorem TokenKind.type?_text {kind : TokenKind} {type : DataType} (known : kind.type? = some type) :
    type.text = kind.text ∧ IsWord kind.text ∧ wordKind kind.text = kind := by
  cases kind <;> cases known <;> decide +kernel

theorem spells_base {token : Token} {type : DataType} (isBase : IsBase classes token type)
    (named : token.Named) :
    Spells type.text.toList fun tokens => ∃ other, tokens = [other] ∧ IsBase classes other type := by
  rcases isBase with keyword | ⟨identifier, known, rfl⟩
  · obtain ⟨text, isWord, kind⟩ := TokenKind.type?_text keyword
    rw [text]
    refine (spells_word isWord).mono fun _ ⟨span, same⟩ => ⟨_, same, Or.inl ?_⟩
    rw [kind, keyword]
  · obtain ⟨isWord, kind⟩ := named identifier
    exact (spells_word isWord).mono fun _ ⟨span, same⟩ => ⟨_, same, Or.inr ⟨kind, known, rfl⟩⟩

theorem spells_dimensions {base type : DataType} (dimensions : Repeat IsDimension base sentence type) :
    ∃ suffix, type.text.toList = base.text.toList ++ suffix ∧ Apart suffix ∧
      Spells suffix fun tokens => Repeat IsDimension base tokens type := by
  induction dimensions with
  | none => exact ⟨[], (List.append_nil _).symm, .nil, .empty .none⟩
  | @more base next type _ _ step _ ih =>
      cases step with
      | brackets =>
          obtain ⟨suffix, text, apart, spells⟩ := ih
          refine ⟨'[' :: ']' :: suffix, ?_, .cons (by decide) _, ?_⟩
          · rw [text, DataType.arrayOf, DataType.text, String.toList_append, List.append_assoc]
            rfl
          · have closing : Spells (']' :: suffix) (Led .rightBracket _) :=
              spells_mark rfl (by decide) (fun _ => rfl) spells
            have opening : Spells ('[' :: ']' :: suffix) (Led .leftBracket _) :=
              spells_mark rfl (by decide) (fun _ => rfl) closing
            refine opening.mono ?_
            rintro _ ⟨first, _, rfl, opens, second, rest, rfl, closes, repeats⟩
            exact .more (.brackets opens closes) repeats

theorem spells_type {type : DataType} (isType : IsType classes sentence type)
    (named : ∀ token ∈ sentence, token.Named) :
    Spells type.text.toList fun tokens => IsType classes tokens type := by
  cases isType with
  | arrays isBase dimensions =>
      obtain ⟨suffix, text, apart, spells⟩ := spells_dimensions dimensions
      rw [text]
      refine (spells_base isBase (named _ (List.mem_cons_self ..))).append spells apart ?_
      rintro _ rest ⟨token, rfl, isBase⟩ repeats
      exact .arrays isBase repeats

def headingText (heading : String × DataType) : String := s!" {heading.2.text} {heading.1}"

theorem spells_param {param : String × DataType} (isParam : IsParam classes sentence param)
    (named : ∀ token ∈ sentence, token.Named) :
    Spells (headingText param).toList fun tokens => IsParam classes tokens param := by
  cases isParam with
  | @typed sentence type name isType present identifier =>
      rw [List.forall_mem_append, List.forall_mem_singleton] at named
      obtain ⟨isWord, kind⟩ := named.2 identifier
      have text : (headingText (name.lexeme, type)).toList =
          ' ' :: (type.text.toList ++ ' ' :: name.lexeme.toList) := by
        simp [headingText, toString]
      rw [text]
      refine spells_blank ((spells_type isType named.1).append
        (spells_blank (spells_word isWord)) (.cons (by decide) _) ?_)
      rintro tokens _ isType ⟨span, rfl⟩
      exact .typed isType present kind

theorem spells_params {params : List (String × DataType)}
    (isParams : Separated (IsParam classes) sentence params) (named : ∀ token ∈ sentence, token.Named) :
    Spells (String.intercalate "," (params.map headingText)).toList fun tokens =>
      Separated (IsParam classes) tokens params := by
  induction isParams with
  | last isParam =>
      rw [List.map_singleton, String.intercalate_singleton]
      exact (spells_param isParam named).mono fun _ => .last
  | @more sentence rest param params comma isParam separates isParams ih =>
      rw [List.forall_mem_append, List.forall_mem_cons] at named
      rw [List.map_cons, String.intercalate_cons_of_ne_nil (by simpa using isParams.ne_nil),
        String.toList_append, String.toList_append, List.append_assoc]
      have behind : Spells (',' :: (String.intercalate "," (params.map headingText)).toList)
          (Led .comma _) := spells_mark rfl (by decide) (fun _ => rfl) (ih named.2.2)
      refine (spells_param isParam named.1).append behind (.cons (by decide) _) ?_
      rintro tokens _ isParam ⟨comma, rest, rfl, kind, isParams⟩
      exact .more isParam kind isParams

theorem spells_paramList {list : ParamList}
    (isParamList : Listed (IsParam classes) sentence (list.params.map Param.heading))
    (named : ∀ token ∈ sentence, token.Named) :
    Spells list.text.toList fun tokens =>
      Listed (IsParam classes) tokens (list.params.map Param.heading) := by
  have closing : Spells [')'] (Led .rightParen (· = [])) :=
    spells_mark rfl (by decide) (fun _ => rfl) (.empty rfl)
  generalize same : list.params.map Param.heading = params at isParamList ⊢
  cases isParamList with
  | none =>
      rw [ParamList.text, List.map_eq_nil_iff.mp same]
      have spells : Spells ['(', ')'] (Led .leftParen _) :=
        spells_mark rfl (by decide) (fun _ => rfl) closing
      refine spells.mono ?_
      rintro _ ⟨first, _, rfl, opens, last, _, rfl, closes, rfl⟩
      exact .none opens closes
  | some _ isParams =>
      have filled : ¬ list.params.isEmpty = true := by
        rw [List.isEmpty_iff]
        intro empty
        rw [empty] at same
        exact isParams.ne_nil same.symm
      have texts : (list.params.map fun param => s!" {param.type.text} {param.name}") =
          params.map headingText := by
        rw [← same, List.map_map]
        rfl
      rw [List.cons_append, List.forall_mem_cons, List.forall_mem_append] at named
      rw [ParamList.text, if_neg filled, texts, String.toList_append, String.toList_append]
      have inside : Spells ((String.intercalate "," (params.map headingText)).toList ++ [' ', ')'])
          fun tokens => ∃ sentence closing, tokens = sentence ++ [closing] ∧
            Separated (IsParam classes) sentence params ∧ closing.kind = .rightParen := by
        refine (spells_params isParams named.2.1).append (spells_blank closing)
          (.cons (by decide) _) ?_
        rintro sentence _ isParams ⟨last, _, rfl, closes, rfl⟩
        exact ⟨sentence, last, rfl, isParams, closes⟩
      have spells : Spells ('(' :: (_ ++ [' ', ')'])) (Led .leftParen _) :=
        spells_mark rfl (by decide) (fun _ => rfl) inside
      refine spells.mono ?_
      rintro _ ⟨first, _, rfl, opens, sentence, last, rfl, isParams, closes⟩
      exact .some opens isParams closes

end

/-- The text of a parameter list that was read from any place of a source is read again, all of it, as
a list of the same names and types. -/
theorem parameters_read_back {classes : ClassTable} {source : String} {tokens : List Token}
    (lexed : tokenize source = .ok tokens) {stream : TokenStream} (within : stream.Within tokens)
    {read : Parsed stream ParamList} (accepted : ParamList.read classes stream = .ok read) :
    ∃ again, tokenize read.value.text = .ok again ∧
      ∃ reread, ParamList.read classes (.ofTokens again) = .ok reread ∧
        reread.rest.ahead.map Token.kind = [.eof] ∧
        reread.value.params.map Param.heading = read.value.params.map Param.heading ∧
        read.value.agrees reread.value = true := by
  obtain ⟨sentence, moves, listed, distinct, _⟩ := ParamList.read_readFrom accepted
  have isParamList := listed.map Param.heading fun _ _ param => param.isParam
  have named : ∀ token ∈ sentence, token.Named := by
    intro token among
    refine tokenize_named lexed token ?_
    rw [← within, moves.ahead]
    exact List.mem_append_right _ (List.mem_append_left _ among)
  obtain ⟨again, ended, isAgain, kind, relexed⟩ := (spells_paramList isParamList named).tokenize
  rw [String.ofList_toList] at relexed
  have distinct : ((read.value.params.map Param.heading).map Prod.fst).Nodup := by
    rw [List.map_map]
    exact distinct
  have ahead : (ofTokens (again ++ [ended])).ahead = again ++ [ended] := rfl
  obtain ⟨reread, reaccepted, headings, left⟩ :=
    ParamList.read_of_ahead isAgain distinct ahead
  refine ⟨_, relexed, reread, reaccepted, by rw [left, List.map_singleton, kind], headings, ?_⟩
  have types := congrArg (List.map Prod.snd) headings
  rw [List.map_map, List.map_map] at types
  rw [ParamList.agrees, beq_iff_eq]
  exact types.symm

theorem parameters_read_back_of_arrays :
    let classes : ClassTable := ⟨[{ name := "Dog" }]⟩
    let source := "int feed(Dog[][] pets,boolean /* still */ calm, void[ ] none) \x7b \x7d"
    ∃ tokens, tokenize source = .ok tokens ∧ ((ofTokens tokens).seek 2).Within tokens ∧
      ∃ read, ParamList.read classes ((ofTokens tokens).seek 2) = .ok read ∧
        read.value.text = "( Dog[][] pets, bool calm, void[] none )" ∧
        ∃ again, tokenize read.value.text = .ok again ∧
          ∃ reread, ParamList.read classes (.ofTokens again) = .ok reread ∧
            reread.rest.ahead.map Token.kind = [.eof] ∧
            reread.value.params.map Param.heading = read.value.params.map Param.heading ∧
            read.value.agrees reread.value = true := by
  intro classes source
  have text : ((tokenize source).toOption.bind fun tokens =>
      (ParamList.read classes ((ofTokens tokens).seek 2)).toOption.map fun read => read.value.text) =
        some "( Dog[][] pets, bool calm, void[] none )" := by
    decide +kernel
  cases lexed : tokenize source with
  | error error => simp [lexed, Except.toOption] at text
  | ok tokens =>
      rw [lexed] at text
      cases accepted : ParamList.read classes ((ofTokens tokens).seek 2) with
      | error error => simp [accepted, Except.toOption] at text
      | ok read =>
          simp only [accepted, Except.toOption, Option.bind_some, Option.map_some,
            Option.some.injEq] at text
          exact ⟨tokens, rfl, .of_seek 2, read, accepted, text,
            parameters_read_back lexed (.of_seek 2) accepted⟩

end ScriptEngine
