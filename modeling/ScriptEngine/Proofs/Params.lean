import ScriptEngine.Proofs.Lookahead
import ScriptEngine.Proofs.Parsing
import ScriptEngine.Proofs.TokenSpans
import ScriptEngine.ParamList
/-! Parameter lists are read by their grammar. A list that was read has parameters of different names,
each of which covers its type and its name. -/

namespace ScriptEngine

open Grammar TokenStream

def Param.heading (param : Param) : String × DataType := (param.name, param.type)

namespace Grammar

inductive Separated {α : Type} (item : List Token → α → Prop) : List Token → List α → Prop
  | last {sentence : List Token} {first : α} : item sentence first →
      Separated item sentence [first]
  | more {sentence rest : List Token} {first : α} {others : List α} {comma : Token} :
      item sentence first → comma.kind = .comma → Separated item rest others →
      Separated item (sentence ++ comma :: rest) (first :: others)

inductive Listed {α : Type} (item : List Token → α → Prop) : List Token → List α → Prop
  | none {opening closing : Token} : opening.kind = .leftParen → closing.kind = .rightParen →
      Listed item [opening, closing] []
  | some {opening closing : Token} {sentence : List Token} {items : List α} :
      opening.kind = .leftParen → Separated item sentence items → closing.kind = .rightParen →
      Listed item (opening :: sentence ++ [closing]) items

section

variable {α β : Type} {item : List Token → α → Prop} {other : List Token → β → Prop}
  {sentence : List Token} {items : List α}

theorem Separated.ne_nil (separated : Separated item sentence items) : items ≠ [] := by
  cases separated <;> exact List.cons_ne_nil _ _

theorem Separated.map (change : α → β)
    (each : ∀ sentence first, item sentence first → other sentence (change first))
    (separated : Separated item sentence items) :
    Separated other sentence (items.map change) := by
  induction separated with
  | last known => exact .last (each _ _ known)
  | more known separates _ ih => exact .more (each _ _ known) separates ih

theorem Separated.each (separated : Separated item sentence items) :
    ∀ one ∈ items, ∃ part, part.Sublist sentence ∧ item part one := by
  induction separated with
  | last known => exact List.forall_mem_singleton.mpr ⟨_, .refl _, known⟩
  | more known _ _ ih =>
      refine List.forall_mem_cons.mpr ⟨⟨_, List.sublist_append_left .., known⟩, fun one among => ?_⟩
      obtain ⟨part, within, known⟩ := ih one among
      exact ⟨part, (within.trans (List.sublist_cons_self ..)).trans (List.sublist_append_right ..),
        known⟩

theorem Listed.ne_nil (listed : Listed item sentence items) : sentence ≠ [] := by
  cases listed <;> simp

theorem Listed.each (listed : Listed item sentence items) :
    ∀ one ∈ items, ∃ part, part.Sublist sentence ∧ item part one := by
  cases listed with
  | none => exact List.forall_mem_nil _
  | some _ separated =>
      intro one among
      obtain ⟨part, within, known⟩ := separated.each one among
      exact ⟨part, (within.trans (List.sublist_cons_self ..)).trans (List.sublist_append_left ..),
        known⟩

theorem Listed.map (change : α → β)
    (each : ∀ sentence first, item sentence first → other sentence (change first))
    (listed : Listed item sentence items) : Listed other sentence (items.map change) := by
  cases listed with
  | none opens closes => exact .none opens closes
  | some opens separated closes => exact .some opens (separated.map change each) closes

end

inductive IsParam (classes : ClassTable) : List Token → String × DataType → Prop
  | typed {sentence : List Token} {type : DataType} {name : Token} : IsType classes sentence type →
      type.isVoid = false → name.kind = .identifier →
      IsParam classes (sentence ++ [name]) (name.lexeme, type)

theorem IsParam.ne_nil {classes : ClassTable} {sentence : List Token} {param : String × DataType}
    (isParam : IsParam classes sentence param) : sentence ≠ [] := by
  cases isParam
  simp

end Grammar

structure Param.ReadFrom (classes : ClassTable) (sentence : List Token) (param : Param) : Prop where
  isParam : IsParam classes sentence param.heading
  span : InOrder sentence → param.span = .over sentence

namespace ParamList

variable {classes : ClassTable}

theorem readParam_readFrom {earlier : List Param} {stream : TokenStream} {read : Parsed stream Param}
    (done : readParam classes earlier stream = .ok read) :
    (∃ sentence, stream.Moves read.rest sentence ∧ read.value.ReadFrom classes sentence) ∧
      ∀ param ∈ earlier, param.name ≠ read.value.name := by
  unfold readParam at done
  dsimp only at done
  split at done
  · cases done
  · rename_i type typed
    split at done
    · cases done
    · rename_i present
      obtain ⟨name, named, done⟩ := ok_of_bind done
      split at done
      · cases done
      · rename_i fresh
        cases done
        obtain ⟨sentence, _, moves, isType, rfl⟩ := TypeName.read?_readAs typed
        obtain ⟨further, identifier⟩ := take_moves named
        have isParam : IsParam classes (sentence ++ [name.value])
            (name.value.lexeme, type.value) :=
          .typed isType (Bool.eq_false_iff.mpr present) identifier
        refine ⟨⟨_, moves.trans further, isParam, fun ordered => ?_⟩, by simpa using fresh⟩
        cases isType with
        | arrays =>
            rw [peek_of_ahead moves.ahead]
            exact ordered.cover_ends

theorem readParams_readFrom {earlier : List Param} (stream : TokenStream)
    {read : Parsed stream (List Param)} (done : readParams classes earlier stream = .ok read)
    (distinct : (earlier.map Param.name).Nodup) :
    (∃ sentence params, stream.Moves read.rest sentence ∧
      Separated (Param.ReadFrom classes) sentence params ∧ read.value = earlier ++ params) ∧
    (read.value.map Param.name).Nodup := by
  rw [readParams] at done
  obtain ⟨param, leading, done⟩ := ok_of_bind done
  have shorter := param.shorter
  obtain ⟨⟨sentence, moves, first⟩, fresh⟩ := readParam_readFrom leading
  have distinct : ((earlier ++ [param.value]).map Param.name).Nodup := by
    rw [List.map_append, List.map_singleton, List.nodup_append]
    refine ⟨distinct, List.pairwise_singleton _ _, fun name known other new => ?_⟩
    obtain ⟨before, among, rfl⟩ := List.mem_map.mp known
    rw [List.mem_singleton.mp new]
    exact fresh before among
  split at done
  · cases done
    exact ⟨⟨sentence, _, moves, .last first, rfl⟩, distinct⟩
  · rename_i comma taken
    obtain ⟨more, behind, done⟩ := ok_of_bind done
    have further := comma.shorter
    cases done
    obtain ⟨between, separates⟩ := take?_moves taken
    obtain ⟨⟨rest, params, last, separated, all⟩, distinct⟩ :=
      readParams_readFrom comma.rest behind distinct
    exact ⟨⟨sentence ++ comma.value :: rest, param.value :: params,
      moves.trans (between.trans last), .more first separates separated,
      by rw [all, List.append_assoc, List.singleton_append]⟩, distinct⟩
termination_by stream.size

structure ReadFrom (classes : ClassTable) (sentence : List Token) (list : ParamList) : Prop where
  listed : Listed (Param.ReadFrom classes) sentence list.params
  distinct : (list.params.map Param.name).Nodup
  span : InOrder sentence → list.span = .over sentence

theorem read_readFrom {stream : TokenStream} {read : Parsed stream ParamList}
    (done : ParamList.read classes stream = .ok read) :
    ∃ sentence, stream.Moves read.rest sentence ∧ read.value.ReadFrom classes sentence := by
  unfold ParamList.read at done
  obtain ⟨opening, opened, done⟩ := ok_of_bind done
  obtain ⟨first, opens⟩ := take_moves opened
  split at done
  · rename_i closing closed
    cases done
    obtain ⟨last, closes⟩ := take?_moves closed
    have all := first.trans last
    exact ⟨_, all, .none opens closes, List.nodup_nil, all.spanSince_first⟩
  · obtain ⟨params, between, done⟩ := ok_of_bind done
    obtain ⟨closing, closed, done⟩ := ok_of_bind done
    cases done
    obtain ⟨last, closes⟩ := take_moves closed
    obtain ⟨⟨sentence, others, moves, separated, same⟩, distinct⟩ :=
      readParams_readFrom opening.rest between List.nodup_nil
    rw [List.nil_append] at same
    have all := (first.trans moves).trans last
    exact ⟨_, all, .some opens (same ▸ separated) closes, distinct, all.spanSince_first⟩

end ParamList

end ScriptEngine
