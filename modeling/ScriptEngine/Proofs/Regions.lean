import ScriptEngine.Proofs.BodyRegions
import ScriptEngine.Proofs.BodySpans
import ScriptEngine.Proofs.Params
/-! Regions of a source lie in each other as what they are regions of does: the parts of a declaration
in the declaration, parameters in their list, and the parts of a body in the body. -/

namespace ScriptEngine

open Grammar TokenStream

inductive Grammar.IsFunctionName : List Token → String → Prop
  | plain {name : Token} : name.kind = .identifier → IsFunctionName [name] name.lexeme
  | tilde {tilde name : Token} : tilde.kind = .tilde → name.kind = .identifier →
      IsFunctionName [tilde, name] ("~" ++ name.lexeme)

inductive Grammar.IsOwner : List Token → Prop
  | none : IsOwner []
  | owner {className mark : Token} : className.kind = .identifier → mark.kind = .colonColon →
      IsOwner [className, mark]

def externSpan? (words : List Token) : Option Span :=
  (words.filter fun word => word.kind = .externKeyword).getLast?.map Token.span

/-- A declaration up to its body that was read from these tokens: modifiers, the return type, the
class, the name and the parameters. -/
inductive Header.ReadFrom (classes : ClassTable) : List Token → Header → Prop
  | parts {words typed owner named listed : List Token} {header : Header} :
      (∀ word ∈ words, word.kind.isModifier = true) →
      header.modifiers.externKeyword = externSpan? words → IsType classes typed header.returns →
      IsOwner owner → IsFunctionName named header.name →
      (InOrder named → header.nameSpan = .over named) →
      header.params.ReadFrom classes listed →
      (words ++ typed).head?.map Token.span = some header.start →
      ReadFrom classes (words ++ typed ++ owner ++ named ++ listed) header

namespace Header

variable {classes : ClassTable}

theorem externSpan?_cons (word : Token) (words : List Token) :
    externSpan? (word :: words) = (externSpan? words).or
      (if word.kind = .externKeyword then some word.span else none) := by
  unfold externSpan?
  by_cases kind : word.kind = .externKeyword
  · rw [List.filter_cons_of_pos (by simpa using kind), List.getLast?_cons, if_pos kind]
    cases (words.filter fun word => word.kind = .externKeyword).getLast? <;> rfl
  · rw [List.filter_cons_of_neg (by simpa using kind), if_neg kind, Option.or_none]

theorem readModifiers_moves {inBlock : Bool} (before : Modifiers) (stream : TokenStream)
    {read : Reached stream Modifiers} (done : readModifiers inBlock before stream = .ok read) :
    ∃ words, stream.Moves read.rest words ∧ (∀ word ∈ words, word.kind.isModifier = true) ∧
      read.value.externKeyword = (externSpan? words).or before.externKeyword := by
  rw [readModifiers] at done
  split at done
  · cases done
    exact ⟨[], .refl _, List.forall_mem_nil _, rfl⟩
  · rename_i token next
    have shorter := token.shorter
    obtain ⟨moves, _⟩ := TokenStream.next?_moves next
    have goOn {after : Modifiers} {all : Reached token.rest Modifiers}
        (modifier : token.value.kind.isModifier = true)
        (kept : after.externKeyword =
          (if token.value.kind = .externKeyword then some token.value.span else none).or
            before.externKeyword)
        (behind : readModifiers inBlock after token.rest = .ok all) :
        ∃ words, stream.Moves all.rest words ∧ (∀ word ∈ words, word.kind.isModifier = true) ∧
          all.value.externKeyword = (externSpan? words).or before.externKeyword := by
      obtain ⟨words, further, modifiers, same⟩ := readModifiers_moves after token.rest behind
      refine ⟨token.value :: words, moves.trans further,
        List.forall_mem_cons.mpr ⟨modifier, modifiers⟩, ?_⟩
      rw [same, kept, externSpan?_cons, Option.or_assoc]
    dsimp only at done
    split at done
    · rename_i kind
      split at done
      · cases done
      · obtain ⟨all, behind, done⟩ := ok_of_bind done
        cases done
        exact goOn (by rw [kind]; rfl) (by rw [kind]; rfl) behind
    · rename_i kind
      obtain ⟨all, behind, done⟩ := ok_of_bind done
      cases done
      exact goOn (by rw [kind]; rfl) (by rw [kind]; rfl) behind
    · rename_i kind
      obtain ⟨all, behind, done⟩ := ok_of_bind done
      cases done
      exact goOn (by rw [kind]; rfl) (by rw [kind]; rfl) behind
    · cases done
      exact ⟨[], .refl _, List.forall_mem_nil _, rfl⟩
termination_by stream.size

theorem readOwner_moves {classBlock : Option String} {stream : TokenStream}
    {read : Reached stream (Option String)} (done : readOwner classes classBlock stream = .ok read) :
    ∃ owner, stream.Moves read.rest owner ∧ IsOwner owner := by
  unfold readOwner at done
  split at done
  · obtain ⟨className, named, done⟩ := ok_of_bind done
    dsimp only at done
    split at done
    · cases done
    · obtain ⟨mark, marked, done⟩ := ok_of_bind done
      cases done
      obtain ⟨first, kind⟩ := take_moves named
      obtain ⟨second, colons⟩ := take_moves marked
      exact ⟨_, first.trans second, .owner kind colons⟩
  · cases done
    exact ⟨[], .refl _, .none⟩

theorem readName_moves {stream : TokenStream} {read : Parsed stream (String × Span)}
    (done : readName stream = .ok read) :
    ∃ named, stream.Moves read.rest named ∧ IsFunctionName named read.value.1 ∧
      (InOrder named → read.value.2 = .over named) := by
  unfold readName at done
  split at done
  · obtain ⟨name, taken, done⟩ := ok_of_bind done
    cases done
    obtain ⟨moves, kind⟩ := take_moves taken
    exact ⟨_, moves, .plain kind, fun _ => rfl⟩
  · rename_i tilde marked
    obtain ⟨name, taken, done⟩ := ok_of_bind done
    cases done
    obtain ⟨first, mark⟩ := take?_moves marked
    obtain ⟨second, kind⟩ := take_moves taken
    exact ⟨_, first.trans second, .tilde mark kind, fun ordered => ordered.cover_ends⟩

theorem read_readFrom {classBlock : Option String} {stream : TokenStream}
    {read : Parsed stream Header} (done : Header.read classes classBlock stream = .ok read) :
    ∃ sentence, stream.Moves read.rest sentence ∧ read.value.ReadFrom classes sentence := by
  unfold Header.read at done
  obtain ⟨modifiers, leading, done⟩ := ok_of_bind done
  split at done
  · cases done
  · rename_i returns typed
    obtain ⟨owner, owned, done⟩ := ok_of_bind done
    obtain ⟨name, named, done⟩ := ok_of_bind done
    obtain ⟨params, between, done⟩ := ok_of_bind done
    cases done
    obtain ⟨words, first, modifier, last⟩ := readModifiers_moves {} stream leading
    obtain ⟨typeTokens, _, second, isType, rfl⟩ := TypeName.read?_readAs typed
    obtain ⟨ownerTokens, third, isOwner⟩ := readOwner_moves owned
    obtain ⟨nameTokens, fourth, isName, span⟩ := readName_moves named
    obtain ⟨listed, fifth, list⟩ := ParamList.read_readFrom between
    rw [Option.or_none] at last
    have start := first.trans second
    refine ⟨_, ((start.trans third).trans fourth).trans fifth,
      .parts modifier last isType isOwner isName span list ?_⟩
    cases isType with
    | @arrays token _ _ tail =>
        obtain ⟨leading, others, same⟩ :
            ∃ leading others, words ++ token :: tail = leading :: others := by
          cases words <;> exact ⟨_, _, rfl⟩
        rw [same] at start ⊢
        rw [peek_of_ahead start.ahead]
        rfl

end Header

def Positions.parts (positions : Positions) : List Span :=
  positions.externKeyword.toList ++ [positions.name, positions.params, positions.body]

/-- A function that was declared by these tokens: its header, and a body in braces. -/
inductive Function.ReadFrom (classes : ClassTable) : List Token → Function → Prop
  | declared {head body : List Token} {function : Function} :
      function.header.ReadFrom classes head →
      (Stmt.block function.body.span function.body.stmts).StandsAt classes body →
      function.signature.body = function.body.span →
      ReadFrom classes (head ++ body) function

/-- The regions of a function that was declared by these tokens lie in each other. -/
structure Function.WellNested (classes : ClassTable) (declaration : List Token)
    (function : Function) : Prop where
  read : function.ReadFrom classes declaration
  whole : function.signature.positions.whole = .over declaration
  closed : ∃ front closing, declaration = front ++ [closing] ∧ closing.kind = .rightBrace
  inside : ∀ part ∈ function.signature.positions.parts,
    part.Inside function.signature.positions.whole
  apart : function.signature.positions.parts.Pairwise Span.Before
  params : ∀ param ∈ function.params.params, param.span.Inside function.signature.positions.params
  body : (Stmt.block function.body.span function.body.stmts).Nested

namespace Grammar

theorem IsFunctionName.ne_nil {sentence : List Token} {name : String}
    (isName : IsFunctionName sentence name) : sentence ≠ [] := by
  cases isName <;> simp

end Grammar

theorem externSpan?_mem {words : List Token} {span : Span} (found : externSpan? words = some span) :
    ∃ word ∈ words, word.span = span := by
  obtain ⟨word, last, rfl⟩ := Option.map_eq_some_iff.mp found
  exact ⟨word, (List.mem_filter.mp (List.mem_of_getLast? last)).1, rfl⟩

namespace Function

variable {classes : ClassTable} {declaration : List Token} {function : Function}

theorem ReadFrom.pieces (read : function.ReadFrom classes declaration) (ordered : InOrder declaration) :
    ∃ pieces : List (List Token), function.signature.positions.parts = pieces.map Span.over ∧
      (∀ piece ∈ pieces, piece ≠ []) ∧ pieces.flatten.Sublist declaration := by
  cases read with
  | @declared head body _ headed stands same =>
      cases headed with
      | @parts words typed owner named listed _ _ last _ _ isName name list _ =>
          -- the return type and the class are no parts of their own
          have behind : (named ++ (listed ++ body)).Sublist
              (typed ++ (owner ++ (named ++ (listed ++ body)))) :=
            (List.sublist_append_right ..).trans (List.sublist_append_right ..)
          have kept : (words ++ (named ++ (listed ++ body))).Sublist
              (words ++ typed ++ owner ++ named ++ listed ++ body) := by
            simpa only [List.append_assoc] using behind.append_left words
          have pieces := ordered.sublist ((List.sublist_append_right ..).trans kept)
          have nameSpan := name (pieces.sublist (List.sublist_append_left ..))
          have listSpan := list.span (pieces.sublist
            ((List.sublist_append_left ..).trans (List.sublist_append_right ..)))
          have parts : function.signature.positions.parts =
              (externSpan? words).toList ++ [.over named, .over listed, .over body] := by
            change function.header.modifiers.externKeyword.toList ++
              [function.header.nameSpan, function.header.params.span, function.signature.body] = _
            rw [last, nameSpan, listSpan, same, ← stands.block_span]
          have filled : ∀ piece ∈ [named, listed, body], piece ≠ [] := by
            simp [isName.ne_nil, list.listed.ne_nil, stands.ne_nil]
          cases found : externSpan? words with
          | none =>
              refine ⟨[named, listed, body], by rw [parts, found]; rfl, filled, ?_⟩
              simpa using (List.sublist_append_right ..).trans kept
          | some span =>
              obtain ⟨word, among, rfl⟩ := externSpan?_mem found
              refine ⟨[[word], named, listed, body], by rw [parts, found]; rfl,
                List.forall_mem_cons.mpr ⟨List.cons_ne_nil _ _, filled⟩, ?_⟩
              simpa using ((List.singleton_sublist.mpr among).append_right _).trans kept

theorem ReadFrom.whole (read : function.ReadFrom classes declaration) (ordered : InOrder declaration) :
    function.signature.positions.whole = .over declaration := by
  cases read with
  | @declared head body _ headed stands same =>
      have filled := stands.ne_nil
      cases headed with
      | @parts words typed owner named listed _ _ _ isType _ _ _ _ start =>
          change function.header.start.cover function.signature.body = _
          rw [same, stands.block_span]
          obtain ⟨first, leads, starts⟩ := Option.map_eq_some_iff.mp start
          obtain ⟨rest, heads⟩ := List.head?_eq_some_iff.mp leads
          have leads : [first] <+: words ++ typed ++ owner ++ named ++ listed ++ body := by
            rw [heads]
            exact ⟨rest ++ owner ++ named ++ listed ++ body, by simp⟩
          rw [← starts]
          exact ordered.cover_over leads (List.suffix_append ..) (List.cons_ne_nil _ _) filled

theorem ReadFrom.params_inside (read : function.ReadFrom classes declaration)
    (ordered : InOrder declaration) : ∀ param ∈ function.params.params,
      param.span.Inside function.signature.positions.params := by
  cases read with
  | declared headed =>
      cases headed with
      | @parts words typed owner named listed _ _ _ _ _ _ _ list =>
          have listOrdered := ordered.sublist
            ((List.sublist_append_right _ listed).trans (List.sublist_append_left ..))
          intro param among
          obtain ⟨part, within, known⟩ := list.listed.each param among
          change param.span.Inside function.header.params.span
          rw [known.span (listOrdered.sublist within), list.span listOrdered]
          exact listOrdered.over_inside within known.isParam.ne_nil

theorem ReadFrom.closed (read : function.ReadFrom classes declaration) :
    ∃ front closing, declaration = front ++ [closing] ∧ closing.kind = .rightBrace := by
  cases read with
  | @declared head body _ _ stands =>
      obtain ⟨front, closing, rfl, closes⟩ := stands.block_closed
      exact ⟨head ++ front, closing, (List.append_assoc ..).symm, closes⟩

theorem ReadFrom.wellNested (read : function.ReadFrom classes declaration)
    (ordered : InOrder declaration) : function.WellNested classes declaration := by
  obtain ⟨pieces, parts, filled, kept⟩ := read.pieces ordered
  refine ⟨read, read.whole ordered, read.closed, ?_, ?_, read.params_inside ordered, ?_⟩
  · rw [parts, read.whole ordered]
    intro part among
    obtain ⟨piece, known, rfl⟩ := List.mem_map.mp among
    exact ordered.over_inside ((List.sublist_flatten_of_mem known).trans kept) (filled piece known)
  · rw [parts]
    exact (ordered.sublist kept).pairwise_over filled
  · cases read with
    | declared _ stands => exact stands.nested (ordered.sublist (List.sublist_append_right ..))

end Function

theorem LaidOut.headers {classes : ClassTable} {classBlock : Option String} {stream : TokenStream}
    {functions : List Function} {tokens : List Token}
    (laid : LaidOut classes classBlock stream functions) (within : stream.Within tokens) :
    ∀ function ∈ functions, ∃ owner start, ∃ header : Parsed start Header, start.Within tokens ∧
      Header.read classes owner start = .ok header ∧ function.header = header.value ∧
      function.signature.startsAt = start.position ∧
      function.signature.bodyAt = header.rest.position ∧
      function.signature.body = function.body.span := by
  induction laid with
  | finished => exact List.forall_mem_nil _
  | enterBlock moves _ _ _ _ ih | leaveBlock moves _ _ ih => exact ih (within.moves moves)
  | @declaration classBlock stream behind function functions header headed signature read _ ih =>
      have start := within.reads (Header.read_reads headed)
      obtain ⟨between, moves⟩ := TokenStream.skipBlock_moves read.skipped
      refine List.forall_mem_cons.mpr ⟨⟨classBlock, stream, header, within, headed, ?_, ?_, ?_,
        read.span.symm⟩, ih (start.moves moves)⟩
      · rw [Function.header, signature]
      · rw [signature]
      · rw [signature]

namespace Compiler

variable {env : CompileEnv} {id : ProgramId} {name source : String} {ids after : Identities}
  {program : Program} {published : PublicIndex Function}

/-- Each function of a program was read from the tokens at the place where its declaration starts. -/
theorem compile_readFrom
    (compiled : compile env id name source ids = (.ok program, after, published)) :
    ∃ tokens, tokenize source = .ok tokens ∧ ∀ function ∈ program.functions, ∃ declaration,
      declaration <+: tokens.drop function.signature.startsAt ∧
        function.ReadFrom env.classes declaration := by
  obtain ⟨tokens, lexed, laid⟩ := compile_laidOut compiled
  obtain ⟨tokens', lexed', _, bodies⟩ := compile_parts compiled
  cases lexed.symm.trans lexed'
  refine ⟨tokens, lexed, fun function among => ?_⟩
  have first : (ofTokens tokens).Within tokens := rfl
  obtain ⟨owner, start, header, within, headed, same, startsAt, bodyAt, span⟩ :=
    laid.headers first function among
  obtain ⟨visible, compiled⟩ := (compileBodies_each bodies).2 function among
  unfold compileBody at compiled
  obtain ⟨scope, _, compiled⟩ := ok_of_bind compiled
  obtain ⟨read, done, compiled⟩ := ok_of_bind compiled
  have body : read.value.1 = function.body := congrArg Function.body (Except.ok.inj compiled)
  have ordered := tokenize_inOrder lexed
  -- the body is parsed when all headers are known, from where its header ended
  obtain ⟨bodyTokens, moved, stands⟩ :=
    BodyParser.block_between _ ((TokenStream.Within.of_seek _).inOrder ordered) done
  obtain ⟨head, moves, headed⟩ := Header.read_readFrom headed
  rw [body] at stands
  generalize read.rest = behind at moved
  rw [bodyAt, (within.moves moves).seek] at moved
  have all := moves.trans moved
  refine ⟨head ++ bodyTokens, ?_, .declared (same ▸ headed) stands span⟩
  rw [startsAt]
  exact (within.bounds all).2

end Compiler

/-- The regions of each function of a program are well nested: its whole region goes from the first
token of its declaration to the brace that closes its body, the parts of the declaration lie in it one
behind the other, and what was parsed in each part lies in what it is a part of. -/
theorem regions_well_nested {env : CompileEnv} {id : ProgramId} {name source : String}
    {ids after : Identities} {program : Program} {published : PublicIndex Function}
    (compiled : Compiler.compile env id name source ids = (.ok program, after, published)) :
    ∃ tokens, tokenize source = .ok tokens ∧ ∀ function ∈ program.functions, ∃ declaration,
      declaration <+: tokens.drop function.signature.startsAt ∧
        function.WellNested env.classes declaration := by
  obtain ⟨tokens, lexed, each⟩ := Compiler.compile_readFrom compiled
  refine ⟨tokens, lexed, fun function among => ?_⟩
  obtain ⟨declaration, place, read⟩ := each function among
  have part := place.sublist.trans (List.drop_sublist ..)
  exact ⟨declaration, place, read.wellNested ((tokenize_inOrder lexed).sublist part)⟩

def nestedRegions : String :=
  "extern public int twice(int n) \x7b return (n + n); \x7d
   class Tank \x7b extern void drain(Tank[] others, int n) \x7b
       \x7b int left = -(level - (n)) * twice((n)); \x7d wait(n); (this).drain(others, twice(n)); \x7d
     void ~end() \x7b \x7d \x7d"

theorem regions_well_nested_of_nestedRegions :
    let env : CompileEnv :=
      { classes := ⟨[{ name := "Tank", fields := [⟨"level", .int, false⟩] }]⟩
        programs := {}, published := {}, withPublic := true }
    ∃ program tokens, (Compiler.compile env ⟨1⟩ "tank" nestedRegions {}).1 = .ok program ∧
      program.functions.map (fun function => (function.name, function.signature.positions.whole)) =
        [("twice", ⟨1, 1, 0, 50⟩), ("drain", ⟨2, 17, 67, 202⟩), ("~end", ⟨4, 6, 208, 223⟩)] ∧
      tokenize nestedRegions = .ok tokens ∧ ∀ function ∈ program.functions, ∃ declaration,
        declaration <+: tokens.drop function.signature.startsAt ∧
          function.WellNested env.classes declaration := by
  intro env
  have wholes : (Compiler.compile env ⟨1⟩ "tank" nestedRegions {}).1.toOption.map
      (fun program => program.functions.map fun function =>
        (function.name, function.signature.positions.whole)) =
          some [("twice", ⟨1, 1, 0, 50⟩), ("drain", ⟨2, 17, 67, 202⟩), ("~end", ⟨4, 6, 208, 223⟩)] := by
    decide +kernel
  cases compiled : Compiler.compile env ⟨1⟩ "tank" nestedRegions {} with
  | mk result more =>
      rw [compiled] at wholes
      cases result with
      | error => cases wholes
      | ok program =>
          obtain ⟨tokens, lexed, each⟩ := regions_well_nested compiled
          exact ⟨program, tokens, rfl, Option.some.inj wholes, lexed, each⟩

end ScriptEngine
