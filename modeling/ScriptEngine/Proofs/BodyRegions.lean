import Mathlib
import ScriptEngine.Proofs.Sites
/-! Where the body of a function ends. A block that is skipped ends behind the first token at which as
many braces are closed as were opened, and a block that is read ends there too, so each body of a
program covers the tokens that were skipped when its declaration was read. -/

namespace ScriptEngine

namespace TokenStream

def opened (tokens : List Token) : Nat := tokens.countP fun token => token.kind = .leftBrace

def closed (tokens : List Token) : Nat := tokens.countP fun token => token.kind = .rightBrace

def Unended (tokens : List Token) : Prop := ∀ token ∈ tokens, token.kind ≠ .eof

section

variable {token : Token} {rest : List Token}

theorem opened_cons : opened (token :: rest) =
    opened rest + if token.kind = .leftBrace then 1 else 0 := by
  simp [opened, List.countP_cons]

theorem closed_cons : closed (token :: rest) =
    closed rest + if token.kind = .rightBrace then 1 else 0 := by
  simp [closed, List.countP_cons]

theorem unended_cons : Unended (token :: rest) ↔ token.kind ≠ .eof ∧ Unended rest :=
  List.forall_mem_cons

end

structure Closes (depth : Nat) (tokens : List Token) : Prop where
  unended : Unended tokens
  level : closed tokens = opened tokens + depth
  first : ∀ before behind, tokens = before ++ behind → behind ≠ [] →
    closed before < opened before + depth

/-- A block in braces. In front of its end there are always more braces open than closed. -/
structure IsBlock (tokens : List Token) : Prop where
  opens : tokens.head?.any (fun token => token.kind = .leftBrace) = true
  unended : Unended tokens
  level : closed tokens = opened tokens
  first : ∀ before behind, tokens = before ++ behind → before ≠ [] → behind ≠ [] →
    closed before < opened before

namespace Closes

variable {depth : Nat} {token : Token} {rest : List Token}

theorem nil_iff : Closes depth [] ↔ depth = 0 := by
  constructor
  · intro closes
    have level := closes.level
    simp only [closed, opened, List.countP_nil] at level
    omega
  · rintro rfl
    refine ⟨nofun, rfl, fun before behind same remains => ?_⟩
    exact absurd (List.append_eq_nil_iff.mp same.symm).2 remains

theorem positive (closes : Closes depth (token :: rest)) : 0 < depth := by
  have first := closes.first [] (token :: rest) rfl (List.cons_ne_nil _ _)
  simpa [closed, opened] using first

theorem cons_iff {below : Nat} (positive : 0 < depth) (real : token.kind ≠ .eof)
    (level : below + (if token.kind = .rightBrace then 1 else 0) =
      depth + if token.kind = .leftBrace then 1 else 0) :
    Closes depth (token :: rest) ↔ Closes below rest := by
  constructor
  · intro closes
    refine ⟨(unended_cons.mp closes.unended).2, ?_, fun before behind same remains => ?_⟩
    · have all := closes.level
      rw [opened_cons, closed_cons] at all
      omega
    · have first := closes.first (token :: before) behind (congrArg _ same) remains
      rw [opened_cons, closed_cons] at first
      omega
  · intro closes
    refine ⟨unended_cons.mpr ⟨real, closes.unended⟩, ?_, fun before behind same remains => ?_⟩
    · rw [opened_cons, closed_cons, closes.level]
      omega
    · cases before with
      | nil => simpa [closed, opened] using positive
      | cons head before =>
          obtain ⟨rfl, more⟩ := List.cons.inj same
          have first := closes.first before behind more remains
          rw [opened_cons, closed_cons]
          omega

end Closes

theorem isBlock_cons_iff {opening : Token} {inside : List Token} :
    IsBlock (opening :: inside) ↔ opening.kind = .leftBrace ∧ Closes 1 inside := by
  constructor
  · intro block
    have opens : opening.kind = .leftBrace := by simpa using block.opens
    have level := block.level
    rw [opened_cons, closed_cons, opens] at level
    refine ⟨opens, (unended_cons.mp block.unended).2, by simpa using level, ?_⟩
    intro before behind same remains
    have first := block.first (opening :: before) behind (congrArg _ same)
      (List.cons_ne_nil _ _) remains
    rw [opened_cons, closed_cons, opens] at first
    simpa using first
  · rintro ⟨opens, closes⟩
    refine ⟨by simpa using opens, unended_cons.mpr ⟨opens ▸ by decide, closes.unended⟩, ?_, ?_⟩
    · rw [opened_cons, closed_cons, opens, closes.level]
      rfl
    · intro before behind same started remains
      cases before with
      | nil => exact absurd rfl started
      | cons head before =>
          obtain ⟨rfl, more⟩ := List.cons.inj same
          have first := closes.first before behind more remains
          rw [opened_cons, closed_cons, opens]
          simpa using first

variable {stream later : TokenStream} {span : Span}

theorem moves_cons_iff {passed rest between : List Token} {token : Token} :
    (TokenStream.mk passed (token :: rest)).Moves later (token :: between) ↔
      (TokenStream.mk (token :: passed) rest).Moves later between := by
  constructor
  · rintro ⟨ahead, further⟩
    refine ⟨(List.cons.inj ahead).2, ?_⟩
    rw [further, List.reverse_cons, List.append_assoc]
    rfl
  · rintro ⟨ahead, further⟩
    refine ⟨congrArg _ ahead, ?_⟩
    rw [further, List.reverse_cons, List.append_assoc]
    rfl

section

variable {passed rest : List Token} {token : Token} (depth : Nat) {below : Nat}

theorem closes_behind_iff (real : token.kind ≠ .eof)
    (level : below + (if token.kind = .rightBrace then 1 else 0) =
      depth + 1 + if token.kind = .leftBrace then 1 else 0) :
    (∃ between, (TokenStream.mk (token :: passed) rest).Moves later between ∧
        Closes below between) ↔
      ∃ between, (TokenStream.mk passed (token :: rest)).Moves later between ∧
        Closes (depth + 1) between := by
  constructor
  · rintro ⟨between, moves, closes⟩
    exact ⟨token :: between, moves_cons_iff.mpr moves,
      (Closes.cons_iff (Nat.succ_pos depth) real level).mpr closes⟩
  · rintro ⟨between, moves, closes⟩
    cases between with
    | nil => exact absurd (Closes.nil_iff.mp closes) (Nat.succ_ne_zero depth)
    | cons first between =>
        have same : token :: rest = first :: (between ++ later.ahead) := moves.ahead
        obtain ⟨rfl, _⟩ := List.cons.inj same
        exact ⟨between, moves_cons_iff.mp moves,
          (Closes.cons_iff (Nat.succ_pos depth) real level).mp closes⟩

end

theorem closeBraces_iff (passed : List Token) (depth : Nat) (ahead : List Token) :
    closeBraces passed depth ahead = (none, later) ↔
      ∃ between, (TokenStream.mk passed ahead).Moves later between ∧ Closes depth between := by
  fun_induction closeBraces passed depth ahead with
  | case1 passed ahead =>
      constructor
      · intro same
        cases same
        exact ⟨[], .refl _, Closes.nil_iff.mpr rfl⟩
      · rintro ⟨between, moves, closes⟩
        cases between with
        | nil =>
            obtain ⟨here, there⟩ := moves
            cases later
            cases here
            cases there
            rfl
        | cons token between => exact absurd closes.positive (Nat.lt_irrefl 0)
  | case2 passed depth =>
      constructor
      · intro same
        cases same
      · rintro ⟨between, moves, closes⟩
        obtain ⟨rfl, _⟩ := List.append_eq_nil_iff.mp moves.ahead.symm
        exact absurd (Closes.nil_iff.mp closes) (Nat.succ_ne_zero depth)
  | case3 passed depth token rest opens ih =>
      rw [ih, closes_behind_iff depth (opens ▸ by decide) (by simp [opens])]
  | case4 passed depth token rest ends ih =>
      rw [ih, closes_behind_iff depth (ends ▸ by decide) (by simp [ends])]
  | case5 passed depth token rest ended =>
      constructor
      · intro same
        cases same
      · rintro ⟨between, moves, closes⟩
        cases between with
        | nil => exact absurd (Closes.nil_iff.mp closes) (Nat.succ_ne_zero depth)
        | cons first between =>
            have same : token :: rest = first :: (between ++ later.ahead) := moves.ahead
            obtain ⟨rfl, _⟩ := List.cons.inj same
            exact absurd ended (unended_cons.mp closes.unended).1
  | case6 passed depth token rest notOpen notClose notEnd ih =>
      rw [ih, closes_behind_iff depth notEnd
        (by rw [if_neg notOpen, if_neg notClose])]

theorem enough_behind {token : Token} {rest between : List Token} {depth : Nat}
    (among : between <+: token :: rest) (unended : Unended between)
    (level : opened between + (depth + 1) ≤ closed between) :
    ∃ more, more <+: rest ∧ token.kind ≠ .eof ∧ Unended more ∧
      opened more + (if token.kind = .leftBrace then 1 else 0) + (depth + 1) ≤
        closed more + if token.kind = .rightBrace then 1 else 0 := by
  rcases List.prefix_cons_iff.mp among with rfl | ⟨more, rfl, within⟩
  · simp [closed] at level
  · rw [unended_cons] at unended
    rw [opened_cons, closed_cons] at level
    exact ⟨more, within, unended.1, unended.2, by omega⟩

theorem closeBraces_succeeds (passed : List Token) (depth : Nat) (ahead : List Token)
    {between : List Token} (among : between <+: ahead) (unended : Unended between)
    (level : opened between + depth ≤ closed between) :
    ∃ later, closeBraces passed depth ahead = (none, later) := by
  fun_induction closeBraces passed depth ahead generalizing between with
  | case1 => exact ⟨_, rfl⟩
  | case2 passed depth =>
      rw [List.prefix_nil.mp among] at level
      simp [closed] at level
  | case3 passed depth token rest opens ih =>
      obtain ⟨more, within, _, unended, level⟩ := enough_behind among unended level
      rw [opens] at level
      apply ih within unended
      simp at level
      omega
  | case4 passed depth token rest ends ih =>
      obtain ⟨more, within, _, unended, level⟩ := enough_behind among unended level
      rw [ends] at level
      apply ih within unended
      simp at level
      omega
  | case5 passed depth token rest ended =>
      obtain ⟨_, _, real, _⟩ := enough_behind among unended level
      exact absurd ended real
  | case6 passed depth token rest notOpen notClose notEnd ih =>
      obtain ⟨more, within, _, unended, level⟩ := enough_behind among unended level
      rw [if_neg notOpen, if_neg notClose] at level
      exact ih within unended level

theorem skipBlock_eq (opens : stream.check .leftBrace = true) :
    ∃ opening rest, stream.ahead = opening :: rest ∧ opening.kind = .leftBrace ∧
      stream.peek = opening ∧ ∀ span later, stream.skipBlock = (.ok span, later) ↔
        closeBraces (opening :: stream.passed) 1 rest = (none, later) ∧
          span = later.spanSince opening.span := by
  obtain ⟨passed, ahead⟩ := stream
  cases ahead with
  | nil => cases opens
  | cons opening rest =>
      have brace : opening.kind = .leftBrace := by
        simpa [check, peek, peekAt] using opens
      have moves : (TokenStream.mk passed (opening :: rest)).Moves ⟨opening :: passed, rest⟩
          [opening] := ⟨rfl, rfl⟩
      have expected := moves.expect (brace ▸ by decide) .missingOpenBlock
      rw [brace] at expected
      refine ⟨opening, rest, rfl, brace, rfl, fun span later => ?_⟩
      simp only [skipBlock, expected]
      generalize closeBraces (opening :: passed) 1 rest = result
      obtain ⟨failure, reached⟩ := result
      cases failure with
      | some error => simp
      | none =>
          constructor
          · intro same
            cases same
            exact ⟨rfl, rfl⟩
          · rintro ⟨same, rfl⟩
            cases same
            rfl

theorem check_of_skipBlock (skipped : stream.skipBlock = (.ok span, later)) :
    stream.check .leftBrace = true := by
  by_contra closed
  have fails : stream.expect .leftBrace .missingOpenBlock =
      .error ⟨.missingOpenBlock, stream.peek.span, none⟩ := by
    simp [TokenStream.expect, eat, closed]
  simp only [skipBlock, fails] at skipped
  cases skipped

/-- A block is skipped up to its end, and nothing else is. -/
theorem skipBlock_iff : stream.skipBlock = (.ok span, later) ↔
    ∃ block, IsBlock block ∧ stream.Moves later block ∧
      span = later.spanSince stream.peek.span := by
  constructor
  · intro skipped
    obtain ⟨opening, rest, ahead, brace, next, skips⟩ :=
      skipBlock_eq (check_of_skipBlock skipped)
    obtain ⟨ends, spans⟩ := (skips span later).mp skipped
    obtain ⟨inside, moves, closes⟩ := (closeBraces_iff ..).mp ends
    obtain ⟨passed, _⟩ := stream
    cases ahead
    exact ⟨opening :: inside, isBlock_cons_iff.mpr ⟨brace, closes⟩, moves_cons_iff.mpr moves,
      next ▸ spans⟩
  · rintro ⟨block, isBlock, moves, spans⟩
    cases block with
    | nil => cases isBlock.opens
    | cons first inside =>
        obtain ⟨brace, closes⟩ := isBlock_cons_iff.mp isBlock
        have opens : stream.check .leftBrace = true := by
          simp [check, peek, peekAt, moves.ahead, brace]
        obtain ⟨opening, rest, ahead, _, next, skips⟩ := skipBlock_eq opens
        have same : opening :: rest = first :: (inside ++ later.ahead) := ahead ▸ moves.ahead
        obtain ⟨rfl, _⟩ := List.cons.inj same
        obtain ⟨passed, _⟩ := stream
        cases ahead
        exact (skips span later).mpr
          ⟨(closeBraces_iff ..).mpr ⟨inside, moves_cons_iff.mp moves, closes⟩, next ▸ spans⟩

theorem skipBlock_succeeds_iff : (∃ span later, stream.skipBlock = (.ok span, later)) ↔
    stream.check .leftBrace = true ∧ ∃ block, block <+: stream.ahead ∧ block ≠ [] ∧
      Unended block ∧ closed block = opened block := by
  constructor
  · rintro ⟨span, later, skipped⟩
    obtain ⟨block, isBlock, moves, _⟩ := skipBlock_iff.mp skipped
    refine ⟨check_of_skipBlock skipped, block, ⟨later.ahead, moves.ahead.symm⟩, ?_,
      isBlock.unended, isBlock.level⟩
    rintro rfl
    cases isBlock.opens
  · rintro ⟨opens, block, among, filled, unended, level⟩
    obtain ⟨opening, rest, ahead, brace, _, skips⟩ := skipBlock_eq opens
    rw [ahead] at among
    rcases List.prefix_cons_iff.mp among with rfl | ⟨inside, rfl, within⟩
    · exact absurd rfl filled
    · rw [opened_cons, closed_cons, brace] at level
      obtain ⟨later, ends⟩ := closeBraces_succeeds (opening :: stream.passed) 1 rest within
        (unended_cons.mp unended).2 (by simp at level; omega)
      exact ⟨_, later, (skips _ later).mpr ⟨ends, rfl⟩⟩

end TokenStream

open TokenStream

theorem BodyParser.skipBlock_of_block {names : CallScope} {scope : Scope} {stream : TokenStream}
    {read : Parsed stream (Block × Scope)} (done : block names scope stream = .ok read) :
    stream.skipBlock = (.ok read.value.1.span, read.rest) := by
  rw [block] at done
  obtain ⟨opening, entered, done⟩ := ok_of_bind done
  obtain ⟨body, leading, done⟩ := ok_of_bind done
  obtain ⟨last, reads, closed, closes⟩ := statements_reads scope.pushBlock opening.rest leading
  obtain ⟨moves, opens⟩ := TokenStream.take_moves entered
  cases done
  exact TokenStream.skipBlock_of_read moves opens reads closed closes

/-- A function whose body was read from its declaration's place on. -/
structure Function.ReadAt (function : Function) (start behind : TokenStream) : Prop where
  block : ∃ names scope, ∃ read : Parsed start (Block × Scope),
    BodyParser.block names scope start = .ok read ∧ read.value.1 = function.body ∧
      read.rest = behind
  span : function.body.span = function.signature.body
  skipped : start.skipBlock = (.ok function.signature.body, behind)

/-- Functions declared one behind the other from a place on, up to the end of the input. Between the
body of one and the next stand only the words and braces of class blocks. -/
inductive LaidOut (classes : ClassTable) : Option String → TokenStream → List Function → Prop where
  | finished {stream : TokenStream} (ended : stream.isAtEnd = true) :
      LaidOut classes none stream []
  | enterBlock {stream inside : TokenStream} {functions : List Function}
      {keyword name opening : Token} (moves : stream.Moves inside [keyword, name, opening])
      (word : keyword.kind = .classKeyword) (named : name.kind = .identifier)
      (opens : opening.kind = .leftBrace)
      (more : LaidOut classes (some name.lexeme) inside functions) :
      LaidOut classes none stream functions
  | leaveBlock {stream behind : TokenStream} {functions : List Function} {className : String}
      {closing : Token} (moves : stream.Moves behind [closing]) (closes : closing.kind = .rightBrace)
      (more : LaidOut classes none behind functions) :
      LaidOut classes (some className) stream functions
  | declaration {classBlock : Option String} {stream behind : TokenStream} {function : Function}
      {functions : List Function} {header : Parsed stream Header}
      (headed : Header.read classes classBlock stream = .ok header)
      (signature : function.signature = { function.signature with
        header := header.value, classBlock
        startsAt := stream.position, bodyAt := header.rest.position })
      (read : function.ReadAt header.rest behind)
      (more : LaidOut classes classBlock behind functions) :
      LaidOut classes classBlock stream (function :: functions)

namespace Compiler

variable {env : CompileEnv} {tokens : List Token}

def Compiled (tokens : List Token) (function : Function) : Prop :=
  let start := (TokenStream.ofTokens tokens).seek function.signature.bodyAt
  ∃ names scope, ∃ read : Parsed start (Block × Scope),
    BodyParser.block names scope start = .ok read ∧ read.value.1 = function.body

theorem compileBody_compiled {program : ProgramId} {declared : List Signature}
    {published : List Function} {signature : Signature} {function : Function}
    (compiled : compileBody env program declared published (.ofTokens tokens) signature =
      .ok function) : Compiled tokens function := by
  unfold compileBody at compiled
  obtain ⟨scope, _, compiled⟩ := ok_of_bind compiled
  obtain ⟨body, read, compiled⟩ := ok_of_bind compiled
  cases compiled
  exact ⟨_, scope, body, read, rfl⟩

theorem Compiled.readAt {function : Function} {start behind : TokenStream}
    (compiled : Compiled tokens function) (within : start.Within tokens)
    (place : function.signature.bodyAt = start.position)
    (skipped : start.skipBlock = (.ok function.signature.body, behind)) :
    function.ReadAt start behind := by
  unfold Compiled at compiled
  rw [place, within.seek] at compiled
  obtain ⟨names, scope, read, done, body⟩ := compiled
  have same := BodyParser.skipBlock_of_block done
  rw [skipped] at same
  simp only [Prod.mk.injEq, Except.ok.injEq] at same
  exact ⟨⟨names, scope, read, done, body, same.2.symm⟩, body ▸ same.1.symm, skipped⟩

theorem readSignatures_laidOut {declared : List Signature} {classBlock : Option String} {next : Nat}
    {stream : TokenStream} (within : stream.Within tokens)
    (read : (readSignatures env declared classBlock next stream).2 = none) :
    ∃ more, (readSignatures env declared classBlock next stream).1 = declared ++ more ∧
      ∀ functions : List Function, functions.map Function.signature = more →
        (∀ function ∈ functions, Compiled tokens function) →
          LaidOut env.classes classBlock stream functions := by
  fun_induction readSignatures env declared classBlock next stream with
  | case1 => cases read
  | case2 declared classBlock next stream item =>
      obtain ⟨rfl, ended⟩ := readItem_moves item
      refine ⟨[], (List.append_nil _).symm, fun functions same _ => ?_⟩
      rw [List.map_eq_nil_iff.mp same]
      exact .finished ended
  | case3 declared classBlock next stream inside item ih =>
      obtain ⟨rfl, keyword, name, opening, moves, word, named, opens, same⟩ := readItem_moves item
      obtain ⟨more, all, laid⟩ := ih (within.moves moves) read
      rw [same] at laid
      exact ⟨more, all, fun functions listed compiled =>
        .enterBlock moves word named opens (laid functions listed compiled)⟩
  | case4 declared classBlock next stream behind item ih =>
      obtain ⟨className, closing, rfl, moves, closes⟩ := readItem_moves item
      obtain ⟨more, all, laid⟩ := ih (within.moves moves) read
      exact ⟨more, all, fun functions listed compiled =>
        .leaveBlock moves closes (laid functions listed compiled)⟩
  | case5 declared classBlock next stream found item ih =>
      obtain ⟨header, headed, _, signature, skipped⟩ :=
        readSignature_found (readItem_declaration item)
      have start := within.reads (Header.read_reads headed)
      obtain ⟨between, moves⟩ := TokenStream.skipBlock_moves skipped
      obtain ⟨more, all, laid⟩ := ih (start.moves moves) read
      refine ⟨found.value :: more, by rw [all, List.append_assoc]; rfl, ?_⟩
      intro functions listed compiled
      obtain ⟨function, others, rfl, first, rest⟩ := List.map_eq_cons_iff.mp listed
      rw [← first] at signature skipped
      have place : function.signature.bodyAt = header.rest.position := by rw [signature]
      exact .declaration headed (by rw [signature])
        ((compiled function (List.mem_cons_self ..)).readAt start place skipped)
        (laid others rest fun other among => compiled other (List.mem_cons_of_mem _ among))

theorem compile_laidOut {id : ProgramId} {name source : String} {ids after : Identities}
    {program : Program} {published : PublicIndex Function}
    (compiled : compile env id name source ids = (.ok program, after, published)) :
    ∃ tokens, tokenize source = .ok tokens ∧
      LaidOut env.classes none (.ofTokens tokens) program.functions := by
  obtain ⟨tokens, split, read, bodies⟩ := compile_parts compiled
  obtain ⟨more, all, laid⟩ := @readSignatures_laidOut env tokens [] none (ids.lastFunction + 1)
    (.ofTokens tokens) rfl (congrArg Prod.snd read)
  rw [read, List.nil_append] at all
  refine ⟨tokens, split, laid program.functions all fun function among => ?_⟩
  obtain ⟨visible, body⟩ := (compileBodies_each bodies).2 function among
  exact compileBody_compiled body

end Compiler

/-- Skipping a block and reading it end at one place: behind the first token up to which as many braces
are closed as opened. So each function of a program covers what was skipped for its declaration, and
the next declaration starts where that ended. -/
theorem body_regions_agree :
    (∀ (stream later : TokenStream) (span : Span), stream.skipBlock = (.ok span, later) ↔
      ∃ block, IsBlock block ∧ stream.Moves later block ∧
        span = later.spanSince stream.peek.span) ∧
    (∀ stream : TokenStream, (∃ span later, stream.skipBlock = (.ok span, later)) ↔
      stream.check .leftBrace = true ∧ ∃ block, block <+: stream.ahead ∧ block ≠ [] ∧
        Unended block ∧ closed block = opened block) ∧
    (∀ (names : CallScope) (scope : Scope) (stream : TokenStream)
        (read : Parsed stream (Block × Scope)),
      BodyParser.block names scope stream = .ok read →
        stream.skipBlock = (.ok read.value.1.span, read.rest)) ∧
    (∀ (env : CompileEnv) (id : ProgramId) (name source : String) (ids after : Identities)
        (program : Program) (published : PublicIndex Function),
      Compiler.compile env id name source ids = (.ok program, after, published) →
        ∃ tokens, tokenize source = .ok tokens ∧
          LaidOut env.classes none (.ofTokens tokens) program.functions) := by
  refine ⟨?_, ?_, ?_, ?_⟩
  · exact fun stream later span => TokenStream.skipBlock_iff
  · exact fun stream => TokenStream.skipBlock_succeeds_iff
  · exact fun names scope stream read done => BodyParser.skipBlock_of_block done
  · exact fun env id name source ids after program published compiled =>
      Compiler.compile_laidOut compiled

def nestedBlocks : String :=
  "int main() { int a = 1; { int b = a; { } a = b; } return a; }
   class Tank { int drain(int n) { { level = level - n; } return level; } int all() { return level; } }
   void Tank::fill(int n) { level = level + n; }"

theorem body_regions_agree_of_nestedBlocks :
    let env : CompileEnv :=
      { classes := ⟨[{ name := "Tank", fields := [⟨"level", .int, false⟩] }]⟩
        programs := {}, published := {}, withPublic := true }
    ∃ program tokens, (Compiler.compile env ⟨1⟩ "tank" nestedBlocks {}).1 = .ok program ∧
      program.functions.map Function.name = ["main", "drain", "all", "fill"] ∧
      tokenize nestedBlocks = .ok tokens ∧
      LaidOut env.classes none (.ofTokens tokens) program.functions := by
  intro env
  have names : (Compiler.compile env ⟨1⟩ "tank" nestedBlocks {}).1.toOption.map
      (fun program => program.functions.map Function.name) =
        some ["main", "drain", "all", "fill"] := by
    decide +kernel
  cases compiled : Compiler.compile env ⟨1⟩ "tank" nestedBlocks {} with
  | mk result more =>
      rw [compiled] at names
      cases result with
      | error => cases names
      | ok program =>
          obtain ⟨tokens, split, laid⟩ :=
            body_regions_agree.2.2.2 env ⟨1⟩ "tank" nestedBlocks {} _ program _ compiled
          exact ⟨program, tokens, rfl, Option.some.inj names, split, laid⟩

end ScriptEngine
