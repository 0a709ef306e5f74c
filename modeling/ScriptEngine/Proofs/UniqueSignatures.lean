import ScriptEngine.Proofs.LoadedIndexes
/-! No two functions that could be meant by one call have the same signature. A declaration is checked
when it is read, against what its unit declared before it and what is loaded, and nothing else is
loaded or published until its unit is. -/

namespace ScriptEngine

namespace Header

def Repeats (header other : Header) : Prop :=
  header.name = other.name ∧ header.owner = other.owner ∧
    header.params.types = other.params.types

section

variable {header other : Header}

theorem Repeats.symm (repeats : header.Repeats other) : other.Repeats header :=
  ⟨repeats.1.symm, repeats.2.1.symm, repeats.2.2.symm⟩

theorem clashes_iff : header.clashes other = true ↔ header.Repeats other := by
  simp [clashes, Repeats, ParamList.agrees, and_assoc]

end

theorem readModifiers_private (before : Modifiers) (stream : TokenStream)
    {read : Reached stream Modifiers} (done : readModifiers true before stream = .ok read)
    (isPrivate : before.isPublic = false) : read.value.isPublic = false := by
  rw [readModifiers] at done
  split at done
  · cases done
    exact isPrivate
  · rename_i token next
    have shorter := token.shorter
    dsimp only at done
    split at done
    · cases done
    · obtain ⟨all, behind, done⟩ := ok_of_bind done
      cases done
      exact readModifiers_private _ token.rest behind isPrivate
    · obtain ⟨all, behind, done⟩ := ok_of_bind done
      cases done
      exact readModifiers_private _ token.rest behind isPrivate
    · cases done
      exact isPrivate
termination_by stream.size

theorem read_private {classes : ClassTable} {className : String} {stream : TokenStream}
    {read : Parsed stream Header} (done : Header.read classes (some className) stream = .ok read) :
    read.value.modifiers.isPublic = false := by
  unfold Header.read at done
  obtain ⟨modifiers, leading, done⟩ := ok_of_bind done
  split at done
  · cases done
  · obtain ⟨owner, _, done⟩ := ok_of_bind done
    obtain ⟨name, _, done⟩ := ok_of_bind done
    obtain ⟨params, _, done⟩ := ok_of_bind done
    cases done
    exact readModifiers_private _ stream leading rfl

end Header

namespace Compiler

variable {env : CompileEnv}

structure Unrepeated (env : CompileEnv) (signature : Signature) : Prop where
  /-- Nor is it public in a class block. -/
  enclosed : ∀ className, signature.classBlock = some className →
    (∀ method ∈ env.programs.classMethods className, ¬ signature.header.Repeats method.header) ∧
      env.classes.declares className signature.header.name signature.header.params.types = false ∧
        signature.header.modifiers.isPublic = false
  free : signature.classBlock = none →
    ∀ function ∈ env.published.functions some, ¬ signature.header.Repeats function.header

def Apart (signature other : Signature) : Prop :=
  signature.classBlock = other.classBlock → ¬ signature.header.Repeats other.header

theorem unrepeated_of_new {declared : List Signature} {signature : Signature}
    (new : isRedefinition env declared signature.classBlock signature.header = false)
    (isPrivate : signature.classBlock.isSome = true → signature.header.modifiers.isPublic = false) :
    Unrepeated env signature ∧ ∀ earlier ∈ declared, Apart earlier signature := by
  have apart : ∀ {earlier : Signature}, (earlier.classBlock = signature.classBlock →
      ¬ signature.header.Repeats earlier.header) → Apart earlier signature :=
    fun new same repeats => new same repeats.symm
  cases block : signature.classBlock with
  | none =>
      simp only [block, isRedefinition, Bool.or_eq_false_iff, List.any_eq_false, Bool.and_eq_true,
        decide_eq_true_eq, Header.clashes_iff, not_and] at new
      refine ⟨⟨fun className other => ?_, fun _ => new.2⟩, fun earlier among => apart ?_⟩
      · cases block.symm.trans other
      · rw [block]
        exact new.1 earlier among
  | some className =>
      simp only [block, isRedefinition, Bool.or_eq_false_iff, List.any_eq_false, Bool.and_eq_true,
        decide_eq_true_eq, Header.clashes_iff, not_and] at new
      refine ⟨⟨fun other same => ?_, fun free => ?_⟩, fun earlier among => apart ?_⟩
      · cases block.symm.trans same
        exact ⟨new.1.2, new.2, isPrivate (by rw [block]; rfl)⟩
      · cases block.symm.trans free
      · rw [block]
        exact new.1.1 earlier among

theorem readSignatures_unrepeated {declared : List Signature} {classBlock : Option String}
    {next : Nat} {stream : TokenStream}
    (before : declared.Pairwise Apart ∧ ∀ signature ∈ declared, Unrepeated env signature) :
    let all := (readSignatures env declared classBlock next stream).1
    all.Pairwise Apart ∧ ∀ signature ∈ all, Unrepeated env signature := by
  fun_induction readSignatures env declared classBlock next stream with
  | case1 | case2 => exact before
  | case3 _ _ _ _ _ _ ih | case4 _ _ _ _ _ _ ih => exact ih before
  | case5 declared classBlock next stream found read ih =>
      obtain ⟨header, headed, new, same, _⟩ := readSignature_found (readItem_declaration read)
      have block : found.value.classBlock = classBlock := by rw [same]
      have head : found.value.header = header.value := by rw [same]
      rw [← block, ← head] at new
      obtain ⟨unrepeated, apart⟩ := unrepeated_of_new new fun enclosed => by
        rw [block] at enclosed
        obtain ⟨className, rfl⟩ := Option.isSome_iff_exists.mp enclosed
        rw [head]
        exact Header.read_private headed
      refine ih ⟨List.pairwise_append.mpr ⟨before.1, List.pairwise_singleton .., ?_⟩, ?_⟩
      · intro earlier among last only
        rw [List.mem_singleton.mp only]
        exact apart earlier among
      · intro signature among
        rcases List.mem_append.mp among with old | last
        · exact before.2 signature old
        · rw [List.mem_singleton.mp last]
          exact unrepeated

theorem compile_unrepeated {id : ProgramId} {name source : String} {ids after : Identities}
    {program : Program} {published : PublicIndex Function}
    (compiled : compile env id name source ids = (.ok program, after, published)) :
    program.functions.Pairwise (fun function other => Apart function.signature other.signature) ∧
      ∀ function ∈ program.functions, Unrepeated env function.signature := by
  obtain ⟨tokens, _, read, _⟩ := compile_parts compiled
  have all := @readSignatures_unrepeated env [] none (ids.lastFunction + 1) (.ofTokens tokens)
    ⟨.nil, nofun⟩
  rw [read] at all
  exact ⟨List.pairwise_map.mp all.1, List.forall_mem_map.mp all.2⟩

theorem compile_unenclosed {id : ProgramId} {name source : String} {ids after : Identities}
    {program : Program} {published : PublicIndex Function}
    (compiled : compile env id name source ids = (.ok program, after, published)) :
    ∀ function ∈ program.functions, function.isPublic = true →
      function.signature.classBlock = none := by
  intro function declared isPublic
  cases block : function.signature.classBlock with
  | none => rfl
  | some className =>
      have unrepeated := (compile_unrepeated compiled).2 function declared
      have hidden := (unrepeated.enclosed className block).2.2
      cases isPublic.symm.trans hidden

end Compiler

def Unalike (functions : List Function) : Prop :=
  functions.Pairwise fun function other => ¬ function.header.Repeats other.header

/-- No two public functions of some programs, no two free functions of one of them and no two of their
methods for one class have the same signature, and no method has one that its class declares. -/
structure Program.AllUnalike (programs : List Program) (classes : ClassTable) : Prop where
  published : Unalike (programs.flatMap Program.publicFunctions)
  free : ∀ program ∈ programs, Unalike program.free
  methods : ∀ className, Unalike (programs.flatMap fun program => program.methods className)
  undeclared : ∀ program ∈ programs, ∀ className, ∀ method ∈ program.methods className,
    classes.declares className method.name method.params.types = false

namespace Program.AllUnalike

variable {programs fewer : List Program} {classes newer : ClassTable}

theorem nil : AllUnalike [] classes := ⟨.nil, nofun, fun _ => .nil, nofun⟩

theorem sublist (unalike : AllUnalike programs classes) (among : fewer.Sublist programs) :
    AllUnalike fewer classes where
  published := unalike.published.sublist (among.flatMap _)
  free program held := unalike.free program (among.subset held)
  methods className := (unalike.methods className).sublist (among.flatMap _)
  undeclared program held := unalike.undeclared program (among.subset held)

theorem within (unalike : AllUnalike programs classes)
    (coherent : ∀ program ∈ programs, ∀ function ∈ program.functions, function.Coherent classes)
    (grows : classes.Within newer) : AllUnalike programs newer where
  published := unalike.published
  free := unalike.free
  methods := unalike.methods
  undeclared program among className method declared := by
    have undeclared := unalike.undeclared program among className method declared
    obtain ⟨listed, block⟩ := List.mem_filter.mp declared
    have known := coherent program among method listed
    have owner := known.enclosed className (of_decide_eq_true block)
    obtain ⟨decl, found⟩ := Option.isSome_iff_exists.mp (known.owned className owner)
    simpa [ClassTable.declares, found, grows className decl found] using undeclared

end Program.AllUnalike

namespace Engine

variable {engine after : Engine} {known : List Function}

theorem Knows.load_unalike {id : ProgramId} {name source : String} {ids later : Identities}
    {program : Program} {published : PublicIndex Function} (knows : engine.Knows known)
    (unalike : Program.AllUnalike engine.code.programs.loaded engine.code.classes)
    (compiled : Compiler.compile engine.compileEnv id name source ids =
      (.ok program, later, published)) :
    Program.AllUnalike (engine.code.programs.loaded ++ [program]) engine.code.classes := by
  obtain ⟨apart, unrepeated⟩ := Compiler.compile_unrepeated compiled
  have free := Compiler.compile_unenclosed compiled
  -- Functions of one block are checked against each other.
  have within : ∀ {wanted : Function → Bool} {block : Option String},
      (∀ function ∈ program.functions, wanted function = true →
        function.signature.classBlock = block) → Unalike (program.functions.filter wanted) := by
    intro wanted block same
    refine (apart.sublist List.filter_sublist).imp_of_mem fun one other apart => apart ?_
    obtain ⟨first, chosen⟩ := List.mem_filter.mp one
    obtain ⟨second, also⟩ := List.mem_filter.mp other
    rw [same _ first chosen, same _ second also]
  have only : ∀ other ∈ [program], other = program := fun other => List.mem_singleton.mp
  refine ⟨?_, ?_, ?_, ?_⟩
  · rw [List.flatMap_append, List.flatMap_singleton]
    refine List.pairwise_append.mpr ⟨unalike.published, within free, ?_⟩
    intro old before function new
    obtain ⟨among, isPublic⟩ := List.mem_filter.mp new
    have listed : old ∈ engine.code.publicFunctions := by
      rw [knows.publicFunctions]
      exact List.mem_reverse.mpr before
    exact fun repeats =>
      (unrepeated function among).free (free function among isPublic) old listed repeats.symm
  · intro other among
    rcases List.mem_append.mp among with old | new
    · exact unalike.free other old
    · rw [only other new]
      exact within fun function _ unenclosed => Option.isNone_iff_eq_none.mp unenclosed
  · intro className
    rw [List.flatMap_append, List.flatMap_singleton]
    refine List.pairwise_append.mpr ⟨unalike.methods className, ?_, ?_⟩
    · exact within fun function _ enclosed => of_decide_eq_true enclosed
    · intro old before method new
      obtain ⟨among, enclosed⟩ := List.mem_filter.mp new
      have block := of_decide_eq_true enclosed
      have listed : old ∈ engine.code.programs.classMethods className := by
        rw [knows.classMethods]
        exact before
      exact fun repeats =>
        ((unrepeated method among).enclosed className block).1 old listed repeats.symm
  · intro other among className method declared
    rcases List.mem_append.mp among with old | new
    · exact unalike.undeclared other old className method declared
    · rw [only other new] at declared
      obtain ⟨among, enclosed⟩ := List.mem_filter.mp declared
      exact ((unrepeated method among).enclosed className (of_decide_eq_true enclosed)).2.1

theorem Turn.unalike (turn : engine.Turn after) (knows : engine.Knows known)
    (unalike : Program.AllUnalike engine.code.programs.loaded engine.code.classes) :
    Program.AllUnalike after.code.programs.loaded after.code.classes := by
  cases turn with
  | kept programs _ classes _ _ =>
      rw [programs]
      exact unalike.within (fun program among function declared =>
        knows.coherent function (knows.loaded program among function declared).1) classes
  | compiled name source =>
      unfold Engine.compile
      dsimp only
      cases compiled : Compiler.compile engine.compileEnv engine.ids.nextProgram.1 name source
        engine.ids.nextProgram.2 with
      | mk result behind =>
          cases result with
          | error error => exact unalike
          | ok program => exact knows.load_unalike unalike compiled
  | unloaded unloaded =>
      unfold Engine.unload at unloaded
      split at unloaded
      · cases unloaded
      · cases unloaded
        exact unalike.sublist List.filter_sublist

end Engine

namespace Host

theorem after_unalike (operations : List Operation) :
    let code := (after operations).engine.code
    Program.AllUnalike code.programs.loaded code.classes := by
  induction operations using List.reverseRecOn with
  | nil => exact .nil
  | append_singleton operations operation ih =>
      obtain ⟨known, knows⟩ := after_knows operations
      rw [after_concat]
      exact (step_turn (after operations) operation).unalike knows ih

end Host

/-- Whatever is registered, compiled and unloaded, no two public functions agree in name, owner and
types, no two free functions of a program do, and no two methods that programs have for a class agree
in name and types, nor with a call that the class declares. -/
theorem signatures_stay_unique (operations : List Operation) :
    let code := (Host.after operations).engine.code
    code.publicFunctions.Pairwise (fun function other =>
      ¬ (function.name = other.name ∧ function.owner = other.owner ∧
        function.params.types = other.params.types)) ∧
    (∀ program ∈ code.programs, program.free.Pairwise fun function other =>
      ¬ (function.name = other.name ∧ function.owner = other.owner ∧
        function.params.types = other.params.types)) ∧
    ∀ className,
      (code.programs.classMethods className).Pairwise (fun method other =>
        ¬ (method.name = other.name ∧ method.params.types = other.params.types)) ∧
      ∀ method ∈ code.programs.classMethods className,
        code.classes.declares className method.name method.params.types = false := by
  intro code
  obtain ⟨known, knows⟩ := Host.after_knows operations
  have unalike := Host.after_unalike operations
  refine ⟨?_, unalike.free, fun className => ?_⟩
  · have published : code.publicFunctions = code.programs.publicFunctions := knows.publicFunctions
    rw [published]
    exact List.pairwise_reverse.mpr (unalike.published.imp fun apart same =>
      apart (Header.Repeats.symm same))
  · have owner : ∀ method ∈ code.programs.classMethods className, method.owner = some className := by
      intro method among
      obtain ⟨program, loaded, declared, block⟩ := Programs.mem_classMethods among
      exact (knows.coherent method (knows.loaded program loaded method declared).1).enclosed
        className block
    have listed : code.programs.classMethods className =
        code.programs.loaded.flatMap fun program => program.methods className :=
      knows.classMethods className
    constructor
    · have methods := unalike.methods className
      unfold Unalike at methods
      rw [← listed] at methods
      refine methods.imp_of_mem fun one other apart same => apart ?_
      exact ⟨same.1, (owner _ one).trans (owner _ other).symm, same.2⟩
    · intro method among
      rw [listed] at among
      obtain ⟨program, loaded, declared⟩ := List.mem_flatMap.mp among
      exact unalike.undeclared program loaded className method declared

def repeatedUnits : List Operation :=
  [.register { name := "C", methods := [⟨"size", [], .int⟩] },
    .compile "first" "public int f(int a) { return a; } class C { int m() { return 1; } }",
    .compile "again" "public int g() { return 1; } public int f(int b) { return b; }",
    .compile "method" "class C { int m() { return 2; } }",
    .compile "declared" "class C { int size() { return 2; } }", .unload ⟨1⟩,
    .compile "second" "public int f(int b) { return b; } public int f(long b) { return 2; }
      class C { int m() { return 3; } }"]

theorem signatures_stay_unique_of_repeatedUnits :
    let code := (Host.after repeatedUnits).engine.code
    (code.publicFunctions.map fun function => function.params.types) = [[.long], [.int]] ∧
    (code.programs.classMethods "C").map Function.name = ["m"] ∧
    ∃ program ∈ code.programs, program.name = "second" ∧ program.free.length = 2 ∧
      program.free.Pairwise fun function other => ¬ (function.name = other.name ∧
        function.owner = other.owner ∧ function.params.types = other.params.types) := by
  intro code
  have checked : (code.publicFunctions.map (fun function => function.params.types),
      (code.programs.classMethods "C").map Function.name,
      code.programs.loaded.map fun program => (program.name, program.free.length)) =
        ([[.long], [.int]], ["m"], [("second", 2)]) := by
    decide +kernel
  simp only [Prod.mk.injEq] at checked
  obtain ⟨published, methods, loaded⟩ := checked
  obtain ⟨program, among, same⟩ : ∃ program ∈ code.programs,
      (program.name, program.free.length) = ("second", 2) := by
    have listed := List.mem_singleton_self ("second", 2)
    rw [← loaded] at listed
    exact List.mem_map.mp listed
  simp only [Prod.mk.injEq] at same
  exact ⟨published, methods, program, among, same.1, same.2,
    (signatures_stay_unique repeatedUnits).2.1 program among⟩

end ScriptEngine
