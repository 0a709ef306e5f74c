import ScriptEngine.Proofs.Coherence
import Mathlib.Data.List.Nodup
/-! What compiling a source comes to. The functions of a unit are numbered one after the other; those
that are public stand in front of the index when the unit is compiled, and the index is what it was
before when it is not. -/

namespace ScriptEngine

def Function.entry (function : Function) : FunctionId × Function := (function.id, function)

namespace Compiler

theorem readSignature_id {env : CompileEnv} {declared : List Signature} {classBlock : Option String}
    {id : FunctionId} {stream : TokenStream} {found : Parsed stream Signature}
    (read : readSignature env declared classBlock id stream = .ok found) : found.value.id = id := by
  obtain ⟨_, _, _, same, _⟩ := readSignature_found read
  rw [same]

theorem readSignatures_ids {env : CompileEnv} {base : Nat} {declared : List Signature}
    {classBlock : Option String} {next : Nat} {stream : TokenStream}
    (numbered : declared.map (fun signature => signature.id.number) =
      List.range' base declared.length)
    (follows : next = base + declared.length) :
    let all := (readSignatures env declared classBlock next stream).1
    all.map (fun signature => signature.id.number) = List.range' base all.length := by
  fun_induction readSignatures env declared classBlock next stream with
  | case1 => exact numbered
  | case2 => exact numbered
  | case3 _ _ _ _ _ _ ih => exact ih numbered follows
  | case4 _ _ _ _ _ _ ih => exact ih numbered follows
  | case5 declared classBlock next stream found read ih =>
      apply ih
      · have id := readSignature_id (readItem_declaration read)
        simp only [List.map_append, numbered, List.map_cons, List.map_nil, id, follows,
          List.length_append, List.length_cons, List.length_nil, Nat.zero_add]
        rw [List.range'_concat]
        simp
      · simp only [List.length_append, List.length_cons, List.length_nil]
        omega

theorem compileBody_fields {env : CompileEnv} {program : ProgramId} {declared : List Signature}
    {published : List Function} {stream : TokenStream} {signature : Signature}
    {function : Function}
    (compiled : compileBody env program declared published stream signature = .ok function) :
    function.signature = signature ∧ function.program = program := by
  unfold compileBody at compiled
  obtain ⟨scope, _, compiled⟩ := ok_of_bind compiled
  obtain ⟨body, _, compiled⟩ := ok_of_bind compiled
  cases compiled
  exact ⟨rfl, rfl⟩

theorem compileBodies_cons {env : CompileEnv} {program : ProgramId} {declared : List Signature}
    {stream : TokenStream} {announced : List FunctionId} {index after : PublicIndex Function}
    {signature : Signature} {rest : List Signature} {functions : List Function}
    (compiled : compileBodies env program declared stream announced index (signature :: rest) =
      (.ok functions, after)) :
    ∃ function announced more,
      compileBody env program declared (index.functions some) stream signature = .ok function ∧
      compileBodies env program declared stream announced (publish index function) rest =
        (.ok more, after) ∧ functions = function :: more := by
  rw [compileBodies] at compiled
  split at compiled
  · cases compiled
  · rename_i function first
    dsimp only at compiled
    generalize others : compileBodies _ _ _ _ _ _ rest = result at compiled
    obtain ⟨done, behind⟩ := result
    cases done with
    | error error => cases compiled
    | ok more =>
        cases compiled
        exact ⟨function, _, more, first, others, rfl⟩

theorem compileBodies_each {env : CompileEnv} {program : ProgramId} {declared : List Signature}
    {stream : TokenStream} {signatures : List Signature} :
    ∀ {announced : List FunctionId} {index published : PublicIndex Function}
      {functions : List Function},
      compileBodies env program declared stream announced index signatures =
        (.ok functions, published) →
      functions.map Function.signature = signatures ∧ ∀ function ∈ functions, ∃ visible,
        compileBody env program declared visible stream function.signature = .ok function := by
  induction signatures with
  | nil =>
      intro announced index published functions compiled
      cases compiled
      exact ⟨rfl, fun _ among => nomatch among⟩
  | cons signature rest ih =>
      intro announced index published functions compiled
      obtain ⟨function, announced, more, first, others, rfl⟩ := compileBodies_cons compiled
      obtain ⟨signatures, each⟩ := ih others
      have fields := compileBody_fields first
      refine ⟨by rw [List.map_cons, signatures, fields.1], fun other among => ?_⟩
      rcases List.mem_cons.mp among with rfl | among
      · exact ⟨_, by rw [fields.1]; exact first⟩
      · exact each other among

structure Made (env : CompileEnv) (id : ProgramId) (ids : Identities) (program : Program)
    (after : Identities) : Prop where
  named : program.id = id
  numbered : program.functions.map (fun function => function.id.number) =
    List.range' (ids.lastFunction + 1) program.functions.length
  counted : after = { ids with lastFunction := ids.lastFunction + program.functions.length }
  belongs : ∀ function ∈ program.functions, function.program = id
  coherent : ∀ function ∈ program.functions, function.Coherent env.classes

theorem Made.number {env : CompileEnv} {id : ProgramId} {ids after : Identities}
    {program : Program} (made : Made env id ids program after) {function : Function}
    (declared : function ∈ program.functions) :
    ids.lastFunction < function.id.number ∧ function.id.number ≤ after.lastFunction := by
  have listed := List.mem_map_of_mem (f := fun function => function.id.number) declared
  rw [made.numbered, List.mem_range'_1] at listed
  rw [made.counted]
  dsimp only at listed ⊢
  omega

theorem Made.distinct {env : CompileEnv} {id : ProgramId} {ids after : Identities}
    {program : Program} (made : Made env id ids program after) :
    (program.functions.map Function.id).Nodup := by
  have numbers : ((program.functions.map Function.id).map FunctionId.number).Nodup := by
    rw [List.map_map]
    change (program.functions.map fun function => function.id.number).Nodup
    rw [made.numbered]
    exact List.nodup_range'
  exact numbers.of_map

theorem declarations_read {env : CompileEnv} {next : Nat} {source : String}
    {stream : TokenStream} {declared : List Signature} {failure : Option CompileError}
    (read : declarations env next source = (stream, declared, failure)) :
    declared.map (fun signature => signature.id.number) = List.range' next declared.length ∧
      ∀ signature ∈ declared, signature.Placed env.classes := by
  unfold declarations at read
  split at read
  · cases read
    exact ⟨rfl, nofun⟩
  · rename_i tokens _
    have numbered := @readSignatures_ids env next [] none _ (.ofTokens tokens) rfl rfl
    have placed := @readSignatures_placed env [] none next (.ofTokens tokens)
      nofun nofun
    simp only [Prod.mk.injEq] at read
    simp only [List.length_nil, Nat.add_zero, read.2] at numbered placed
    exact ⟨numbered, placed⟩

/-- A source compiles if its declarations are read up to its end and all their bodies compile. -/
theorem compile_parts {env : CompileEnv} {id : ProgramId} {name source : String}
    {ids after : Identities} {program : Program} {published : PublicIndex Function}
    (compiled : compile env id name source ids = (.ok program, after, published)) :
    ∃ tokens, tokenize source = .ok tokens ∧
      readSignatures env [] none (ids.lastFunction + 1) (.ofTokens tokens) =
        (program.functions.map Function.signature, none) ∧
      compileBodies env id (program.functions.map Function.signature) (.ofTokens tokens) []
        env.published (program.functions.map Function.signature) =
          (.ok program.functions, published) := by
  unfold compile declarations at compiled
  split at compiled
  rename_i stream declared failure read
  split at read
  · cases read
    cases compiled
  · rename_i tokens split
    obtain ⟨rfl, same⟩ := Prod.mk.inj read
    dsimp only at compiled
    split at compiled
    · cases compiled
    · split at compiled
      · cases compiled
      · rename_i functions _ bodies
        cases compiled
        obtain ⟨rfl, _⟩ := compileBodies_each bodies
        exact ⟨tokens, split, same, bodies⟩

theorem compile_made {env : CompileEnv} {id : ProgramId} {name source : String}
    {ids after : Identities} {program : Program} {published : PublicIndex Function}
    (compiled : compile env id name source ids = (.ok program, after, published)) :
    Made env id ids program after := by
  unfold compile at compiled
  cases read : declarations env (ids.lastFunction + 1) source with
  | mk stream found =>
      obtain ⟨declared, failure⟩ := found
      obtain ⟨numbered, placed⟩ := declarations_read read
      simp only [read] at compiled
      split at compiled
      · cases compiled
      · split at compiled
        · cases compiled
        · rename_i functions _ bodies
          obtain ⟨signatures, each⟩ := compileBodies_each bodies
          have length : functions.length = declared.length := by
            rw [← signatures, List.length_map]
          cases compiled
          refine ⟨rfl, ?_, by rw [length], ?_, ?_⟩
          · rw [length, ← numbered, ← signatures, List.map_map]
            rfl
          · intro function among
            obtain ⟨visible, compiled⟩ := each function among
            exact (compileBody_fields compiled).2
          · intro function among
            obtain ⟨visible, compiled⟩ := each function among
            refine compileBody_coherent compiled (placed function.signature ?_)
            rw [← signatures]
            exact List.mem_map_of_mem among

theorem compile_failed {env : CompileEnv} {id : ProgramId} {name source : String}
    {ids after : Identities} {error : CompileError} {published : PublicIndex Function}
    (failed : compile env id name source ids = (.error error, after, published)) :
    ∃ count, after = { ids with lastFunction := ids.lastFunction + count } := by
  unfold compile at failed
  dsimp only at failed
  split at failed
  · cases failed
    exact ⟨_, rfl⟩
  · split at failed
    · cases failed
      exact ⟨_, rfl⟩
    · cases failed

/-! ### Publishing -/

section

variable {env : CompileEnv} {program : ProgramId} {declared : List Signature}
  {stream : TokenStream} {signatures : List Signature}

theorem listed_publish {index : PublicIndex Function} {function : Function}
    (fresh : function.id ∉ index.listed.map Prod.fst) : (publish index function).listed =
      ([function].filter Function.isPublic).map Function.entry ++ index.listed := by
  unfold publish
  split <;> rename_i isPublic
  · have others : index.listed.filter (fun entry => entry.1 ≠ function.id) = index.listed := by
      refine List.filter_eq_self.mpr fun entry among => decide_eq_true fun same => fresh ?_
      exact same ▸ List.mem_map_of_mem among
    rw [PublicIndex.listed_insert, others, List.filter_singleton, isPublic]
    rfl
  · simp [isPublic]

theorem fresh_publish {index : PublicIndex Function} {function : Function} {id : FunctionId}
    (unknown : function.id ∉ index.listed.map Prod.fst) (other : id ≠ function.id)
    (fresh : id ∉ index.listed.map Prod.fst) :
    id ∉ (publish index function).listed.map Prod.fst := by
  rw [listed_publish unknown, List.map_append, List.mem_append, not_or]
  refine ⟨fun again => other ?_, fresh⟩
  obtain ⟨_, listed, rfl⟩ := List.mem_map.mp again
  obtain ⟨only, among, rfl⟩ := List.mem_map.mp listed
  exact congrArg Function.id (List.mem_singleton.mp (List.mem_filter.mp among).1)

theorem compileBodies_published : ∀ {announced : List FunctionId}
    {index published : PublicIndex Function} {functions : List Function},
    compileBodies env program declared stream announced index signatures =
      (.ok functions, published) →
    (signatures.map Signature.id).Nodup →
    (∀ signature ∈ signatures, signature.id ∉ index.listed.map Prod.fst) →
    published.listed =
      ((functions.filter Function.isPublic).map Function.entry).reverse ++ index.listed := by
  induction signatures with
  | nil =>
      intro announced index published functions compiled _ _
      cases compiled
      rfl
  | cons signature rest ih =>
      intro announced index published functions compiled distinct fresh
      obtain ⟨function, announced, more, first, others, rfl⟩ := compileBodies_cons compiled
      have id : function.id = signature.id := congrArg Signature.id (compileBody_fields first).1
      obtain ⟨once, distinct⟩ := List.nodup_cons.mp distinct
      have unknown : function.id ∉ index.listed.map Prod.fst :=
        id ▸ fresh signature (List.mem_cons_self ..)
      have behind := ih others distinct fun other later => ?_
      · rw [behind, listed_publish unknown, List.filter_cons]
        cases isPublic : function.isPublic <;> simp [isPublic]
      · refine fresh_publish unknown (fun same => once ?_) (fresh other (List.mem_cons_of_mem _ later))
        exact (same.trans id) ▸ List.mem_map_of_mem later

theorem compileBodies_withdrawn {before : List (FunctionId × Function)} :
    ∀ {announced : List FunctionId} {index published : PublicIndex Function}
      {error : CompileError},
    compileBodies env program declared stream announced index signatures =
      (.error error, published) →
    (∀ signature ∈ signatures, signature.id ∉ before.map Prod.fst) →
    index.listed.filter (fun entry => entry.1 ∉ announced) = before →
    published.listed = before := by
  induction signatures with
  | nil =>
      intro announced index published error failed
      cases failed
  | cons signature rest ih =>
      intro announced index published error failed fresh kept
      rw [compileBodies] at failed
      split at failed
      · cases failed
        rw [PublicIndex.listed_eraseAll, kept]
      · rename_i function first
        have id : function.id = signature.id := congrArg Signature.id (compileBody_fields first).1
        have unknown : function.id ∉ before.map Prod.fst :=
          id ▸ fresh signature (List.mem_cons_self ..)
        have others : before.filter (fun entry => entry.1 ≠ function.id) = before := by
          refine List.filter_eq_self.mpr fun entry among => decide_eq_true fun same => unknown ?_
          exact same ▸ List.mem_map_of_mem among
        dsimp only at failed
        generalize later : compileBodies _ _ _ _ _ _ rest = result at failed
        obtain ⟨done, behind⟩ := result
        cases done with
        | ok more => cases failed
        | error error =>
            cases failed
            refine ih later (fun other among => fresh other (List.mem_cons_of_mem _ among)) ?_
            unfold publish
            split
            · rw [PublicIndex.listed_insert, List.filter_cons_of_neg (by simp),
                List.filter_filter, ← others, ← kept, List.filter_filter]
              refine List.filter_congr fun entry _ => ?_
              simp only [List.mem_append, List.mem_singleton, not_or, Bool.decide_and]
              cases decide (entry.1 ∉ announced) <;> cases decide (entry.1 ≠ function.id) <;> rfl
            · exact kept

theorem declarations_fresh {next : Nat} {source : String} {failure : Option CompileError}
    (read : declarations env next source = (stream, declared, failure))
    (below : ∀ entry ∈ env.published.listed, entry.1.number < next) :
    (declared.map Signature.id).Nodup ∧
      ∀ signature ∈ declared, signature.id ∉ env.published.listed.map Prod.fst := by
  obtain ⟨numbered, _⟩ := declarations_read read
  constructor
  · refine List.Nodup.of_map FunctionId.number ?_
    rw [List.map_map]
    change (declared.map fun signature => signature.id.number).Nodup
    rw [numbered]
    exact List.nodup_range'
  · intro signature among known
    obtain ⟨entry, listed, same⟩ := List.mem_map.mp known
    have placed := List.mem_map_of_mem (f := fun signature => signature.id.number) among
    rw [numbered, List.mem_range'_1] at placed
    have bound := below entry listed
    rw [same] at bound
    exact absurd bound (Nat.not_lt.mpr placed.1)

theorem signatures_fresh {id : ProgramId} {name source : String} {ids after : Identities}
    {unit : Program} {published : PublicIndex Function}
    (compiled : compile env id name source ids = (.ok unit, after, published))
    (below : ∀ entry ∈ env.published.listed, entry.1.number ≤ ids.lastFunction) :
    ((unit.functions.map Function.signature).map Signature.id).Nodup ∧
      ∀ signature ∈ unit.functions.map Function.signature,
        signature.id ∉ env.published.listed.map Prod.fst := by
  obtain ⟨tokens, split, read, _⟩ := compile_parts compiled
  have declared : declarations env (ids.lastFunction + 1) source =
      (.ofTokens tokens, unit.functions.map Function.signature, none) := by
    unfold declarations
    rw [split]
    exact congrArg (Prod.mk _) read
  exact declarations_fresh declared fun entry among => Nat.lt_succ_of_le (below entry among)

theorem compile_published {id : ProgramId} {name source : String} {ids after : Identities}
    {unit : Program} {published : PublicIndex Function}
    (compiled : compile env id name source ids = (.ok unit, after, published))
    (below : ∀ entry ∈ env.published.listed, entry.1.number ≤ ids.lastFunction) :
    published.listed = ((unit.functions.filter Function.isPublic).map Function.entry).reverse ++
      env.published.listed := by
  obtain ⟨distinct, fresh⟩ := signatures_fresh compiled below
  obtain ⟨_, _, _, bodies⟩ := compile_parts compiled
  exact compileBodies_published bodies distinct fresh

theorem compile_withdrawn {id : ProgramId} {name source : String} {ids after : Identities}
    {error : CompileError} {published : PublicIndex Function}
    (failed : compile env id name source ids = (.error error, after, published))
    (below : ∀ entry ∈ env.published.listed, entry.1.number ≤ ids.lastFunction) :
    published.listed = env.published.listed := by
  unfold compile at failed
  cases read : declarations env (ids.lastFunction + 1) source with
  | mk stream found =>
      obtain ⟨declared, failure⟩ := found
      obtain ⟨_, fresh⟩ := declarations_fresh read fun entry among =>
        Nat.lt_succ_of_le (below entry among)
      simp only [read] at failed
      split at failed
      · cases failed
        rfl
      · split at failed
        · rename_i bodies
          cases failed
          exact compileBodies_withdrawn bodies fresh
            (List.filter_eq_self.mpr fun _ _ => decide_eq_true List.not_mem_nil)
        · cases failed

end

end Compiler

end ScriptEngine
