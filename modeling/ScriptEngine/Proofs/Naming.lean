import ScriptEngine.Proofs.Keeping
import ScriptEngine.Proofs.Transparency
import ScriptEngine.Proofs.ValueTypes
/-! Names are bound in every run. Whatever a host does that leaves objects what their classes made
them, no running code looks up a name that is not there. -/

namespace ScriptEngine

def naming : Discipline where
  bars cause := cause = .unknownVariable ∨ cause = .missingInstance
  fits _ _ _ := True
  meets _ _ _ := True
  answers _ _ _ _ := True
  remembers _ _ := True

section

variable {realm : Realm} {type : DataType}

theorem naming_stores (value : Value) : naming.Stores realm type value := by
  unfold Discipline.Stores
  split
  · trivial
  · rintro (unknown | missing)
    · cases unknown
    · cases missing

theorem naming_passes {result : Except RuntimeError Value}
    (fails : ∀ error, result = .error error →
      error.cause = .typeMismatch ∨ error.cause = .divisionByZero) :
    naming.Passes realm type result := by
  cases result with
  | ok value => trivial
  | error error =>
      rintro (unknown | missing)
      · rcases fails error rfl with same | same <;> rw [unknown] at same <;> cases same
      · rcases fails error rfl with same | same <;> rw [missing] at same <;> cases same

theorem convert_fails {value : Value} {span : Span} {error : RuntimeError}
    (failed : Evaluation.convert value type span = .error error) : error.cause = .typeMismatch := by
  unfold Evaluation.convert at failed
  split at failed
  · cases failed
  · cases failed
    rfl

theorem negate_fails {value : Value} {span : Span} {error : RuntimeError}
    (failed : Evaluation.negate value type span = .error error) : error.cause = .typeMismatch := by
  unfold Evaluation.negate at failed
  split at failed
  · exact convert_fails failed
  · exact convert_fails failed
  · cases failed
    rfl

theorem compute_fails {operator : Operator} {left right : Value} {span : Span}
    {error : RuntimeError} (failed : Evaluation.compute operator left right type span =
      .error error) : error.cause = .typeMismatch ∨ error.cause = .divisionByZero := by
  unfold Evaluation.compute at failed
  split at failed
  · split at failed
    · rename_i first second _ _
      cases computed : Evaluation.computeInt operator first second span with
      | error cause =>
          rw [computed] at failed
          cases failed
          exact Or.inr (Evaluation.computeInt_fails computed)
      | ok number =>
          rw [computed] at failed
          exact Or.inl (convert_fails failed)
    · cases failed
      exact Or.inl rfl
  · split at failed
    · rename_i first second _ _
      cases computed : Evaluation.computeFloat operator first second span with
      | error cause =>
          rw [computed] at failed
          cases failed
          exact Or.inr (Evaluation.computeFloat_fails computed)
      | ok number =>
          rw [computed] at failed
          exact Or.inl (convert_fails failed)
    · cases failed
      exact Or.inl rfl

theorem operate_fails {operator : Operator} {leftType rightType : DataType} {temps : List Value}
    {span : Span} {error : RuntimeError}
    (failed : Evaluation.operate operator leftType rightType type temps span = .error error) :
    error.cause = .typeMismatch ∨ error.cause = .divisionByZero := by
  unfold Evaluation.operate at failed
  dsimp only at failed
  split at failed
  · cases failed
  · exact compute_fails failed

end

theorem naming_lawful : naming.Lawful where
  barred := by rintro _ (rfl | rfl) <;> rfl
  later := fun _ _ => trivial
  refers := fun _ => trivial
  default := trivial
  literal := fun _ _ => trivial
  stored := fun _ _ _ => naming_stores _
  void := fun _ => naming_stores _
  negated := fun _ _ => naming_passes fun _ failed => Or.inl (negate_fails failed)
  operated := fun _ _ _ => naming_passes fun _ failed => operate_fails failed
  met := fun _ _ _ => trivial
  meets_refl := fun _ _ => trivial
  returned := fun _ _ _ _ => trivial
  bound := by
    intro code function world types type values _ _ _ _ place param placed
    split
    · exact naming_stores _
    · exact nofun
  kept := fun _ _ => trivial

structure Engine.Sound (engine : Engine) (known : List Function) : Prop
    extends engine.Knows known where
  founded : ClassTable.Founded engine.code.classes.classes
  typed : ∀ program ∈ engine.code.programs, ∀ function ∈ program.functions,
    ∃ names, function.Typed names ∧ names.classes.Grows engine.code.classes

namespace Engine.Sound

variable {engine after : Engine} {known more : List Function}

theorem governs (sound : engine.Sound known) :
    naming.Governs (engine.past known) engine.code where
  toFits := sound.fits
  lawful := naming_lawful
  founded := sound.founded
  member := fun _ _ _ _ _ => ⟨fun _ => trivial, fun _ => naming_stores _⟩
  compiled := by
    intro function owns
    obtain ⟨program, loaded, _, among, _⟩ := sound.function?_iff.mp owns
    obtain ⟨names, typed, grows⟩ := sound.typed program loaded function among
    refine ⟨names, typed, owns, grows, fun call _ type _ => ⟨?_, ?_⟩⟩
    · exact fun _ _ _ => ⟨fun _ _ _ => ⟨trivial, trivial⟩, fun _ _ _ => nofun⟩
    · exact fun _ _ _ _ _ _ _ _ => ⟨fun _ _ _ => ⟨trivial, trivial⟩, fun _ _ _ => nofun⟩
  calls := fun {_ _ types _ _} _ => ⟨.void, trivial⟩
  methods := fun {_ _ types _ _} _ => ⟨.void, trivial⟩

theorem fresh : ({} : Engine).Sound [] where
  toKnows := .fresh
  founded := trivial
  typed := nofun

theorem congr (sound : engine.Sound known) (knows : after.Knows more)
    (programs : ∀ program ∈ after.code.programs, program ∈ engine.code.programs)
    (grows : engine.code.classes.Grows after.code.classes)
    (founded : ClassTable.Founded after.code.classes.classes) : after.Sound more where
  toKnows := knows
  founded := founded
  typed := by
    intro program loaded function among
    obtain ⟨names, typed, older⟩ := sound.typed program (programs program loaded) function among
    exact ⟨names, typed, older.trans grows⟩

theorem compile (sound : engine.Sound known) {name source : String}
    (knows : (engine.compile name source).2.Knows more) :
    (engine.compile name source).2.Sound more := by
  unfold Engine.compile at knows ⊢
  dsimp only at knows ⊢
  cases compiled : Compiler.compile engine.compileEnv engine.ids.nextProgram.1 name source
    engine.ids.nextProgram.2 with
  | mk result behind =>
      obtain ⟨ids, published⟩ := behind
      rw [compiled] at knows
      cases result with
      | error error => exact sound.congr knows (fun _ loaded => loaded) (.refl _) sound.founded
      | ok program =>
          refine ⟨knows, sound.founded, fun other loaded function among => ?_⟩
          rcases List.mem_append.mp loaded with old | new
          · exact sound.typed other old function among
          · rw [List.mem_singleton.mp new] at among
            obtain ⟨visible, typed, _⟩ := Compiler.compile_typed compiled function among
            exact ⟨_, typed, .refl _⟩

end Engine.Sound

/-- What a host may do so that objects stay what their classes made them. It may write members, free
objects and make new ones, as long as handles do not come to mean other objects; all of the heap
may be replaced while no call is suspended, and a stack is restored with its programs loaded. -/
def Host.respects (host : Host) : Operation → Prop
  | .changeHeap change =>
      let heap := change host.engine.world.heap
      heap.Reusable ∧ heap.All (Object.IsBuilt host.engine.code.classes) ∧
        (host.engine.world.heap.Leads heap ∨
          ∀ stack ∈ host.executions, stack.isActive = false)
  | .reload place => ∀ stack, host.executions[place]? = some stack →
      stack.root.isLoaded host.engine.code = true
  | _ => True

/-- The hosts that any operations lead to that leave objects what they are. A stack that was saved on
one of them may be restored on another one with the heap that was saved with it, and a stack may be
dropped. -/
inductive Host.Faithful : Host → Prop
  | fresh : Faithful {}
  | step {host : Host} {operation : Operation} : host.Faithful → host.respects operation →
      Faithful (host.step operation)
  | restored {saver host : Host} {stack : Stack} : saver.Faithful → host.Faithful →
      stack ∈ saver.executions → host.Welcomes saver stack → Faithful (host.restoring stack)
  | dropped {host : Host} (place : Nat) : host.Faithful →
      Faithful { host with executions := host.executions.eraseIdx place }

namespace Host

variable {host : Host} {known : List Function}

theorem admits_of_respects {operation : Operation} (respects : host.respects operation) :
    host.admits naming operation := by
  cases operation with
  | changeHeap change =>
      exact ⟨respects.1, respects.2.1, fun _ _ _ _ _ _ _ => trivial, respects.2.2⟩
  | call | callMethod => exact fun _ _ => trivial
  | reload => exact respects
  | register | compile | unload | set | newInstance | bindInstance | newStack | resume | abort
  | copy => trivial

theorem step_sound {more : List Function} (sound : host.engine.Sound known) (operation : Operation)
    (knows : (host.step operation).engine.Knows more) : (host.step operation).engine.Sound more := by
  cases sets : operation.isSetup with
  | false =>
      have code := (@step_twin host operation sets).code
      refine sound.congr knows (fun _ loaded => ?_) ?_ ?_
      · rw [code] at loaded
        exact loaded
      · rw [code]
        exact .refl _
      · rw [code]
        exact sound.founded
  | true =>
      cases operation with
      | register decl =>
          simp only [step, Engine.register] at knows ⊢
          cases registered : host.engine.code.classes.register decl with
          | error error =>
              rw [registered] at knows
              exact sound.congr knows (fun _ loaded => loaded) (.refl _) sound.founded
          | ok classes =>
              rw [registered] at knows
              exact sound.congr knows (fun _ loaded => loaded)
                (ClassTable.register_grows registered)
                (ClassTable.register_founded sound.founded registered)
      | compile name source => exact sound.compile knows
      | unload program =>
          simp only [step, Engine.unload] at knows ⊢
          cases got : host.engine.code.programs.get? program with
          | none =>
              rw [got] at knows
              exact sound.congr knows (fun _ loaded => loaded) (.refl _) sound.founded
          | some loaded =>
              rw [got] at knows
              exact sound.congr knows (fun _ loaded => (List.mem_filter.mp loaded).1) (.refl _)
                sound.founded
      | set setting value =>
          cases setting <;>
            exact sound.congr knows (fun _ loaded => loaded) (.refl _) sound.founded
      | newInstance | bindInstance | changeHeap | newStack | call | callMethod | resume | abort
      | copy | reload => cases sets

theorem Faithful.named (faithful : host.Faithful) : ∃ known, host.Formed known ∧
    host.engine.Sound known ∧ host.Keeping naming (host.engine.past known) := by
  induction faithful with
  | fresh => exact ⟨[], .fresh, .fresh, .fresh trivial⟩
  | @step host operation _ respects ih =>
      obtain ⟨known, formed, sound, named⟩ := ih
      obtain ⟨more, later⟩ := formed.step operation
      exact ⟨_, later, step_sound sound operation later.knows,
        (step_keeping formed sound.governs named (admits_of_respects respects) fun _ => trivial).mono
          naming_lawful ((step_turn host operation).past_within formed.knows later.knows)⟩
  | @restored saver host stack _ _ among welcomes saver ih =>
      obtain ⟨before, saved, _, standing⟩ := saver
      obtain ⟨known, formed, sound, named⟩ := ih
      obtain ⟨joins, after⟩ := restoring_keeping naming_lawful saved standing formed named among welcomes
      obtain ⟨code, past, knows⟩ := restoring_keeps formed.knows.fits joins welcomes.loaded
      refine ⟨known, restoring_formed formed joins welcomes.loaded, ?_, past ▸ after⟩
      refine sound.congr (knows formed.knows) (fun _ loaded => ?_) ?_ ?_
      · rw [code] at loaded
        exact loaded
      · rw [code]
        exact .refl _
      · rw [code]
        exact sound.founded
  | dropped place _ ih =>
      obtain ⟨known, formed, sound, named⟩ := ih
      refine ⟨known, ⟨formed.knows, fun stack among => ?_⟩, sound, named.congr naming_lawful rfl rfl rfl
        fun stack among => Or.inl (List.mem_of_mem_eraseIdx among)⟩
      exact formed.executions stack (List.mem_of_mem_eraseIdx among)

end Host

/-- In every run, whatever is suspended, saved and restored, no call fails because a variable or the
object of a method is missing, and every name that is looked up is bound: a local is there exactly
once with the name and type that it was declared with, `this` and `super` are there, and a member
is one of the object that `this` means as long as that is there. -/
theorem names_are_bound {host : Host} (faithful : host.Faithful) {operation : Operation}
    {driven : Driven} {mentions : List Mention}
    (drives : host.driving operation = some (driven, mentions)) :
    (∀ error, driven.outcome = .ok (.failed error) →
      error.cause ≠ .unknownVariable ∧ error.cause ≠ .missingInstance) ∧
    ∀ mention ∈ mentions, mention.Bound := by
  obtain ⟨known, _, sound, named⟩ := faithful.named
  have governs := sound.governs
  have admits : host.admits naming operation := by
    cases operation with
    | call | callMethod => exact fun _ _ => trivial
    | resume => trivial
    | register | compile | unload | set | newInstance | bindInstance | changeHeap | newStack | abort
    | copy | reload => cases drives
  have keeps := Host.driving_keeps governs governs.mentions named admits drives
  refine ⟨fun error failed => ?_, keeps.noted⟩
  exact not_or.mp (keeps.spared error failed)

def robotSetup : List Operation :=
  [.register { name := "Base", fields := [⟨"x", .int, false⟩] },
    .register { name := "Robot", parent := some "Base", fields := [⟨"energy", .int, false⟩] },
    .compile "robot" "class Robot \x7b
      int charge(int n) \x7b
        \x7b int more = n; wait(1); energy = energy + more; \x7d
        Base base = super; return this.left();
      \x7d
      int left() \x7b return energy; \x7d
    \x7d"]

def robotSaved : Host := Host.after (robotSetup ++ [.newInstance "Robot", .newStack ⟨1⟩,
  .callMethod 0 ⟨0, 0⟩ "charge" [.holding "" .int (.int 5)] .unlimited])

theorem Host.Faithful.along {host : Host} (faithful : host.Faithful) {operations : List Operation}
    (plain : ∀ operation ∈ operations, ∀ host : Host, host.respects operation) :
    (operations.foldl Host.step host).Faithful := by
  induction operations generalizing host with
  | nil => exact faithful
  | cons operation rest ih =>
      exact ih (faithful.step (plain operation (List.mem_cons_self ..) host))
        fun other among => plain other (List.mem_cons_of_mem _ among)

theorem Host.Faithful.reloaded {saver host : Host} (saved : saver.Faithful)
    (faithful : host.Faithful) (idle : host.executions = [])
    (code : host.engine.code = saver.engine.code) {stack : Stack}
    (among : stack ∈ saver.executions)
    (loaded : stack.root.isLoaded saver.engine.code = true) :
    ((host.step (.changeHeap fun _ => saver.engine.world.heap)).restoring stack).Faithful := by
  obtain ⟨_, _, _, named⟩ := saved.named
  have built := named.healthy.built
  rw [← code] at built loaded
  have adopted : (host.step (.changeHeap fun _ => saver.engine.world.heap)).Faithful := by
    refine faithful.step ⟨named.healthy.reusable, built, Or.inr fun stack among => ?_⟩
    rw [idle] at among
    cases among
  refine .restored saved adopted among ⟨loaded, fun _ _ => ?_, ?_, .refl _⟩
  · rw [← code]
    rfl
  · rw [← code]
    exact .refl _

def robotRestored : Option Host :=
  robotSaved.executions.head?.map
    ((Host.after robotSetup).step (.changeHeap fun _ => robotSaved.engine.world.heap)).restoring

theorem names_are_bound_of_robot : ∃ host driven mentions, robotRestored = some host ∧
    host.driving (.resume 0 .unlimited) = some (driven, mentions) ∧
      driven.int? = some 5 ∧
      mentions.map Mention.target = [.member "energy", .local ⟨1⟩, .member "energy",
        .reserved .super, .reserved .this, .member "energy"] ∧
      (∀ error, driven.outcome = .ok (.failed error) →
        error.cause ≠ .unknownVariable ∧ error.cause ≠ .missingInstance) ∧
      ∀ mention ∈ mentions, mention.Bound := by
  have setup : (Host.after robotSetup).Faithful := .along .fresh (by
    simp [robotSetup, Host.respects])
  have saved : robotSaved.Faithful := .along .fresh (by
    simp [robotSetup, Host.respects])
  have code : (Host.after robotSetup).engine.code = robotSaved.engine.code := by
    have later := (Host.after_setup (robotSetup ++ [.newInstance "Robot", .newStack ⟨1⟩,
      .callMethod 0 ⟨0, 0⟩ "charge" [.holding "" .int (.int 5)] .unlimited])).1.code
    rw [List.filter_append] at later
    exact (Host.after_setup robotSetup).1.code.symm.trans later
  have checked : (robotSaved.executions.head?.any (fun stack =>
        stack.root.isLoaded robotSaved.engine.code) &&
      decide (robotRestored.bind (fun host => (host.driving (.resume 0 .unlimited)).map
        fun (driven, mentions) => (driven.int?, mentions.map Mention.target)) =
          some (some 5, [.member "energy", .local ⟨1⟩, .member "energy", .reserved .super,
            .reserved .this, .member "energy"]))) = true := by
    decide +kernel
  rw [Bool.and_eq_true, decide_eq_true_eq] at checked
  obtain ⟨loaded, shown⟩ := checked
  obtain ⟨host, restored, shown⟩ := Option.bind_eq_some_iff.mp shown
  obtain ⟨⟨driven, mentions⟩, drives, shown⟩ := Option.map_eq_some_iff.mp shown
  obtain ⟨completes, mentioned⟩ := Prod.mk.inj shown
  obtain ⟨stack, found, rfl⟩ := Option.map_eq_some_iff.mp restored
  rw [found] at loaded
  have faithful := saved.reloaded setup (by decide +kernel) code (List.mem_of_head? found) loaded
  exact ⟨_, driven, mentions, restored, drives, completes, mentioned,
    names_are_bound faithful drives⟩

end ScriptEngine
