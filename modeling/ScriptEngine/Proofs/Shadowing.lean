import Mathlib.Data.Nat.Find
import ScriptEngine.Proofs.Scoping
import ScriptEngine.Restoration
/-! What a name means in a function. Of the variables of a name the one that was made visible last
is found, as long as the block it was made in is open; what a local was named is the name of no other
local. -/

namespace ScriptEngine

namespace Scope

/-- A variable was made visible at a place of a history, and the block it was made in is still open:
never since were fewer blocks open than there. -/
structure Stays (returns : DataType) (history : List Step) (place : Nat) (entry : Visible) :
    Prop where
  made : ∃ step, history[place]? = some step ∧
    (run { returns } (history.take place)).Makes step entry
  kept : ∀ later, place ≤ later → depth (history.take place) ≤ depth (history.take later)

/-- Of the variables of a name that stay visible, the one that was made last. -/
def Latest (returns : DataType) (history : List Step) (name : String) (entry : Visible) : Prop :=
  ∃ place, Stays returns history place entry ∧ entry.name = name ∧
    ∀ other second, Stays returns history other second → second.name = name → other ≤ place

/-! What is found -/

section

variable {returns : DataType} {history more before inner : List Step} {step : Step} {place : Nat}
  {entry made : Visible} {name : String}

theorem Stays.inside (stays : Stays returns history place entry) : place < history.length := by
  obtain ⟨step, done, _⟩ := stays.made
  exact (List.getElem?_eq_some_iff.mp done).1

theorem Latest.congr {other : List Step}
    (same : ∀ place entry, Stays returns history place entry ↔ Stays returns other place entry) :
    Latest returns history name entry ↔ Latest returns other name entry := by
  simp only [Latest, same]

theorem depth_take_beyond {count : Nat} (beyond : history.length ≤ count) :
    depth ((history ++ more).take count) =
      (more.take (count - history.length)).foldl Step.level (depth history) := by
  rw [List.take_append, List.take_of_length_le beyond, depth_append]

theorem stays_append (inside : place < history.length)
    (above : ∀ count, depth history ≤ (more.take count).foldl Step.level (depth history)) :
    Stays returns (history ++ more) place entry ↔ Stays returns history place entry := by
  have early : ∀ {count}, count ≤ history.length →
      (history ++ more).take count = history.take count := List.take_append_of_le_length
  have same : (history ++ more)[place]? = history[place]? := List.getElem?_append_left inside
  have before := Nat.le_of_lt inside
  constructor
  · intro ⟨made, kept⟩
    rw [early before] at made kept
    refine ⟨same ▸ made, fun later behind => ?_⟩
    rcases Nat.le_total later history.length with within | beyond
    · exact early within ▸ kept later behind
    · have whole := kept history.length before
      rw [List.take_left] at whole
      rwa [List.take_of_length_le beyond]
  · intro ⟨made, kept⟩
    rw [← early before] at made kept
    refine ⟨same.symm ▸ made, fun later behind => ?_⟩
    rcases Nat.le_total later history.length with within | beyond
    · exact (early within).symm ▸ kept later behind
    · have whole := kept history.length before
      rw [List.take_length] at whole
      rw [depth_take_beyond beyond]
      exact Nat.le_trans whole (above _)

theorem stays_concat (kept : depth history ≤ step.level (depth history)) :
    Stays returns (history ++ [step]) place entry ↔
      Stays returns history place entry ∨
        place = history.length ∧ (run { returns } history).Makes step entry := by
  have above : ∀ count, depth history ≤ ([step].take count).foldl Step.level (depth history) := by
    intro count
    cases count with
    | zero => exact Nat.le_refl _
    | succ count =>
        rw [List.take_succ_cons, List.take_nil]
        exact kept
  constructor
  · intro stays
    rcases Nat.lt_or_ge place history.length with inside | behind
    · exact .inl ((stays_append inside above).mp stays)
    · have bound := stays.inside
      rw [List.length_append, List.length_singleton] at bound
      obtain rfl : place = history.length := Nat.le_antisymm (Nat.le_of_lt_succ bound) behind
      obtain ⟨last, done, makes⟩ := stays.made
      rw [List.getElem?_concat_length, Option.some.injEq] at done
      rw [List.take_left, ← done] at makes
      exact .inr ⟨rfl, makes⟩
  · rintro (stays | ⟨rfl, makes⟩)
    · exact (stays_append stays.inside above).mpr stays
    · refine ⟨⟨step, List.getElem?_concat_length, by rwa [List.take_left]⟩, fun later behind => ?_⟩
      rw [List.take_left, depth_take_beyond behind]
      exact above _

theorem stays_block (nested : Nested inner) :
    Stays returns (before ++ (.enter :: inner ++ [.leave])) place entry ↔
      Stays returns before place entry := by
  have level := nested.block.level (depth before)
  constructor
  · intro stays
    rcases Nat.lt_or_ge place before.length with inside | behind
    · exact (stays_append inside level.2).mp stays
    · obtain ⟨step, done, makes⟩ := stays.made
      rw [List.getElem?_append_right behind] at done
      have kept := stays.kept _ (Nat.le_of_lt stays.inside)
      rw [List.take_length, depth_take_beyond behind, depth_append, level.1] at kept
      exact absurd kept (Nat.not_le_of_lt (nested.inside makes.flat done _))
  · exact fun stays => (stays_append stays.inside level.2).mpr stays

theorem latest_concat (makes : (run { returns } history).Makes step made) :
    Latest returns (history ++ [step]) name entry ↔
      if made.name = name then made = entry else Latest returns history name entry := by
  have kept := Nat.le_of_eq (Step.level_of_flat makes.flat (depth history)).symm
  split
  · rename_i named
    constructor
    · rintro ⟨place, stays, _, last⟩
      have bound := last history.length made ((stays_concat kept).mpr (.inr ⟨rfl, makes⟩)) named
      rcases (stays_concat kept).mp stays with early | ⟨_, also⟩
      · exact absurd early.inside (Nat.not_lt_of_le bound)
      · exact makes.unique also
    · rintro rfl
      refine ⟨history.length, (stays_concat kept).mpr (.inr ⟨rfl, makes⟩), named,
        fun other second stays _ => ?_⟩
      have bound := stays.inside
      rw [List.length_append, List.length_singleton] at bound
      exact Nat.le_of_lt_succ bound
  · rename_i differs
    have same : ∀ {place other}, other.name = name →
        (Stays returns (history ++ [step]) place other ↔ Stays returns history place other) := by
      intro place other named
      rw [stays_concat kept, or_iff_left]
      rintro ⟨_, also⟩
      exact differs (makes.unique also ▸ named)
    constructor
    · rintro ⟨place, stays, named, last⟩
      exact ⟨place, (same named).mp stays, named,
        fun other second also named => last other second ((same named).mpr also) named⟩
    · rintro ⟨place, stays, named, last⟩
      exact ⟨place, (same named).mpr stays, named,
        fun other second also named => last other second ((same named).mp also) named⟩

/-- Looking a name up finds the variable that was made last of those that stay visible. -/
theorem lookup_eq_some_iff (history : List Step) :
    (run { returns } history).lookup name = some entry ↔ Latest returns history name entry := by
  rcases List.eq_nil_or_concat' history with rfl | ⟨front, last, rfl⟩
  · exact ⟨nofun, fun ⟨_, stays, _⟩ => absurd stays.inside (Nat.not_lt_zero _)⟩
  · by_cases leaves : last = .leave ∧ 0 < depth front
    · -- The block that is left takes with it what was made since it was entered.
      obtain ⟨rfl, inside⟩ := leaves
      obtain ⟨before, inner, nested, rfl⟩ := exists_opened front inside
      have split : before ++ Step.enter :: inner ++ [Step.leave] =
          before ++ (Step.enter :: inner ++ [Step.leave]) := List.append_assoc ..
      rw [split, run_append, (run_block nested _).lookup, lookup_eq_some_iff before]
      exact Latest.congr fun _ _ => (stays_block nested).symm
    · have known := lookup_eq_some_iff front
      have kept : depth front ≤ last.level (depth front) := by
        cases last with
        | enter => exact Nat.le_succ _
        | leave =>
            have outside := Nat.eq_zero_of_not_pos fun inside => leaves ⟨rfl, inside⟩
            exact outside ▸ Nat.zero_le _
        | _ => exact Nat.le_refl _
      have remains : last = .leave → (run { returns } front).blocks = [] := by
        intro leave
        rw [← List.length_eq_zero_iff, run_blocks_length]
        exact Nat.eq_zero_of_not_pos fun inside => leaves ⟨leave, inside⟩
      rw [run_append, run_cons, run_nil]
      rcases (run { returns } front).act_lookup remains with ⟨made, makes, found⟩ | ⟨idle, found⟩
      · rw [found, latest_concat makes]
        split
        · exact Option.some_inj
        · exact known
      · rw [found, known]
        refine Latest.congr fun place entry => ?_
        rw [stays_concat kept, or_iff_left fun made => idle entry made.2]
termination_by history.length
decreasing_by
  all_goals
    subst_vars
    simp only [List.length_append, List.length_cons, List.length_nil]
    omega

theorem exists_latest (stays : Stays returns history place entry) :
    ∃ last, Latest returns history entry.name last := by
  classical
  let stands (place : Nat) : Prop :=
    ∃ other, Stays returns history place other ∧ other.name = entry.name
  have here : stands place := ⟨entry, stays, rfl⟩
  obtain ⟨last, found, named⟩ := Nat.findGreatest_spec (Nat.le_of_lt stays.inside) here
  exact ⟨last, _, found, named, fun other second also same =>
    Nat.le_findGreatest (Nat.le_of_lt also.inside) ⟨second, also, same⟩⟩

theorem lookup_eq_none_iff (history : List Step) : (run { returns } history).lookup name = none ↔
    ∀ place entry, Stays returns history place entry → entry.name ≠ name := by
  constructor
  · rintro missing place entry stays rfl
    obtain ⟨last, latest⟩ := exists_latest stays
    rw [← lookup_eq_some_iff, missing] at latest
    cases latest
  · intro hidden
    refine Option.eq_none_iff_forall_ne_some.mpr fun entry found => ?_
    obtain ⟨place, stays, named, _⟩ := (lookup_eq_some_iff history).mp found
    exact hidden place entry stays named

end

end Scope

open Scope

theorem distinct_run (returns : DataType) (history : List Step) :
    (run { returns } history).locals.Nodup :=
  (run_sound ⟨List.nodup_nil, fun _ taken => absurd taken List.not_mem_nil⟩ history).distinct

theorem localId?_iff_granted {returns : DataType} {history : List Step} {function : Function}
    (same : function.locals = (run { returns } history).locals) {id : VarId} {name : String} :
    function.localId? name = some id ↔ (id, name) ∈ granted { returns } history := by
  rw [Compiler.localId?_eq_some_iff (same ▸ distinct_run returns history), same, mem_granted_iff]

/-- Whatever is done to a new scope, its locals have different names and are numbered in the order
in which they were declared, so that a function knows each by its name. A declaration is refused if
and only if its name was taken, and is then as good as not made. A name means the variable that was
made last of those that stay visible, and behind a block what it meant before, as it does behind a
block that is read. What is compiled knows its parameters and its locals by their names. -/
theorem scopes_are_lexical (returns : DataType) (history : List Step) :
    let scope := run { returns } history
    let identities := granted { returns } history
    scope.locals.Nodup ∧
    identities = scope.locals.mapIdx (fun place name => (⟨place⟩, name)) ∧
    (∀ function : Function, function.locals = scope.locals → ∀ id name,
      (function.localId? name = some id ↔ (id, name) ∈ identities) ∧
      ∀ var : Variable, var.name = name → (id, name) ∈ identities →
        Restoration.rebind function var = var.bind (.var id)) ∧
    (∀ name type span,
      ((∃ error, scope.addLocal name type span = .error error) ↔ Takes history name) ∧
      ∀ error, scope.addLocal name type span = .error error →
        error = ⟨.redefinedVariable, span, some name⟩ ∧
        ∀ rest, run { returns } (history ++ .declare name type span :: rest) =
          run { returns } (history ++ rest)) ∧
    (∀ name, (∀ entry, scope.lookup name = some entry ↔ Latest returns history name entry) ∧
      (scope.lookup name = none ↔
        ∀ place entry, Stays returns history place entry → entry.name ≠ name)) ∧
    (∀ inner, Nested inner → ∀ name,
      (run { returns } (history ++ (.enter :: inner ++ [.leave]))).lookup name =
        scope.lookup name) ∧
    (∀ names stream read, BodyParser.block names scope stream = .ok read →
      ∀ name, read.value.2.lookup name = scope.lookup name) ∧
    ∀ env id name source ids program after published,
      Compiler.compile env id name source ids = (.ok program, after, published) →
        ∀ function ∈ program.functions, function.locals.Nodup ∧
          ∀ id name, function.localId? name = some id ↔ (id, name) ∈ function.numbered := by
  intro scope identities
  have taken : ∀ {name}, name ∈ scope.taken ↔ Takes history name := by
    intro name
    rw [mem_run_taken, or_iff_right List.not_mem_nil]
  refine ⟨distinct_run returns history, granted_new returns history, ?_, ?_, fun name =>
    ⟨fun _ => lookup_eq_some_iff history, lookup_eq_none_iff history⟩, ?_,
    fun _ _ _ read => BodyParser.block_lookup read, ?_⟩
  · intro function same id name
    refine ⟨localId?_iff_granted same, fun var named among => ?_⟩
    rw [Restoration.rebind, named, (localId?_iff_granted same).mpr among]
  · intro name type span
    rcases scope.act_declare name type span with
      ⟨later, free, added, _⟩ | ⟨used, refused, _, same⟩
    · rw [← taken, added]
      exact ⟨iff_of_false (fun ⟨_, error⟩ => nomatch error) free, nofun⟩
    · rw [← taken, refused]
      refine ⟨iff_of_true ⟨_, rfl⟩ used, fun error raised => ⟨(Except.error.inj raised).symm, ?_⟩⟩
      intro rest
      rw [run_append, run_cons, run_append]
      exact congrArg (fun after => Scope.run after rest) same
  · intro inner nested name
    rw [run_append]
    exact (run_block nested scope).lookup name
  · intro env id name source ids program after published compiled function among
    obtain ⟨steps, same, numbered⟩ := Compiler.compile_steps compiled function among
    exact ⟨same ▸ distinct_run .., fun id name => numbered ▸ localId?_iff_granted same⟩

def hidingSteps : List Step :=
  [.reserve .this (.object "Robot"), .member "energy" .float, .declare "n" .int ⟨1, 2, 1, 3⟩,
    .enter, .declare "energy" .int ⟨2, 7, 20, 26⟩, .leave]

theorem scopes_are_lexical_of_hiding :
    let scope := run { returns := .void } hidingSteps
    let inner : List Step := [.declare "left" .int ⟨4, 7, 40, 44⟩, .enter, .member "n" .int, .leave]
    let compiled := Compiler.compile ⟨{}, {}, .empty, true⟩ ⟨1⟩ "nested"
      "int f(int n) \x7b \x7b int left = n; \x7d int rest = 1; return rest; \x7d" {}
    (∃ (function : Function) (var : Variable) (error : CompileError),
      function.locals = scope.locals ∧ var.name = "energy" ∧
      (⟨1⟩, "energy") ∈ granted { returns := .void } hidingSteps ∧
      scope.addLocal "energy" .int ⟨3, 7, 30, 36⟩ = .error error ∧ Nested inner ∧
      function.localId? "energy" = some ⟨1⟩ ∧
      Restoration.rebind function var = var.bind (.var ⟨1⟩) ∧
      error = ⟨.redefinedVariable, ⟨3, 7, 30, 36⟩, some "energy"⟩ ∧
      scope.lookup "energy" = some ⟨"energy", .float, .member "energy"⟩ ∧
      (run { returns := .void } (hidingSteps ++ (.enter :: inner ++ [.leave]))).lookup "n" =
        scope.lookup "n") ∧
    ∃ program behind, compiled = (.ok program, behind) ∧ ∃ function ∈ program.functions,
      function.numbered = [(⟨0⟩, "n"), (⟨1⟩, "left"), (⟨2⟩, "rest")] ∧
        function.localId? "left" = some ⟨1⟩ := by
  intro scope inner compiled
  let function : Function := { (default : Function) with locals := scope.locals }
  have given : (⟨1⟩, "energy") ∈ granted { returns := .void } hidingSteps := by
    decide
  have refused : scope.addLocal "energy" .int ⟨3, 7, 30, 36⟩ =
      .error ⟨.redefinedVariable, ⟨3, 7, 30, 36⟩, some "energy"⟩ := rfl
  have nested : Nested inner := .append (.flat rfl) (.block (.flat rfl))
  obtain ⟨_, _, numbered, refusals, _, behind, _, known⟩ := scopes_are_lexical .void hidingSteps
  refine ⟨?_, ?_⟩
  · obtain ⟨names, bound⟩ := numbered function rfl ⟨1⟩ "energy"
    exact ⟨function, .new "energy" .int, _, rfl, rfl, given, refused, nested, names.mpr given,
      bound _ rfl given, ((refusals _ _ _).2 _ refused).1, by decide, behind inner nested "n"⟩
  · have listed : (match compiled.1 with
        | .ok program => program.functions.map Function.numbered
        | .error _ => []) = [[(⟨0⟩, "n"), (⟨1⟩, "left"), (⟨2⟩, "rest")]] := by
      decide +kernel
    have compiles := known ⟨{}, {}, .empty, true⟩ ⟨1⟩ "nested"
      "int f(int n) \x7b \x7b int left = n; \x7d int rest = 1; return rest; \x7d" {}
    change ∀ program after published, compiled = (.ok program, after, published) → _ at compiles
    obtain ⟨result, after, published⟩ := compiled
    cases result with
    | error error => cases listed
    | ok program =>
        obtain ⟨function, among, numbered⟩ :=
          List.mem_map.mp (listed ▸ List.mem_singleton_self _ : _ ∈ program.functions.map _)
        refine ⟨program, _, rfl, function, among, numbered, ?_⟩
        exact ((compiles program after published rfl function among).2 ⟨1⟩ "left").mpr
          (by simp [numbered])

end ScriptEngine
