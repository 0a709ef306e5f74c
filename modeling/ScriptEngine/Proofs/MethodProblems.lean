import ScriptEngine.Proofs.Diagnosing
import ScriptEngine.Proofs.Hosting
/-! What is reported for a method call that no class of the receiver has a method for. The search goes
from class to class and keeps the problem of the first one, while scripts run and while they are
compiled. The methods of the ancestors never come into the report, also where they tell more. -/

namespace ScriptEngine

namespace Overload

variable {α : Type} {view : α → Callable} {hierarchy : Hierarchy} {name : String}
  {args : List DataType} {kept : Option FunctionId} {own all : List α} {cause : CompileCause}

theorem resolveAlong_of_unviable :
    ∀ {offered : List (List α)} (first : Option CompileCause),
      (∀ candidates ∈ offered, ∀ function ∈ candidates, kept ≠ some (view function).id) →
      (∀ candidates ∈ offered, ∀ function ∈ candidates,
        ¬ Viable hierarchy name args (view function)) →
      resolveAlong view hierarchy kept name args first offered =
        (.error (first.getD (blame (misfits view hierarchy name args (offered.headD [])))), kept) := by
  intro offered
  induction offered with
  | nil => exact fun _ _ _ => rfl
  | cons candidates rest ih =>
      intro first unkept unviable
      obtain ⟨here, further⟩ := List.forall_mem_cons.mp unkept
      obtain ⟨refused, others⟩ := List.forall_mem_cons.mp unviable
      have fails : resolve view hierarchy false kept name args candidates [] =
          (.error (blame (misfits view hierarchy name args candidates)), kept) := by
        rw [resolve_of_unkept (by simpa using here), eligible, if_neg Bool.false_ne_true,
          List.append_nil, search_of_unviable refused]
      simp only [resolveAlong, fails]
      rw [ih _ further others]
      rfl

/-- Whether what is wrong with some candidates is what is wrong with all: an argument does not convert
for one of them, or it does for all there are, and the counts are wrong in each way in which some count
is. -/
def Representative (view : α → Callable) (hierarchy : Hierarchy) (name : String)
    (args : List DataType) (own all : List α) : Prop :=
  AnyNamed view name own (Score.Rejects hierarchy · args) ∨
    ¬ AnyNamed view name all (Score.Rejects hierarchy · args) ∧
      (AnyNamed view name all (·.length < args.length) →
        AnyNamed view name own (·.length < args.length)) ∧
      (AnyNamed view name all (args.length < ·.length) →
        AnyNamed view name own (args.length < ·.length))

instance : Decidable (Representative view hierarchy name args own all) :=
  inferInstanceAs (Decidable (_ ∨ _))

theorem AnyNamed.mono {holds : List DataType → Prop} (within : ∀ function ∈ own, function ∈ all)
    (any : AnyNamed view name own holds) : AnyNamed view name all holds := by
  obtain ⟨function, among, called, also⟩ := any
  exact ⟨function, within function among, called, also⟩

theorem representative_iff (within : ∀ function ∈ own, function ∈ all) :
    blame (misfits view hierarchy name args own) = blame (misfits view hierarchy name args all) ↔
      Representative view hierarchy name args own all := by
  rw [blame_eq_iff fun misfit among => mem_misfits_iff.mpr ((mem_misfits_iff.mp among).mono within)]
  simp only [mem_misfits_iff, Score.of_eq_incompatible_iff, Score.of_eq_tooMany_iff,
    Score.of_eq_tooFew_iff]
  refine or_congr_right (and_congr_right fun accepted => ?_)
  rw [anyNamed_and_iff accepted, anyNamed_and_iff accepted,
    anyNamed_and_iff fun rejects => accepted (rejects.mono within),
    anyNamed_and_iff fun rejects => accepted (rejects.mono within)]

/-- What is reported for the candidates of several classes is the problem of the first class, whether or
not it is the problem of all of them. -/
structure ReportsFirst (view : α → Callable) (hierarchy : Hierarchy) (name : String)
    (args : List DataType) (offered : List (List α)) (cause : CompileCause) : Prop where
  first : Diagnosed view hierarchy name args (offered.headD []) cause
  all_iff : Diagnosed view hierarchy name args offered.flatten cause ↔
    Representative view hierarchy name args (offered.headD []) offered.flatten

theorem reportsFirst_blame {offered : List (List α)}
    (unviable : ∀ candidates ∈ offered, ∀ function ∈ candidates,
      ¬ Viable hierarchy name args (view function)) :
    ReportsFirst view hierarchy name args offered
      (blame (misfits view hierarchy name args (offered.headD []))) := by
  have within : ∀ function ∈ offered.headD [], function ∈ offered.flatten := by
    cases offered <;> simp +contextual
  have refused : ∀ function ∈ offered.flatten, ¬ Viable hierarchy name args (view function) := by
    intro function among
    obtain ⟨candidates, listed, among⟩ := List.mem_flatten.mp among
    exact unviable candidates listed function among
  refine ⟨diagnosed_blame fun function among => refused function (within function among), ?_⟩
  rw [diagnosed_iff refused, eq_comm]
  exact representative_iff within

theorem misfits_map (candidates : List α) :
    misfits id hierarchy name args (candidates.map view) =
      misfits view hierarchy name args candidates := by
  simp only [misfits, named, List.filter_map, List.map_map]
  rfl

end Overload

open Overload

/-- The methods that a search for a method of a class goes through, class by class. -/
def Code.methodsAlong (code : Code) (className : String) : List (List Function) :=
  (code.classes.chain className).map fun decl => code.programs.classMethods decl.name

def CallScope.methodsAlong (scope : CallScope) (className : String) : List (List Callable) :=
  (scope.classes.chain className).map fun decl => scope.methods decl.name

section

variable {code : Code} {scope : CallScope} {className name : String} {args : List DataType}
  {kept : Option FunctionId}

theorem Code.resolveMethod_of_unviable
    (unkept : ∀ methods ∈ code.methodsAlong className, ∀ function ∈ methods, kept ≠ some function.id)
    (unviable : ∀ methods ∈ code.methodsAlong className, ∀ function ∈ methods,
      ¬ Viable code.classes.derives name args function.callable) :
    code.resolveMethod className kept name args =
      (.error (blame (misfits Function.callable code.classes.derives name args
        ((code.methodsAlong className).headD []))), kept) :=
  resolveAlong_of_unviable none unkept unviable

theorem CallScope.resolveMethod_of_unviable
    (unviable : ∀ methods ∈ scope.methodsAlong className, ∀ callable ∈ methods,
      ¬ Viable scope.classes.derives name args callable) :
    scope.resolveMethod className name args =
      .error (blame (misfits id scope.classes.derives name args
        ((scope.methodsAlong className).headD []))) := by
  have unkept : ∀ methods ∈ scope.methodsAlong className, ∀ callable ∈ methods,
      none ≠ some (id callable).id := fun _ _ _ _ => nofun
  have refused := resolveAlong_of_unviable none unkept unviable
  exact congrArg Prod.fst refused

theorem resolveMethod_refused_alike {cause : CompileCause} (sameClasses : scope.classes = code.classes)
    (sameMethods : ∀ decl ∈ code.classes.chain className, (scope.methods decl.name).Perm
      ((code.programs.classMethods decl.name).map Function.callable))
    (unkept : ∀ methods ∈ code.methodsAlong className, ∀ function ∈ methods, kept ≠ some function.id)
    (unviable : ∀ methods ∈ code.methodsAlong className, ∀ function ∈ methods,
      ¬ Viable code.classes.derives name args function.callable) :
    scope.resolveMethod className name args = .error cause ↔
      code.resolveMethod className kept name args = (.error cause, kept) := by
  have unviableThere : ∀ methods ∈ scope.methodsAlong className, ∀ callable ∈ methods,
      ¬ Viable scope.classes.derives name args callable := by
    rw [CallScope.methodsAlong, sameClasses]
    refine List.forall_mem_map.mpr fun decl inChain callable among => ?_
    obtain ⟨function, known, rfl⟩ := List.mem_map.mp ((sameMethods decl inChain).mem_iff.mp among)
    exact unviable _ (List.mem_map_of_mem inChain) function known
  have firstAlike : ((scope.methodsAlong className).headD []).Perm
      (((code.methodsAlong className).headD []).map Function.callable) := by
    rw [CallScope.methodsAlong, Code.methodsAlong, sameClasses]
    cases chained : code.classes.chain className with
    | nil => exact .refl _
    | cons decl _ => exact sameMethods decl (chained ▸ List.mem_cons_self)
  have alike : blame (misfits id code.classes.derives name args
        ((scope.methodsAlong className).headD [])) =
      blame (misfits Function.callable code.classes.derives name args
        ((code.methodsAlong className).headD [])) := by
    rw [blame_congr fun _ => misfits_perm firstAlike, misfits_map]
  rw [Code.resolveMethod_of_unviable unkept unviable,
    CallScope.resolveMethod_of_unviable unviableThere, sameClasses, alike]
  simp

end

/-- A method call that means nothing is reported as if the receiver's class had no ancestors, by the
compiler and by the running engine, and alike by both. -/
theorem own_class_problem_reported {className name : String} {args : List DataType} :
    (∀ (code : Code) (kept : Option FunctionId),
      (∀ methods ∈ code.methodsAlong className, ∀ function ∈ methods, kept ≠ some function.id) →
      (∀ methods ∈ code.methodsAlong className, ∀ function ∈ methods,
        ¬ Viable code.classes.derives name args function.callable) →
      ∃ cause, code.resolveMethod className kept name args = (.error cause, kept) ∧
        ReportsFirst Function.callable code.classes.derives name args (code.methodsAlong className)
          cause) ∧
    (∀ scope : CallScope,
      (∀ methods ∈ scope.methodsAlong className, ∀ callable ∈ methods,
        ¬ Viable scope.classes.derives name args callable) →
      ∃ cause, scope.resolveMethod className name args = .error cause ∧
        ReportsFirst id scope.classes.derives name args (scope.methodsAlong className) cause) ∧
    ∀ (code : Code) (scope : CallScope) (kept : Option FunctionId),
      scope.classes = code.classes →
      (∀ decl ∈ code.classes.chain className, (scope.methods decl.name).Perm
        ((code.programs.classMethods decl.name).map Function.callable)) →
      (∀ methods ∈ code.methodsAlong className, ∀ function ∈ methods, kept ≠ some function.id) →
      (∀ methods ∈ code.methodsAlong className, ∀ function ∈ methods,
        ¬ Viable code.classes.derives name args function.callable) →
      ∀ cause, scope.resolveMethod className name args = .error cause ↔
        code.resolveMethod className kept name args = (.error cause, kept) := by
  refine ⟨fun code kept unkept unviable => ?_, fun scope unviable => ?_,
    fun code scope kept sameClasses sameMethods unkept unviable cause => ?_⟩
  · exact ⟨_, Code.resolveMethod_of_unviable unkept unviable, reportsFirst_blame unviable⟩
  · exact ⟨_, CallScope.resolveMethod_of_unviable unviable, reportsFirst_blame unviable⟩
  · exact resolveMethod_refused_alike sameClasses sameMethods unkept unviable

def layered (source : String) : Engine :=
  (Host.after [.register { name := "Base" }, .register { name := "Derived", parent := some "Base" },
    .compile "methods" source]).engine

theorem own_class_problem_reported_of_layered :
    let engine := layered
      "class Derived { int m() { return 1; } } class Base { int m(string s) { return 2; } }"
    let scope := Compiler.callScope engine.compileEnv [] []
    (∀ methods ∈ engine.code.methodsAlong "Derived", ∀ function ∈ methods,
      none ≠ some function.id) ∧
    (∀ methods ∈ engine.code.methodsAlong "Derived", ∀ function ∈ methods,
      ¬ Viable engine.code.classes.derives "m" [.int] function.callable) ∧
    (∀ methods ∈ scope.methodsAlong "Derived", ∀ callable ∈ methods,
      ¬ Viable scope.classes.derives "m" [.int] callable) ∧
    engine.code.resolveMethod "Derived" none "m" [.int] = (.error .tooManyParameters, none) ∧
    ¬ Representative Function.callable engine.code.classes.derives "m" [.int]
      ((engine.code.methodsAlong "Derived").headD []) (engine.code.methodsAlong "Derived").flatten ∧
    ReportsFirst Function.callable engine.code.classes.derives "m" [.int]
      (engine.code.methodsAlong "Derived") .tooManyParameters ∧
    scope.resolveMethod "Derived" "m" [.int] = .error .tooManyParameters ∧
    ReportsFirst id scope.classes.derives "m" [.int] (scope.methodsAlong "Derived")
      .tooManyParameters := by
  intro engine scope
  have unkept : ∀ methods ∈ engine.code.methodsAlong "Derived", ∀ function ∈ methods,
      none ≠ some function.id := fun _ _ _ _ => nofun
  have sameMethods : ∀ decl ∈ engine.code.classes.chain "Derived", (scope.methods decl.name).Perm
      ((engine.code.programs.classMethods decl.name).map Function.callable) := fun _ _ => .refl _
  obtain ⟨unviable, unviableThere, blamed, unlike⟩ :
      (∀ methods ∈ engine.code.methodsAlong "Derived", ∀ function ∈ methods,
        ¬ Viable engine.code.classes.derives "m" [.int] function.callable) ∧
      (∀ methods ∈ scope.methodsAlong "Derived", ∀ callable ∈ methods,
        ¬ Viable scope.classes.derives "m" [.int] callable) ∧
      blame (misfits Function.callable engine.code.classes.derives "m" [.int]
        ((engine.code.methodsAlong "Derived").headD [])) = .tooManyParameters ∧
      ¬ Representative Function.callable engine.code.classes.derives "m" [.int]
        ((engine.code.methodsAlong "Derived").headD [])
        (engine.code.methodsAlong "Derived").flatten := by
    decide +kernel
  have resolved : engine.code.resolveMethod "Derived" none "m" [.int] =
      (.error .tooManyParameters, none) := by
    rw [Code.resolveMethod_of_unviable unkept unviable, blamed]
  obtain ⟨running, compiling, alike⟩ := @own_class_problem_reported "Derived" "m" [.int]
  obtain ⟨_, reported, first⟩ := running engine.code none unkept unviable
  obtain ⟨_, refused, firstThere⟩ := compiling scope unviableThere
  have refusedAlike := (alike engine.code scope none rfl sameMethods unkept unviable _).mpr resolved
  rw [resolved] at reported
  rw [refusedAlike] at refused
  cases reported
  cases refused
  exact ⟨unkept, unviable, unviableThere, resolved, unlike, first, refusedAlike, firstThere⟩

/-- A method that is only inherited is reported as if there were none. -/
theorem inherited_method_undefined :
    let engine := layered "class Base { int m(int a) { return 1; } }"
    let scope := Compiler.callScope engine.compileEnv [] []
    (∀ methods ∈ engine.code.methodsAlong "Derived", ∀ function ∈ methods,
        ¬ Viable engine.code.classes.derives "m" [.int, .int] function.callable) ∧
      Diagnosed Function.callable engine.code.classes.derives "m" [.int, .int]
        (engine.code.methodsAlong "Derived").flatten .tooManyParameters ∧
      engine.code.resolveMethod "Derived" none "m" [.int, .int] = (.error .undefinedCall, none) ∧
      scope.resolveMethod "Derived" "m" [.int, .int] = .error .undefinedCall := by
  intro engine scope
  have unkept : ∀ methods ∈ engine.code.methodsAlong "Derived", ∀ function ∈ methods,
      none ≠ some function.id := fun _ _ _ _ => nofun
  obtain ⟨unviable, diagnosis, blamed, refused⟩ :
      (∀ methods ∈ engine.code.methodsAlong "Derived", ∀ function ∈ methods,
        ¬ Viable engine.code.classes.derives "m" [.int, .int] function.callable) ∧
      blame (misfits Function.callable engine.code.classes.derives "m" [.int, .int]
        (engine.code.methodsAlong "Derived").flatten) = .tooManyParameters ∧
      blame (misfits Function.callable engine.code.classes.derives "m" [.int, .int]
        ((engine.code.methodsAlong "Derived").headD [])) = .undefinedCall ∧
      scope.resolveMethod "Derived" "m" [.int, .int] = .error .undefinedCall := by
    decide +kernel
  refine ⟨unviable, (diagnosed_iff fun function among => ?_).mpr diagnosis, ?_, refused⟩
  · obtain ⟨methods, listed, among⟩ := List.mem_flatten.mp among
    exact unviable methods listed function among
  · rw [Code.resolveMethod_of_unviable unkept unviable, blamed]

end ScriptEngine
