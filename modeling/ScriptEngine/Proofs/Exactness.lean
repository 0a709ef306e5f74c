import ScriptEngine.Proofs.Choosing
import ScriptEngine.Proofs.Parsing
/-! Overloads that take their arguments as they are. All classes have one rank, so an argument is passed
at no cost to a parameter of its type and to one of a class above its own. An overload with the very
types of the arguments therefore loses only to one that stands before it and differs from it in that
some classes are replaced by base classes. -/

namespace ScriptEngine

def Kind.isPlain (kind : Kind) : Bool := kind.isNumeric || kind == .bool || kind == .string

theorem Kind.number_injective {left right : Kind} (same : left.number = right.number) :
    left = right := by
  have again := Kind.ofNumber?_number left
  rw [same, Kind.ofNumber?_number] at again
  exact (Option.some.inj again).symm

theorem conversionCost_eq_zero_iff {expected given : DataType} :
    conversionCost expected given = 0 ↔ expected.rank = given.rank := by
  unfold conversionCost
  split <;> omega

namespace DataType

variable {hierarchy : Hierarchy} {type expected given : DataType}

/-- Whether parameters can be declared with a type: a primitive one other than `void`, a class of the
hierarchy, or an array of whatever. -/
def isDeclarable (hierarchy : Hierarchy) : DataType → Bool
  | .single .object (some className) => hierarchy className className
  | .single kind none => kind.isPlain
  | .over .array none _ => true
  | _ => false

theorem isDeclarable_cases (declarable : type.isDeclarable hierarchy = true) :
    (∃ kind, type = ofKind kind ∧ kind.isPlain = true) ∨
      (∃ className, type = object className ∧ hierarchy className className = true) ∨
      ∃ element, type = arrayOf element := by
  unfold isDeclarable at declarable
  split at declarable
  · exact Or.inr (Or.inl ⟨_, rfl, declarable⟩)
  · exact Or.inl ⟨_, rfl, declarable⟩
  · exact Or.inr (Or.inr ⟨_, rfl⟩)
  · cases declarable

theorem kind_ne_null (declarable : type.isDeclarable hierarchy = true) : type.kind ≠ .null := by
  intro null
  rcases isDeclarable_cases declarable with ⟨kind, rfl, plain⟩ | ⟨_, rfl, _⟩ | ⟨_, rfl⟩
  · obtain rfl : kind = .null := null
    cases plain
  · cases null
  · cases null

theorem rank_of_ne_null (real : type.kind ≠ .null) : type.rank = type.kind.number := by
  unfold rank
  split
  · rename_i null
    exact absurd null real
  · rfl

theorem accepts_plain {kind : Kind} (plain : kind.isPlain = true) :
    (ofKind kind).accepts hierarchy (ofKind kind) = true := by
  cases kind <;> first | rfl | cases plain

theorem accepts_alike (declared : expected.isDeclarable hierarchy = true)
    (passed : given.isDeclarable hierarchy = true) (alike : expected.kind = given.kind) :
    expected.accepts hierarchy given = given.specializes hierarchy expected := by
  rcases isDeclarable_cases declared with ⟨kind, rfl, plain⟩ | ⟨base, rfl, reflexive⟩ | ⟨element, rfl⟩
  · rcases isDeclarable_cases passed with ⟨other, rfl, _⟩ | ⟨derived, rfl, _⟩ | ⟨other, rfl⟩
    · obtain rfl : kind = other := alike
      rw [accepts_plain plain, specializes_refl]
    · obtain rfl : kind = .object := alike
      cases plain
    · obtain rfl : kind = .array := alike
      cases plain
  · rcases isDeclarable_cases passed with ⟨other, rfl, plain⟩ | ⟨derived, rfl, _⟩ | ⟨other, rfl⟩
    · obtain rfl : Kind.object = other := alike
      cases plain
    · change hierarchy derived base =
        (decide (object derived = object base) || (true && true && hierarchy derived base))
      by_cases same : derived = base
      · subst same
        simp [reflexive]
      · simp [object, same]
    · cases alike
  · rcases isDeclarable_cases passed with ⟨other, rfl, plain⟩ | ⟨derived, rfl, _⟩ | ⟨other, rfl⟩
    · obtain rfl : Kind.array = other := alike
      cases plain
    · cases alike
    · change (some element == some other) = (decide (arrayOf other = arrayOf element) || false)
      by_cases same : other = element
      · subst same
        simp
      · simp [arrayOf, same, Ne.symm same]

theorem accepts_free_iff (declared : expected.isDeclarable hierarchy = true)
    (passed : given.isDeclarable hierarchy = true) :
    expected.accepts hierarchy given = true ∧ conversionCost expected given = 0 ↔
      given.specializes hierarchy expected = true := by
  rw [conversionCost_eq_zero_iff, rank_of_ne_null (kind_ne_null declared),
    rank_of_ne_null (kind_ne_null passed)]
  constructor
  · rintro ⟨accepted, same⟩
    exact accepts_alike declared passed (Kind.number_injective same) ▸ accepted
  · intro specializes
    have alike : expected.kind = given.kind := by
      rcases specializes_cases specializes with rfl | ⟨below, above, _⟩
      · rfl
      · rw [above, below]
    exact ⟨(accepts_alike declared passed alike).trans specializes, by rw [alike]⟩

end DataType

theorem DataType.eq_of_specializes {hierarchy : Hierarchy} {expected given : List DataType}
    (specialize : List.Forall₂ (fun param arg => arg.specializes hierarchy param = true) expected given)
    (classless : ∀ type ∈ given, type.kind ≠ .object) : expected = given := by
  induction specialize with
  | nil => rfl
  | cons first _ ih =>
      obtain ⟨here, more⟩ := List.forall_mem_cons.mp classless
      rcases specializes_cases first with rfl | ⟨isObject, _⟩
      · rw [ih more]
      · exact absurd isObject here

theorem Score.free_iff {hierarchy : Hierarchy} {expected : List DataType} :
    ∀ {given : List DataType}, (∀ type ∈ expected, type.isDeclarable hierarchy = true) →
      (∀ type ∈ given, type.isDeclarable hierarchy = true) →
        ((List.Forall₂ (fun param arg => param.accepts hierarchy arg = true) expected given ∧
          Score.cost expected given = 0) ↔
            List.Forall₂ (fun param arg => arg.specializes hierarchy param = true) expected
              given) := by
  induction expected with
  | nil =>
      intro given _ _
      cases given <;> simp [Score.cost]
  | cons param params ih =>
      intro given declared passed
      cases given with
      | nil => simp
      | cons arg args =>
          obtain ⟨first, others⟩ := List.forall_mem_cons.mp declared
          obtain ⟨here, more⟩ := List.forall_mem_cons.mp passed
          rw [List.forall₂_cons, List.forall₂_cons, ← ih others more,
            ← DataType.accepts_free_iff first here]
          simp only [Score.cost, List.zipWith_cons_cons, List.sum_cons, Nat.add_eq_zero_iff]
          tauto

namespace Overload

variable {α : Type} {view : α → Callable} {hierarchy : Hierarchy} {name : String}
  {args : List DataType} {withPublic : Bool} {kept : Option FunctionId}
  {own published : List α} {exact : α} {callable : Callable}

/-- Whether a function of the name takes the arguments as they are: each has the type of its parameter
or is of a class below it. -/
def TakesAsIs (hierarchy : Hierarchy) (name : String) (args : List DataType) (callable : Callable) :
    Prop :=
  callable.name = name ∧ List.Forall₂ (fun param arg => arg.specializes hierarchy param = true)
    callable.params.types args

theorem viable_free_iff
    (declared : ∀ type ∈ callable.params.types, type.isDeclarable hierarchy = true)
    (passed : ∀ type ∈ args, type.isDeclarable hierarchy = true) :
    Viable hierarchy name args callable ∧ cost args callable = 0 ↔
      TakesAsIs hierarchy name args callable := by
  rw [Viable, TakesAsIs, cost, and_assoc, Score.free_iff declared passed]

/-- If an overload has the very types of the arguments, resolution gives the first one that takes them
as they are. That has their types, but for base classes in the place of classes. -/
theorem exact_overload_wins_up_to_bases
    (declared : ∀ function ∈ eligible withPublic own published,
      ∀ type ∈ (view function).params.types, type.isDeclarable hierarchy = true)
    (unkept : ∀ function ∈ own ++ published, kept ≠ some (view function).id)
    (among : exact ∈ eligible withPublic own published) (called : (view exact).name = name)
    (same : (view exact).params.types = args) :
    ∃ found before after,
      resolve view hierarchy withPublic kept name args own published =
        (.ok found, some (view found).id) ∧
      eligible withPublic own published = before ++ found :: after ∧
      TakesAsIs hierarchy name args (view found) ∧
      (∀ other ∈ before, ¬ TakesAsIs hierarchy name args (view other)) ∧
      ((∀ type ∈ args, type.kind ≠ .object) → (view found).params.types = args) := by
  have passed : ∀ type ∈ args, type.isDeclarable hierarchy = true := same ▸ declared exact among
  have free : ∀ function ∈ eligible withPublic own published,
      (Viable hierarchy name args (view function) ∧ cost args (view function) = 0 ↔
        TakesAsIs hierarchy name args (view function)) :=
    fun function listed => viable_free_iff (declared function listed) passed
  have asIs : TakesAsIs hierarchy name args (view exact) :=
    ⟨called, same ▸ List.forall₂_same.mpr fun _ _ => DataType.specializes_refl _⟩
  obtain ⟨viable, costless⟩ := (free exact among).mpr asIs
  obtain ⟨found, searched⟩ := search_succeeds_iff.mpr ⟨exact, among, viable⟩
  have foremost := search_eq_ok_iff_foremost.mp searched
  have bound := foremost.le among viable
  have takes := (free found (search_mem searched)).mp ⟨foremost.viable, by omega⟩
  obtain ⟨_, before, after, split, early, _⟩ := foremost
  refine ⟨found, before, after, ?_, split, takes, fun other sooner also => ?_,
    DataType.eq_of_specializes takes.2⟩
  · rw [resolve_of_unkept unkept, searched]
  · obtain ⟨fits, nothing⟩ := (free other (by simp [split, sooner])).mpr also
    have farther := early other sooner fits
    omega

end Overload

namespace Grammar

variable {classes : ClassTable} {token : Token} {tokens : List Token} {base type : DataType}

theorem IsBase.isDeclarable (isBase : IsBase classes token type) (present : type.isVoid = false) :
    type.isDeclarable classes.derives = true := by
  rcases isBase with keyword | ⟨_, known, rfl⟩
  · unfold TokenKind.type? at keyword
    split at keyword <;> cases keyword <;> first | rfl | cases present
  · exact ClassTable.derives_refl known

theorem array_of_dimensions (dimensions : Repeat IsDimension base tokens type) :
    type = base ∨ ∃ element, type = .arrayOf element := by
  induction dimensions with
  | none => exact Or.inl rfl
  | more first _ ih =>
      cases first
      rcases ih with rfl | array
      · exact Or.inr ⟨_, rfl⟩
      · exact Or.inr array

theorem IsType.isDeclarable (isType : IsType classes tokens type) (present : type.isVoid = false) :
    type.isDeclarable classes.derives = true := by
  obtain ⟨isBase, dimensions⟩ := isType
  rcases array_of_dimensions dimensions with rfl | ⟨element, rfl⟩
  · exact isBase.isDeclarable present
  · rfl

end Grammar

namespace ParamList

variable {classes : ClassTable}

theorem readParam_declarable {earlier : List Param} {stream : TokenStream} {read : Parsed stream Param}
    (done : readParam classes earlier stream = .ok read) :
    read.value.type.isDeclarable classes.derives = true := by
  unfold readParam at done
  dsimp only at done
  split at done
  · cases done
  · rename_i type typed
    split at done
    · cases done
    · rename_i present
      obtain ⟨name, _, done⟩ := ok_of_bind done
      split at done
      · cases done
      · cases done
        obtain ⟨_, _, _, isType, same⟩ := TypeName.read?_readAs typed
        rw [← same]
        exact isType.isDeclarable (by rw [same]; simpa using present)

theorem readParams_declarable {earlier : List Param} (stream : TokenStream)
    {read : Parsed stream (List Param)} (done : readParams classes earlier stream = .ok read)
    (before : ∀ param ∈ earlier, param.type.isDeclarable classes.derives = true) :
    ∀ param ∈ read.value, param.type.isDeclarable classes.derives = true := by
  rw [readParams] at done
  obtain ⟨param, leading, done⟩ := ok_of_bind done
  have shorter := param.shorter
  have upToHere : ∀ other ∈ earlier ++ [param.value],
      other.type.isDeclarable classes.derives = true := by
    intro other among
    rcases List.mem_append.mp among with known | new
    · exact before other known
    · obtain rfl := List.mem_singleton.mp new
      exact readParam_declarable leading
  split at done
  · cases done
    exact upToHere
  · rename_i comma taken
    obtain ⟨more, behind, done⟩ := ok_of_bind done
    have further := comma.shorter
    cases done
    exact readParams_declarable comma.rest behind upToHere
termination_by stream.size

theorem read_declarable {stream : TokenStream} {read : Parsed stream ParamList}
    (done : ParamList.read classes stream = .ok read) :
    ∀ type ∈ read.value.types, type.isDeclarable classes.derives = true := by
  unfold ParamList.read at done
  obtain ⟨opening, _, done⟩ := ok_of_bind done
  split at done
  · cases done
    exact List.forall_mem_nil _
  · obtain ⟨params, between, done⟩ := ok_of_bind done
    obtain ⟨closing, _, done⟩ := ok_of_bind done
    cases done
    intro type among
    obtain ⟨param, declared, rfl⟩ := List.mem_map.mp among
    exact readParams_declarable _ between (List.forall_mem_nil _) param declared

end ParamList

/-- The overloads of a name that sources of parameter lists declare, with identities from a number on. -/
def ClassTable.overloads (classes : ClassTable) (name : String) (number : Nat) (sources : List String) :
    List Callable :=
  (sources.zipIdx number).filterMap fun (source, number) =>
    match tokenize source with
    | .error _ => none
    | .ok tokens =>
        match ParamList.read classes (.ofTokens tokens) with
        | .error _ => none
        | .ok list => some ⟨⟨number⟩, name, list.value, .int⟩

theorem ClassTable.overloads_declarable {classes : ClassTable} {name : String} {number : Nat}
    {sources : List String} : ∀ function ∈ classes.overloads name number sources,
      ∀ type ∈ function.params.types, type.isDeclarable classes.derives = true := by
  intro function among
  obtain ⟨⟨source, place⟩, _, made⟩ := List.mem_filterMap.mp among
  dsimp only at made
  split at made
  · cases made
  · split at made
    · cases made
    · rename_i done
      cases made
      exact ParamList.read_declarable done

namespace Overload

def zoo : ClassTable := ⟨[{ name := "Dog", parent := some "Animal" }, { name := "Animal" }]⟩

theorem exact_overload_wins_up_to_bases_of_dog :
    let own := zoo.overloads "feed" 1 ["(Dog pet, long grams)", "(int count, int grams)"]
    let published := zoo.overloads "feed" 3 ["(Dog dog, int grams)", "(Animal pet, int grams)"]
    let args := [.object "Dog", .int]
    (∀ function ∈ eligible true own published, ∀ type ∈ (id function).params.types,
      type.isDeclarable zoo.derives = true) ∧
    (∀ function ∈ own ++ published, none ≠ some (id function).id) ∧
    (∃ exact ∈ eligible true own published, exact.name = "feed" ∧ exact.params.types = args) ∧
    ∃ found before after,
      resolve id zoo.derives true none "feed" args own published = (.ok found, some found.id) ∧
      eligible true own published = before ++ found :: after ∧
      TakesAsIs zoo.derives "feed" args found ∧
      ∀ other ∈ before, ¬ TakesAsIs zoo.derives "feed" args other := by
  intro own published args
  have declared : ∀ function ∈ eligible true own published, ∀ type ∈ (id function).params.types,
      type.isDeclarable zoo.derives = true := by
    intro function among
    rcases List.mem_append.mp among with mine | others
    · exact ClassTable.overloads_declarable function mine
    · exact ClassTable.overloads_declarable function others
  have unkept : ∀ function ∈ own ++ published, none ≠ some (id function).id := fun _ _ => nofun
  obtain ⟨exact, among, called, same⟩ : ∃ exact ∈ eligible true own published,
      (id exact).name = "feed" ∧ (id exact).params.types = args := by
    decide +kernel
  obtain ⟨found, before, after, resolved, split, takes, first, _⟩ :=
    exact_overload_wins_up_to_bases declared unkept among called same
  exact ⟨declared, unkept, ⟨exact, among, called, same⟩, found, before, after, resolved, split, takes,
    first⟩

/-- Of two overloads the first takes an animal and the second just what the call passes, a dog. The call
means the first. -/
theorem base_overload_taken :
    let overloads := zoo.overloads "feed" 1 ["(Animal pet)", "(Dog dog)"]
    (∃ exact ∈ overloads, exact.name = "feed" ∧ exact.params.types = [.object "Dog"]) ∧
    ∃ found ∈ overloads, found.params.types = [.object "Animal"] ∧
      resolve id zoo.derives true none "feed" [.object "Dog"] overloads [] =
        (.ok found, some found.id) := by
  decide +kernel

end Overload

end ScriptEngine
