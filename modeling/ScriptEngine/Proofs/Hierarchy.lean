import Mathlib.Data.List.Nodup
import ScriptEngine.Proofs.Ancestry
/-! The class hierarchy. A class is registered behind its parent, so the way up from a class leads to
older and older classes: it ends, it meets no class twice, and no class that is registered later is on
it. -/

namespace ScriptEngine.ClassTable

def request (table : ClassTable) (decl : ClassDecl) : ClassTable :=
  match table.register decl with
  | .ok after => after
  | .error _ => table

def after (requests : List ClassDecl) : ClassTable := requests.foldl request {}

/-- The way up from a class. Each class is followed by the one with the name of its parent, which is
looked for among all classes; nothing but the lack of a next class ends the way. -/
inductive Climbs (table : ClassTable) : String → List ClassDecl → Prop
  | missing {name : String} : table.get? name = none → Climbs table name []
  | top {name : String} {decl : ClassDecl} : table.get? name = some decl → decl.parent = none →
      Climbs table name [decl]
  | up {name parent : String} {decl : ClassDecl} {above : List ClassDecl} :
      table.get? name = some decl → decl.parent = some parent → Climbs table parent above →
      Climbs table name (decl :: above)

theorem Climbs.unique {table : ClassTable} {name : String} {way other : List ClassDecl}
    (climbs : table.Climbs name way) (also : table.Climbs name other) : other = way := by
  induction climbs generalizing other with
  | missing unknown =>
      cases also with
      | missing => rfl
      | top found | up found => exact nomatch unknown.symm.trans found
  | top found root =>
      cases also with
      | missing unknown => exact nomatch unknown.symm.trans found
      | top again =>
          obtain rfl := Option.some.inj (found.symm.trans again)
          rfl
      | up again named =>
          obtain rfl := Option.some.inj (found.symm.trans again)
          exact nomatch root.symm.trans named
  | up found named _ ih =>
      cases also with
      | missing unknown => exact nomatch unknown.symm.trans found
      | top again root =>
          obtain rfl := Option.some.inj (found.symm.trans again)
          exact nomatch root.symm.trans named
      | up again other climbs =>
          obtain rfl := Option.some.inj (found.symm.trans again)
          obtain rfl := Option.some.inj (named.symm.trans other)
          rw [ih climbs]

theorem Founded.parent : ∀ {classes : List ClassDecl} {decl : ClassDecl} {parent : String},
    Founded classes → decl ∈ classes → decl.parent = some parent →
      ∃ other ∈ classes, other.name = parent
  | first :: older, decl, parent, ⟨_, known, founded⟩, among, named => by
      have behind : ∃ other ∈ older, other.name = parent := by
        rcases List.mem_cons.mp among with rfl | later
        · exact known parent named
        · exact founded.parent later named
      obtain ⟨other, among, above⟩ := behind
      exact ⟨other, List.mem_cons_of_mem _ among, above⟩

theorem ancestry_older {first : ClassDecl} {older : List ClassDecl}
    (founded : Founded (first :: older)) {name : String} (known : ∃ other ∈ older, other.name = name) :
    ancestry name (first :: older) = ancestry name older := by
  obtain ⟨other, among, rfl⟩ := known
  rw [ancestry, if_neg (founded.1 other among).symm]

theorem ancestry_cons : ∀ {classes : List ClassDecl} {name : String} {decl : ClassDecl},
    Founded classes → (ancestry name classes).head? = some decl →
      ancestry name classes = decl :: match decl.parent with
        | some parent => ancestry parent classes
        | none => []
  | [], _, _, _, head => nomatch head
  | first :: older, name, decl, founded, head => by
      by_cases same : first.name = name
      · rw [ancestry, if_pos same] at head ⊢
        obtain rfl : first = decl := by simpa using head
        cases named : first.parent with
        | none => rfl
        | some parent =>
            dsimp only
            rw [ancestry_older founded (founded.2.1 parent named)]
      · rw [ancestry, if_neg same] at head ⊢
        have whole := ancestry_cons founded.2.2 head
        have among : decl ∈ older := mem_of_mem_ancestry (List.mem_of_head? head)
        cases named : decl.parent with
        | none =>
            rw [named] at whole
            exact whole
        | some parent =>
            rw [named] at whole
            dsimp only
            rw [ancestry_older founded (founded.2.2.parent among named)]
            exact whole

theorem ancestry_distinct : ∀ {classes : List ClassDecl} (name : String), Founded classes →
    ((ancestry name classes).map ClassDecl.name).Nodup
  | [], _, _ => List.nodup_nil
  | first :: older, name, ⟨distinct, _, founded⟩ => by
      rw [ancestry]
      by_cases same : first.name = name
      · rw [if_pos same, List.map_cons, List.nodup_cons]
        cases first.parent with
        | none => exact ⟨List.not_mem_nil, List.nodup_nil⟩
        | some parent =>
            refine ⟨fun among => ?_, ancestry_distinct parent founded⟩
            obtain ⟨other, above, again⟩ := List.mem_map.mp among
            exact distinct other (mem_of_mem_ancestry above) again
      · rw [if_neg same]
        exact ancestry_distinct name founded

section

variable {table : ClassTable} {name : String} {decl : ClassDecl}

theorem chain_of_get?_none (unknown : table.get? name = none) : table.chain name = [] := by
  rw [get?_eq_head] at unknown
  exact List.head?_eq_none_iff.mp unknown

variable (founded : Founded table.classes)
include founded

theorem chain_of_get? (found : table.get? name = some decl) :
    table.chain name = decl :: match decl.parent with
      | some parent => table.chain parent
      | none => [] := by
  rw [get?_eq_head] at found
  exact ancestry_cons founded found

theorem contains_parent {parent : String} (found : table.get? name = some decl)
    (named : decl.parent = some parent) : table.contains parent = true := by
  obtain ⟨other, among, same⟩ := founded.parent (List.mem_of_find?_eq_some found) named
  rw [contains, get?, List.find?_isSome]
  exact ⟨other, among, by simpa using same⟩

/-- The rank of a class is the length of its chain: that of its parent is less by one. -/
theorem chain_shorter {parent : String} (above : table.parent? name = some parent) :
    (table.chain parent).length < (table.chain name).length := by
  obtain ⟨decl, found, named⟩ := Option.bind_eq_some_iff.mp above
  rw [chain_of_get? founded found, named]
  simp

theorem parents_wellFounded : WellFounded fun above below => table.parent? below = some above :=
  Subrelation.wf (fun {_ _} above => chain_shorter founded above)
    (measure fun name => (table.chain name).length).wf

theorem climbs_chain (name : String) : table.Climbs name (table.chain name) := by
  induction name using (parents_wellFounded founded).induction with
  | h name ih =>
      cases found : table.get? name with
      | none =>
          rw [chain_of_get?_none found]
          exact .missing found
      | some decl =>
          rw [chain_of_get? founded found]
          cases named : decl.parent with
          | none => exact .top found named
          | some parent =>
              refine .up found named (ih parent ?_)
              rw [parent?, found]
              exact named

theorem climbs_iff {way : List ClassDecl} : table.Climbs name way ↔ way = table.chain name := by
  constructor
  · exact (climbs_chain founded name).unique
  · rintro rfl
    exact climbs_chain founded name

theorem chain_last (last : (table.chain name).getLast? = some decl) : decl.parent = none := by
  induction name using (parents_wellFounded founded).induction with
  | h name ih =>
      cases found : table.get? name with
      | none =>
          rw [chain_of_get?_none found] at last
          cases last
      | some first =>
          rw [chain_of_get? founded found] at last
          cases named : first.parent with
          | none =>
              rw [named] at last
              cases last
              exact named
          | some parent =>
              obtain ⟨next, rest, chained, _⟩ :=
                chain_of_contains (contains_parent founded found named)
              simp only [named, chained, List.getLast?_cons_cons] at last
              refine ih parent ?_ (chained ▸ last)
              rw [parent?, found]
              exact named

/-- Two classes that derive from each other have each other's chain at the end of their own, so their
chains are the same and start with one class. -/
theorem derives_antisymm {first second : String} (derives : table.derives first second = true)
    (back : table.derives second first = true) : first = second := by
  obtain ⟨firstDecl, _, chained, named⟩ := chain_of_contains (contains_of_derives derives).1
  obtain ⟨secondDecl, _, also, other⟩ := chain_of_contains (contains_of_derives back).1
  obtain ⟨above, among, rfl⟩ := derives_iff.mp derives
  obtain ⟨below, again, rfl⟩ := derives_iff.mp back
  have inside : table.chain above.name <:+ table.chain below.name := ancestry_suffix founded among
  have outside : table.chain below.name <:+ table.chain above.name := ancestry_suffix founded again
  have same : table.chain above.name = table.chain below.name :=
    inside.eq_of_length (Nat.le_antisymm inside.length_le outside.length_le)
  rw [same, chained] at also
  rw [← named, ← other, (List.cons.inj also).1]

end

theorem request_founded {table : ClassTable} (founded : Founded table.classes) (decl : ClassDecl) :
    Founded (table.request decl).classes := by
  unfold request
  split
  · rename_i registered
    exact register_founded founded registered
  · exact founded

theorem request_grows (table : ClassTable) (decl : ClassDecl) : table.Grows (table.request decl) := by
  unfold request
  split
  · rename_i registered
    exact register_grows registered
  · exact .refl table

theorem after_founded (requests : List ClassDecl) : Founded (after requests).classes := by
  have each : ∀ (requests : List ClassDecl) (table : ClassTable), Founded table.classes →
      Founded (requests.foldl request table).classes := by
    intro requests
    induction requests with
    | nil => exact fun _ founded => founded
    | cons decl rest ih => exact fun table founded => ih _ (request_founded founded decl)
  exact each requests {} trivial

theorem after_grows (requests more : List ClassDecl) :
    (after requests).Grows (after (requests ++ more)) := by
  have each : ∀ table : ClassTable, table.Grows (more.foldl request table) := by
    induction more with
    | nil => exact Grows.refl
    | cons decl rest ih => exact fun table => (request_grows table decl).trans (ih _)
  unfold after
  rw [List.foldl_append]
  exact each _

/-- A hierarchy. The way up from each class ends, starts at the class, meets no class twice, and its
last class has no parent; deriving is a partial order of the registered classes. -/
structure Hierarchical (table : ClassTable) : Prop where
  wellFounded : WellFounded fun above below => table.parent? below = some above
  climbs : ∀ name way, table.Climbs name way ↔ way = table.chain name
  starts : ∀ name, table.contains name = true →
    ∃ decl above, table.chain name = decl :: above ∧ decl.name = name
  distinct : ∀ name, ((table.chain name).map ClassDecl.name).Nodup
  ends : ∀ name decl, (table.chain name).getLast? = some decl → decl.parent = none
  refl : ∀ name, table.contains name = true → table.derives name name = true
  trans : ∀ first second third, table.derives first second = true →
    table.derives second third = true → table.derives first third = true
  antisymm : ∀ first second, table.derives first second = true →
    table.derives second first = true → first = second

/-- A class answers in both tables alike. -/
structure Alike (table later : ClassTable) (name : String) : Prop where
  chain : later.chain name = table.chain name
  members : later.members? name = table.members? name
  derives : ∀ base, later.derives name base = table.derives name base

theorem Founded.hierarchical {table : ClassTable} (founded : Founded table.classes) :
    table.Hierarchical where
  wellFounded := parents_wellFounded founded
  climbs := fun _ _ => climbs_iff founded
  starts := fun _ known => chain_of_contains known
  distinct := fun name => ancestry_distinct name founded
  ends := fun _ _ last => chain_last founded last
  refl := fun _ known => derives_refl known
  trans := fun _ _ _ derives further => derives_trans founded derives further
  antisymm := fun _ _ derives back => derives_antisymm founded derives back

theorem Grows.alike {table later : ClassTable} (grows : table.Grows later) {name : String}
    (known : table.contains name = true) : table.Alike later name where
  chain := grows name known
  members := by
    rw [ClassTable.members?, ClassTable.members?, if_pos known, if_pos (grows.contains known),
      grows name known]
  derives := fun base => by rw [ClassTable.derives, ClassTable.derives, grows name known]

/-- Whatever is registered, in whatever order, and whether it is accepted or refused: the classes are a
hierarchy, and what is registered later changes no class that is there. -/
theorem hierarchy_stays_founded (requests : List ClassDecl) : (after requests).Hierarchical ∧
    ∀ more name, (after requests).contains name = true →
      (after requests).Alike (after (requests ++ more)) name := by
  constructor
  · exact (after_founded requests).hierarchical
  · intro more name known
    exact (after_grows requests more).alike known

def tangled : List ClassDecl :=
  [{ name := "Loop", parent := some "Loop" },
    { name := "Robot", parent := some "Base" },
    { name := "Base", fields := [⟨"id", .int, false⟩] },
    { name := "Robot", parent := some "Base", fields := [⟨"energy", .float, false⟩] },
    { name := "Base", parent := some "Robot" }]

theorem hierarchy_stays_founded_of_tangled :
    ((after tangled).chain "Robot").map ClassDecl.name = ["Robot", "Base"] ∧
    (after tangled).contains "Loop" = false ∧ (after tangled).contains "Robot" = true ∧
    (after tangled).Hierarchical ∧
    (after tangled).Alike (after (tangled ++ [{ name := "Drone", parent := some "Robot" }])) "Robot" :=
  ⟨by decide, by decide, by decide, (hierarchy_stays_founded tangled).1,
    (hierarchy_stays_founded tangled).2 _ "Robot" (by decide)⟩

end ScriptEngine.ClassTable
