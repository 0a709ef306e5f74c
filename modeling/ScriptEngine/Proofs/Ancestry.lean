import ScriptEngine.ClassTable
/-! Classes and their ancestors. A class is registered after its parent, so its ancestors are settled
from then on, and a class has all the members and all the ancestors that its ancestors have. -/

namespace ScriptEngine.ClassTable

def Founded : List ClassDecl → Prop
  | [] => True
  | decl :: older =>
      (∀ other ∈ older, other.name ≠ decl.name) ∧
        (∀ parent, decl.parent = some parent → ∃ other ∈ older, other.name = parent) ∧
        Founded older

def Grows (older newer : ClassTable) : Prop :=
  ∀ name, older.contains name = true → newer.chain name = older.chain name

section

variable {table : ClassTable} {name : String} {decl : ClassDecl}

theorem get?_eq_head (table : ClassTable) (name : String) :
    table.get? name = (table.chain name).head? := by
  unfold get? chain
  induction table.classes with
  | nil => rfl
  | cons first older ih =>
      rw [ancestry]
      by_cases same : first.name = name
      · rw [if_pos same, List.find?_cons_of_pos (by simpa using same)]
        rfl
      · rw [if_neg same, List.find?_cons_of_neg (by simpa using same)]
        exact ih

theorem name_of_get? (found : table.get? name = some decl) : decl.name = name := by
  have named := List.find?_some found
  simpa using named

theorem chain_of_contains (known : table.contains name = true) :
    ∃ decl rest, table.chain name = decl :: rest ∧ decl.name = name := by
  obtain ⟨decl, found⟩ := Option.isSome_iff_exists.mp known
  have head := found
  rw [get?_eq_head] at head
  obtain ⟨rest, chained⟩ := List.head?_eq_some_iff.mp head
  exact ⟨decl, rest, chained, name_of_get? found⟩

theorem mem_of_mem_ancestry : ∀ {classes : List ClassDecl} {name : String},
    decl ∈ ancestry name classes → decl ∈ classes
  | [], _, among => among
  | first :: older, name, among => by
      rw [ancestry] at among
      split at among
      · rcases List.mem_cons.mp among with rfl | among
        · exact List.mem_cons_self ..
        · split at among
          · exact List.mem_cons_of_mem _ (mem_of_mem_ancestry among)
          · cases among
      · exact List.mem_cons_of_mem _ (mem_of_mem_ancestry among)

theorem contains_of_mem_chain (among : decl ∈ table.chain name) :
    table.contains decl.name = true := by
  unfold contains get?
  exact List.find?_isSome.mpr ⟨decl, mem_of_mem_ancestry among, by simp⟩

theorem derives_iff {derived base : String} :
    table.derives derived base = true ↔ ∃ decl ∈ table.chain derived, decl.name = base := by
  simp [derives]

theorem contains_of_derives {derived base : String}
    (derives : table.derives derived base = true) :
    table.contains derived = true ∧ table.contains base = true := by
  obtain ⟨decl, among, rfl⟩ := derives_iff.mp derives
  refine ⟨?_, contains_of_mem_chain among⟩
  unfold contains
  rw [get?_eq_head]
  cases chained : table.chain derived with
  | nil => simp [chained] at among
  | cons => rfl

theorem derives_refl (known : table.contains name = true) : table.derives name name = true := by
  obtain ⟨decl, rest, chained, named⟩ := chain_of_contains known
  exact derives_iff.mpr ⟨decl, by simp [chained], named⟩

end

namespace Grows

variable {older middle newer : ClassTable} {name : String}

theorem refl (table : ClassTable) : table.Grows table := fun _ _ => rfl

theorem contains (grows : older.Grows newer) (known : older.contains name = true) :
    newer.contains name = true := by
  obtain ⟨decl, rest, chained, rfl⟩ := chain_of_contains known
  have among : decl ∈ newer.chain decl.name := by
    rw [grows _ known, chained]
    exact List.mem_cons_self ..
  exact contains_of_mem_chain among

theorem trans (first : older.Grows middle) (second : middle.Grows newer) : older.Grows newer :=
  fun name known => (second name (first.contains known)).trans (first name known)

theorem within (grows : older.Grows newer) : older.Within newer := by
  intro name decl found
  rw [get?_eq_head] at found ⊢
  have known : older.contains name = true := by
    rw [ClassTable.contains, get?_eq_head, found]
    rfl
  rw [grows name known]
  exact found

theorem parent? (grows : older.Grows newer) (known : older.contains name = true) :
    newer.parent? name = older.parent? name := by
  obtain ⟨decl, found⟩ := Option.isSome_iff_exists.mp known
  rw [ClassTable.parent?, ClassTable.parent?, grows.within name decl found, found]

theorem members? {fields : Variables} (grows : older.Grows newer)
    (known : older.members? name = some fields) : newer.members? name = some fields := by
  unfold ClassTable.members? at known ⊢
  split at known
  · rename_i contained
    rw [if_pos (grows.contains contained), grows name contained]
    exact known
  · cases known

theorem derives {derived base : String} (grows : older.Grows newer)
    (derives : older.derives derived base = true) : newer.derives derived base = true := by
  rw [derives_iff] at derives ⊢
  rw [grows derived (contains_of_derives (derives_iff.mpr derives)).1]
  exact derives

end Grows

theorem register_eq {table after : ClassTable} {decl : ClassDecl}
    (registered : table.register decl = .ok after) :
    after = ⟨decl :: table.classes⟩ ∧ table.contains decl.name = false ∧
      ∀ parent, decl.parent = some parent → table.contains parent = true := by
  unfold register at registered
  split at registered
  · cases registered
  · rename_i free
    split at registered
    · rename_i parent known
      split at registered
      · rename_i contained
        exact ⟨(Except.ok.inj registered).symm, by simpa using free, fun other named =>
          Option.some.inj (known.symm.trans named) ▸ contained⟩
      · cases registered
    · rename_i rootless
      exact ⟨(Except.ok.inj registered).symm, by simpa using free, fun parent named =>
        nomatch rootless.symm.trans named⟩

theorem register_grows {table after : ClassTable} {decl : ClassDecl}
    (registered : table.register decl = .ok after) : table.Grows after := by
  obtain ⟨rfl, free, _⟩ := register_eq registered
  intro name known
  have different : decl.name ≠ name := by
    rintro rfl
    rw [known] at free
    cases free
  rw [chain, ancestry, if_neg different]
  rfl

theorem register_founded {table after : ClassTable} {decl : ClassDecl}
    (founded : Founded table.classes) (registered : table.register decl = .ok after) :
    Founded after.classes := by
  obtain ⟨rfl, free, known⟩ := register_eq registered
  refine ⟨fun other among same => ?_, fun parent named => ?_, founded⟩
  · have contained : table.contains decl.name = true := by
      rw [contains, get?, List.find?_isSome]
      exact ⟨other, among, by simpa using same⟩
    rw [contained] at free
    cases free
  · obtain ⟨other, found⟩ := Option.isSome_iff_exists.mp (known parent named)
    exact ⟨other, List.mem_of_find?_eq_some found, name_of_get? found⟩

theorem ancestry_suffix : ∀ {classes : List ClassDecl} {name : String} {decl : ClassDecl},
    Founded classes → decl ∈ ancestry name classes →
      ancestry decl.name classes <:+ ancestry name classes
  | [], _, _, _, among => nomatch among
  | first :: older, name, decl, ⟨distinct, _, founded⟩, among => by
      -- An ancestor in the older classes is not the first class, whose name they do not have.
      have behind : ∀ {other : String}, decl ∈ ancestry other older →
          ancestry decl.name (first :: older) <:+ ancestry other older := by
        intro other among
        rw [ancestry, if_neg (distinct decl (mem_of_mem_ancestry among)).symm]
        exact ancestry_suffix founded among
      by_cases same : first.name = name
      · rw [ancestry, if_pos same] at among
        rcases List.mem_cons.mp among with rfl | among
        · subst same
          exact List.suffix_refl _
        · rw [show ancestry name (first :: older) = first :: _ from if_pos same]
          cases parent : first.parent with
          | none =>
              rw [parent] at among
              cases among
          | some above =>
              rw [parent] at among
              exact (behind among).trans (List.suffix_cons ..)
      · rw [ancestry, if_neg same] at among
        rw [show ancestry name (first :: older) = ancestry name older from if_neg same]
        exact behind among

theorem ancestry_parent : ∀ {classes : List ClassDecl} {name parent : String} {decl : ClassDecl},
    Founded classes → (ancestry name classes).head? = some decl → decl.parent = some parent →
      ∃ other ∈ ancestry name classes, other.name = parent
  | [], _, _, _, _, head, _ => nomatch head
  | first :: older, name, parent, decl, ⟨_, known, founded⟩, head, named => by
      rw [ancestry] at head ⊢
      by_cases same : first.name = name
      · rw [if_pos same] at head ⊢
        obtain rfl : first = decl := by simpa using head
        obtain ⟨other, among, above⟩ := known parent named
        have contained : (⟨older⟩ : ClassTable).contains parent = true := by
          rw [contains, get?, List.find?_isSome]
          exact ⟨other, among, by simpa using above⟩
        obtain ⟨next, rest, chained, held⟩ := chain_of_contains contained
        rw [chain] at chained
        refine ⟨next, List.mem_cons_of_mem _ ?_, held⟩
        simp [named, chained]
      · rw [if_neg same] at head ⊢
        exact ancestry_parent founded head named

section

variable {table : ClassTable} (founded : Founded table.classes)

include founded

theorem derives_trans {first second third : String} (derives : table.derives first second = true)
    (further : table.derives second third = true) : table.derives first third = true := by
  rw [derives_iff] at derives further ⊢
  obtain ⟨decl, among, rfl⟩ := derives
  obtain ⟨other, above, named⟩ := further
  exact ⟨other, (ancestry_suffix founded among).subset above, named⟩

theorem derives_parent {name parent : String} (named : table.parent? name = some parent) :
    table.derives name parent = true := by
  obtain ⟨decl, found, above⟩ := Option.bind_eq_some_iff.mp named
  rw [get?_eq_head] at found
  exact derives_iff.mpr (ancestry_parent founded found above)

theorem members_derived {derived base : String} {fields all : Variables}
    (derives : table.derives derived base = true) (inherited : table.members? base = some fields)
    (members : table.members? derived = some all) : ∀ field ∈ fields, field ∈ all := by
  obtain ⟨decl, among, rfl⟩ := derives_iff.mp derives
  have above : ∀ other ∈ table.chain decl.name, other ∈ table.chain derived :=
    (ancestry_suffix founded among).subset
  unfold members? at inherited members
  split at inherited
  · split at members
    · cases inherited
      cases members
      intro field held
      obtain ⟨other, chained, declares⟩ := List.mem_flatMap.mp held
      rw [List.mem_reverse] at chained
      exact List.mem_flatMap.mpr ⟨other, List.mem_reverse.mpr (above other chained), declares⟩
    · cases members
  · cases inherited

end

end ScriptEngine.ClassTable
