import ScriptEngine.Proofs.CallSites
import ScriptEngine.Proofs.ValueTypes
/-! What a call may come to mean. A call that compiled finds a method in every class that derives from
that of its receiver: the method it was compiled with, one of a class below, or one that another
program has added. Methods that agree in what they return can stand for each other. -/

namespace ScriptEngine

namespace ClassTable

theorem ancestry_behind : ∀ {classes : List ClassDecl} {name : String} {before after : List ClassDecl}
    {decl other : ClassDecl}, Founded classes → ancestry name classes = before ++ decl :: after →
      other ∈ after → other ∈ ancestry decl.name classes
  | [], _, before, _, _, _, _, chained, _ => by
      cases before <;> cases chained
  | first :: older, name, before, after, decl, other, ⟨distinct, _, founded⟩, chained, behind => by
      -- What stands in the ancestry that the older classes make up is not the first class.
      have further : ∀ {above : String} {before : List ClassDecl},
          ancestry above older = before ++ decl :: after →
            other ∈ ancestry decl.name (first :: older) := by
        intro above before chained
        have higher : decl ∈ ancestry above older := by simp [chained]
        have among : decl ∈ older := mem_of_mem_ancestry higher
        rw [ancestry, if_neg (distinct decl among).symm]
        exact ancestry_behind founded chained behind
      by_cases same : first.name = name
      · rw [ancestry, if_pos same] at chained
        cases before with
        | nil =>
            obtain ⟨rfl, rest⟩ := List.cons.inj chained
            rw [ancestry, if_pos rfl, rest]
            exact List.mem_cons_of_mem _ behind
        | cons front before =>
            obtain ⟨rfl, rest⟩ := List.cons.inj chained
            cases parent : first.parent with
            | none =>
                rw [parent] at rest
                cases before <;> cases rest
            | some above =>
                rw [parent] at rest
                exact further rest
      · rw [ancestry, if_neg same] at chained
        exact further chained

theorem derives_behind {table : ClassTable} (founded : Founded table.classes) {name : String}
    {before after : List ClassDecl} {decl other : ClassDecl}
    (chained : table.chain name = before ++ decl :: after) (behind : other ∈ decl :: after) :
    table.derives decl.name other.name = true := by
  have among : decl ∈ table.chain name := by simp [chained]
  rcases List.mem_cons.mp behind with rfl | behind
  · exact derives_refl (contains_of_mem_chain among)
  · exact derives_iff.mpr ⟨other, ancestry_behind founded chained behind, rfl⟩

theorem Grows.derives_eq {older newer : ClassTable} (grows : older.Grows newer) {derived : String}
    (known : older.contains derived = true) (base : String) :
    newer.derives derived base = older.derives derived base := by
  rw [ClassTable.derives, grows derived known]
  rfl

end ClassTable

namespace Score

variable {hierarchy : Hierarchy} {older newer : ClassTable} {params others types : List DataType}

theorem add_distance {more : Score} {cost total : Nat} (added : more.add cost = .distance total) :
    ∃ less, more = .distance less := by
  cases more with
  | distance less => exact ⟨less, rfl⟩
  | incompatible | tooMany | tooFew => cases added

theorem of_distance : ∀ {params types : List DataType} {cost : Nat},
    of hierarchy params types = .distance cost →
      List.Forall₂ (fun param given => param.accepts hierarchy given = true) params types
  | [], [], _, _ => .nil
  | param :: params, given :: types, cost, scored => by
      rw [of] at scored
      split at scored
      · rename_i accepted
        obtain ⟨less, behind⟩ := add_distance scored
        exact .cons accepted (of_distance behind)
      · cases scored
  | [], _ :: _, _, scored | _ :: _, [], _, scored => by
      cases scored

theorem of_grows (grows : older.Grows newer)
    (known : ∀ given ∈ types, given.kind = .object → ∀ className,
      given.className? = some className → older.contains className = true) :
    ∀ others : List DataType, of newer.derives others types = of older.derives others types := by
  have accepts : ∀ param given : DataType, given ∈ types →
      param.accepts newer.derives given = param.accepts older.derives given := by
    intro param given among
    unfold DataType.accepts
    split
    · rfl
    · split
      · rfl
      · split
        · rfl
        · split
          · rfl
          · rename_i same
            rw [not_not] at same
            split
            · rfl
            · rename_i base derived kind _ named
              exact grows.derives_eq (known given among (same ▸ kind) derived named) base
            · rfl
            · rfl
  induction types with
  | nil =>
      intro others
      cases others <;> rfl
  | cons given rest ih =>
      intro others
      cases others with
      | nil => rfl
      | cons param more =>
          rw [of, of, accepts param given (List.mem_cons_self ..),
            ih (fun other among => known other (List.mem_cons_of_mem _ among))
              (fun param other among => accepts param other (List.mem_cons_of_mem _ among)) more]

theorem known_of_distance {cost : Nat} (scored : of older.derives params types = .distance cost) :
    ∀ given ∈ types, given.kind = .object → ∀ className,
      given.className? = some className → older.contains className = true := by
  have accepted := of_distance scored
  clear scored
  intro given among kind className named
  induction accepted with
  | nil => cases among
  | @cons param other params types first _ ih =>
      rcases List.mem_cons.mp among with rfl | among
      · rcases DataType.accepts_cases first with ⟨_, numeric⟩ | ⟨null, _⟩ | ⟨_, _, classes⟩
        · rw [kind] at numeric
          cases numeric
        · rw [kind] at null
          cases null
        · obtain ⟨base, derived, _, same, derives⟩ := classes kind
          rw [named] at same
          cases same
          exact (ClassTable.contains_of_derives derives).1
      · exact ih among

end Score

namespace Overload

variable {α : Type} {view : α → Callable} {hierarchy : Hierarchy} {name : String}
  {args : List DataType} {candidates own earlier later : List α} {function other : α}
  {distance : Nat}

/-- Whether a call of a name with operands of some types can mean a function. -/
def Fits (hierarchy : Hierarchy) (name : String) (args : List DataType) (callable : Callable) : Prop :=
  callable.name = name ∧ ∃ cost, Score.of hierarchy callable.params.types args = .distance cost

theorem search_fits (found : search view hierarchy name args candidates = .ok function) :
    Fits hierarchy name args (view function) := by
  obtain ⟨distance, nearest⟩ := search_eq_ok_iff.mp found
  exact ⟨by simpa using (List.mem_filter.mp nearest.mem).2, distance, nearest.fits⟩

theorem search_of_fits (among : function ∈ candidates)
    (fits : Fits hierarchy name args (view function)) :
    ∃ found, search view hierarchy name args candidates = .ok found := by
  obtain ⟨named, cost, scored⟩ := fits
  have listed : function ∈ Overload.named view name candidates :=
    List.mem_filter.mpr ⟨among, decide_eq_true named⟩
  rcases @nearest_nothing α (fun other => Score.of hierarchy (view other).params.types args)
    (Overload.named view name candidates) .undefinedCall with ⟨found, distance, _, nearest⟩ |
      ⟨_, _, misfits⟩
  · exact ⟨found, search_eq_ok_iff.mpr ⟨distance, nearest⟩⟩
  · exact absurd scored (misfits function listed cost)

theorem Nearest.filter {score : α → Score} (nearest : Nearest score candidates function distance)
    (wanted : α → Bool) (kept : wanted function = true) :
    Nearest score (candidates.filter wanted) function distance := by
  obtain ⟨fits, before, after, rfl, early, late⟩ := nearest
  refine ⟨fits, before.filter wanted, after.filter wanted, ?_, fun other among => ?_,
    fun other among => ?_⟩
  · rw [List.filter_append, List.filter_cons_of_pos kept]
  · exact early other (List.mem_filter.mp among).1
  · exact late other (List.mem_filter.mp among).1

theorem search_filter (found : search view hierarchy name args candidates = .ok function)
    (wanted : α → Bool) (kept : wanted function = true) :
    search view hierarchy name args (candidates.filter wanted) = .ok function := by
  obtain ⟨distance, nearest⟩ := search_eq_ok_iff.mp found
  refine search_eq_ok_iff.mpr ⟨distance, ?_⟩
  have kind := nearest.filter wanted kept
  unfold named at kind ⊢
  rw [List.filter_filter] at kind ⊢
  simpa only [Bool.and_comm] using kind

theorem resolve_cases {id : FunctionId} {found? : Option FunctionId}
    (found : resolve view hierarchy false (some id) name args candidates [] =
      (.ok function, found?)) :
    function ∈ candidates ∧ ((view function).id = id ∨
      search view hierarchy name args candidates = .ok function) := by
  have among := resolve_mem found
  rw [List.append_nil] at among
  refine ⟨among, ?_⟩
  unfold resolve at found
  simp only [List.append_nil, Option.bind_some, Bool.false_eq_true, if_false] at found
  split at found
  · rename_i known
    cases found
    exact Or.inl (by simpa using List.find?_some known)
  · split at found
    · rename_i searched
      cases found
      exact Or.inr searched
    · cases found

theorem resolve_of_search {id : FunctionId}
    (searched : search view hierarchy name args candidates = .ok function) :
    ∃ found found?, resolve view hierarchy false (some id) name args candidates [] =
      (.ok found, found?) := by
  unfold resolve
  simp only [List.append_nil, Option.bind_some, Bool.false_eq_true, if_false, searched]
  split <;> exact ⟨_, _, rfl⟩

theorem resolveAlong_of_search {β : Type} {offers : β → List α} {id : FunctionId} {place : β} :
    ∀ {places : List β} {first : Option CompileCause}, place ∈ places →
      (∃ found, search view hierarchy name args (offers place) = .ok found) →
        ∃ before here after function, places = before ++ here :: after ∧ place ∈ here :: after ∧
          resolveAlong view hierarchy (some id) name args first (places.map offers) =
            (.ok function, some (view function).id) ∧
          function ∈ offers here ∧ ((view function).id = id ∨
            search view hierarchy name args (offers here) = .ok function) := by
  intro places
  induction places with
  | nil =>
      intro first among
      cases among
  | cons here rest ih =>
      intro first among finds
      cases resolved : resolve view hierarchy false (some id) name args (offers here) [] with
      | mk result found? =>
          cases result with
          | ok function =>
              obtain ⟨among', chosen⟩ := resolve_cases resolved
              refine ⟨[], here, rest, function, rfl, among, ?_, among', chosen⟩
              rw [List.map_cons, resolveAlong, resolved]
              exact congrArg _ (resolve_kept resolved)
          | error cause =>
              have behind : place ∈ rest := by
                rcases List.mem_cons.mp among with rfl | behind
                · obtain ⟨found, searched⟩ := finds
                  obtain ⟨other, found?, done⟩ := @resolve_of_search _ _ _ _ _ _ _ id searched
                  rw [resolved] at done
                  cases done
                · exact behind
              obtain ⟨before, there, after, function, rfl, reached, found, offered, chosen⟩ :=
                @ih (some (first.getD cause)) behind finds
              refine ⟨here :: before, there, after, function, rfl, reached, ?_, offered, chosen⟩
              rw [List.map_cons, resolveAlong, resolved]
              exact found

end Overload

end ScriptEngine
