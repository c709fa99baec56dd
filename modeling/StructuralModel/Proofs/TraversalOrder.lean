import Mathlib.Data.List.Sort
import StructuralModel.Model.Traversal
import StructuralModel.Proofs.Ownership

/-! Models whose elements were added in the order of a depth-first walk: the walk down the ownership
tree then counts them from zero. -/

namespace StructuralModel.Model

/-- Every owner encloses the element added just before the one that it owns. -/
def Nested (m : Model) : Prop :=
  ∀ id owner : Nat, m.owner? (id + 1) = some owner → owner ∈ m.enclosing id

variable {m : Model} {id owner outer : Nat}

theorem enclosing_of_none (root : m.owner? id = none) : m.enclosing id = [id] := by
  rw [enclosing]
  split
  · rfl
  next owned => simp [root] at owned

theorem enclosing_of_some (owned : m.owner? id = some owner) : m.enclosing id = id :: m.enclosing owner := by
  rw [enclosing]
  split
  next root => simp [owned] at root
  next found =>
    rw [owned, Option.some.injEq] at found
    rw [found]

theorem mem_enclosing : outer ∈ m.enclosing id ↔
    outer = id ∨ ∃ owner : Nat, m.owner? id = some owner ∧ outer ∈ m.enclosing owner := by
  cases owned : m.owner? id with
  | none => simp [enclosing_of_none owned]
  | some owner => simp [enclosing_of_some owned]

theorem mem_enclosing_self : id ∈ m.enclosing id :=
  mem_enclosing.mpr (.inl rfl)

theorem le_of_mem_enclosing (around : outer ∈ m.enclosing id) : outer ≤ id := by
  induction id using Nat.strong_induction_on with
  | _ id ih =>
    rcases mem_enclosing.mp around with rfl | ⟨owner, owned, around⟩
    · exact Nat.le_refl _
    · have older : owner < id := owner_lt owned
      have bound := ih owner older around
      omega

theorem mem_enclosing_trans (around : outer ∈ m.enclosing owner) (inside : owner ∈ m.enclosing id) :
    outer ∈ m.enclosing id := by
  induction id using Nat.strong_induction_on with
  | _ id ih =>
    rcases mem_enclosing.mp inside with rfl | ⟨next, owned, inside⟩
    · exact around
    · exact mem_enclosing.mpr (.inr ⟨next, owned, ih next (owner_lt owned) inside⟩)

/-- What encloses an element is a chain. -/
theorem enclosing_chain {first second : Nat} (around : first ∈ m.enclosing id) (beside : second ∈ m.enclosing id) :
    first ∈ m.enclosing second ∨ second ∈ m.enclosing first := by
  induction id using Nat.strong_induction_on with
  | _ id ih =>
    rcases mem_enclosing.mp around with rfl | ⟨owner, owned, above⟩
    · exact .inr beside
    · rcases mem_enclosing.mp beside with rfl | ⟨same, owned', above'⟩
      · exact .inl around
      · obtain rfl : owner = same := Option.some.inj (owned.symm.trans owned')
        exact ih owner (owner_lt owned) above above'

theorem eq_of_enclosing_sibling {first second : Nat} (siblings : m.owner? first = m.owner? second)
    (around : first ∈ m.enclosing second) : first = second := by
  rcases mem_enclosing.mp around with same | ⟨owner, owned, above⟩
  · exact same
  · exact absurd (owner_lt (siblings.trans owned)) (Nat.not_lt_of_le (le_of_mem_enclosing above))

/-- What an element encloses is an interval of positions, which starts at the element. -/
theorem Nested.mem_enclosing_of_le (nested : Nested m) {between later : Nat} (around : outer ∈ m.enclosing later)
    (after : outer ≤ between) (before : between ≤ later) : outer ∈ m.enclosing between := by
  induction later with
  | zero =>
    obtain rfl := Nat.le_zero.mp before
    exact around
  | succ later ih =>
    by_cases last : between = later + 1
    · exact last ▸ around
    · refine ih ?_ (by omega)
      rcases mem_enclosing.mp around with rfl | ⟨owner, owned, around⟩
      · omega
      · exact mem_enclosing_trans around (nested later owner owned)

/-- What a walk has still to visit are the subtrees of the elements on its stack. -/
theorem visit_eq (stack : List ElementId) : m.visit stack = stack.flatMap m.subtree := by
  induction stack using visit.induct m with
  | case1 => rw [visit, List.flatMap_nil]
  | case2 id stack ih => rw [visit, ih, List.flatMap_append, List.flatMap_cons, subtree_eq, List.cons_append]

theorem traversal_eq_subtrees : m.traversal = m.roots.flatMap m.subtree :=
  visit_eq m.roots

theorem mem_subtree_of_member {inner member : Nat} (inside : inner ∈ m.subtree outer) (owned : member ∈ m.members inner) :
    member ∈ m.subtree outer := by
  induction outer using subtree.induct m with
  | case1 outer ih =>
    rw [subtree_eq] at inside ⊢
    refine List.mem_cons_of_mem _ (List.mem_flatMap.mpr ?_)
    rcases List.mem_cons.mp inside with rfl | inside
    · refine ⟨member, owned, ?_⟩
      rw [subtree_eq]
      exact List.mem_cons_self
    · obtain ⟨child, direct, deeper⟩ := List.mem_flatMap.mp inside
      exact ⟨child, direct, ih child direct deeper⟩

/-- The walk down from an element meets exactly what the element encloses. -/
theorem mem_subtree (valid : Forest m) : id ∈ m.subtree outer ↔ outer ∈ m.enclosing id := by
  constructor
  · intro inside
    induction outer using subtree.induct m with
    | case1 outer ih =>
      rw [subtree_eq] at inside
      rcases List.mem_cons.mp inside with rfl | inside
      · exact mem_enclosing_self
      · obtain ⟨child, direct, deeper⟩ := List.mem_flatMap.mp inside
        have around : outer ∈ m.enclosing child :=
          mem_enclosing.mpr (.inr ⟨outer, (valid.member_iff outer child).mp direct, mem_enclosing_self⟩)
        exact mem_enclosing_trans around (ih child direct deeper)
  · intro around
    induction id using Nat.strong_induction_on with
    | _ id ih =>
      rcases mem_enclosing.mp around with rfl | ⟨owner, owned, around⟩
      · rw [subtree_eq]
        exact List.mem_cons_self
      · exact mem_subtree_of_member (ih owner (owner_lt owned) around) ((valid.member_iff owner id).mpr owned)

theorem lt_of_mem_subtrees (valid : Forest m) {inner : Nat} (inside : inner ∈ (m.members id).flatMap m.subtree) :
    id < inner := by
  obtain ⟨member, direct, deeper⟩ := List.mem_flatMap.mp inside
  exact Nat.lt_of_lt_of_le (lt_of_mem_members direct).1 (le_of_mem_enclosing ((mem_subtree valid).mp deeper))

theorem exists_root (valid : Forest m) (known : id < m.size) : ∃ root ∈ m.roots, root ∈ m.enclosing id := by
  induction id using Nat.strong_induction_on with
  | _ id ih =>
    cases owned : m.owner? id with
    | none => exact ⟨id, (valid.root_iff id).mpr ⟨known, owned⟩, mem_enclosing_self⟩
    | some owner =>
      obtain ⟨root, member, around⟩ := ih owner (owner_lt owned) (Nat.lt_trans (owner_lt owned) known)
      exact ⟨root, member, mem_enclosing.mpr (.inr ⟨owner, owned, around⟩)⟩

theorem mem_traversal (valid : Forest m) : id ∈ m.traversal ↔ id < m.size := by
  rw [traversal_eq_subtrees, List.mem_flatMap]
  constructor
  · rintro ⟨root, member, inside⟩
    rcases mem_enclosing.mp ((mem_subtree valid).mp inside) with rfl | ⟨owner, owned, _⟩
    · exact ((valid.root_iff root).mp member).1
    · exact valid.owner_known owned
  · intro known
    obtain ⟨root, member, around⟩ := exists_root valid known
    exact ⟨root, member, (mem_subtree valid).mpr around⟩

/-- Siblings do not enclose each other, so no element is in the subtrees of two of them. -/
theorem nodup_subtrees (valid : Forest m) {owner? : Option ElementId} {siblings : List ElementId}
    (distinct : siblings.Nodup) (owned : ∀ sibling ∈ siblings, m.owner? sibling = owner?)
    (inner : ∀ sibling ∈ siblings, (m.subtree sibling).Nodup) : (siblings.flatMap m.subtree).Nodup := by
  rw [List.nodup_flatMap]
  refine ⟨inner, distinct.imp_of_mem ?_⟩
  intro first second firstMember secondMember apart id insideFirst insideSecond
  have siblings : m.owner? first = m.owner? second :=
    (owned first firstMember).trans (owned second secondMember).symm
  rcases enclosing_chain ((mem_subtree valid).mp insideFirst) ((mem_subtree valid).mp insideSecond) with around | around
  · exact apart (eq_of_enclosing_sibling siblings around)
  · exact apart (eq_of_enclosing_sibling siblings.symm around).symm

theorem nodup_subtree (valid : Forest m) (id : Nat) : (m.subtree id).Nodup := by
  induction id using subtree.induct m with
  | case1 id ih =>
    rw [subtree_eq, List.nodup_cons]
    constructor
    · exact fun inside => Nat.lt_irrefl id (lt_of_mem_subtrees valid inside)
    · exact nodup_subtrees valid ((valid.members_ascend id).imp Nat.ne_of_lt)
        (fun child direct => (valid.member_iff id child).mp direct) ih

theorem nodup_traversal (valid : Forest m) : m.traversal.Nodup := by
  rw [traversal_eq_subtrees]
  exact nodup_subtrees valid (valid.roots_ascend.imp Nat.ne_of_lt) (fun root member => ((valid.root_iff root).mp member).2)
    fun root _ => nodup_subtree valid root

/-- Siblings do not enclose each other, so the subtree of the older one lies before that of the younger. -/
theorem Nested.subtrees_ascend (nested : Nested m) (valid : Forest m) {owner? : Option ElementId}
    {siblings : List ElementId} (ascend : siblings.Pairwise (· < ·))
    (owned : ∀ sibling ∈ siblings, m.owner? sibling = owner?)
    (inner : ∀ sibling ∈ siblings, (m.subtree sibling).Pairwise (· < ·)) :
    (siblings.flatMap m.subtree).Pairwise (· < ·) := by
  rw [List.pairwise_flatMap]
  refine ⟨inner, ascend.imp_of_mem ?_⟩
  intro first second firstMember secondMember older before insideFirst after insideSecond
  by_contra reversed
  have start : second ≤ after := le_of_mem_enclosing ((mem_subtree valid).mp insideSecond)
  have overlap : first ∈ m.enclosing second :=
    nested.mem_enclosing_of_le ((mem_subtree valid).mp insideFirst) (Nat.le_of_lt older)
      (Nat.le_trans start (Nat.le_of_not_lt reversed))
  exact Nat.ne_of_lt older
    (eq_of_enclosing_sibling ((owned first firstMember).trans (owned second secondMember).symm) overlap)

theorem Nested.subtree_ascends (nested : Nested m) (valid : Forest m) (id : Nat) :
    (m.subtree id).Pairwise (· < ·) := by
  induction id using subtree.induct m with
  | case1 id ih =>
    rw [subtree_eq, List.pairwise_cons]
    constructor
    · exact fun inner inside => lt_of_mem_subtrees valid inside
    · exact nested.subtrees_ascend valid (valid.members_ascend id)
        (fun child direct => (valid.member_iff id child).mp direct) ih

/-- Depth-first order is the order of the positions. -/
theorem Nested.traversal_eq (nested : Nested m) (valid : Forest m) : m.traversal = List.range m.size := by
  have ascends : m.traversal.Pairwise (· < ·) := by
    rw [traversal_eq_subtrees]
    exact nested.subtrees_ascend valid valid.roots_ascend (fun root member => ((valid.root_iff root).mp member).2)
      (fun root _ => nested.subtree_ascends valid root)
  exact ascends.eq_of_mem_iff List.pairwise_lt_range fun id => by rw [mem_traversal valid, List.mem_range]

/-- The owners of the elements that two models share are the same. -/
theorem enclosing_congr {other : Model} (same : ∀ older ≤ id, other.owner? older = m.owner? older) :
    other.enclosing id = m.enclosing id := by
  induction id using Nat.strong_induction_on with
  | _ id ih =>
    cases owned : m.owner? id with
    | none => rw [enclosing_of_none owned, enclosing_of_none ((same id (Nat.le_refl _)).trans owned)]
    | some owner =>
      rw [enclosing_of_some owned, enclosing_of_some ((same id (Nat.le_refl _)).trans owned),
        ih owner (owner_lt owned) fun before bound =>
          same before (Nat.le_trans bound (Nat.le_of_lt (owner_lt owned)))]

theorem SameTree.nested {other : Model} (same : SameTree m other) (nested : Nested m) : Nested other := by
  intro id owner owned
  rw [enclosing_congr fun older _ => same.owner older]
  exact nested id owner ((same.owner _).symm.trans owned)

/-- Adding an element changes the owner of no other. -/
theorem enclosing_add (known : id < m.size) {owner? : Option ElementId} {kind : ElementKind}
    {name? : Option String} : (m.add owner? kind name?).enclosing id = m.enclosing id := by
  apply enclosing_congr
  intro older bound
  rw [owner_add, if_neg (by omega)]

/-- An element keeps the order when its owner encloses the youngest element. -/
theorem Nested.add (nested : Nested m) (valid : Forest m) {owner? : Option ElementId} {kind : ElementKind}
    {name? : Option String} (around : ∀ owner, owner? = some owner → owner ∈ m.enclosing (m.size - 1)) :
    Nested (m.add owner? kind name?) := by
  intro id owner owned
  rw [owner_add] at owned
  split at owned
  next last =>
    have older : id = m.size - 1 := by omega
    rw [enclosing_add (by omega), older]
    exact around owner (known_eq_some.mp owned).1
  next =>
    have known : id + 1 < m.size := valid.owner_known owned
    rw [enclosing_add (by omega)]
    exact nested id owner owned

end StructuralModel.Model
