import StructuralModel.Proofs.TraversalOrder

/-! In whatever order elements are added to whichever owners, ownership is a forest, and the depth-first walk meets every
element once: before all that it owns, and after all that comes before it among its siblings. Searches by name and by
path tell the first element that the walk meets. -/

namespace StructuralModel.Model

/-- Some siblings in a row, each directly followed by all that it owns, its members first to last. -/
inductive Preorder (m : Model) : List ElementId → List ElementId → Prop
  | done : Preorder m [] []
  | sibling {id siblings inner later} (members : Preorder m (m.members id) inner) (rest : Preorder m siblings later) :
      Preorder m (id :: siblings) (id :: inner ++ later)

/-- The first element in a list that satisfies a condition. -/
structure FirstWith (holds : ElementId → Prop) (ids : List ElementId) (id : ElementId) : Prop where
  matched : holds id
  place : ∃ before after, ids = before ++ id :: after ∧ ∀ earlier ∈ before, ¬ holds earlier

/-- Ownership is a forest whose elements stand in the order of their addition, and a walk covers it. -/
structure Covered (m : Model) : Prop where
  members : ∀ owner, m.members owner = (List.range m.size).filter fun id => m.owner? id = some owner
  roots : m.roots = (List.range m.size).filter fun id => m.owner? id = none
  older : ∀ id owner : Nat, m.owner? id = some owner → owner < id ∧ id < m.size
  preorder : m.Preorder m.roots m.traversal
  complete : m.traversal.Perm (List.range m.size)
  named : ∀ name id, m.findNamed? name = some id ↔ FirstWith (fun id => m.name? id = some name) m.traversal id
  foundByName : ∀ name, (m.findNamed? name).isSome = true ↔ ∃ id < m.size, m.name? id = some name
  pathed : ∀ path id, m.findPath? path = some id ↔ FirstWith (fun id => m.path id = path) m.traversal id
  foundByPath : ∀ path, (m.findPath? path).isSome = true ↔ ∃ id < m.size, m.path id = path

variable {m : Model}

theorem Preorder.of_members {siblings : List ElementId}
    (inner : ∀ id ∈ siblings, m.Preorder (m.members id) ((m.members id).flatMap m.subtree)) :
    m.Preorder siblings (siblings.flatMap m.subtree) := by
  induction siblings with
  | nil => exact .done
  | cons id rest ih =>
    obtain ⟨own, others⟩ := List.forall_mem_cons.mp inner
    rw [List.flatMap_cons, subtree_eq]
    exact .sibling own (ih others)

theorem preorder_members (id : Nat) : m.Preorder (m.members id) ((m.members id).flatMap m.subtree) := by
  induction id using subtree.induct m with
  | case1 id ih => exact .of_members ih

/-- The stack of a walk holds siblings whose subtrees are still to be visited. -/
theorem preorder_visit (stack : List ElementId) : m.Preorder stack (m.visit stack) := by
  rw [visit_eq]
  exact .of_members fun id _ => preorder_members id

theorem members_eq_filter (valid : Forest m) (owner : ElementId) :
    m.members owner = (List.range m.size).filter fun id => m.owner? id = some owner := by
  refine (valid.members_ascend owner).eq_of_mem_iff (List.pairwise_lt_range.filter _) fun id => ?_
  rw [List.mem_filter, List.mem_range, decide_eq_true_eq, valid.member_iff]
  exact ⟨fun owned => ⟨valid.owner_known owned, owned⟩, fun both => both.2⟩

theorem roots_eq_filter (valid : Forest m) :
    m.roots = (List.range m.size).filter fun id => m.owner? id = none := by
  refine valid.roots_ascend.eq_of_mem_iff (List.pairwise_lt_range.filter _) fun id => ?_
  rw [List.mem_filter, List.mem_range, decide_eq_true_eq, valid.root_iff]

theorem traversal_perm (valid : Forest m) : m.traversal.Perm (List.range m.size) :=
  (List.perm_ext_iff_of_nodup (nodup_traversal valid) List.nodup_range).mpr fun id => by
    rw [mem_traversal valid, List.mem_range]

section search

variable {holds : ElementId → Prop} {test : ElementId → Bool} (tests : ∀ id, test id = true ↔ holds id)
include tests

theorem find_eq_some_iff_first {ids : List ElementId} {id : ElementId} :
    ids.find? test = some id ↔ FirstWith holds ids id := by
  rw [List.find?_eq_some_iff_append, tests]
  constructor
  · rintro ⟨found, before, after, split, earlier⟩
    refine ⟨found, before, after, split, fun other member met => ?_⟩
    have unmatched := earlier other member
    rw [(tests other).mpr met] at unmatched
    cases unmatched
  · rintro ⟨found, before, after, split, earlier⟩
    refine ⟨found, before, after, split, fun other member => ?_⟩
    rw [Bool.not_eq_true', Bool.eq_false_iff, Ne, tests]
    exact earlier other member

/-- A search fails only where no element matches. -/
theorem isSome_find_traversal (valid : Forest m) :
    (m.traversal.find? test).isSome = true ↔ ∃ id < m.size, holds id := by
  rw [List.find?_isSome]
  constructor
  · rintro ⟨id, member, met⟩
    exact ⟨id, (mem_traversal valid).mp member, (tests id).mp met⟩
  · rintro ⟨id, known, met⟩
    exact ⟨id, (mem_traversal valid).mpr known, (tests id).mpr met⟩

end search

/-- After any building steps the elements are a forest that the walk covers. -/
theorem covered_ofEdits (edits : List Edit) : (ofEdits edits).Covered := by
  have valid := Forest.ofEdits edits
  constructor
  · exact members_eq_filter valid
  · exact roots_eq_filter valid
  · exact fun id owner owned => ⟨owner_lt owned, valid.owner_known owned⟩
  · exact preorder_visit _
  · exact traversal_perm valid
  · exact fun name id => find_eq_some_iff_first fun _ => beq_iff_eq
  · exact fun name => isSome_find_traversal (fun _ => beq_iff_eq) valid
  · exact fun path id => find_eq_some_iff_first fun _ => beq_iff_eq
  · exact fun path => isSome_find_traversal (fun _ => beq_iff_eq) valid

end StructuralModel.Model
