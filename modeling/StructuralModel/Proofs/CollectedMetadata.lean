import Mathlib.Data.List.Nodup
import StructuralModel.Metadata
import StructuralModel.Proofs.AboutReferences
import StructuralModel.Proofs.TraversalOrder

/-! What the metadata of a model tells: an entry for each element of the kinds that are asked for, in the order of
the segments of their paths, with what is attached to the element itself. -/

namespace StructuralModel

namespace QualifiedName

theorem segmentChars_ne_nil (path : List Char) : segmentChars path ≠ [] := by
  fun_cases segmentChars path <;> simp_all

/-- Nothing but the separators is lost. -/
theorem intercalate_segmentChars (path : List Char) : [':', ':'].intercalate (segmentChars path) = path := by
  fun_induction segmentChars path with
  | case1 | case2 => rfl
  | case3 rest ih =>
    rw [List.intercalate_cons_of_ne_nil (segmentChars_ne_nil rest), ih]
    rfl
  | case4 c next rest apart none => exact absurd none (segmentChars_ne_nil _)
  | case5 c next rest apart segment segments same ih =>
    rw [same] at ih
    cases segments with
    | nil => rw [List.intercalate_singleton] at ih ⊢; rw [ih]
    | cons following segments =>
      rw [List.intercalate_cons_cons] at ih ⊢
      rw [List.cons_append, List.cons_append, ih]

theorem joinAll_segments (path : String) : joinAll (segments path) = path := by
  rw [joinAll, ← String.toList_inj, String.toList_intercalate, segments, List.map_map]
  simp only [Function.comp_def, String.toList_ofList, List.map_id']
  exact intercalate_segmentChars path.toList

theorem segments_injective : Function.Injective segments :=
  Function.LeftInverse.injective joinAll_segments

theorem compareLex_eq_lt (first second : List String) :
    List.compareLex Ord.compare first second = .lt ↔ first < second := by
  induction first generalizing second with
  | nil => cases second <;> simp [List.compareLex]
  | cons a rest ih =>
    cases second with
    | nil => simp [List.compareLex]
    | cons b more =>
      rw [List.compareLex_cons_cons, List.cons_lt_cons_iff, Ordering.then_eq_lt, ih, Std.LawfulLTCmp.eq_lt_iff_lt,
        Std.LawfulEqCmp.compare_eq_iff_eq]

theorem compare_eq_lt {a b : String} : compare a b = .lt ↔ segments a < segments b :=
  compareLex_eq_lt (segments a) (segments b)

theorem compare_eq_eq {a b : String} : compare a b = .eq ↔ a = b := by
  rw [compare, Std.LawfulEqCmp.compare_eq_iff_eq]
  exact segments_injective.eq_iff

theorem isLE_trans {a b c : String} (first : (compare a b).isLE) (second : (compare b c).isLE) :
    (compare a c).isLE := by
  rw [compare] at *
  exact Std.TransCmp.isLE_trans first second

theorem compare_swap (a b : String) : (compare a b).swap = compare b a := by
  rw [compare, compare]
  exact Std.OrientedCmp.eq_swap.symm

end QualifiedName

section sort

variable {α : Type} {l : List α}

/-- Of two items of a list, one comes first. -/
theorem pair_sublist_or {a b : α} (first : a ∈ l) (second : b ∈ l) (apart : a ≠ b) :
    [a, b].Sublist l ∨ [b, a].Sublist l := by
  have symmetric : Std.Symm fun a b => [a, b].Sublist l ∨ [b, a].Sublist l := ⟨fun _ _ => Or.symm⟩
  have ordered : l.Pairwise fun a b => [a, b].Sublist l ∨ [b, a].Sublist l :=
    List.pairwise_iff_forall_sublist.mpr .inl
  exact ordered.forall first second apart

theorem not_sublist_swapped {a b : α} (distinct : l.Nodup) (ordered : [a, b].Sublist l) : ¬ [b, a].Sublist l := by
  classical
  intro swapped
  have ascend : l.Pairwise fun a b => l.idxOf a < l.idxOf b := by
    refine List.pairwise_iff_getElem.mpr fun i j _ _ before => ?_
    rwa [distinct.idxOf_getElem, distinct.idxOf_getElem]
  exact Nat.lt_asymm (List.pairwise_iff_forall_sublist.mp ascend ordered)
    (List.pairwise_iff_forall_sublist.mp ascend swapped)

/-- A stable sort leaves items that are not ordered where they are. -/
theorem pairwise_stable {le : α → α → Bool} (trans : ∀ a b c, le a b → le b c → le a c)
    (total : ∀ a b, le a b || le b a) (distinct : l.Nodup) :
    (l.mergeSort le).Pairwise fun a b => le a b ∧ (le b a → [a, b].Sublist l) := by
  rw [List.pairwise_iff_forall_sublist]
  intro a b sorted
  have kept : (l.mergeSort le).Nodup := (List.mergeSort_perm l le).nodup_iff.mpr distinct
  have apart : a ≠ b := by simpa using kept.sublist sorted
  refine ⟨List.pairwise_iff_forall_sublist.mp (List.pairwise_mergeSort trans total l) sorted, fun back => ?_⟩
  have member {c : α} (listed : c ∈ [a, b]) : c ∈ l := List.mem_mergeSort.mp (sorted.subset listed)
  rcases pair_sublist_or (member (by simp)) (member (by simp)) apart with same | swapped
  · exact same
  · exact absurd (List.pair_sublist_mergeSort trans total back swapped) (not_sublist_swapped kept sorted)

end sort

namespace Model
open QualifiedName

variable {m : Model} {references : List Reference} {id : ElementId}

/-- The notes of a kind on an element: those it owns that refer to nothing, in the order in which they were declared,
and then one for each reference to it. -/
def notesOn (m : Model) (references : List Reference) (kind : ElementKind) (id : ElementId) : List ElementId :=
  (List.range m.size).filter
      (fun note => m.kind note = kind ∧ m.owner? note = some id ∧ targetsOf references note = []) ++
    (referrers references id).filter fun note => m.kind note = kind

/-- What an element is called and what is attached to it. -/
def entryOf (m : Model) (references : List Reference) (id : ElementId) : ElementMetadata where
  name? := m.name? id
  path := m.path id
  kind := m.kind id
  comments := (m.notesOn references .comment id).map fun note => ⟨m.name? note, (m.element note).body?.getD ""⟩
  documentation := (m.notesOn references .documentation id).map fun note =>
    ⟨(m.element note).locale?, (m.element note).body?.getD ""⟩

/-- Paths are compared segment by segment; where they are equal, the walk over the model decides. -/
def ListedBefore (m : Model) (a b : ElementId) : Prop :=
  segments (m.path a) < segments (m.path b) ∨ m.path a = m.path b ∧ [a, b].Sublist m.traversal

/-- All elements of some kinds, in the order of a listing. -/
structure Lists (m : Model) (kinds : List ElementKind) (ids : List ElementId) : Prop where
  distinct : ids.Nodup
  mem_iff : ∀ id, id ∈ ids ↔ id < m.size ∧ m.kind id ∈ kinds
  ordered : ids.Pairwise m.ListedBefore

theorem members_eq (valid : Forest m) (id : ElementId) :
    m.members id = (List.range m.size).filter fun member => m.owner? member = some id := by
  refine (valid.members_ascend id).eq_of_mem_iff (List.pairwise_lt_range.filter _) fun member => ?_
  rw [List.mem_filter, List.mem_range, decide_eq_true_eq, valid.member_iff]
  exact ⟨fun owned => ⟨valid.owner_known owned, owned⟩, And.right⟩

theorem filter_annotations (records : Records m references) (valid : Forest m) {kind : ElementKind}
    (annotates : kind.annotates) (id : ElementId) :
    (m.annotations id).filter (fun note => m.kind note = kind) = m.notesOn references kind id := by
  rw [annotations, notesOn, List.filter_append, records.annotatedBy, members_eq valid, List.filter_filter,
    List.filter_filter]
  congr 1
  refine List.filter_congr fun note _ => ?_
  rw [records.about]
  by_cases same : m.kind note = kind
  · rw [Bool.eq_iff_iff]
    simp [same, annotates, and_comm]
  · simp [same]

theorem filterMap_ite {α β : Type} (p : α → Prop) [DecidablePred p] (f : α → β) (l : List α) :
    l.filterMap (fun a => if p a then some (f a) else none) = (l.filter p).map f := by
  rw [← List.filterMap_eq_map, List.filterMap_filter]
  simp

theorem metadataOf_eq (records : Records m references) (valid : Forest m) (id : ElementId) :
    m.metadataOf id = m.entryOf references id := by
  rw [metadataOf, entryOf, ← filter_annotations records valid rfl, ← filter_annotations records valid rfl,
    ← filterMap_ite, ← filterMap_ite]
  rfl

/-- The order by which metadata is sorted. -/
def pathLE (m : Model) (a b : ElementId) : Bool :=
  (QualifiedName.compare (m.path a) (m.path b)).isLE

theorem pathLE_total (a b : ElementId) : m.pathLE a b || m.pathLE b a := by
  rw [pathLE, pathLE, ← compare_swap (m.path a)]
  cases QualifiedName.compare (m.path a) (m.path b) <;> rfl

theorem listedBefore_of_pathLE {a b : ElementId} (ordered : m.pathLE a b)
    (settled : m.pathLE b a → [a, b].Sublist m.traversal) : m.ListedBefore a b := by
  rw [pathLE] at ordered
  rw [pathLE, ← compare_swap] at settled
  cases compared : QualifiedName.compare (m.path a) (m.path b) with
  | lt => exact .inl (compare_eq_lt.mp compared)
  | eq => exact .inr ⟨compare_eq_eq.mp compared, settled (by rw [compared]; rfl)⟩
  | gt => simp [compared] at ordered

theorem metadata_eq (records : Records m references) (valid : Forest m) (kinds : List ElementKind) :
    m.metadata kinds = ((m.ofKinds kinds).mergeSort m.pathLE).map (m.entryOf references) := by
  have entries : m.metadataOf = m.entryOf references := funext (metadataOf_eq records valid)
  rw [metadata, entries]
  refine (List.map_mergeSort ?_).symm
  exact fun _ _ _ _ => rfl

theorem nodup_ofKinds (valid : Forest m) (kinds : List ElementKind) : (m.ofKinds kinds).Nodup :=
  (nodup_traversal valid).filter _

theorem lists_sorted (valid : Forest m) (kinds : List ElementKind) :
    m.Lists kinds ((m.ofKinds kinds).mergeSort m.pathLE) where
  distinct := (List.mergeSort_perm _ _).nodup_iff.mpr (nodup_ofKinds valid kinds)
  mem_iff id := by
    rw [List.mem_mergeSort, ofKinds, List.mem_filter, mem_traversal valid, List.contains_iff_mem]
  ordered := by
    have transitive : ∀ a b c, m.pathLE a b → m.pathLE b c → m.pathLE a c := fun _ _ _ => isLE_trans
    refine (pairwise_stable transitive pathLE_total (nodup_ofKinds valid kinds)).imp ?_
    intro a b ⟨ordered, stable⟩
    exact listedBefore_of_pathLE ordered fun back => (stable back).trans List.filter_sublist

/-- Metadata has one entry for each element of the kinds, with what is attached to the element itself and nothing that
the element inherits. -/
theorem metadata_lists_elements (edits : List Edit) (kinds : List ElementKind) :
    ∃ ids, (ofEdits edits).Lists kinds ids ∧
      (ofEdits edits).metadata kinds = ids.map ((ofEdits edits).entryOf (referencesOf edits)) :=
  ⟨_, lists_sorted (.ofEdits edits) kinds, metadata_eq (records_ofEdits edits) (.ofEdits edits) kinds⟩

end Model
end StructuralModel
