import StructuralModel.Elaboration.Cycles
import StructuralModel.Proofs.Reachability
import StructuralModel.Proofs.TraversalOrder

/-! The search for cycles misses none: a model in which it finds nothing is acyclic. -/

namespace StructuralModel.Model
open Relation

variable {m : Model}

theorem isCyclic_iff {id : ElementId} : m.isCyclic id = true ↔ TransGen m.GeneralEdge id id := by
  rw [isCyclic, List.any_eq_true, TransGen.head'_iff]
  constructor
  · rintro ⟨general, edge, back⟩
    exact ⟨general, edge, specializes_iff.mp back⟩
  · rintro ⟨general, edge, back⟩
    exact ⟨general, edge, specializes_iff.mpr back⟩

/-- A walk leaves every element that it is to leave or that it enters for the first time. -/
theorem mem_departures (met : List ElementId) (steps : List Step) :
    ∀ id : Nat, .leave id ∈ steps ∨ .enter id ∈ steps ∧ id < m.size ∧ id ∉ met → id ∈ m.departures met steps := by
  induction met, steps using departures.induct m with
  | case1 met => simp
  | case2 met left steps ih =>
    intro id waits
    rw [departures]
    rcases waits with leaves | ⟨enters, known, new⟩
    · rcases List.mem_cons.mp leaves with same | leaves
      · exact List.mem_cons.mpr (.inl (Step.leave.inj same))
      · exact List.mem_cons_of_mem _ (ih id (.inl leaves))
    · have later : .enter id ∈ steps := by simpa using enters
      exact List.mem_cons_of_mem _ (ih id (.inr ⟨later, known, new⟩))
  | case3 met entered steps fresh ih =>
    intro id waits
    rw [departures, if_pos fresh]
    apply ih
    rcases waits with leaves | ⟨enters, known, new⟩
    · have later : .leave id ∈ steps := by simpa using leaves
      exact .inl (by simp [later])
    · by_cases same : id = entered
      · exact .inl (by simp [same])
      · have later : .enter id ∈ steps := by simpa [same] using enters
        exact .inr ⟨by simp [later], known, by simp [same, new]⟩
  | case4 met entered steps old ih =>
    intro id waits
    rw [departures, if_neg old]
    apply ih
    rcases waits with leaves | ⟨enters, known, new⟩
    · exact .inl (by simpa using leaves)
    · by_cases same : id = entered
      · exact absurd ⟨same ▸ known, same ▸ new⟩ old
      · exact .inr ⟨by simpa [same] using enters, known, new⟩

theorem mem_of_mem_lastOfCycles {ids : List ElementId} {id : ElementId} (last : id ∈ m.lastOfCycles ids) :
    id ∈ ids := by
  induction ids with
  | nil => exact last
  | cons first rest ih =>
    rw [lastOfCycles] at last
    split at last
    · exact List.mem_cons_of_mem _ (ih last)
    · rcases List.mem_cons.mp last with rfl | last
      · exact List.mem_cons_self
      · exact List.mem_cons_of_mem _ (ih last)

/-- An element is passed over only for a later one of its cycle. -/
theorem lastOfCycles_eq_nil {ids : List ElementId} : m.lastOfCycles ids = [] ↔ ids = [] := by
  induction ids with
  | nil => exact ⟨fun _ => rfl, fun _ => rfl⟩
  | cons first rest ih =>
    rw [lastOfCycles]
    split
    next shared =>
      rw [ih]
      constructor
      · rintro rfl
        simp at shared
      · rintro ⟨⟩
    next => simp

theorem cycles_eq_nil_iff (valid : Forest m) : m.cycles = [] ↔ ∀ id, ¬ TransGen m.GeneralEdge id id := by
  rw [cycles, List.map_eq_nil_iff, lastOfCycles_eq_nil, List.filter_eq_nil_iff]
  constructor
  · intro none id cycle
    obtain ⟨general, edge, _⟩ := TransGen.head'_iff.mp cycle
    have known : id < m.size := edge.known.1
    have entered : id ∈ m.departures [] (m.traversal.map .enter) :=
      mem_departures [] _ id (.inr ⟨List.mem_map_of_mem ((mem_traversal valid).mpr known), known, by simp⟩)
    exact none id entered (isCyclic_iff.mpr cycle)
  · intro acyclic id _ cycle
    exact acyclic id (isCyclic_iff.mp cycle)

/-- An element of a cycle stands in the cycle that is told for it. -/
theorem ne_nil_of_mem_cycles {cycle : List ElementId} (found : cycle ∈ m.cycles) : cycle ≠ [] := by
  obtain ⟨id, last, rfl⟩ := List.mem_map.mp found
  have cyclic := (List.mem_filter.mp (mem_of_mem_lastOfCycles last)).2
  obtain ⟨general, edge, _⟩ := TransGen.head'_iff.mp (isCyclic_iff.mp cyclic)
  have shares : m.sharesCycle id id = true := by
    rw [sharesCycle, Bool.and_self, specializes_iff]
    exact .refl
  exact List.ne_nil_of_mem (List.mem_filter.mpr ⟨List.mem_range.mpr edge.known.1, shares⟩)

end StructuralModel.Model
