import Mathlib.Logic.Relation
import StructuralModel.Model.Closure

/-! The closure of an element consists of exactly what its edges reach, and a feature redefines
exactly what its redefinition edges reach. Neither needs an acyclic graph. -/

namespace StructuralModel.Model
open Relation

/-- A specialization, typing or redefinition edge. -/
def GeneralEdge (m : Model) (id general : ElementId) : Prop :=
  general ∈ m.generalTypes id

/-- An element inherits from all that it reaches, itself included. -/
def Reaches (m : Model) : ElementId → ElementId → Prop :=
  ReflTransGen m.GeneralEdge

def RedefinesEdge (m : Model) (id target : ElementId) : Prop :=
  m.redefines? id = some target

/-- Redefinition through a chain of one or more edges. -/
def RedefinesByChain (m : Model) : ElementId → ElementId → Prop :=
  TransGen m.RedefinesEdge

variable {m : Model}

theorem RedefinesEdge.general {id target : ElementId} (edge : m.RedefinesEdge id target) :
    m.GeneralEdge id target :=
  mem_generalTypes_of_redefines edge

theorem GeneralEdge.known {id general : Nat} (edge : m.GeneralEdge id general) :
    id < m.size ∧ general < m.size := by
  refine ⟨Nat.lt_of_not_le fun unknown => ?_, lt_of_mem_generalTypes edge⟩
  have none : m.generalTypes id = [] := by
    simp [generalTypes, element_eq_default unknown, default, Element.generalTypes]
  simp [GeneralEdge, none] at edge

theorem RedefinesByChain.general {id target : ElementId} (chain : m.RedefinesByChain id target) :
    TransGen m.GeneralEdge id target :=
  TransGen.mono (p := m.GeneralEdge) (fun _ _ edge => edge.general) id target chain

theorem mem_fresh {met ids : List ElementId} {id : ElementId} (member : id ∈ ids) (new : id ∉ met) :
    id ∈ fresh met ids := by
  induction ids generalizing met with
  | nil => cases member
  | cons head rest ih =>
    rw [fresh]
    split
    next known =>
      rcases List.mem_cons.mp member with rfl | member
      · exact absurd known new
      · exact ih member new
    next =>
      by_cases same : id = head
      · simp [same]
      · exact List.mem_cons_of_mem _ (ih ((List.mem_cons.mp member).resolve_left same) (by simp [same, new]))

theorem nodup_fresh (met ids : List ElementId) : (fresh met ids).Nodup := by
  induction ids generalizing met with
  | nil => simp [fresh]
  | cons head rest ih =>
    rw [fresh]
    split
    · exact ih met
    · exact List.nodup_cons.mpr ⟨fun again => (mem_of_mem_fresh again).2 (by simp), ih _⟩

/-- What a walk visits, without the distances. -/
def walked (m : Model) (met : List ElementId) (waiting : List Ancestor) : List ElementId :=
  (m.walk met waiting).map Ancestor.element

/-- The queue of a walk after new elements are met. -/
def queued (waiting : List Ancestor) (new : List ElementId) (depth : Nat) : List Ancestor :=
  waiting ++ new.map fun id => ⟨id, depth⟩

theorem map_element_queued (waiting : List Ancestor) (new : List ElementId) (depth : Nat) :
    (queued waiting new depth).map Ancestor.element = waiting.map Ancestor.element ++ new := by
  simp [queued, Function.comp_def]

theorem walked_nil (met : List ElementId) : m.walked met [] = [] := by
  simp [walked, walk]

theorem walked_cons (met : List ElementId) (ancestor : Ancestor) (waiting : List Ancestor) :
    m.walked met (ancestor :: waiting) = ancestor.element ::
      m.walked (met ++ fresh met (m.generalTypes ancestor.element))
        (queued waiting (fresh met (m.generalTypes ancestor.element)) (ancestor.depth + 1)) := by
  simp [walked, queued, walk]

/-- A walk visits only what its queue reaches. -/
theorem walked_reached (met : List ElementId) (waiting : List Ancestor) :
    ∀ id ∈ m.walked met waiting, ∃ start ∈ waiting.map Ancestor.element, m.Reaches start id := by
  induction met, waiting using walk.induct m with
  | case1 met => simp [walked_nil]
  | case2 met ancestor waiting new ih =>
    intro id visited
    rw [walked_cons] at visited
    rcases List.mem_cons.mp visited with rfl | visited
    · exact ⟨_, by simp, .refl⟩
    obtain ⟨start, member, reached⟩ := ih id visited
    rw [← queued, map_element_queued, List.mem_append] at member
    rcases member with member | member
    · exact ⟨start, by simp [List.mem_map.mp member], reached⟩
    · exact ⟨ancestor.element, by simp, .head (mem_of_mem_fresh member).1 reached⟩

theorem walked_queue (met : List ElementId) (waiting : List Ancestor) :
    ∀ id ∈ waiting.map Ancestor.element, id ∈ m.walked met waiting := by
  induction met, waiting using walk.induct m with
  | case1 met => simp
  | case2 met ancestor waiting new ih =>
    intro id member
    rw [walked_cons]
    rcases List.mem_cons.mp member with rfl | member
    · simp
    · refine List.mem_cons_of_mem _ (ih id ?_)
      rw [← queued, map_element_queued]
      exact List.mem_append_left _ member

/-- What waits in the queue has been met. -/
theorem queue_known {met : List ElementId} {ancestor : Ancestor} {waiting : List Ancestor}
    (known : ∀ id ∈ (ancestor :: waiting).map Ancestor.element, id ∈ met) :
    ∀ id ∈ (queued waiting (fresh met (m.generalTypes ancestor.element)) (ancestor.depth + 1)).map Ancestor.element,
      id ∈ met ++ fresh met (m.generalTypes ancestor.element) := by
  rw [map_element_queued]
  intro id member
  rcases List.mem_append.mp member with waits | added
  · exact List.mem_append_left _ (known id (List.mem_cons_of_mem _ waits))
  · exact List.mem_append_right _ added

/-- Everything met before a walk is in its queue or has no general types left to meet. -/
def Exhausted (m : Model) (met : List ElementId) (waiting : List Ancestor) : Prop :=
  ∀ id ∈ met, id ∈ waiting.map Ancestor.element ∨ ∀ general, m.GeneralEdge id general → general ∈ met

/-- Once the first of the queue has its general types met, nothing of it is left. -/
theorem Exhausted.next {met : List ElementId} {ancestor : Ancestor} {waiting : List Ancestor}
    (exhausted : m.Exhausted met (ancestor :: waiting)) :
    m.Exhausted (met ++ fresh met (m.generalTypes ancestor.element))
      (queued waiting (fresh met (m.generalTypes ancestor.element)) (ancestor.depth + 1)) := by
  intro id member
  rw [map_element_queued]
  rcases List.mem_append.mp member with old | added
  · rcases exhausted id old with waits | done
    · rcases List.mem_cons.mp waits with rfl | waits
      · refine .inr fun general edge => ?_
        by_cases known : general ∈ met
        · exact List.mem_append_left _ known
        · exact List.mem_append_right _ (mem_fresh edge known)
      · exact .inl (List.mem_append_left _ waits)
    · exact .inr fun general edge => List.mem_append_left _ (done general edge)
  · exact .inl (List.mem_append_right _ added)

/-- Taking one element from the queue loses nothing that was met or is visited. -/
theorem mem_walked_cons {met : List ElementId} {ancestor : Ancestor} {waiting : List Ancestor}
    (first : ancestor.element ∈ met) {id : ElementId} : (id ∈ met ∨ id ∈ m.walked met (ancestor :: waiting)) ↔
      id ∈ met ++ fresh met (m.generalTypes ancestor.element) ∨
        id ∈ m.walked (met ++ fresh met (m.generalTypes ancestor.element))
          (queued waiting (fresh met (m.generalTypes ancestor.element)) (ancestor.depth + 1)) := by
  rw [walked_cons]
  constructor
  · rintro (old | visited)
    · exact .inl (List.mem_append_left _ old)
    · rcases List.mem_cons.mp visited with rfl | visited
      · exact .inl (List.mem_append_left _ first)
      · exact .inr visited
  · rintro (known | visited)
    · rcases List.mem_append.mp known with old | added
      · exact .inl old
      · refine .inr (List.mem_cons_of_mem _ (walked_queue _ _ id ?_))
        rw [map_element_queued]
        exact List.mem_append_right _ added
    · exact .inr (List.mem_cons_of_mem _ visited)

/-- A walk leaves no edge behind. -/
theorem walked_closed (met : List ElementId) (waiting : List Ancestor) (exhausted : m.Exhausted met waiting)
    (known : ∀ id ∈ waiting.map Ancestor.element, id ∈ met) :
    ∀ id, id ∈ met ∨ id ∈ m.walked met waiting →
      ∀ general, m.GeneralEdge id general → general ∈ met ∨ general ∈ m.walked met waiting := by
  induction met, waiting using walk.induct m with
  | case1 met =>
    intro id member general edge
    rcases member with old | visited
    · exact .inl (((exhausted id old).resolve_left (by simp)) general edge)
    · simp [walked_nil] at visited
  | case2 met ancestor waiting new ih =>
    intro id member general edge
    have first : ancestor.element ∈ met := known _ (by simp)
    rw [mem_walked_cons first] at member ⊢
    exact ih exhausted.next (queue_known known) id member general edge

theorem nodup_walked (met : List ElementId) (waiting : List Ancestor)
    (distinct : (waiting.map Ancestor.element).Nodup)
    (known : ∀ id ∈ waiting.map Ancestor.element, id ∈ met) :
    (m.walked met waiting).Nodup ∧
      ∀ id ∈ m.walked met waiting, id ∈ waiting.map Ancestor.element ∨ id ∉ met := by
  induction met, waiting using walk.induct m with
  | case1 met => simp [walked_nil]
  | case2 met ancestor waiting new ih =>
    rw [List.map_cons, List.nodup_cons] at distinct
    have first : ancestor.element ∈ met := known _ (by simp)
    obtain ⟨rest, apart⟩ := ih
      (by
        rw [← queued, map_element_queued, List.nodup_append]
        refine ⟨distinct.2, nodup_fresh _ _, ?_⟩
        rintro id waits other added rfl
        exact (mem_of_mem_fresh added).2 (known id (by simp [List.mem_map.mp waits])))
      (queue_known known)
    rw [← queued, map_element_queued] at apart
    rw [walked_cons]
    refine ⟨List.nodup_cons.mpr ⟨fun again => ?_, rest⟩, ?_⟩
    · rcases apart _ again with again | unknown
      · rcases List.mem_append.mp again with waits | added
        · exact distinct.1 waits
        · exact (mem_of_mem_fresh added).2 first
      · exact unknown (List.mem_append_left _ first)
    · intro id visited
      rcases List.mem_cons.mp visited with rfl | visited
      · exact .inl (by simp)
      rcases apart id visited with visited | unknown
      · rcases List.mem_append.mp visited with waits | added
        · exact .inl (by simp [List.mem_map.mp waits])
        · exact .inr (mem_of_mem_fresh added).2
      · exact .inr fun old => unknown (List.mem_append_left _ old)

/-- The elements of a closure in breadth-first order. -/
def lineage (m : Model) (scope : ElementId) : List ElementId :=
  (m.generalClosure scope).map Ancestor.element

theorem lineage_eq (scope : ElementId) : m.lineage scope = m.walked [scope] [⟨scope, 0⟩] := rfl

/-- The closure holds exactly what the scope reaches. -/
theorem mem_lineage {scope id : ElementId} : id ∈ m.lineage scope ↔ m.Reaches scope id := by
  rw [lineage_eq]
  have first : scope ∈ m.walked [scope] [⟨scope, 0⟩] := walked_queue _ _ scope (by simp)
  have closed := walked_closed (m := m) [scope] [⟨scope, 0⟩] (fun id member => .inl (by simpa using member))
    (by simp)
  constructor
  · intro visited
    obtain ⟨start, member, reached⟩ := walked_reached _ _ id visited
    simp only [List.map_cons, List.map_nil, List.mem_singleton] at member
    exact member ▸ reached
  · intro reached
    induction reached with
    | refl => exact first
    | tail _ edge ih =>
      rcases closed _ (.inr ih) _ edge with start | visited
      · rw [List.mem_singleton.mp start]
        exact first
      · exact visited

theorem reaches_of_mem_generalClosure {scope : ElementId} {ancestor : Ancestor}
    (member : ancestor ∈ m.generalClosure scope) : m.Reaches scope ancestor.element :=
  mem_lineage.mp (List.mem_map_of_mem member)

theorem nodup_lineage (scope : ElementId) : (m.lineage scope).Nodup :=
  (nodup_walked [scope] [⟨scope, 0⟩] (by simp) (by simp)).1

/-- The scope comes first in its own closure. -/
theorem lineage_eq_cons (scope : ElementId) : m.lineage scope = scope :: (m.lineage scope).tail := by
  simp [lineage_eq, walked_cons]

theorem any_generalClosure {scope id : ElementId} :
    ((m.generalClosure scope).any fun ancestor => ancestor.element = id) = true ↔ m.Reaches scope id := by
  rw [← mem_lineage]
  simp [lineage]

theorem specializes_iff {id general : ElementId} : m.specializes id general = true ↔ m.Reaches id general := by
  rw [specializes, Bool.or_eq_true, any_generalClosure, decide_eq_true_eq]
  constructor
  · rintro (rfl | reached)
    · exact .refl
    · exact reached
  · exact .inr

theorem redefined_of_none {met : List ElementId} {id : ElementId} (last : m.redefines? id = none) :
    m.redefined met id = [] := by
  rw [redefined]
  split
  · rfl
  next found => simp [last] at found

theorem redefined_of_some {met : List ElementId} {id target : ElementId} (edge : m.RedefinesEdge id target) :
    m.redefined met id = if target ∈ met then [] else target :: m.redefined (target :: met) target := by
  have edge : m.redefines? id = some target := edge
  rw [redefined]
  split
  next last => simp [edge] at last
  next found =>
    rw [edge, Option.some.injEq] at found
    subst found
    rfl

theorem redefined_reached (met : List ElementId) (id : ElementId) :
    ∀ target ∈ m.redefined met id, m.RedefinesByChain id target := by
  induction met, id using redefined.induct m with
  | case1 met id last => simp [redefined_of_none last]
  | case2 met id next found repeated => simp [redefined_of_some found, repeated]
  | case3 met id next found new ih =>
    intro target member
    rw [redefined_of_some found, if_neg new] at member
    rcases List.mem_cons.mp member with rfl | member
    · exact .single found
    · exact .head found (ih target member)

/-- Everything met along a chain has its redefined feature met too, the last one excepted. -/
def Followed (m : Model) (met : List ElementId) (last : ElementId) : Prop :=
  ∀ feature ∈ met, feature = last ∨ ∀ next, m.RedefinesEdge feature next → next ∈ met

theorem Followed.next {met : List ElementId} {last target : ElementId} (followed : m.Followed met last)
    (edge : m.RedefinesEdge last target) : m.Followed (target :: met) target := by
  intro feature member
  rcases List.mem_cons.mp member with rfl | member
  · exact .inl rfl
  rcases followed feature member with rfl | closed
  · exact .inr fun next edge' => List.mem_cons.mpr (.inl (Option.some.inj (edge'.symm.trans edge)))
  · exact .inr fun next edge' => List.mem_cons_of_mem _ (closed next edge')

/-- Where a chain stops, nothing is left to follow. -/
theorem Followed.closed {met : List ElementId} {last : ElementId} (followed : m.Followed met last)
    (own : ∀ next, m.RedefinesEdge last next → next ∈ met) :
    ∀ feature, feature = last ∨ feature ∈ met → ∀ next, m.RedefinesEdge feature next → next ∈ met := by
  intro feature known next edge
  rcases known with rfl | known
  · exact own next edge
  rcases followed feature known with rfl | closed
  · exact own next edge
  · exact closed next edge

theorem redefined_closed (met : List ElementId) (id : ElementId) (followed : m.Followed met id) :
    ∀ feature, feature = id ∨ feature ∈ met ∨ feature ∈ m.redefined met id →
      ∀ next, m.RedefinesEdge feature next → next ∈ met ∨ next ∈ m.redefined met id := by
  induction met, id using redefined.induct m with
  | case1 met id last =>
    intro feature known next edge
    rw [redefined_of_none last] at known
    have none : ∀ next, m.RedefinesEdge id next → next ∈ met := fun next edge => by simp [RedefinesEdge, last] at edge
    exact .inl (followed.closed none feature (by simpa using known) next edge)
  | case2 met id target found repeated =>
    intro feature known next edge
    rw [redefined_of_some found, if_pos repeated] at known
    have own : ∀ next, m.RedefinesEdge id next → next ∈ met := fun next edge =>
      Option.some.inj (found.symm.trans edge) ▸ repeated
    exact .inl (followed.closed own feature (by simpa using known) next edge)
  | case3 met id target found new ih =>
    intro feature known next edge
    rw [redefined_of_some found, if_neg new] at known ⊢
    have later : next ∈ target :: met ∨ next ∈ m.redefined (target :: met) target := by
      rcases known with rfl | known | known
      · exact .inl (List.mem_cons.mpr (.inl (Option.some.inj (edge.symm.trans found))))
      · exact ih (followed.next found) feature (.inr (.inl (List.mem_cons_of_mem _ known))) next edge
      · rcases List.mem_cons.mp known with rfl | known
        · exact ih (followed.next found) feature (.inl rfl) next edge
        · exact ih (followed.next found) feature (.inr (.inr known)) next edge
    rcases later with later | later
    · rcases List.mem_cons.mp later with rfl | later
      · exact .inr List.mem_cons_self
      · exact .inl later
    · exact .inr (List.mem_cons_of_mem _ later)

/-- The search along a chain finds exactly what the chain reaches. -/
theorem redefines_iff {id target : ElementId} : m.redefines id target = true ↔ m.RedefinesByChain id target := by
  rw [redefines, List.contains_iff_mem]
  constructor
  · exact redefined_reached [] id target
  · intro chain
    have closed := redefined_closed (m := m) [] id (fun _ member => by cases member)
    induction chain with
    | single edge => exact (closed id (.inl rfl) _ edge).resolve_left (by simp)
    | tail _ edge ih => exact (closed _ (.inr (.inr ih)) _ edge).resolve_left (by simp)

theorem RedefinesByChain.known {id target : Nat} (chain : m.RedefinesByChain id target) :
    id < m.size ∧ target < m.size := by
  obtain ⟨next, first, _⟩ := TransGen.head'_iff.mp chain
  obtain ⟨_, _, last⟩ := TransGen.tail'_iff.mp chain
  exact ⟨first.general.known.1, last.general.known.2⟩

end StructuralModel.Model
