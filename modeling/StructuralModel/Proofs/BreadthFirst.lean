import Mathlib.Data.List.Basic
import Mathlib.Order.Bounds.Defs
import StructuralModel.Proofs.Reachability

/-! The closure of an element lists what the element reaches by distance. Elements of one distance stand in the order in
which the edges lead to them, so the closure is told by the graph alone, cyclic or not. -/

namespace StructuralModel.Model

/-- A way from an element to another along so many edges. -/
inductive Way (m : Model) (start : ElementId) : Nat → ElementId → Prop
  | here : Way m start 0 start
  | further {length id general} (way : Way m start length id) (edge : m.GeneralEdge id general) :
      Way m start (length + 1) general

/-- Where an element is found from a list: the position of the first that has an edge to it, and the place of this edge
among its edges. -/
def foundAt (m : Model) (ids : List ElementId) (id : ElementId) : Nat × Nat :=
  let first := ids.findIdx fun source => decide (id ∈ m.generalTypes source)
  (first, (m.generalTypes (ids.getD first id)).idxOf id)

/-- Found from an earlier element of the list, or from the same one by an earlier edge. -/
def FoundBefore (m : Model) (ids : List ElementId) (first second : ElementId) : Prop :=
  (m.foundAt ids first).1 < (m.foundAt ids second).1 ∨
    (m.foundAt ids first).1 = (m.foundAt ids second).1 ∧ (m.foundAt ids first).2 < (m.foundAt ids second).2

/-- The recorded depth is the length of a shortest way. -/
def AtDistance (m : Model) (scope : ElementId) (ancestor : Ancestor) : Prop :=
  IsLeast {length | m.Way scope length ancestor.element} ancestor.depth

/-- The order of a breadth-first search: by distance, then by the first of the earlier elements that leads there. -/
structure BreadthFirst (m : Model) (scope : ElementId) (closure : List Ancestor) : Prop where
  starts : closure.head? = some ⟨scope, 0⟩
  reached : ∀ id, id ∈ closure.map Ancestor.element ↔ m.Reaches scope id
  once : (closure.map Ancestor.element).Nodup
  nearest : ∀ ancestor ∈ closure, m.AtDistance scope ancestor
  ordered : closure.Pairwise fun first second => first.depth < second.depth ∨
    first.depth = second.depth ∧ m.FoundBefore (closure.map Ancestor.element) first.element second.element

variable {m : Model}

theorem Way.eq_start {start id : ElementId} (way : m.Way start 0 id) : id = start := by
  cases way
  rfl

theorem fresh_congr {met more : List ElementId} (same : ∀ id, id ∈ met ↔ id ∈ more) (ids : List ElementId) :
    fresh met ids = fresh more ids := by
  induction ids generalizing met more with
  | nil => rfl
  | cons id rest ih =>
    have further : ∀ other, other ∈ id :: met ↔ other ∈ id :: more := fun other => by
      rw [List.mem_cons, List.mem_cons, same]
    rw [fresh, fresh, ih same, ih further]
    simp only [same]

theorem fresh_append (met first second : List ElementId) :
    fresh met (first ++ second) = fresh met first ++ fresh (met ++ fresh met first) second := by
  induction first generalizing met with
  | nil => simp [fresh]
  | cons id rest ih =>
    rw [List.cons_append, fresh, fresh]
    split
    · exact ih met
    · rw [ih, List.cons_append]
      congr 2
      exact fresh_congr (fun other => by simp [or_left_comm]) second

/-- New elements stand in the order of their first occurrences. -/
theorem fresh_ascends (met ids : List ElementId) :
    (fresh met ids).Pairwise fun first second => ids.idxOf first < ids.idxOf second := by
  have later : ∀ {met id rest}, id ∈ met → (fresh met rest).Pairwise (fun first second =>
      rest.idxOf first < rest.idxOf second) → (fresh met rest).Pairwise fun first second =>
        (id :: rest).idxOf first < (id :: rest).idxOf second := by
    intro met id rest known ascends
    refine ascends.imp_of_mem fun {first second} firstNew secondNew before => ?_
    have apart : ∀ other ∈ fresh met rest, id ≠ other := fun other new same => (mem_of_mem_fresh new).2 (same ▸ known)
    rw [List.idxOf_cons_ne _ (apart first firstNew), List.idxOf_cons_ne _ (apart second secondNew)]
    exact Nat.succ_lt_succ before
  induction ids generalizing met with
  | nil => exact .nil
  | cons id rest ih =>
    rw [fresh]
    split
    next known => exact later known (ih met)
    next =>
      refine List.pairwise_cons.mpr ⟨fun other new => ?_, later List.mem_cons_self (ih _)⟩
      have apart : id ≠ other := fun same => (mem_of_mem_fresh new).2 (by simp [same])
      rw [List.idxOf_cons_self, List.idxOf_cons_ne _ apart]
      exact Nat.succ_pos _

/-- A walk visits its queue, and then what is found from the elements that it visits. -/
theorem walked_eq (met : List ElementId) (waiting : List Ancestor) :
    m.walked met waiting = waiting.map Ancestor.element ++ fresh met ((m.walked met waiting).flatMap m.generalTypes) := by
  induction met, waiting using walk.induct m with
  | case1 met => simp [walked_nil, fresh]
  | case2 met ancestor waiting new ih =>
    rw [← queued, map_element_queued] at ih
    rw [walked_cons, List.flatMap_cons, fresh_append, List.map_cons, List.cons_append, ← List.append_assoc]
    exact congrArg _ ih

theorem lineage_eq_fresh (scope : ElementId) :
    m.lineage scope = scope :: fresh [scope] ((m.lineage scope).flatMap m.generalTypes) :=
  walked_eq [scope] [⟨scope, 0⟩]

theorem foundAt_cons_of_edge {source id : ElementId} (edge : m.GeneralEdge source id) (ids : List ElementId) :
    m.foundAt (source :: ids) id = (0, (m.generalTypes source).idxOf id) := by
  have member : id ∈ m.generalTypes source := edge
  simp [foundAt, List.findIdx_cons, member]

theorem foundAt_cons_of_no_edge {source id : ElementId} (missing : ¬ m.GeneralEdge source id) (ids : List ElementId) :
    m.foundAt (source :: ids) id = ((m.foundAt ids id).1 + 1, (m.foundAt ids id).2) := by
  have absent : id ∉ m.generalTypes source := missing
  simp [foundAt, List.findIdx_cons, absent]

/-- What is new among the general types of a list stands in the order in which it is found. -/
theorem fresh_foundBefore (met ids : List ElementId) :
    (fresh met (ids.flatMap m.generalTypes)).Pairwise (m.FoundBefore ids) := by
  induction ids generalizing met with
  | nil => exact .nil
  | cons source ids ih =>
    rw [List.flatMap_cons, fresh_append, List.pairwise_append]
    have later : ∀ id ∈ fresh (met ++ fresh met (m.generalTypes source)) (ids.flatMap m.generalTypes),
        ¬ m.GeneralEdge source id := by
      intro id new edge
      have unmet := (mem_of_mem_fresh new).2
      by_cases known : id ∈ met
      · exact unmet (List.mem_append_left _ known)
      · exact unmet (List.mem_append_right _ (mem_fresh edge known))
    refine ⟨?_, ?_, ?_⟩
    · refine (fresh_ascends met _).imp_of_mem fun {first second} firstNew secondNew before => .inr ?_
      rw [foundAt_cons_of_edge (mem_of_mem_fresh firstNew).1, foundAt_cons_of_edge (mem_of_mem_fresh secondNew).1]
      exact ⟨rfl, before⟩
    · refine (ih _).imp_of_mem fun {first second} firstNew secondNew before => ?_
      rw [FoundBefore, foundAt_cons_of_no_edge (later first firstNew), foundAt_cons_of_no_edge (later second secondNew)]
      exact before.imp Nat.succ_lt_succ fun both => ⟨congrArg Nat.succ both.1, both.2⟩
    · intro first firstNew second secondNew
      rw [FoundBefore, foundAt_cons_of_edge (mem_of_mem_fresh firstNew).1, foundAt_cons_of_no_edge (later second secondNew)]
      exact .inl (Nat.succ_pos _)

/-- The state of a search from a scope. The queue holds elements of one distance and then some of the next, and all that
is no further away than its first element has been met. -/
structure Layered (m : Model) (scope : ElementId) (met : List ElementId) (waiting : List Ancestor) : Prop where
  exhausted : m.Exhausted met waiting
  nearest : ∀ ancestor ∈ waiting, m.AtDistance scope ancestor
  sorted : waiting.Pairwise fun first second => first.depth ≤ second.depth
  narrow : ∀ first ∈ waiting.head?, ∀ ancestor ∈ waiting, ancestor.depth ≤ first.depth + 1
  complete : ∀ first ∈ waiting.head?, ∀ length id, m.Way scope length id → length ≤ first.depth → id ∈ met

theorem Layered.start (scope : ElementId) : m.Layered scope [scope] [⟨scope, 0⟩] where
  exhausted id member := .inl (by simpa using member)
  nearest ancestor member := by
    obtain rfl := List.mem_singleton.mp member
    exact ⟨.here, fun _ _ => Nat.zero_le _⟩
  sorted := List.pairwise_singleton _ _
  narrow first same ancestor member := by
    obtain rfl := List.mem_singleton.mp member
    exact Nat.zero_le _
  complete first same length id way near := by
    obtain rfl := Option.some.inj same
    obtain rfl := Nat.le_zero.mp near
    exact List.mem_singleton.mpr way.eq_start

namespace Layered

variable {scope : ElementId} {met : List ElementId} {ancestor : Ancestor} {waiting : List Ancestor}

theorem mem_queued {new : List ElementId} {depth : Nat} {other : Ancestor} :
    other ∈ queued waiting new depth ↔ other ∈ waiting ∨ other.element ∈ new ∧ other.depth = depth := by
  rw [queued, List.mem_append, List.mem_map]
  refine or_congr_right ⟨?_, ?_⟩
  · rintro ⟨id, member, rfl⟩
    exact ⟨member, rfl⟩
  · rintro ⟨member, rfl⟩
    exact ⟨other.element, member, rfl⟩

/-- What is met for the first time from the first of the queue is one step further away than this. -/
theorem nearest_queued (layered : m.Layered scope met (ancestor :: waiting)) :
    ∀ other ∈ queued waiting (fresh met (m.generalTypes ancestor.element)) (ancestor.depth + 1),
      m.AtDistance scope other := by
  intro other member
  rcases mem_queued.mp member with old | ⟨new, depth⟩
  · exact layered.nearest other (List.mem_cons_of_mem _ old)
  · rw [AtDistance, depth]
    obtain ⟨edge, unmet⟩ := mem_of_mem_fresh new
    refine ⟨.further (layered.nearest ancestor List.mem_cons_self).1 edge, fun length way => ?_⟩
    exact Nat.lt_of_not_le fun near => unmet (layered.complete ancestor rfl length _ way near)

theorem sorted_queued (layered : m.Layered scope met (ancestor :: waiting)) (new : List ElementId) :
    (queued waiting new (ancestor.depth + 1)).Pairwise fun first second => first.depth ≤ second.depth := by
  have narrow := layered.narrow ancestor rfl
  refine List.pairwise_append.mpr ⟨(List.pairwise_cons.mp layered.sorted).2, ?_, ?_⟩
  · exact List.pairwise_map.mpr (List.pairwise_iff_forall_sublist.mpr fun _ => Nat.le_refl _)
  · intro first old second added
    obtain ⟨id, _, rfl⟩ := List.mem_map.mp added
    exact narrow first (List.mem_cons_of_mem _ old)

theorem head_le {queue : List Ancestor} (sorted : queue.Pairwise fun first second => first.depth ≤ second.depth)
    {first other : Ancestor} (same : first ∈ queue.head?) (member : other ∈ queue) : first.depth ≤ other.depth := by
  obtain ⟨rest, rfl⟩ := List.head?_eq_some_iff.mp same
  rcases List.mem_cons.mp member with rfl | behind
  · exact Nat.le_refl _
  · exact (List.pairwise_cons.mp sorted).1 other behind

/-- The queue goes on where the first element was, or one step further. -/
theorem depth_queued (layered : m.Layered scope met (ancestor :: waiting)) {new : List ElementId} {other : Ancestor}
    (member : other ∈ queued waiting new (ancestor.depth + 1)) :
    ancestor.depth ≤ other.depth ∧ other.depth ≤ ancestor.depth + 1 := by
  rcases mem_queued.mp member with old | ⟨_, depth⟩
  · exact ⟨(List.pairwise_cons.mp layered.sorted).1 other old,
      layered.narrow ancestor rfl other (List.mem_cons_of_mem _ old)⟩
  · omega

theorem next (layered : m.Layered scope met (ancestor :: waiting)) :
    m.Layered scope (met ++ fresh met (m.generalTypes ancestor.element))
      (queued waiting (fresh met (m.generalTypes ancestor.element)) (ancestor.depth + 1)) where
  exhausted := layered.exhausted.next
  nearest := layered.nearest_queued
  sorted := layered.sorted_queued _
  narrow first same other member := by
    have firstDepth := layered.depth_queued (List.mem_of_mem_head? same)
    have otherDepth := layered.depth_queued member
    omega
  complete first same length id way near := by
    have firstDepth := layered.depth_queued (List.mem_of_mem_head? same)
    by_cases old : length ≤ ancestor.depth
    · exact List.mem_append_left _ (layered.complete ancestor rfl length id way old)
    -- One step further than before: the last edge leads from an element that has been met, and none of these waits any more.
    cases way with
    | here => omega
    | @further length source _ shorter edge =>
      have known := layered.complete ancestor rfl length source shorter (by omega)
      rcases layered.exhausted.next source (List.mem_append_left _ known) with waits | done
      · obtain ⟨other, member, rfl⟩ := List.mem_map.mp waits
        have least := (layered.nearest_queued other member).2 shorter
        have behind := head_le (layered.sorted_queued _) same member
        omega
      · exact done id edge

end Layered

/-- A search visits what is as far away as it records, and never goes back. -/
theorem Layered.walk {scope : ElementId} (met : List ElementId) (waiting : List Ancestor)
    (layered : m.Layered scope met waiting) :
    (∀ ancestor ∈ m.walk met waiting, m.AtDistance scope ancestor) ∧
      (∀ first ∈ waiting.head?, ∀ ancestor ∈ m.walk met waiting, first.depth ≤ ancestor.depth) ∧
      (m.walk met waiting).Pairwise fun first second => first.depth ≤ second.depth := by
  induction met, waiting using walk.induct m with
  | case1 met => simp [Model.walk]
  | case2 met ancestor waiting new ih =>
    obtain ⟨nearest, behind, sorted⟩ := ih layered.next
    rw [← queued] at nearest behind sorted
    have later : ∀ other ∈ m.walk (met ++ new) (queued waiting new (ancestor.depth + 1)),
        ancestor.depth ≤ other.depth := by
      intro other visited
      cases queue : queued waiting new (ancestor.depth + 1) with
      | nil => simp [queue, Model.walk] at visited
      | cons first rest =>
        have member : first ∈ queued waiting new (ancestor.depth + 1) := queue ▸ List.mem_cons_self
        exact Nat.le_trans (layered.depth_queued member).1 (behind first (by rw [queue]; rfl) other visited)
    rw [Model.walk]
    refine ⟨List.forall_mem_cons.mpr ⟨layered.nearest ancestor List.mem_cons_self, nearest⟩, ?_,
      List.pairwise_cons.mpr ⟨later, sorted⟩⟩
    intro first same other visited
    obtain rfl := Option.some.inj same
    exact (List.mem_cons.mp visited).elim (fun same => same ▸ Nat.le_refl _) (later other)

theorem generalClosure_eq_cons (scope : ElementId) :
    m.generalClosure scope = ⟨scope, 0⟩ :: (m.generalClosure scope).tail := by
  rw [generalClosure, Model.walk, List.tail_cons]

/-- Behind the scope the closure stands in the order in which its elements are found from it. -/
theorem foundBefore_generalClosure (scope : ElementId) :
    (m.generalClosure scope).tail.Pairwise fun first second =>
      m.FoundBefore (m.lineage scope) first.element second.element := by
  have found := fresh_foundBefore (m := m) [scope] (m.lineage scope)
  have tail : (m.lineage scope).tail = fresh [scope] ((m.lineage scope).flatMap m.generalTypes) :=
    congrArg List.tail (lineage_eq_fresh scope)
  rw [← tail, lineage, ← List.map_tail, List.pairwise_map] at found
  exact found

/-- Only the scope itself is at no distance from it. -/
theorem depth_pos {scope : ElementId} {ancestor : Ancestor} (member : ancestor ∈ (m.generalClosure scope).tail) :
    0 < ancestor.depth := by
  have once := m.nodup_lineage scope
  rw [lineage, generalClosure_eq_cons, List.map_cons, List.nodup_cons] at once
  have way : m.Way scope ancestor.depth ancestor.element :=
    ((Layered.start (m := m) scope).walk.1 ancestor (List.mem_of_mem_tail member)).1
  refine Nat.pos_of_ne_zero fun none => once.1 (List.mem_map.mpr ⟨ancestor, member, ?_⟩)
  exact (none ▸ way).eq_start

theorem sorted_generalClosure (scope : ElementId) :
    (m.generalClosure scope).Pairwise fun first second => first.depth ≤ second.depth :=
  (Layered.start scope).walk.2.2

/-- No element of the closure is nearer to the scope than one before it, and those at one distance stand in the order in
which they are found. -/
theorem ordered_generalClosure (scope : ElementId) :
    (m.generalClosure scope).Pairwise fun first second => first.depth < second.depth ∨
      first.depth = second.depth ∧ m.FoundBefore (m.lineage scope) first.element second.element := by
  have sorted := m.sorted_generalClosure scope
  rw [generalClosure_eq_cons, List.pairwise_cons] at sorted ⊢
  refine ⟨fun other member => .inl (depth_pos member), ?_⟩
  refine (sorted.2.and (foundBefore_generalClosure scope)).imp fun {first second} both => ?_
  exact (Nat.lt_or_eq_of_le both.1).imp_right fun same => ⟨same, both.2⟩

/-- The closure of an element is a breadth-first search from it, so an element specializes exactly what it reaches. -/
theorem breadthFirst_generalClosure (m : Model) (scope : ElementId) :
    m.BreadthFirst scope (m.generalClosure scope) ∧
      ∀ general, m.specializes scope general = true ↔ Relation.ReflTransGen m.GeneralEdge scope general := by
  refine ⟨?_, fun _ => specializes_iff⟩
  constructor
  · rw [generalClosure_eq_cons]
    rfl
  · exact fun _ => mem_lineage
  · exact nodup_lineage scope
  · exact (Layered.start scope).walk.1
  · exact ordered_generalClosure scope

end StructuralModel.Model
