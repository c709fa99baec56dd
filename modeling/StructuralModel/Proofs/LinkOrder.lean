import Mathlib
import StructuralModel.Proofs.RenamedLookup
import StructuralModel.Proofs.Renumbering

/-! Names that are resolved in an order that does not show. Where each name is looked up only through elements
whose own names have been resolved before, the model that results is the only one in which every name denotes
what its edge leads to; so it is the same for every such order. -/

namespace StructuralModel

namespace Model

/-- The type that a path denotes for an element. Library types are no elements. -/
def typeTarget? (m : Model) (id : ElementId) (path : Path) : Option (Option ElementId) :=
  match m.resolvePath? (m.owner? id) path.segments with
  | some target => if (m.kind target).isType then some (some target) else none
  | none => if LibraryTypes.has path then some none else none

/-- The edges that a path leads to. -/
def typeTargets (m : Model) (id : ElementId) (path : Path) : List ElementId :=
  (m.typeTarget? id path).join.toList

def addFound (m : Model) (id : ElementId) : Option ElementId → Model
  | none => m
  | some target => m.addGeneral id target

/-- The feature that a redefinition by an element denotes. -/
def redefinedBy? (m : Model) (id : ElementId) (name : String) : Option ElementId :=
  (m.owner? id).bind fun owner => m.inheritedFeature? owner name

def redefine (m : Model) (id target : ElementId) (takesKind : Bool) : Model :=
  if takesKind then (m.setRedefines id target).setKind id (m.kind target) else m.setRedefines id target

section found

variable {m : Model} {id : Nat} {path : Path} {target? : Option ElementId}

theorem general_addFound (known : id < m.size) (found : m.typeTarget? id path = some target?) (other : ElementId) :
    ((m.addFound id target?).element other).general =
      (m.element other).general ++ if id = other then target?.toList else [] := by
  cases target? with
  | none => simp [addFound]
  | some target =>
    have type : (m.kind target).isType = true := by
      rw [typeTarget?] at found
      split at found
      · split at found
        next type => simp_all
        next => cases found
      · split at found <;> cases found
    have inside : target < m.size := lt_of_kind fun package => by simp [package, ElementKind.isType,
      ElementKind.isDefinition, ElementKind.isFeature] at type
    rw [addFound, element_addGeneral]
    by_cases here : id = other
    · subst here
      rw [if_pos ⟨rfl, known, inside⟩, if_pos rfl]
      rfl
    · rw [if_neg fun changed => here changed.1, if_neg here, List.append_nil]

theorem MoreEdges.addFound : MoreEdges m (m.addFound id target?) := by
  cases target? with
  | none => exact .refl m
  | some target => exact .addGeneral id target

theorem kind_addFound (other : ElementId) : (m.addFound id target?).kind other = m.kind other := by
  cases target? with
  | none => rfl
  | some target =>
    rw [Model.kind, addFound, element_addGeneral]
    split <;> rfl

theorem redefines_addFound (other : ElementId) : (m.addFound id target?).redefines? other = m.redefines? other := by
  cases target? with
  | none => rfl
  | some target =>
    rw [redefines?, addFound, element_addGeneral]
    split <;> rfl

end found

theorem typeTarget_eq {σ : Equiv.Perm Nat} {m other : Model} (shape : SameShape σ m other)
    (types : ∀ id, (other.kind (σ id)).isType = (m.kind id).isType) (id : ElementId) (path : Path)
    (agree : ∀ above ∈ m.consultedFor (m.owner? id) path.segments, SameEdges σ m other above) :
    other.typeTarget? (σ id) path = (m.typeTarget? id path).map (Option.map σ) := by
  rw [typeTarget?, typeTarget?, shape.owner, shape.resolvePath_eq _ _ agree]
  cases m.resolvePath? (m.owner? id) path.segments with
  | none =>
    dsimp only [Option.map_none]
    split <;> rfl
  | some target =>
    dsimp only [Option.map_some]
    rw [types]
    split <;> rfl

/-- Without redefinitions the types of an element are all that leads out of it. -/
theorem sameEdges_of_general {σ : Equiv.Perm Nat} {m other : Model} {id : ElementId}
    (general : (other.element (σ id)).general = ((m.element id).general).map σ)
    (redefines : other.redefines? (σ id) = (m.redefines? id).map σ) : SameEdges σ m other id := by
  have first : (other.element (σ id)).redefines? = (m.element id).redefines?.map σ := redefines
  rw [SameEdges, generalTypes, generalTypes, Element.generalTypes, Element.generalTypes, general, first, List.map_append]
  cases (m.element id).redefines? <;> rfl

section redefine

variable {m : Model} {id target : Nat}

theorem element_redefine (takesKind : Bool) (known : id < m.size) (inside : target < m.size) (other : ElementId) :
    (m.redefine id target takesKind).element other =
      if id = other then
        { m.element other with
          redefines? := some target, kind := if takesKind then m.kind target else m.kind other }
      else m.element other := by
  rw [redefine]
  by_cases here : id = other
  · subst here
    cases takesKind with
    | false => simp [element_setRedefines, known, inside, Model.kind]
    | true =>
      have size : (m.setRedefines id target).size = m.size := (SameTree.setRedefines id target).size
      simp [element_setKind, element_setRedefines, size, known, inside, Model.kind]
  · cases takesKind with
    | false => simp [element_setRedefines, here]
    | true => simp [element_setKind, element_setRedefines, here]

theorem lt_of_redefinedBy {name : String} (found : m.redefinedBy? id name = some target) : target < m.size := by
  obtain ⟨owner, _, inherited⟩ := Option.bind_eq_some_iff.mp found
  obtain ⟨ancestor, _, owned⟩ := List.exists_of_findSome?_eq_some inherited
  have listed := List.mem_of_find?_eq_some owned
  exact lt_of_isFeature (List.mem_filter.mp listed).2

theorem redefinedBy_eq {σ : Equiv.Perm Nat} {m other : Model} (shape : SameShape σ m other) (id : ElementId)
    (name : String)
    (agree : ∀ owner, m.owner? id = some owner → ∀ above ∈ m.consultedAbove name owner, SameEdges σ m other above) :
    other.redefinedBy? (σ id) name = (m.redefinedBy? id name).map σ := by
  rw [redefinedBy?, redefinedBy?, shape.owner]
  cases owned : m.owner? id with
  | none => rfl
  | some owner => exact shape.inheritedFeature_eq owner (agree owner owned)

end redefine

end Model

namespace Draft
open Model

/-- Whether each name is resolved when it can be. What is steady about a name depends on those that still wait,
the name itself among them. -/
def inOrder {α : Type} (link : Model → α → Except DeclarationProblem Model) (steady : Model → α → List α → Bool) :
    Model → List α → Bool
  | _, [] => true
  | m, name :: rest =>
    steady m name (name :: rest) &&
      inOrder link steady
        (match link m name with
        | .ok linked => linked
        | .error _ => m)
        rest

/-- Nothing that the type is looked up through waits for a type itself. -/
def steadyGeneral (m : Model) (general : PendingName Path) (waiting : List (PendingName Path)) : Bool :=
  (m.consultedFor (m.owner? general.element) general.name.value.segments).all fun id =>
    waiting.all fun other => other.element != id

/-- Nothing that the redefined feature is looked up through waits for a redefinition itself, and the redefined
feature does not wait for its kind if that is taken over. -/
def steadyRedefinition (m : Model) (pending : PendingRedefinition) (waiting : List PendingRedefinition) : Bool :=
  ((m.owner? pending.element).all fun owner => (m.consultedAbove pending.name.value owner).all fun id =>
    waiting.all fun other => other.element != id) &&
  (!pending.takesKind || (m.redefinedBy? pending.element pending.name.value).all fun target =>
    waiting.all fun other => !other.takesKind || other.element != target)

/-- No lookup in the draft comes before the edges that it depends on. -/
def InOrder (d : Draft) : Prop :=
  inOrder d.linkGeneral steadyGeneral d.model d.generals = true ∧
    inOrder d.linkRedefinition steadyRedefinition (d.model.linkAll d.linkGeneral d.generals).1 d.redefinitions = true

section linkAll

variable {α : Type} {link : Model → α → Except DeclarationProblem Model} {steady : Model → α → List α → Bool} {m : Model}

theorem linkAll_ok {name : α} {rest : List α} {linked : Model} (ok : link m name = .ok linked) :
    m.linkAll link (name :: rest) = linked.linkAll link rest := by
  rw [linkAll, ok]

/-- Nothing is reported of the names if the first has an edge and nothing is reported of the others. -/
theorem exists_of_linkAll_clean {name : α} {rest : List α} (clean : (m.linkAll link (name :: rest)).2 = []) :
    ∃ linked, link m name = .ok linked := by
  cases result : link m name with
  | ok linked => exact ⟨linked, rfl⟩
  | error problem => simp [linkAll, result] at clean

theorem inOrder_cons {name : α} {rest : List α} {linked : Model} (ok : link m name = .ok linked)
    (ordered : inOrder link steady m (name :: rest) = true) :
    steady m name (name :: rest) = true ∧ inOrder link steady linked rest = true := by
  rw [inOrder, Bool.and_eq_true, ok] at ordered
  exact ordered

theorem mem_waitingFor {β : Type} {names : List α} {element : α → ElementId} {read : α → β} {id : ElementId} {text : β} :
    text ∈ waitingFor names element read id ↔ ∃ name ∈ names, element name = id ∧ read name = text := by
  simp [waitingFor, and_assoc]

theorem waitingFor_cons {β : Type} (name : α) (rest : List α) (element : α → ElementId) (read : α → β) (id : ElementId) :
    waitingFor (name :: rest) element read id =
      (if element name = id then [read name] else []) ++ waitingFor rest element read id := by
  rw [waitingFor, List.filter_cons]
  by_cases here : element name = id <;> simp [here, waitingFor]

theorem waitingFor_eq_nil {β : Type} {names : List α} {element : α → ElementId} {read : α → β} {id : ElementId}
    (none : ∀ name ∈ names, element name ≠ id) : waitingFor names element read id = [] := by
  rw [waitingFor, List.filter_eq_nil_iff.mpr (by simpa using none), List.map_nil]

end linkAll

theorem linkGeneral_ok_iff {d : Draft} {m linked : Model} {general : PendingName Path} :
    d.linkGeneral m general = .ok linked ↔ ∃ target?,
      m.typeTarget? general.element general.name.value = some target? ∧ linked = m.addFound general.element target? := by
  rw [linkGeneral, typeTarget?]
  cases m.resolvePath? (m.owner? general.element) general.name.value.segments with
  | none =>
    dsimp only
    split
    · simp [addFound, eq_comm]
    · simp
  | some target =>
    dsimp only
    split
    · simp [addFound, eq_comm]
    · simp

/-- The model during the first pass. -/
structure Typing (d : Draft) (waiting : List (PendingName Path)) (m : Model) : Prop where
  more : MoreEdges d.model m
  kind : ∀ id, m.kind id = d.model.kind id
  redefines : ∀ id, m.redefines? id = none
  known : ∀ general ∈ waiting, (general.element : Nat) < d.model.size

theorem Typing.addFound {d : Draft} {m : Model} {general : PendingName Path} {rest : List (PendingName Path)}
    (typing : Typing d (general :: rest) m) (target? : Option ElementId) :
    Typing d rest (m.addFound general.element target?) where
  more := typing.more.trans .addFound
  kind id := (kind_addFound id).trans (typing.kind id)
  redefines id := (redefines_addFound id).trans (typing.redefines id)
  known other member := typing.known other (List.mem_cons_of_mem _ member)

theorem steadyGeneral_iff {m : Model} {general : PendingName Path} {waiting : List (PendingName Path)} :
    steadyGeneral m general waiting = true ↔
      ∀ id ∈ m.consultedFor (m.owner? general.element) general.name.value.segments,
        ∀ other ∈ waiting, other.element ≠ id := by
  simp [steadyGeneral]

/-- What a name denotes does not change if nothing that it is looked up through gets more types. -/
theorem Typing.target {d : Draft} {waiting : List (PendingName Path)} {m last : Model} {id : ElementId} {path : Path}
    (typing : Typing d waiting m) (typed : Typing d [] last)
    (settled : ∀ above ∈ m.consultedFor (m.owner? id) path.segments,
      (last.element above).general = (m.element above).general) :
    last.typeTarget? id path = m.typeTarget? id path := by
  have shape := (SameShape.refl d.model).between typing.more typed.more
  have same := typeTarget_eq shape (fun id => by rw [Equiv.Perm.one_apply, typed.kind, typing.kind]) id path ?_
  · rw [Equiv.Perm.one_apply] at same
    simpa using same
  · intro above consulted
    apply sameEdges_of_general
    · rw [Equiv.Perm.one_apply, settled above consulted]
      simp
    · rw [Equiv.Perm.one_apply, typed.redefines, typing.redefines]
      rfl

/-- What a run of the first pass leaves: each type is the one that its name denotes in the end. -/
theorem Typing.run {d : Draft} {waiting : List (PendingName Path)} {m : Model} (typing : Typing d waiting m)
    (ordered : inOrder d.linkGeneral steadyGeneral m waiting = true)
    (clean : (m.linkAll d.linkGeneral waiting).2 = []) :
    Typing d [] (m.linkAll d.linkGeneral waiting).1 ∧
      (∀ general ∈ waiting,
        ((m.linkAll d.linkGeneral waiting).1.typeTarget? general.element general.name.value).isSome = true) ∧
      ∀ id, ((m.linkAll d.linkGeneral waiting).1.element id).general = (m.element id).general ++
        (waitingFor waiting (·.element) (·.name.value) id).flatMap
          ((m.linkAll d.linkGeneral waiting).1.typeTargets id) := by
  induction waiting generalizing m with
  | nil => exact ⟨typing, by simp, fun id => by simp [linkAll, waitingFor]⟩
  | cons general rest ih =>
    obtain ⟨linked, ok⟩ := exists_of_linkAll_clean clean
    obtain ⟨target?, found, rfl⟩ := linkGeneral_ok_iff.mp ok
    obtain ⟨steady, later⟩ := inOrder_cons ok ordered
    rw [linkAll_ok ok] at clean ⊢
    obtain ⟨typed, resolved, edges⟩ := ih (typing.addFound target?) later clean
    generalize ((m.addFound general.element target?).linkAll d.linkGeneral rest).1 = last at typed resolved edges ⊢
    have known : (general.element : Nat) < m.size := by
      rw [typing.more.size]
      exact typing.known general List.mem_cons_self
    have own : last.typeTarget? general.element general.name.value = some target? := by
      rw [← found]
      apply typing.target typed
      intro above consulted
      obtain ⟨apart, others⟩ := List.forall_mem_cons.mp (steadyGeneral_iff.mp steady above consulted)
      rw [edges above, waitingFor_eq_nil others, general_addFound known found, if_neg apart]
      simp
    refine ⟨typed, ?_, fun id => ?_⟩
    · intro other member
      rcases List.mem_cons.mp member with rfl | member
      · rw [own]
        rfl
      · exact resolved other member
    · rw [edges id, general_addFound known found, waitingFor_cons, List.flatMap_append, List.append_assoc]
      by_cases here : general.element = id
      · subst here
        rw [if_pos rfl, if_pos rfl, List.flatMap_singleton, typeTargets, own]
        rfl
      · rw [if_neg here, if_neg here]
        rfl

/-- A model in which each type of an element is what its name denotes. -/
structure Typed (d : Draft) (m : Model) : Prop extends Typing d [] m where
  resolved : ∀ id, ∀ path ∈ (d.awaited id).generals, (m.typeTarget? id path).isSome = true
  general : ∀ id, (m.element id).general = (d.awaited id).generals.flatMap (m.typeTargets id)

theorem lt_of_awaited {d : Draft} (bounded : d.Bounded) {id : Nat} (waits : d.awaited id ≠ .none) : id < d.model.size := by
  by_contra beyond
  exact waits (congrArg Entry.awaited (bounded id (Nat.le_of_not_lt beyond)))

theorem known_of_bounded {d : Draft} (bounded : d.Bounded) :
    ∀ general ∈ d.generals, (general.element : Nat) < d.model.size := by
  intro general member
  refine lt_of_awaited bounded fun nothing => ?_
  have waits : general.name.value ∈ (d.awaited general.element).generals :=
    mem_waitingFor.mpr ⟨general, member, rfl, rfl⟩
  rw [nothing] at waits
  cases waits

theorem known_abouts {d : Draft} (bounded : d.Bounded) :
    ∀ target ∈ d.abouts, (target.element : Nat) < d.model.size := by
  intro target member
  refine lt_of_awaited bounded fun nothing => ?_
  have waits : target.name.value ∈ (d.awaited target.element).abouts := mem_waitingFor.mpr ⟨target, member, rfl, rfl⟩
  rw [nothing] at waits
  cases waits

theorem Typing.of_ready {d : Draft} (ready : Ready d) (bounded : d.Bounded) : Typing d d.generals d.model where
  more := .refl d.model
  kind _ := rfl
  redefines id := by
    cases edge : d.model.redefines? id with
    | none => rfl
    | some target => exact absurd (mem_generalTypes_of_redefines edge) (by simp [ready.unlinked])
  known := known_of_bounded bounded

theorem general_of_ready {d : Draft} (ready : Ready d) (id : ElementId) : (d.model.element id).general = [] :=
  (List.append_eq_nil_iff.mp (ready.unlinked id)).1

/-- The model after the first pass. -/
def typed (d : Draft) : Model :=
  (d.model.linkAll d.linkGeneral d.generals).1

theorem typed_typed {d : Draft} (ready : Ready d) (bounded : d.Bounded)
    (ordered : inOrder d.linkGeneral steadyGeneral d.model d.generals = true)
    (clean : (d.model.linkAll d.linkGeneral d.generals).2 = []) : Typed d d.typed := by
  obtain ⟨typing, resolved, general⟩ := (Typing.of_ready ready bounded).run ordered clean
  refine ⟨typing, ?_, ?_⟩
  · intro id path waits
    obtain ⟨name, member, rfl, rfl⟩ := mem_waitingFor.mp waits
    exact resolved name member
  · intro id
    rw [typed, general id, general_of_ready ready, List.nil_append]
    rfl

/-- A run of the first pass that follows a model of the same names: what an element has already and what it
still waits for make up what it has there. -/
structure Follows (ρ : Equiv.Perm Nat) (last : Model) (waiting : List (PendingName Path)) (m : Model) : Prop where
  general : ∀ id, ((last.element id).general).map ρ = (m.element (ρ id)).general ++
    (waitingFor waiting (·.element) (·.name.value) (ρ id)).flatMap fun path => (last.typeTargets id path).map ρ
  resolved : ∀ id, ∀ path ∈ waitingFor waiting (·.element) (·.name.value) (ρ id), (last.typeTarget? id path).isSome = true

/-- At its turn a name denotes what it denotes in the model that is followed. -/
theorem Follows.target {d d' : Draft} {ρ : Equiv.Perm Nat} {last m : Model} {general : PendingName Path}
    {rest : List (PendingName Path)} (typed : Typing d [] last) (shape : SameShape ρ d.model d'.model)
    (kinds : ∀ id, d'.model.kind (ρ id) = d.model.kind id) (typing : Typing d' (general :: rest) m)
    (follows : Follows ρ last (general :: rest) m) (steady : steadyGeneral m general (general :: rest) = true) :
    last.typeTarget? (ρ.symm general.element) general.name.value =
      (m.typeTarget? general.element general.name.value).map (Option.map ρ.symm) := by
  have back := (shape.between typed.more typing.more).symm
  apply typeTarget_eq back
  · intro id
    have same := kinds (ρ.symm id)
    rw [Equiv.apply_symm_apply] at same
    rw [typed.kind, typing.kind, same]
  · intro above consulted
    have idle := steadyGeneral_iff.mp steady above consulted
    apply sameEdges_of_general
    · have same := follows.general (ρ.symm above)
      rw [Equiv.apply_symm_apply, waitingFor_eq_nil idle, List.flatMap_nil, List.append_nil] at same
      rw [← same, List.map_map]
      simp
    · rw [typed.redefines, typing.redefines]
      rfl

theorem Follows.addFound {ρ : Equiv.Perm Nat} {last m : Model} {general : PendingName Path}
    {rest : List (PendingName Path)} {target? : Option ElementId} (follows : Follows ρ last (general :: rest) m)
    (known : (general.element : Nat) < m.size)
    (found : m.typeTarget? general.element general.name.value = some target?)
    (same : last.typeTarget? (ρ.symm general.element) general.name.value = some (target?.map ρ.symm)) :
    Follows ρ last rest (m.addFound general.element target?) where
  general id := by
    rw [follows.general id, waitingFor_cons, List.flatMap_append, general_addFound known found, List.append_assoc]
    by_cases here : general.element = ρ id
    · have back : ρ.symm general.element = id := by rw [here, Equiv.symm_apply_apply]
      rw [back] at same
      rw [if_pos here, if_pos here, List.flatMap_singleton, typeTargets, same]
      cases target? <;> simp
    · rw [if_neg here, if_neg here]
      rfl
  resolved id path waits := by
    apply follows.resolved id path
    rw [waitingFor_cons]
    exact List.mem_append_right _ waits

theorem Follows.run {d d' : Draft} {ρ : Equiv.Perm Nat} {last m : Model} {waiting : List (PendingName Path)}
    (typed : Typing d [] last) (shape : SameShape ρ d.model d'.model)
    (kinds : ∀ id, d'.model.kind (ρ id) = d.model.kind id) (typing : Typing d' waiting m)
    (follows : Follows ρ last waiting m)
    (ordered : inOrder d'.linkGeneral steadyGeneral m waiting = true) :
    (m.linkAll d'.linkGeneral waiting).2 = [] ∧ ∀ id,
      ((m.linkAll d'.linkGeneral waiting).1.element (ρ id)).general = ((last.element id).general).map ρ := by
  induction waiting generalizing m with
  | nil => exact ⟨rfl, fun id => by simpa [linkAll, waitingFor] using (follows.general id).symm⟩
  | cons general rest ih =>
    have steady : steadyGeneral m general (general :: rest) = true := by
      rw [inOrder, Bool.and_eq_true] at ordered
      exact ordered.1
    have same := follows.target typed shape kinds typing steady
    have own : general.name.value ∈
        waitingFor (general :: rest) (·.element) (·.name.value) (ρ (ρ.symm general.element)) := by
      rw [Equiv.apply_symm_apply, waitingFor_cons, if_pos rfl]
      exact List.mem_cons_self
    have resolved := follows.resolved _ _ own
    rw [same, Option.isSome_map] at resolved
    obtain ⟨target?, found⟩ := Option.isSome_iff_exists.mp resolved
    have ok : d'.linkGeneral m general = .ok (m.addFound general.element target?) :=
      linkGeneral_ok_iff.mpr ⟨target?, found, rfl⟩
    have known : (general.element : Nat) < m.size := by
      rw [typing.more.size]
      exact typing.known general List.mem_cons_self
    rw [linkAll_ok ok]
    rw [found] at same
    exact ih (typing.addFound target?) (follows.addFound known found same) (inOrder_cons ok ordered).2

theorem linkRedefinition_ok_iff {d : Draft} {m linked : Model} {pending : PendingRedefinition} :
    d.linkRedefinition m pending = .ok linked ↔ ∃ target,
      m.redefinedBy? pending.element pending.name.value = some target ∧
        linked = m.redefine pending.element target pending.takesKind := by
  rw [linkRedefinition]
  dsimp only
  rw [← redefinedBy?]
  cases m.redefinedBy? pending.element pending.name.value with
  | some target =>
    dsimp only
    constructor
    · exact fun same => ⟨target, rfl, (Except.ok.inj same).symm⟩
    · rintro ⟨_, ⟨⟩, rfl⟩
      rfl
  | none =>
    dsimp only
    cases namesake? m pending <;> simp

theorem steadyRedefinition_iff {m : Model} {pending : PendingRedefinition} {waiting : List PendingRedefinition} :
    steadyRedefinition m pending waiting = true ↔
      (∀ owner, m.owner? pending.element = some owner → ∀ id ∈ m.consultedAbove pending.name.value owner,
        ∀ other ∈ waiting, other.element ≠ id) ∧
      (pending.takesKind = true → ∀ target, m.redefinedBy? pending.element pending.name.value = some target →
        ∀ other ∈ waiting, other.takesKind = true → other.element ≠ target) := by
  simp only [steadyRedefinition, Bool.and_eq_true, Option.all_eq_true, List.all_eq_true, bne_iff_ne, Bool.or_eq_true,
    Bool.not_eq_true', ← Bool.not_eq_true, ← imp_iff_not_or]

/-- A redefinition that leads to what its name denotes, with the kind of that if it takes it over. -/
structure Redefines (m : Model) (id : ElementId) (name : String) (takesKind : Bool) (target : ElementId) : Prop where
  denoted : m.redefinedBy? id name = some target
  edge : m.redefines? id = some target
  kind : takesKind = true → m.kind id = m.kind target

/-- What a name denotes does not change if nothing that it is looked up through is redefined meanwhile. -/
theorem Redefining.denoted {d : Draft} {waiting : List PendingRedefinition} {m last : Model} {id : ElementId}
    {name : String} (redefining : Redefining d waiting m) (done : Redefining d [] last)
    (settled : ∀ owner, m.owner? id = some owner → ∀ above ∈ m.consultedAbove name owner,
      (last.element above).general = (m.element above).general ∧ last.redefines? above = m.redefines? above) :
    last.redefinedBy? id name = m.redefinedBy? id name := by
  have shape := (SameShape.refl d.model).between redefining.more done.more
  have same := redefinedBy_eq shape id name ?_
  · rw [Equiv.Perm.one_apply] at same
    simpa using same
  · intro owner owned above consulted
    obtain ⟨general, edge⟩ := settled owner owned above consulted
    apply sameEdges_of_general
    · rw [Equiv.Perm.one_apply, general]
      simp
    · rw [Equiv.Perm.one_apply, edge]
      simp

/-- What a run of the second pass leaves: each redefined feature is the one that its name denotes in the end. -/
theorem Redefining.run {d : Draft} {waiting : List PendingRedefinition} {m : Model} (ready : Ready d)
    (redefining : Redefining d waiting m) (ordered : inOrder d.linkRedefinition steadyRedefinition m waiting = true)
    (clean : (m.linkAll d.linkRedefinition waiting).2 = []) :
    Redefining d [] (m.linkAll d.linkRedefinition waiting).1 ∧
      (∀ id, ((m.linkAll d.linkRedefinition waiting).1.element id).general = (m.element id).general) ∧
      (∀ id, (∀ pending ∈ waiting, pending.element ≠ id) →
        (m.linkAll d.linkRedefinition waiting).1.redefines? id = m.redefines? id) ∧
      (∀ id, (∀ pending ∈ waiting, pending.takesKind = true → pending.element ≠ id) →
        (m.linkAll d.linkRedefinition waiting).1.kind id = m.kind id) ∧
      ∀ pending ∈ waiting, ∃ target, Redefines (m.linkAll d.linkRedefinition waiting).1 pending.element
        pending.name.value pending.takesKind target := by
  induction waiting generalizing m with
  | nil => exact ⟨redefining, fun _ => rfl, fun _ _ => rfl, fun _ _ => rfl, by simp⟩
  | cons pending rest ih =>
    obtain ⟨linked, ok⟩ := exists_of_linkAll_clean clean
    obtain ⟨target, found, same⟩ := linkRedefinition_ok_iff.mp ok
    obtain ⟨steady, later⟩ := inOrder_cons ok ordered
    obtain ⟨idle, idleKind⟩ := steadyRedefinition_iff.mp steady
    have next := redefining.linkRedefinition ready ok
    rw [linkAll_ok ok] at clean ⊢
    obtain ⟨done, general, edges, kinds, resolved⟩ := ih next later clean
    generalize (linked.linkAll d.linkRedefinition rest).1 = last at done general edges kinds resolved ⊢
    have known : (pending.element : Nat) < m.size := lt_of_isFeature (redefining.features pending List.mem_cons_self)
    have element := element_redefine pending.takesKind known (lt_of_redefinedBy found)
    have apart : ∀ other ∈ rest, other.element ≠ pending.element :=
      fun other member => Nat.ne_of_gt ((List.pairwise_cons.mp redefining.distinct).1 other member)
    have generalKept : ∀ id, (last.element id).general = (m.element id).general := by
      intro id
      rw [general id, same, element]
      split <;> rfl
    have edgeKept : ∀ id, (∀ other ∈ pending :: rest, other.element ≠ id) → last.redefines? id = m.redefines? id := by
      intro id others
      obtain ⟨here, rest⟩ := List.forall_mem_cons.mp others
      rw [edges id rest, redefines?, same, element, if_neg here]
      rfl
    have kindKept : ∀ id, (∀ other ∈ pending :: rest, other.takesKind = true → other.element ≠ id) →
        last.kind id = m.kind id := by
      intro id others
      obtain ⟨here, rest⟩ := List.forall_mem_cons.mp others
      rw [kinds id rest, Model.kind, same, element]
      split
      next own =>
        have keeps : pending.takesKind ≠ true := fun takes => here takes own
        simp [keeps]
      next => rfl
    refine ⟨done, generalKept, edgeKept, kindKept, ?_⟩
    intro other member
    rcases List.mem_cons.mp member with rfl | member
    · refine ⟨target, ?_, ?_, ?_⟩
      · rw [← found]
        apply redefining.denoted done
        intro owner owned above consulted
        exact ⟨generalKept above, edgeKept above (idle owner owned above consulted)⟩
      · rw [edges _ apart, redefines?, same, element, if_pos rfl]
      · intro takes
        have targetKept := kindKept target (idleKind takes target found)
        rw [targetKept, kinds _ fun other member _ => apart other member, Model.kind, same, element, if_pos rfl]
        simp [takes]
    · exact resolved other member

/-- A model in which each redefined feature is what its name denotes, and nothing else is redefined. -/
structure Redefined (d : Draft) (m : Model) : Prop where
  more : MoreEdges d.model m
  resolved : ∀ id name takesKind, (name, takesKind) ∈ (d.awaited id).redefinitions →
    ∃ target, Redefines m id name takesKind target
  others : ∀ id, (d.awaited id).redefinitions = [] → m.redefines? id = none
  kept : ∀ id, (∀ name, (name, true) ∉ (d.awaited id).redefinitions) → m.kind id = d.model.kind id

/-- The model after the second pass. -/
def completed (d : Draft) : Model :=
  (d.typed.linkAll d.linkRedefinition d.redefinitions).1

theorem redefined_completed {d : Draft} (ready : Ready d) (typed : Typed d d.typed)
    (ordered : inOrder d.linkRedefinition steadyRedefinition d.typed d.redefinitions = true)
    (clean : (d.typed.linkAll d.linkRedefinition d.redefinitions).2 = []) :
    Redefined d d.completed ∧ ∀ id, (d.completed.element id).general = (d.typed.element id).general := by
  obtain ⟨done, general, edges, kinds, resolved⟩ := (redefining_typed ready).run ready ordered clean
  refine ⟨⟨done.more, ?_, ?_, ?_⟩, general⟩
  · intro id name takesKind waits
    obtain ⟨pending, member, rfl, same⟩ := mem_waitingFor.mp waits
    obtain ⟨rfl, rfl⟩ := Prod.mk.inj same
    exact resolved pending member
  · intro id nothing
    have idle : ∀ pending ∈ d.redefinitions, pending.element ≠ id := by
      intro pending member here
      have waits : (pending.name.value, pending.takesKind) ∈ (d.awaited id).redefinitions :=
        mem_waitingFor.mpr ⟨pending, member, here, rfl⟩
      rw [nothing] at waits
      cases waits
    exact (edges id idle).trans (typed.redefines id)
  · intro id nothing
    have idle : ∀ pending ∈ d.redefinitions, pending.takesKind = true → pending.element ≠ id := by
      intro pending member takes here
      exact nothing pending.name.value (mem_waitingFor.mpr ⟨pending, member, here, by rw [takes]⟩)
    exact (kinds id idle).trans (typed.kind id)

/-- A run of the second pass that follows a model of the same names. -/
structure Retraces (ρ : Equiv.Perm Nat) (last : Model) (waiting : List PendingRedefinition) (m : Model) : Prop where
  general : ∀ id, (m.element (ρ id)).general = ((last.element id).general).map ρ
  edge : ∀ id, (∀ pending ∈ waiting, pending.element ≠ ρ id) → m.redefines? (ρ id) = (last.redefines? id).map ρ
  kind : ∀ id, (∀ pending ∈ waiting, pending.takesKind = true → pending.element ≠ ρ id) → m.kind (ρ id) = last.kind id
  resolved : ∀ pending ∈ waiting, ∃ target,
    Redefines last (ρ.symm pending.element) pending.name.value pending.takesKind target

/-- At its turn a redefinition leads to what it leads to in the model that is followed. -/
theorem Retraces.denoted {d d' : Draft} {ρ : Equiv.Perm Nat} {last m : Model} {pending : PendingRedefinition}
    {waiting : List PendingRedefinition} {target : ElementId} (more : MoreEdges d.model last)
    (shape : SameShape ρ d.model d'.model) (redefining : Redefining d' waiting m) (retraces : Retraces ρ last waiting m)
    (steady : steadyRedefinition m pending waiting = true)
    (denoted : last.redefinedBy? (ρ.symm pending.element) pending.name.value = some target) :
    m.redefinedBy? pending.element pending.name.value = some (ρ target) := by
  have back := (shape.between more redefining.more).symm
  have same := redefinedBy_eq back pending.element pending.name.value ?_
  · rw [denoted] at same
    obtain ⟨found, here, moved⟩ := Option.map_eq_some_iff.mp same.symm
    rw [here, ← moved, Equiv.apply_symm_apply]
  · intro owner owned above consulted
    have idle := (steadyRedefinition_iff.mp steady).1 owner owned above consulted
    apply sameEdges_of_general
    · have general := retraces.general (ρ.symm above)
      rw [Equiv.apply_symm_apply] at general
      rw [general, List.map_map]
      simp
    · have edge := retraces.edge (ρ.symm above)
      rw [Equiv.apply_symm_apply] at edge
      rw [edge idle, Option.map_map]
      cases last.redefines? (ρ.symm above) <;> simp

theorem Retraces.redefine {ρ : Equiv.Perm Nat} {last m : Model} {pending : PendingRedefinition}
    {rest : List PendingRedefinition} {target : ElementId} (retraces : Retraces ρ last (pending :: rest) m)
    (known : (pending.element : Nat) < m.size) (steady : steadyRedefinition m pending (pending :: rest) = true)
    (there : Redefines last (ρ.symm pending.element) pending.name.value pending.takesKind target)
    (found : m.redefinedBy? pending.element pending.name.value = some (ρ target)) :
    Retraces ρ last rest (m.redefine pending.element (ρ target) pending.takesKind) := by
  have element := element_redefine pending.takesKind known (lt_of_redefinedBy found)
  constructor
  · intro id
    rw [element, ← retraces.general id]
    split <;> rfl
  · intro id others
    rw [redefines?, element]
    by_cases here : pending.element = ρ id
    · have back : ρ.symm pending.element = id := by rw [here, Equiv.symm_apply_apply]
      have edge := there.edge
      rw [back] at edge
      rw [if_pos here, edge]
      rfl
    · rw [if_neg here]
      exact retraces.edge id (List.forall_mem_cons.mpr ⟨here, others⟩)
  · intro id others
    rw [Model.kind, element]
    by_cases here : pending.element = ρ id
    · have back : ρ.symm pending.element = id := by rw [here, Equiv.symm_apply_apply]
      rw [if_pos here]
      cases takes : pending.takesKind with
      | true =>
        have settled := retraces.kind target ((steadyRedefinition_iff.mp steady).2 takes (ρ target) found)
        have kind := there.kind takes
        rw [back] at kind
        simp [settled, kind]
      | false =>
        refine retraces.kind id (List.forall_mem_cons.mpr ⟨?_, others⟩)
        simp [takes]
    · rw [if_neg here]
      exact retraces.kind id (List.forall_mem_cons.mpr ⟨fun _ => here, others⟩)
  · intro other member
    exact retraces.resolved other (List.mem_cons_of_mem _ member)

theorem Retraces.run {d d' : Draft} {ρ : Equiv.Perm Nat} {last m : Model} {waiting : List PendingRedefinition}
    (ready : Ready d') (more : MoreEdges d.model last) (shape : SameShape ρ d.model d'.model)
    (redefining : Redefining d' waiting m) (retraces : Retraces ρ last waiting m)
    (ordered : inOrder d'.linkRedefinition steadyRedefinition m waiting = true) :
    (m.linkAll d'.linkRedefinition waiting).2 = [] ∧
      Retraces ρ last [] (m.linkAll d'.linkRedefinition waiting).1 := by
  induction waiting generalizing m with
  | nil => exact ⟨rfl, retraces⟩
  | cons pending rest ih =>
    have steady : steadyRedefinition m pending (pending :: rest) = true := by
      rw [inOrder, Bool.and_eq_true] at ordered
      exact ordered.1
    obtain ⟨target, there⟩ := retraces.resolved pending List.mem_cons_self
    have found := retraces.denoted more shape redefining steady there.denoted
    have ok : d'.linkRedefinition m pending = .ok (m.redefine pending.element (ρ target) pending.takesKind) :=
      linkRedefinition_ok_iff.mpr ⟨ρ target, found, rfl⟩
    have known : (pending.element : Nat) < m.size := lt_of_isFeature (redefining.features pending List.mem_cons_self)
    have next := retraces.redefine known steady there found
    rw [linkAll_ok ok]
    exact ih (redefining.linkRedefinition ready ok) next (inOrder_cons ok ordered).2

end Draft
end StructuralModel
