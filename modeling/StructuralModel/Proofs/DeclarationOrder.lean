import Mathlib
import StructuralModel.Proofs.LinkOrder
import StructuralModel.Proofs.WellFormed

/-! The order of the top-level declarations. All elements exist before the first name is resolved, so a name
may stand before what it denotes. It may not stand before edges that it is looked up through: a document is
then refused that loads in another order, or it loads with other kinds. Nothing else depends on the order. -/

namespace StructuralModel

namespace Model

/-- The same model with its elements at other positions. -/
structure Isomorphic (ρ : Equiv.Perm Nat) (m other : Model) : Prop where
  size : other.size = m.size
  known : ∀ id : Nat, ρ id < m.size ↔ id < m.size
  kind : ∀ id, other.kind (ρ id) = m.kind id
  name : ∀ id, other.name? (ρ id) = m.name? id
  owner : ∀ id, other.owner? (ρ id) = (m.owner? id).map ρ
  members : ∀ id, other.members (ρ id) = (m.members id).map ρ
  roots : other.roots.Perm (m.roots.map ρ)
  general : ∀ id, (other.element (ρ id)).general = ((m.element id).general).map ρ
  redefines : ∀ id, other.redefines? (ρ id) = (m.redefines? id).map ρ

variable {m other : Model} {ρ : Equiv.Perm Nat}

theorem child_root_iff (valid : Forest m) (distinct : DistinctNames m) {name : String} {id : ElementId} :
    m.child? none name = some id ↔ id < m.size ∧ m.owner? id = none ∧ m.name? id = some name := by
  rw [child_eq_some_iff distinct, namespaceMembers, valid.root_iff, and_assoc]

theorem SameGraph.sameEdges (same : SameGraph m other) (id : ElementId) : SameEdges 1 m other id := by
  rw [SameEdges, Equiv.Perm.one_apply, same.generalTypes]
  simp

/-- What a name denotes depends on the graph alone. -/
theorem SameGraph.resolvePath (same : SameGraph m other) (start? : Option ElementId) (segments : List String) :
    other.resolvePath? start? segments = m.resolvePath? start? segments := by
  have shape := (SameShape.refl m).between (.refl m) (.of_sameGraph same)
  have equal := shape.resolvePath_eq start? segments fun id _ => same.sameEdges id
  simpa using equal

namespace Isomorphic

theorem generalEdge (same : Isomorphic ρ m other) {id general : ElementId} (edge : m.GeneralEdge id general) :
    other.GeneralEdge (ρ id) (ρ general) := by
  have edges : SameEdges ρ m other id := sameEdges_of_general (same.general id) (same.redefines id)
  rw [GeneralEdge, show other.generalTypes (ρ id) = _ from edges]
  exact List.mem_map_of_mem edge

theorem symm (same : Isomorphic ρ m other) : Isomorphic ρ.symm other m where
  size := same.size.symm
  known id := by
    rw [same.size, ← same.known (ρ.symm id), Equiv.apply_symm_apply]
  kind id := by simpa using (same.kind (ρ.symm id)).symm
  name id := by simpa using (same.name (ρ.symm id)).symm
  owner id := by
    have owner := same.owner (ρ.symm id)
    rw [Equiv.apply_symm_apply] at owner
    rw [owner, Option.map_map]
    cases m.owner? (ρ.symm id) <;> simp
  members id := by
    have members := same.members (ρ.symm id)
    rw [Equiv.apply_symm_apply] at members
    rw [members, List.map_map]
    simp
  roots := by
    have moved := (same.roots.map ρ.symm).symm
    rw [List.map_map] at moved
    simpa using moved
  general id := by
    have general := same.general (ρ.symm id)
    rw [Equiv.apply_symm_apply] at general
    rw [general, List.map_map]
    simp
  redefines id := by
    have redefines := same.redefines (ρ.symm id)
    rw [Equiv.apply_symm_apply] at redefines
    rw [redefines, Option.map_map]
    cases m.redefines? (ρ.symm id) <;> simp

/-- A cycle moves with its elements. -/
theorem acyclic (same : Isomorphic ρ m other) (acyclic : ∀ id, ¬ Relation.TransGen m.GeneralEdge id id)
    (id : ElementId) :
    ¬ Relation.TransGen other.GeneralEdge id id := by
  intro cycle
  exact acyclic (ρ.symm id) (cycle.lift ρ.symm fun _ _ edge => same.symm.generalEdge edge)

theorem congr {m' other' : Model} (same : Isomorphic ρ m other) (first : SameGraph m m')
    (second : SameGraph other other') :
    Isomorphic ρ m' other' where
  size := by rw [second.size, first.size, same.size]
  known id := by
    rw [first.size]
    exact same.known id
  kind id := by rw [second.kind, first.kind, same.kind]
  name id := by rw [second.name, first.name, same.name]
  owner id := by rw [second.owner, first.owner, same.owner]
  members id := by rw [second.members, first.members, same.members]
  roots := by
    rw [second.roots, first.roots]
    exact same.roots
  general id := by rw [second.general, first.general, same.general]
  redefines id := by rw [second.redefines, first.redefines, same.redefines]

end Isomorphic
end Model

namespace Draft
open Model

variable {d d' : Draft} {ρ : Equiv.Perm Nat}

theorem Renumbered.sameShape (renumbered : Renumbered ρ d d') (ready : Ready d) (ready' : Ready d') :
    SameShape ρ d.model d'.model where
  name id := congrArg Entry.name? (renumbered.entry id)
  owner id := congrArg Entry.owner? (renumbered.entry id)
  members id := congrArg Entry.members (renumbered.entry id)
  feature id := by
    have kind : d'.model.kind (ρ id) = d.model.kind id := congrArg Entry.kind (renumbered.entry id)
    rw [isFeature, isFeature, kind]
  root name := by
    have names : ∀ id, d'.model.name? (ρ id) = d.model.name? id := fun id => congrArg Entry.name? (renumbered.entry id)
    have owners : ∀ id, d'.model.owner? (ρ id) = (d.model.owner? id).map ρ :=
      fun id => congrArg Entry.owner? (renumbered.entry id)
    apply Option.ext
    intro id
    obtain ⟨id, rfl⟩ := ρ.surjective id
    have moved : (d.model.child? none name).map ρ = some (ρ id) ↔ d.model.child? none name = some id := by
      cases d.model.child? none name <;> simp
    rw [child_root_iff ready'.forest ready'.distinct, moved, child_root_iff ready.forest ready.distinct, names, owners,
      renumbered.size, renumbered.known, Option.map_eq_none_iff]

theorem Renumbered.awaited (renumbered : Renumbered ρ d d') (id : ElementId) : d'.awaited (ρ id) = d.awaited id :=
  congrArg Entry.awaited (renumbered.entry id)

/-- The names of an element that has been moved are those that it had. -/
theorem Renumbered.awaited_symm (renumbered : Renumbered ρ d d') (id : ElementId) :
    d'.awaited id = d.awaited (ρ.symm id) := by
  rw [← renumbered.awaited, Equiv.apply_symm_apply]

theorem Renumbered.roots (renumbered : Renumbered ρ d d') (ready : Ready d) (ready' : Ready d') :
    d'.model.roots.Perm (d.model.roots.map ρ) := by
  have distinct : d.model.roots.Nodup := ready.forest.roots_ascend.imp Nat.ne_of_lt
  have first : (d.model.roots.map ρ).Nodup := distinct.map ρ.injective
  have second : d'.model.roots.Nodup := ready'.forest.roots_ascend.imp Nat.ne_of_lt
  refine (List.perm_ext_iff_of_nodup second first).mpr fun id => ?_
  obtain ⟨id, rfl⟩ := ρ.surjective id
  have owner : d'.model.owner? (ρ id) = (d.model.owner? id).map ρ := congrArg Entry.owner? (renumbered.entry id)
  rw [ready'.forest.root_iff, List.mem_map_of_injective ρ.injective, ready.forest.root_iff, owner, renumbered.size,
    renumbered.known, Option.map_eq_none_iff]

section abouts

variable {m : Model}

def Denotes (m : Model) (target : PendingName Path) : Prop :=
  (m.resolvePath? (m.owner? target.element) target.name.value.segments).isSome = true

theorem linkAll_abouts (targets : List (PendingName Path)) : SameGraph m (m.linkAll linkAbout targets).1 ∧
    ((m.linkAll linkAbout targets).2 = [] ↔ ∀ target ∈ targets, Denotes m target) := by
  induction targets generalizing m with
  | nil => exact ⟨.refl m, by simp [linkAll]⟩
  | cons target rest ih =>
    have own : Denotes m target ↔
        (m.resolvePath? (m.owner? target.element) target.name.value.segments).isSome = true := Iff.rfl
    rw [List.forall_mem_cons, own, linkAll, linkAbout]
    cases m.resolvePath? (m.owner? target.element) target.name.value.segments with
    | none =>
      dsimp only
      exact ⟨ih.1, by simp⟩
    | some element =>
      have added : SameGraph m (m.addAbout target.element element) := .addAbout _ _
      have same : ∀ other, Denotes (m.addAbout target.element element) other ↔ Denotes m other := by
        intro other
        rw [Denotes, Denotes, added.owner, added.resolvePath]
      obtain ⟨graph, clean⟩ := ih (m := m.addAbout target.element element)
      simp only [same] at clean
      exact ⟨added.trans graph, by simpa using clean⟩

end abouts

/-- The passes over a draft, of which the last adds no edges. -/
theorem linked_spec (d : Draft) : SameGraph d.completed d.linked.1 ∧ (d.linked.2 = [] ↔
    (d.model.linkAll d.linkGeneral d.generals).2 = [] ∧ (d.typed.linkAll d.linkRedefinition d.redefinitions).2 = [] ∧
      ∀ target ∈ d.abouts, Denotes d.completed target) := by
  obtain ⟨graph, clean⟩ := linkAll_abouts (m := d.completed) d.abouts
  refine ⟨graph, ?_⟩
  rw [← clean]
  simp only [linked, List.append_eq_nil_iff, and_assoc]
  rfl

/-- A draft that is linked without problems, at its turn each name. -/
structure Linked (d : Draft) : Prop where
  typed : Typed d d.typed
  redefined : Redefined d d.completed
  general : ∀ id, (d.completed.element id).general = (d.typed.element id).general
  abouts : ∀ target ∈ d.abouts, Denotes d.completed target

theorem linked_of_clean (ready : Ready d) (bounded : d.Bounded) (ordered : d.InOrder) (clean : d.linked.2 = []) :
    Linked d := by
  obtain ⟨generals, redefinitions, abouts⟩ := (linked_spec d).2.mp clean
  have typed := typed_typed ready bounded ordered.1 generals
  obtain ⟨redefined, general⟩ := redefined_completed ready typed ordered.2 redefinitions
  exact ⟨typed, redefined, general, abouts⟩

/-- Before its first pass a draft in another order waits for all that is linked here. -/
theorem Linked.follows (linked : Linked d) (renumbered : Renumbered ρ d d') (ready' : Ready d') :
    Follows ρ d.typed d'.generals d'.model := by
  have waits : ∀ id, waitingFor d'.generals (·.element) (·.name.value) (ρ id) = (d.awaited id).generals :=
    fun id => congrArg Awaited.generals (renumbered.awaited id)
  constructor
  · intro id
    rw [waits, general_of_ready ready', linked.typed.general, List.nil_append, List.map_flatMap]
  · intro id path member
    rw [waits] at member
    exact linked.typed.resolved id path member

/-- Once it has the same types, it waits for what is redefined here. -/
theorem Linked.retraces (linked : Linked d) (renumbered : Renumbered ρ d d') (typed' : Typed d' d'.typed)
    (general : ∀ id, (d'.typed.element (ρ id)).general = ((d.typed.element id).general).map ρ) :
    Retraces ρ d.completed d'.redefinitions d'.typed := by
  constructor
  · intro id
    rw [linked.general]
    exact general id
  · intro id idle
    have nothing : (d.awaited id).redefinitions = [] := by
      rw [← renumbered.awaited]
      exact waitingFor_eq_nil idle
    rw [typed'.redefines, linked.redefined.others id nothing]
    rfl
  · intro id idle
    have nothing : ∀ name, (name, true) ∉ (d.awaited id).redefinitions := by
      intro name member
      rw [← renumbered.awaited] at member
      obtain ⟨pending, listed, here, same⟩ := mem_waitingFor.mp member
      exact idle pending listed (Prod.mk.inj same).2 here
    have kind : d'.model.kind (ρ id) = d.model.kind id := congrArg Entry.kind (renumbered.entry id)
    rw [typed'.kind, kind, linked.redefined.kept id nothing]
  · intro pending member
    apply linked.redefined.resolved
    rw [← renumbered.awaited_symm]
    exact mem_waitingFor.mpr ⟨pending, member, rfl, rfl⟩

/-- What is linked in one order is linked in the other, with the same edges. -/
theorem Linked.reordered (linked : Linked d) (renumbered : Renumbered ρ d d') (ready : Ready d) (ready' : Ready d')
    (bounded' : d'.Bounded) (ordered' : d'.InOrder) :
    d'.linked.2 = [] ∧ Isomorphic ρ d.completed d'.completed := by
  have shape := renumbered.sameShape ready ready'
  have kinds : ∀ id, d'.model.kind (ρ id) = d.model.kind id := fun id => congrArg Entry.kind (renumbered.entry id)
  obtain ⟨typeClean, general⟩ := (linked.follows renumbered ready').run linked.typed.toTyping shape kinds
    (.of_ready ready' bounded') ordered'.1
  have typed' := typed_typed ready' bounded' ordered'.1 typeClean
  obtain ⟨redefinitionClean, last⟩ := (linked.retraces renumbered typed' general).run ready' linked.redefined.more shape
    (redefining_typed ready') ordered'.2
  have redefined' := (redefined_completed ready' typed' ordered'.2 redefinitionClean).1
  have complete := shape.between linked.redefined.more redefined'.more
  have same : Isomorphic ρ d.completed d'.completed := by
    have size := linked.redefined.more.size
    refine ⟨?_, ?_, ?_, complete.name, complete.owner, complete.members, ?_, last.general, ?_⟩
    · rw [redefined'.more.size, size, renumbered.size]
    · rw [size]
      exact renumbered.known
    · intro id
      exact last.kind id (by simp)
    · rw [redefined'.more.roots, linked.redefined.more.roots]
      exact renumbered.roots ready ready'
    · intro id
      exact last.edge id (by simp)
  refine ⟨(linked_spec d').2.mpr ⟨typeClean, redefinitionClean, ?_⟩, same⟩
  intro target member
  have waits : target.name.value ∈ (d'.awaited target.element).abouts :=
    mem_waitingFor.mpr ⟨target, member, rfl, rfl⟩
  rw [renumbered.awaited_symm] at waits
  obtain ⟨original, listed, here, text⟩ := mem_waitingFor.mp waits
  have denotes := linked.abouts original listed
  have resolved := complete.resolvePath_eq (d.completed.owner? original.element) original.name.value.segments
    fun id _ => sameEdges_of_general (same.general id) (same.redefines id)
  rw [Denotes, ← Equiv.apply_symm_apply ρ target.element, complete.owner, ← here, ← text, resolved, Option.isSome_map]
  exact denotes

/-- A name without an edge is always an error. -/
theorem errors_linked (d : Draft) : ∀ problem ∈ d.linked.2, problem.severity = .error := by
  have generals : ∀ m name problem, d.linkGeneral m name = .error problem → problem.severity = .error := by
    intro m name problem failed
    rw [linkGeneral] at failed
    split at failed
    · split at failed
      · cases failed
      · exact Except.error.inj failed ▸ rfl
    · split at failed
      · cases failed
      · exact Except.error.inj failed ▸ rfl
  have redefinitions : ∀ m name problem, d.linkRedefinition m name = .error problem → problem.severity = .error := by
    intro m name problem failed
    simp only [linkRedefinition] at failed
    split at failed
    · cases failed
    · split at failed <;> exact Except.error.inj failed ▸ rfl
  have abouts : ∀ m name problem, linkAbout m name = .error problem → problem.severity = .error := by
    intro m name problem failed
    rw [linkAbout] at failed
    split at failed
    · cases failed
    · exact Except.error.inj failed ▸ rfl
  intro problem member
  simp only [linked, List.mem_append] at member
  rcases member with (member | member) | member
  · exact linkAll_problems (fun m name _ => generals m name) _ problem member
  · exact linkAll_problems (fun m name _ => redefinitions m name) _ problem member
  · exact linkAll_problems (fun m name _ => abouts m name) _ problem member

/-- Features that hide inherited ones are warned of only. -/
theorem severity_shadowing {d : Draft} {m : Model} {id : ElementId} {problem : DeclarationProblem}
    (found : d.shadowing? m id = some problem) : problem.severity = .warning := by
  rw [shadowing?] at found
  split at found
  · obtain ⟨name, _, found⟩ := Option.bind_eq_some_iff.mp found
    obtain ⟨owner, _, found⟩ := Option.bind_eq_some_iff.mp found
    obtain ⟨hidden, _, found⟩ := Option.bind_eq_some_iff.mp found
    exact Option.some.inj found ▸ rfl
  · cases found

end Draft

namespace LoadedModel
open Model

def Loads (declarations : List Declaration) : Prop :=
  ∃ loaded, ofDeclarations declarations = .ok loaded

/-- A document loads if nothing is wrong with its declarations, its names and its cycles. -/
theorem loads_iff (declarations : List Declaration) : Loads declarations ↔
    (Draft.ofDeclarations declarations).problems = [] ∧ (Draft.ofDeclarations declarations).linked.2 = [] ∧
      (Draft.ofDeclarations declarations).linked.1.cycles = [] := by
  constructor
  · rintro ⟨loaded, loads⟩
    obtain ⟨same, harmless⟩ := ofDeclarations_ok loads
    simp only [List.mem_append, or_imp, forall_and] at harmless
    obtain ⟨⟨declared, linked⟩, edges⟩ := harmless
    refine ⟨?_, ?_, same ▸ cycles_eq_nil edges⟩
    · exact List.eq_nil_iff_forall_not_mem.mpr fun problem member =>
        declared problem member (Draft.errors_ofDeclarations problem member)
    · exact List.eq_nil_iff_forall_not_mem.mpr fun problem member =>
        linked problem member (Draft.errors_linked _ problem member)
  · rintro ⟨declared, linked, acyclic⟩
    refine ⟨_, if_neg fun failed => ?_⟩
    obtain ⟨_, listed, error⟩ := List.any_eq_true.mp failed
    obtain ⟨problem, member, rfl⟩ := List.mem_map.mp listed
    have warned : problem ∈ (Draft.ofDeclarations declarations).problems ++ (Draft.ofDeclarations declarations).linked.2 ++
      (Draft.ofDeclarations declarations).edgeProblems (Draft.ofDeclarations declarations).linked.1 := member
    rw [declared, linked, Draft.edgeProblems, acyclic] at warned
    obtain ⟨id, _, found⟩ := List.mem_filterMap.mp warned
    simp [Diagnostic.isError, DeclarationProblem.diagnostic, Draft.severity_shadowing found] at error

variable {declarations others : List Declaration}

theorem exists_isomorphic (reordered : Declaration.Reordered declarations others)
    (ordered : (Draft.ofDeclarations declarations).InOrder) (ordered' : (Draft.ofDeclarations others).InOrder)
    (loads : Loads declarations) : Loads others ∧
      ∃ ρ, Isomorphic ρ (Draft.ofDeclarations declarations).linked.1 (Draft.ofDeclarations others).linked.1 := by
  obtain ⟨declared, clean, acyclic⟩ := (loads_iff declarations).mp loads
  obtain ⟨declared', ρ, renumbered⟩ := Draft.exists_renumbered reordered declared
  have ready := Draft.ready_ofDeclarations declarations
  have ready' := Draft.ready_ofDeclarations others
  have linked := Draft.linked_of_clean ready (Draft.laysOut_ofDeclarations declarations).bounded ordered clean
  obtain ⟨clean', same⟩ :=
    linked.reordered renumbered ready ready' (Draft.laysOut_ofDeclarations others).bounded ordered'
  have isomorphic := same.congr (Draft.linked_spec _).1 (Draft.linked_spec _).1
  have forest := (Draft.linking_linked ready).more.forest ready.forest
  have forest' := (Draft.linking_linked ready').more.forest ready'.forest
  have acyclic' := (cycles_eq_nil_iff forest').mpr (isomorphic.acyclic ((cycles_eq_nil_iff forest).mp acyclic))
  exact ⟨(loads_iff others).mpr ⟨declared', clean', acyclic'⟩, ρ, isomorphic⟩

/-- Whatever a document refers to, its elements are the same in every order in which it loads. Among the orders in
which every name is resolved after the edges that it is looked up through, the order does not show at all: the
document loads in all of them or in none, and what it loads differs in the positions alone. -/
theorem ofDeclarations_reordered (reordered : Declaration.Reordered declarations others) :
    (∀ loaded reloaded, ofDeclarations declarations = .ok loaded → ofDeclarations others = .ok reloaded →
      ∃ ρ, SameShape ρ loaded.model reloaded.model) ∧
    ((Draft.ofDeclarations declarations).InOrder → (Draft.ofDeclarations others).InOrder →
      (Loads declarations ↔ Loads others) ∧
        ∀ loaded reloaded, ofDeclarations declarations = .ok loaded → ofDeclarations others = .ok reloaded →
          ∃ ρ, Isomorphic ρ loaded.model reloaded.model) := by
  refine ⟨?_, fun ordered ordered' => ⟨⟨?_, ?_⟩, ?_⟩⟩
  · intro loaded reloaded loads reloads
    have declared := ((loads_iff declarations).mp ⟨loaded, loads⟩).1
    obtain ⟨_, ρ, renumbered⟩ := Draft.exists_renumbered reordered declared
    have ready := Draft.ready_ofDeclarations declarations
    have ready' := Draft.ready_ofDeclarations others
    rw [(ofDeclarations_ok loads).1, (ofDeclarations_ok reloads).1]
    exact ⟨ρ, (renumbered.sameShape ready ready').between (Draft.linking_linked ready).more
      (Draft.linking_linked ready').more⟩
  · exact fun loads => (exists_isomorphic reordered ordered ordered' loads).1
  · exact fun loads => (exists_isomorphic reordered.symm ordered' ordered loads).1
  · intro loaded reloaded loads reloads
    rw [(ofDeclarations_ok loads).1, (ofDeclarations_ok reloads).1]
    exact (exists_isomorphic reordered ordered ordered' ⟨loaded, loads⟩).2

instance (d : Draft) : Decidable d.InOrder :=
  inferInstanceAs (Decidable (_ ∧ _))

instance : DecidablePred Loads := fun declarations =>
  decidable_of_iff _ (loads_iff declarations).symm

section texts

/-- Two texts with the same declarations, the last of one the first of the other. -/
theorem reordered_of_reverse {text other : String} (read : Declaration.ofSource text = .ok declarations)
    (reread : Declaration.ofSource other = .ok others)
    (reverse : (Declaration.ofSource other).map Declaration.unplacedAll =
      (Declaration.ofSource text).map fun declarations => (Declaration.unplacedAll declarations).reverse) :
    Declaration.Reordered declarations others := by
  rw [read, reread] at reverse
  have same : others.map Declaration.unplaced = (declarations.map Declaration.unplaced).reverse := by
    rw [← Declaration.unplacedAll_eq_map, ← Declaration.unplacedAll_eq_map]
    exact Except.ok.inj reverse
  rw [Declaration.Reordered, same]
  exact (List.reverse_perm _).symm

/-- Whether the names of a document are in order, and whether it loads. -/
def verdict (declarations : List Declaration) : Bool × Bool :=
  (decide (Draft.ofDeclarations declarations).InOrder, decide (Loads declarations))

theorem exists_of_verdict {text : String} {ordered loads : Bool}
    (same : (Declaration.ofSource text).map verdict = .ok (ordered, loads)) :
    ∃ declarations, Declaration.ofSource text = .ok declarations ∧
      ((Draft.ofDeclarations declarations).InOrder ↔ ordered = true) ∧ (Loads declarations ↔ loads = true) := by
  cases read : Declaration.ofSource text with
  | error diagnostics =>
    rw [read] at same
    cases same
  | ok declarations =>
    rw [read] at same
    obtain ⟨first, second⟩ := Prod.mk.inj (Except.ok.inj same)
    refine ⟨declarations, rfl, ?_, ?_⟩
    · rw [← first, decide_eq_true_iff]
    · rw [← second, decide_eq_true_iff]

/-- `B` stands before `A`, of which it redefines a feature with its kind. -/
def overridesBefore : String :=
  "part def B :> A \x7b :>> w; \x7d part def A \x7b part w; \x7d"

def overridesAfter : String :=
  "part def A \x7b part w; \x7d part def B :> A \x7b :>> w; \x7d"

theorem ofDeclarations_reordered_overrides : ∃ declarations others loaded reloaded,
    Declaration.ofSource overridesBefore = .ok declarations ∧ Declaration.ofSource overridesAfter = .ok others ∧
      Declaration.Reordered declarations others ∧ (Draft.ofDeclarations declarations).InOrder ∧
      (Draft.ofDeclarations others).InOrder ∧ ofDeclarations declarations = .ok loaded ∧
      ofDeclarations others = .ok reloaded ∧ ∃ ρ, Isomorphic ρ loaded.model reloaded.model := by
  have before : (Declaration.ofSource overridesBefore).map verdict = .ok (true, true) := by cbv
  have after : (Declaration.ofSource overridesAfter).map verdict = .ok (true, true) := by cbv
  have reverse : (Declaration.ofSource overridesAfter).map Declaration.unplacedAll =
      (Declaration.ofSource overridesBefore).map fun declarations => (Declaration.unplacedAll declarations).reverse := by
    cbv
  obtain ⟨declarations, read, inOrder, loads⟩ := exists_of_verdict before
  obtain ⟨others, reread, inOrder', _⟩ := exists_of_verdict after
  have reordered := reordered_of_reverse read reread reverse
  have ordered := inOrder.mpr rfl
  have ordered' := inOrder'.mpr rfl
  obtain ⟨loaded, loads⟩ := loads.mpr rfl
  obtain ⟨agree, isomorphic⟩ := (ofDeclarations_reordered reordered).2 ordered ordered'
  obtain ⟨reloaded, reloads⟩ := agree.mp ⟨loaded, loads⟩
  exact ⟨declarations, others, loaded, reloaded, read, reread, reordered, ordered, ordered', loads, reloads,
    isomorphic loaded reloaded loads reloads⟩

/-- The type of `q` is a feature that `B` inherits, and `B` gets its general type after `q` gets its type. -/
def qualifiedBefore : String :=
  "part def C \x7b part q : B::p; \x7d part def A \x7b part p; \x7d part def B :> A;"

def qualifiedAfter : String :=
  "part def B :> A; part def A \x7b part p; \x7d part def C \x7b part q : B::p; \x7d"

/-- The same declarations load in one order and are refused in another. -/
theorem not_reorderable_qualified : ∃ declarations others,
    Declaration.ofSource qualifiedBefore = .ok declarations ∧ Declaration.ofSource qualifiedAfter = .ok others ∧
      Declaration.Reordered declarations others ∧ ¬ Loads declarations ∧ Loads others := by
  have before : (Declaration.ofSource qualifiedBefore).map verdict = .ok (false, false) := by cbv
  have after : (Declaration.ofSource qualifiedAfter).map verdict = .ok (true, true) := by cbv
  have reverse : (Declaration.ofSource qualifiedAfter).map Declaration.unplacedAll =
      (Declaration.ofSource qualifiedBefore).map fun declarations => (Declaration.unplacedAll declarations).reverse := by
    cbv
  obtain ⟨declarations, read, _, refused⟩ := exists_of_verdict before
  obtain ⟨others, reread, _, loads⟩ := exists_of_verdict after
  refine ⟨declarations, others, read, reread, reordered_of_reverse read reread reverse, ?_, loads.mpr rfl⟩
  simpa using refused

end texts

end LoadedModel
end StructuralModel
