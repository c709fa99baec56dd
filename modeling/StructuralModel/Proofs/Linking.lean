import StructuralModel.Elaboration.Links
import StructuralModel.Proofs.Declaring
import StructuralModel.Proofs.Reachability

/-! The passes that resolve names. Each only adds edges between elements that stay where they are, so what
an earlier edge was allowed for still holds after all later ones. -/

namespace StructuralModel.Model

/-- A feature redefines one that its owner inherits from another element. -/
structure Overrides (m : Model) (id target : ElementId) : Prop where
  feature : m.isFeature id = true
  redefined : m.isFeature target = true
  inherits : ∃ owner general, m.owner? id = some owner ∧ m.owner? target = some general ∧
    general ≠ owner ∧ m.Reaches owner general

/-- What the edges of a model lead to. -/
structure EdgesValid (m : Model) : Prop where
  typed : ∀ id : Nat, ∀ general ∈ (m.element id).general, (m.kind general).isType = true
  overrides : ∀ id target, m.RedefinesEdge id target → m.Overrides id target

/-- A model with the same elements and at least the same edges. Features stay features, and types stay types. -/
structure MoreEdges (m other : Model) : Prop extends SameTree m other where
  feature : ∀ id, other.isFeature id = m.isFeature id
  type : ∀ id, (other.kind id).isType = (m.kind id).isType
  edges : ∀ id general, m.GeneralEdge id general → other.GeneralEdge id general

variable {m other : Model}

namespace MoreEdges

theorem refl (m : Model) : MoreEdges m m :=
  ⟨.refl m, fun _ => rfl, fun _ => rfl, fun _ _ edge => edge⟩

theorem trans {first second third : Model} (before : MoreEdges first second) (after : MoreEdges second third) :
    MoreEdges first third where
  toSameTree := before.toSameTree.trans after.toSameTree
  feature id := (after.feature id).trans (before.feature id)
  type id := (after.type id).trans (before.type id)
  edges id general edge := after.edges id general (before.edges id general edge)

theorem of_sameGraph (same : SameGraph m other) : MoreEdges m other where
  toSameTree := same.toSameTree
  feature id := by rw [isFeature, isFeature, same.kind]
  type id := by rw [same.kind]
  edges id general edge := by
    rw [GeneralEdge, same.generalTypes]
    exact edge

/-- When an element changes in its kind or its edges alone, three facts about it are enough. -/
theorem of_element (same : SameTree m other)
    (changes : ∀ id : Nat, ((other.element id).kind.isFeature = (m.element id).kind.isFeature ∧
      (other.element id).kind.isType = (m.element id).kind.isType) ∧
      ∀ general ∈ (m.element id).generalTypes, general ∈ (other.element id).generalTypes) : MoreEdges m other :=
  ⟨same, fun id => (changes id).1.1, fun id => (changes id).1.2, fun id => (changes id).2⟩

theorem addGeneral (id general : ElementId) : MoreEdges m (m.addGeneral id general) := by
  refine of_element (.addGeneral id general) fun other => ?_
  rw [element_addGeneral]
  split
  · refine ⟨⟨rfl, rfl⟩, fun old member => ?_⟩
    rcases List.mem_append.mp member with typing | redefining
    · exact List.mem_append_left _ (List.mem_append_left _ typing)
    · exact List.mem_append_right _ redefining
  · exact ⟨⟨rfl, rfl⟩, fun _ member => member⟩

/-- Only a feature without a redefinition keeps all its edges when it gets one. -/
theorem setRedefines {id : ElementId} (target : ElementId) (unlinked : m.redefines? id = none) :
    MoreEdges m (m.setRedefines id target) := by
  refine of_element (.setRedefines id target) fun other => ?_
  rw [element_setRedefines]
  split
  next changed =>
    refine ⟨⟨rfl, rfl⟩, fun old member => ?_⟩
    rw [redefines?, changed.1] at unlinked
    rw [Element.generalTypes, unlinked, Option.toList_none, List.append_nil] at member
    exact List.mem_append_left _ member
  · exact ⟨⟨rfl, rfl⟩, fun _ member => member⟩

theorem setKind {id : ElementId} {kind : ElementKind} (old : m.isFeature id = true) (new : kind.isFeature = true) :
    MoreEdges m (m.setKind id kind) := by
  refine of_element (.setKind id kind) fun other => ?_
  rw [element_setKind]
  split
  next changed =>
    have before : (m.element other).kind.isFeature = true := changed.1 ▸ old
    refine ⟨⟨new.trans before.symm, ?_⟩, fun _ member => member⟩
    simp only [ElementKind.isType, new, before, Bool.or_true]
  · exact ⟨⟨rfl, rfl⟩, fun _ member => member⟩

theorem reaches (more : MoreEdges m other) {id general : ElementId} (reached : m.Reaches id general) :
    other.Reaches id general :=
  Relation.ReflTransGen.mono (fun id general edge => more.edges id general edge) _ _ reached

theorem overrides (more : MoreEdges m other) {id target : ElementId} (allowed : m.Overrides id target) :
    other.Overrides id target where
  feature := (more.feature id).trans allowed.feature
  redefined := (more.feature target).trans allowed.redefined
  inherits := by
    obtain ⟨owner, general, owned, redefined, apart, reached⟩ := allowed.inherits
    exact ⟨owner, general, (more.owner id).trans owned, (more.owner target).trans redefined, apart,
      more.reaches reached⟩

end MoreEdges

/-- A typing to a type keeps all edges valid. -/
theorem EdgesValid.addGeneral (valid : EdgesValid m) (id : ElementId) {general : ElementId}
    (type : (m.kind general).isType = true) : EdgesValid (m.addGeneral id general) := by
  have more : MoreEdges m (m.addGeneral id general) := .addGeneral id general
  constructor
  · intro other target member
    rw [more.type]
    rw [element_addGeneral] at member
    split at member
    · rcases List.mem_append.mp member with old | new
      · exact valid.typed other target old
      · exact List.mem_singleton.mp new ▸ type
    · exact valid.typed other target member
  · intro other target edge
    rw [RedefinesEdge, redefines?, element_addGeneral] at edge
    split at edge <;> exact more.overrides (valid.overrides other target edge)

theorem EdgesValid.setRedefines (valid : EdgesValid m) {id target : ElementId} (unlinked : m.redefines? id = none)
    (allowed : m.Overrides id target) : EdgesValid (m.setRedefines id target) := by
  have more : MoreEdges m (m.setRedefines id target) := .setRedefines target unlinked
  constructor
  · intro other general member
    rw [more.type]
    rw [element_setRedefines] at member
    split at member <;> exact valid.typed other general member
  · intro other redefined edge
    apply more.overrides
    rw [RedefinesEdge, redefines?, element_setRedefines] at edge
    split at edge
    next changed => exact Option.some.inj edge ▸ changed.1 ▸ allowed
    next => exact valid.overrides other redefined edge

theorem EdgesValid.setKind (valid : EdgesValid m) {id : ElementId} {kind : ElementKind}
    (old : m.isFeature id = true) (new : kind.isFeature = true) : EdgesValid (m.setKind id kind) := by
  have more : MoreEdges m (m.setKind id kind) := .setKind old new
  constructor
  · intro other general member
    rw [more.type]
    rw [element_setKind] at member
    split at member <;> exact valid.typed other general member
  · intro other target edge
    rw [RedefinesEdge, redefines?, element_setKind] at edge
    split at edge <;> exact more.overrides (valid.overrides other target edge)

theorem EdgesValid.of_sameGraph (valid : EdgesValid m) (same : SameGraph m other) : EdgesValid other where
  typed id general member := by
    rw [same.general] at member
    rw [same.kind]
    exact valid.typed id general member
  overrides id target edge := by
    rw [RedefinesEdge, same.redefines] at edge
    exact (MoreEdges.of_sameGraph same).overrides (valid.overrides id target edge)

/-- An inherited feature belongs to another element of the closure. -/
theorem inheritedFeature_spec (valid : Forest m) {owner feature : ElementId} {name : String}
    (found : m.inheritedFeature? owner name = some feature) : m.isFeature feature = true ∧
      ∃ general, m.owner? feature = some general ∧ general ≠ owner ∧ m.Reaches owner general := by
  obtain ⟨ancestor, member, owned⟩ := List.exists_of_findSome?_eq_some found
  obtain ⟨feature_kind, general⟩ := (mem_ownedFeatures valid).mp (List.mem_of_find?_eq_some owned)
  have inside : ancestor.element ∈ (m.lineage owner).tail := by
    rw [lineage, ← List.map_tail]
    exact List.mem_map_of_mem member
  refine ⟨feature_kind, ancestor.element, general, ?_, mem_lineage.mp (List.mem_of_mem_tail inside)⟩
  rintro same
  have distinct := m.nodup_lineage owner
  rw [lineage_eq_cons, List.nodup_cons] at distinct
  exact distinct.1 (same ▸ inside)

/-- What holds between two names also holds after the last one. -/
theorem linkAll_induction {α : Type} {link : Model → α → Except DeclarationProblem Model}
    (holds : List α → Model → Prop) (skips : ∀ name rest m, holds (name :: rest) m → holds rest m)
    (links : ∀ name rest m linked, holds (name :: rest) m → link m name = .ok linked → holds rest linked)
    (names : List α) (initial : holds names m) : holds [] (m.linkAll link names).1 := by
  induction names generalizing m with
  | nil => exact initial
  | cons name rest ih =>
    rw [linkAll]
    cases result : link m name with
    | ok linked => exact ih (links name rest m linked initial result)
    | error problem => exact ih (skips name rest m initial)

/-- Every problem is that of a name which got no edge. -/
theorem linkAll_problems {α : Type} {link : Model → α → Except DeclarationProblem Model}
    {holds : DeclarationProblem → Prop} {names : List α}
    (fails : ∀ m, ∀ name ∈ names, ∀ problem, link m name = .error problem → holds problem) (m : Model) :
    ∀ problem ∈ (m.linkAll link names).2, holds problem := by
  induction names generalizing m with
  | nil => simp [linkAll]
  | cons name rest ih =>
    have others := ih fun m name member => fails m name (List.mem_cons_of_mem _ member)
    rw [linkAll]
    cases result : link m name with
    | ok linked => exact others linked
    | error problem => exact List.forall_mem_cons.mpr ⟨fails m name List.mem_cons_self problem result, others m⟩

end StructuralModel.Model

namespace StructuralModel.Draft
open Model

variable {d : Draft} {m linked : Model}

theorem linkGeneral_spec {general : PendingName Path} (ok : d.linkGeneral m general = .ok linked) :
    linked = m ∨ ∃ target, (m.kind target).isType = true ∧ linked = m.addGeneral general.element target := by
  rw [linkGeneral] at ok
  split at ok
  next target _ =>
    split at ok
    next type => exact .inr ⟨target, type, (Except.ok.inj ok).symm⟩
    next => cases ok
  next =>
    split at ok
    · exact .inl (Except.ok.inj ok).symm
    · cases ok

/-- A redefined feature is one that the owner inherits; with the shorthand its kind is copied. -/
theorem linkRedefinition_spec {pending : PendingRedefinition} (ok : d.linkRedefinition m pending = .ok linked) :
    ∃ owner redefined, m.owner? pending.element = some owner ∧
      m.inheritedFeature? owner pending.name.value = some redefined ∧
      (linked = m.setRedefines pending.element redefined ∨
        linked = (m.setRedefines pending.element redefined).setKind pending.element (m.kind redefined)) := by
  simp only [linkRedefinition] at ok
  split at ok
  next redefined found =>
    obtain ⟨owner, owned, inherited⟩ := Option.bind_eq_some_iff.mp found
    refine ⟨owner, redefined, owned, inherited, ?_⟩
    split at ok
    · exact .inr (Except.ok.inj ok).symm
    · exact .inl (Except.ok.inj ok).symm
  next => split at ok <;> cases ok

theorem linkAbout_spec {target : PendingName Path} (ok : linkAbout m target = .ok linked) :
    ∃ element, linked = m.addAbout target.element element := by
  rw [linkAbout] at ok
  split at ok
  next element _ => exact ⟨element, (Except.ok.inj ok).symm⟩
  next => cases ok

/-- The model during the passes. -/
structure Linking (d : Draft) (m : Model) : Prop where
  more : MoreEdges d.model m
  edges : EdgesValid m

/-- The features still to come in the redefinition pass have no redefinition yet. -/
structure Redefining (d : Draft) (waiting : List PendingRedefinition) (m : Model) : Prop extends Linking d m where
  unlinked : ∀ pending ∈ waiting, m.redefines? pending.element = none
  features : ∀ pending ∈ waiting, m.isFeature pending.element = true
  distinct : waiting.Pairwise fun first second => (first.element : Nat) < second.element

theorem Linking.of_ready (ready : Ready d) : Linking d d.model where
  more := .refl d.model
  edges := by
    have none : ∀ id general, general ∉ d.model.generalTypes id := by simp [ready.unlinked]
    exact ⟨fun id general member => absurd (List.mem_append_left _ member) (none id general),
      fun id target edge => absurd edge.general (none id target)⟩

theorem Linking.linkGeneral (linking : Linking d m) {general : PendingName Path}
    (ok : d.linkGeneral m general = .ok linked) : Linking d linked ∧ ∀ id, linked.redefines? id = m.redefines? id := by
  rcases linkGeneral_spec ok with rfl | ⟨target, type, rfl⟩
  · exact ⟨linking, fun _ => rfl⟩
  · refine ⟨⟨linking.more.trans (.addGeneral _ _), linking.edges.addGeneral _ type⟩, fun id => ?_⟩
    rw [redefines?, redefines?, element_addGeneral]
    split <;> rfl

theorem Linking.linkAbout (linking : Linking d m) {target : PendingName Path}
    (ok : linkAbout m target = .ok linked) : Linking d linked := by
  obtain ⟨element, rfl⟩ := linkAbout_spec ok
  exact ⟨linking.more.trans (.of_sameGraph (.addAbout _ _)), linking.edges.of_sameGraph (.addAbout _ _)⟩

namespace Redefining

variable {waiting rest : List PendingRedefinition} {pending : PendingRedefinition}

theorem skip (redefining : Redefining d (pending :: rest) m) : Redefining d rest m where
  toLinking := redefining.toLinking
  unlinked other member := redefining.unlinked other (List.mem_cons_of_mem _ member)
  features other member := redefining.features other (List.mem_cons_of_mem _ member)
  distinct := (List.pairwise_cons.mp redefining.distinct).2

/-- Each feature has one redefinition pending, so linking it leaves those after it unlinked. -/
theorem setRedefines (redefining : Redefining d (pending :: rest) m) {target : ElementId}
    (allowed : m.Overrides pending.element target) :
    Redefining d rest (m.setRedefines pending.element target) := by
  have unlinked : m.redefines? pending.element = none := redefining.unlinked pending List.mem_cons_self
  have more : MoreEdges m (m.setRedefines pending.element target) := .setRedefines target unlinked
  have later := redefining.skip
  refine ⟨⟨redefining.more.trans more, redefining.edges.setRedefines unlinked allowed⟩, ?_, ?_, later.distinct⟩
  · intro other member
    have apart : (pending.element : Nat) < other.element := (List.pairwise_cons.mp redefining.distinct).1 other member
    rw [redefines?, element_setRedefines, if_neg fun changed => Nat.ne_of_lt apart changed.1]
    exact later.unlinked other member
  · intro other member
    rw [more.feature]
    exact later.features other member

theorem setKind (redefining : Redefining d waiting m) {id : ElementId} {kind : ElementKind}
    (old : m.isFeature id = true) (new : kind.isFeature = true) : Redefining d waiting (m.setKind id kind) := by
  have more : MoreEdges m (m.setKind id kind) := .setKind old new
  refine ⟨⟨redefining.more.trans more, redefining.edges.setKind old new⟩, ?_, ?_, redefining.distinct⟩
  · intro other member
    have unlinked := redefining.unlinked other member
    rw [redefines?, element_setKind]
    split <;> exact unlinked
  · intro other member
    rw [more.feature]
    exact redefining.features other member

theorem linkRedefinition (ready : Ready d) (redefining : Redefining d (pending :: rest) m)
    (ok : d.linkRedefinition m pending = .ok linked) : Redefining d rest linked := by
  obtain ⟨owner, redefined, owned, inherited, result⟩ := linkRedefinition_spec ok
  have feature : m.isFeature pending.element = true := redefining.features pending List.mem_cons_self
  obtain ⟨kind, general, above, apart, reached⟩ :=
    inheritedFeature_spec (redefining.more.forest ready.forest) inherited
  have next := redefining.setRedefines ⟨feature, kind, owner, general, owned, above, apart, reached⟩
  rcases result with rfl | rfl
  · exact next
  · have unlinked := redefining.unlinked pending List.mem_cons_self
    exact next.setKind (((MoreEdges.setRedefines redefined unlinked).feature _).trans feature) kind

end Redefining

/-- No feature is redefined before the second pass. -/
theorem redefining_typed (ready : Ready d) :
    Redefining d d.redefinitions (d.model.linkAll d.linkGeneral d.generals).1 := by
  have initial : Linking d d.model ∧ ∀ id, d.model.redefines? id = none := by
    refine ⟨.of_ready ready, fun id => ?_⟩
    cases edge : d.model.redefines? id with
    | none => rfl
    | some target => exact absurd (mem_generalTypes_of_redefines edge) (by simp [ready.unlinked])
  obtain ⟨typed, unlinked⟩ := linkAll_induction (fun _ m => Linking d m ∧ ∀ id, m.redefines? id = none)
    (fun _ _ _ kept => kept)
    (fun _ _ _ _ kept ok => ⟨(kept.1.linkGeneral ok).1, fun id => ((kept.1.linkGeneral ok).2 id).trans (kept.2 id)⟩)
    d.generals initial
  exact ⟨typed, fun _ _ => unlinked _,
    fun pending member => (typed.more.feature _).trans (ready.features pending member), ready.ascend⟩

/-- Whatever names are resolved, and in whatever order they stand, all edges are valid in the end. -/
theorem linking_linked (ready : Ready d) : Linking d d.linked.1 := by
  have redefined := linkAll_induction (Redefining d) (fun _ _ _ kept => kept.skip)
    (fun _ _ _ _ kept ok => kept.linkRedefinition ready ok) d.redefinitions (redefining_typed ready)
  exact linkAll_induction (fun _ m => Linking d m) (fun _ _ _ kept => kept)
    (fun _ _ _ _ kept ok => kept.linkAbout ok) d.abouts redefined.toLinking

end StructuralModel.Draft
