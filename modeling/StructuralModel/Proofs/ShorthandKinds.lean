import StructuralModel.Proofs.DeclarationOrder

/-! The kinds of features that are declared without a keyword. Such a feature takes the kind that the feature it redefines
has at its turn, and the turns come in declaration order. So it has the kind of what it redefines, unless that is itself
declared without a keyword, and later: then it stays the attribute that it counts as until its turn. -/

namespace StructuralModel

namespace Draft
open Model

/-- The features that are declared without a keyword, as in `:>> n`. -/
def shorthands (d : Draft) : List ElementId :=
  (d.redefinitions.filter (·.takesKind)).map (·.element)

/-- A feature without a keyword redefines one that has its own kind by then. -/
def TakesKind (d : Draft) (m : Model) (id redefined : ElementId) : Prop :=
  id ∈ d.shorthands ∧ m.redefines? id = some redefined ∧ ¬ (redefined ∈ d.shorthands ∧ id < redefined)

/-- The edge of a redefinition after its turn, and the kind that goes with it. -/
structure Took (d : Draft) (m : Model) (pending : PendingRedefinition) (target : ElementId) : Prop where
  edge : m.redefines? pending.element = some target
  kind : pending.takesKind = true →
    m.kind pending.element = if target ∈ d.shorthands ∧ pending.element < target then .feature else m.kind target

/-- The second pass between two redefinitions. -/
structure Inferring (d : Draft) (resolved waiting : List PendingRedefinition) (m : Model) : Prop
    extends Redefining d waiting m where
  all : d.redefinitions = resolved ++ waiting
  provisional : ∀ pending ∈ waiting, pending.takesKind = true → m.kind pending.element = .feature
  took : ∀ pending ∈ resolved, ∃ target, Took d m pending target

variable {d : Draft} {m : Model} {resolved waiting rest : List PendingRedefinition} {pending : PendingRedefinition}
  {target : ElementId}

theorem mem_shorthands {id : ElementId} :
    id ∈ d.shorthands ↔ ∃ pending ∈ d.redefinitions, pending.takesKind = true ∧ pending.element = id := by
  simp [shorthands, and_assoc]

/-- A feature is not what it redefines, since that belongs to another owner. -/
theorem ne_of_redefinedBy {id : ElementId} {name : String} (forest : Forest m)
    (found : m.redefinedBy? id name = some target) : target ≠ id := by
  obtain ⟨owner, owned, inherited⟩ := Option.bind_eq_some_iff.mp found
  obtain ⟨_, general, above, apart, _⟩ := inheritedFeature_spec forest inherited
  rintro rfl
  exact apart (Option.some.inj (above.symm.trans owned))

/-- The turns come in declaration order. -/
theorem Inferring.before (ready : Ready d) (inferring : Inferring d resolved (pending :: rest) m) :
    (∀ other ∈ resolved, (other.element : Nat) < pending.element) ∧
      ∀ other ∈ rest, (pending.element : Nat) < other.element := by
  have ascend := ready.ascend
  rw [inferring.all, List.pairwise_append] at ascend
  exact ⟨fun other member => ascend.2.2 other member pending List.mem_cons_self, (List.pairwise_cons.mp ascend.2.1).1⟩

/-- A feature without a keyword that stands later than the one whose turn it is still counts as an attribute. -/
theorem Inferring.kind_later (ready : Ready d) (inferring : Inferring d resolved (pending :: rest) m)
    (shorthand : target ∈ d.shorthands) (later : pending.element < target) : m.kind target = .feature := by
  obtain ⟨own, member, takes, rfl⟩ := mem_shorthands.mp shorthand
  rw [inferring.all, List.mem_append] at member
  rcases member with earlier | waits
  · exact absurd later ((inferring.before ready).1 own earlier).not_gt
  · exact inferring.provisional own waits takes

theorem Inferring.redefine (ready : Ready d) (inferring : Inferring d resolved (pending :: rest) m)
    (found : m.redefinedBy? pending.element pending.name.value = some target) :
    Inferring d (resolved ++ [pending]) rest (m.redefine pending.element target pending.takesKind) := by
  obtain ⟨earlier, later⟩ := inferring.before ready
  have known : (pending.element : Nat) < m.size := lt_of_isFeature (inferring.features pending List.mem_cons_self)
  have element := element_redefine pending.takesKind known (lt_of_redefinedBy found)
  have apart : target ≠ pending.element := ne_of_redefinedBy (inferring.more.forest ready.forest) found
  have listed : pending ∈ d.redefinitions := inferring.all ▸ List.mem_append_right _ List.mem_cons_self
  have next := inferring.toRedefining.linkRedefinition ready (linkRedefinition_ok_iff.mpr ⟨target, found, rfl⟩)
  generalize m.redefine pending.element target pending.takesKind = linked at element next ⊢
  have edge : linked.redefines? pending.element = some target := by rw [redefines?, element, if_pos rfl]
  have kind : linked.kind pending.element = if pending.takesKind then m.kind target else m.kind pending.element := by
    rw [Model.kind, element, if_pos rfl]
  have kept : ∀ id, pending.element ≠ id → linked.element id = m.element id := fun id other => by rw [element, if_neg other]
  have kindKept : ∀ id, pending.element ≠ id → linked.kind id = m.kind id := fun id other => congrArg _ (kept id other)
  refine ⟨next, ?_, ?_, ?_⟩
  · rw [inferring.all, List.append_assoc, List.singleton_append]
  · intro other member takes
    rw [kindKept _ (Nat.ne_of_lt (later other member))]
    exact inferring.provisional other (List.mem_cons_of_mem _ member) takes
  rw [List.forall_mem_append, List.forall_mem_singleton]
  constructor
  · intro old member
    have turn := earlier old member
    obtain ⟨general, oldEdge, oldKind⟩ := inferring.took old member
    refine ⟨general, by rw [redefines?, kept _ (Nat.ne_of_gt turn)]; exact oldEdge, fun takes => ?_⟩
    rw [kindKept _ (Nat.ne_of_gt turn), oldKind takes]
    split
    next => rfl
    next inTime =>
      -- Only the feature whose turn it is can change, and one that has been taken for settled does not.
      rcases eq_or_ne pending.element general with rfl | other
      · have keyword : pending.takesKind = false :=
          Bool.eq_false_iff.mpr fun takes => inTime ⟨mem_shorthands.mpr ⟨pending, listed, takes, rfl⟩, turn⟩
        rw [kind, keyword]
        rfl
      · rw [kindKept _ other]
  · refine ⟨target, edge, fun takes => ?_⟩
    rw [kind, takes, if_pos rfl, kindKept _ apart.symm]
    split
    next waits => exact inferring.kind_later ready waits.1 waits.2
    next => rfl

theorem Inferring.run (ready : Ready d) (inferring : Inferring d resolved waiting m)
    (clean : (m.linkAll d.linkRedefinition waiting).2 = []) :
    Inferring d d.redefinitions [] (m.linkAll d.linkRedefinition waiting).1 := by
  induction waiting generalizing resolved m with
  | nil =>
    have all := inferring.all
    rw [List.append_nil] at all
    exact all ▸ inferring
  | cons pending rest ih =>
    obtain ⟨linked, ok⟩ := exists_of_linkAll_clean clean
    obtain ⟨target, found, rfl⟩ := linkRedefinition_ok_iff.mp ok
    rw [linkAll_ok ok] at clean ⊢
    exact ih (inferring.redefine ready found) clean

/-- Types leave the kinds as they were declared. -/
theorem kind_typed (d : Draft) (id : ElementId) : d.typed.kind id = d.model.kind id := by
  refine linkAll_induction (fun _ m => m.kind id = d.model.kind id) (fun _ _ _ kept => kept) ?_ d.generals rfl
  intro general _ m linked kept ok
  obtain ⟨target?, _, rfl⟩ := linkGeneral_ok_iff.mp ok
  rw [kind_addFound, kept]

theorem inferring_typed (ready : Ready d) : Inferring d [] d.redefinitions d.typed where
  toRedefining := redefining_typed ready
  all := rfl
  provisional pending member takes := by
    rw [kind_typed]
    exact ready.provisional pending member takes
  took := List.forall_mem_nil _

theorem took_completed (ready : Ready d) (clean : (d.typed.linkAll d.linkRedefinition d.redefinitions).2 = [])
    (member : pending ∈ d.redefinitions) : ∃ target, Took d d.completed pending target :=
  ((inferring_typed ready).run ready clean).took pending member

end Draft

namespace LoadedModel
open Model

variable {loaded : LoadedModel}

theorem exists_kind_shorthand {declarations : List Declaration} (loads : ofDeclarations declarations = .ok loaded)
    {id : ElementId} (shorthand : id ∈ (Draft.ofDeclarations declarations).shorthands) :
    ∃ redefined, loaded.model.redefines? id = some redefined ∧ loaded.model.kind id =
      if redefined ∈ (Draft.ofDeclarations declarations).shorthands ∧ id < redefined then .feature
      else loaded.model.kind redefined := by
  obtain ⟨_, clean, _⟩ := (loads_iff declarations).mp ⟨loaded, loads⟩
  obtain ⟨graph, cleanPasses⟩ := Draft.linked_spec (Draft.ofDeclarations declarations)
  obtain ⟨pending, member, takes, rfl⟩ := Draft.mem_shorthands.mp shorthand
  obtain ⟨redefined, took⟩ :=
    Draft.took_completed (Draft.ready_ofDeclarations declarations) (cleanPasses.mp clean).2.1 member
  rw [(ofDeclarations_ok loads).1]
  refine ⟨redefined, (graph.redefines _).trans took.edge, ?_⟩
  rw [graph.kind, graph.kind]
  exact took.kind takes

/-- A feature that is declared without a keyword redefines another, and has its kind, unless that one is itself declared
without a keyword, and later. Then it is an attribute. So all features on a chain of redefinitions have one kind if each
is declared after what it redefines. -/
theorem kind_shorthand {source : String} (loads : ofSource source = .ok loaded) :
    ∃ declarations, Declaration.ofSource source = .ok declarations ∧
      (∀ id ∈ (Draft.ofDeclarations declarations).shorthands, ∃ redefined, loaded.model.redefines? id = some redefined ∧
        loaded.model.kind id = if redefined ∈ (Draft.ofDeclarations declarations).shorthands ∧ id < redefined then .feature
          else loaded.model.kind redefined) ∧
      ∀ id last, Relation.ReflTransGen ((Draft.ofDeclarations declarations).TakesKind loaded.model) id last →
        loaded.model.kind id = loaded.model.kind last := by
  obtain ⟨declarations, read, declared⟩ := declarations_of_ofSource loads
  refine ⟨declarations, read, fun id shorthand => exists_kind_shorthand declared shorthand, fun id last chain => ?_⟩
  induction chain with
  | refl => rfl
  | tail _ step same =>
    obtain ⟨shorthand, edge, inTime⟩ := step
    obtain ⟨redefined, own, kind⟩ := exists_kind_shorthand declared shorthand
    obtain rfl := Option.some.inj (own.symm.trans edge)
    rw [same, kind, if_neg inTime]

theorem exists_of_map_declarations {α : Type} (source : String) (view : Draft → Model → α) (facts : α)
    (same : ((Declaration.ofSource source).map fun declarations => (decide (Loads declarations),
      view (Draft.ofDeclarations declarations) (Draft.ofDeclarations declarations).linked.1)) = .ok (true, facts)) :
    ∃ declarations loaded, Declaration.ofSource source = .ok declarations ∧ ofSource source = .ok loaded ∧
      view (Draft.ofDeclarations declarations) loaded.model = facts := by
  cases read : Declaration.ofSource source with
  | error diagnostics =>
    rw [read] at same
    cases same
  | ok declarations =>
    rw [read] at same
    obtain ⟨loads, seen⟩ := Prod.mk.inj (Except.ok.inj same)
    obtain ⟨loaded, declared⟩ := of_decide_eq_true loads
    refine ⟨declarations, loaded, rfl, ?_, ?_⟩
    · rw [ofSource, read]
      exact declared
    · rw [(ofDeclarations_ok declared).1]
      exact seen

/-- `C` redefines the part that `B` redefines, and both take the kind of the one of `A`. -/
def inherited : String :=
  "part def A \x7b part p; \x7d part def B :> A \x7b :>> p; \x7d part def C :> B \x7b :>> p; \x7d"

theorem kind_shorthand_inherited : ∃ declarations loaded, Declaration.ofSource inherited = .ok declarations ∧
    ofSource inherited = .ok loaded ∧ (Draft.ofDeclarations declarations).shorthands = [3, 5] ∧
    loaded.model.kind 5 = loaded.model.kind 1 ∧ loaded.model.kind 1 = .partUsage := by
  obtain ⟨declarations, loaded, read, loads, same⟩ := exists_of_map_declarations inherited
    (fun d m => (d.shorthands, m.redefines? 5, m.redefines? 3, m.kind 1))
    ([3, 5], some 3, some 1, .partUsage) (by cbv)
  simp only [Prod.mk.injEq] at same
  obtain ⟨shorthands, last, first, kind⟩ := same
  obtain ⟨others, reread, _, chain⟩ := kind_shorthand loads
  obtain rfl := Except.ok.inj (read.symm.trans reread)
  refine ⟨declarations, loaded, read, loads, shorthands, chain 5 1 ?_, kind⟩
  refine .tail (.single (b := 3) ⟨?_, last, ?_⟩) ⟨?_, first, ?_⟩ <;> rw [shorthands] <;> decide

/-- The same declarations, with `C` before `B`. -/
def inheritedBefore : String :=
  "part def C :> B \x7b :>> p; \x7d part def B :> A \x7b :>> p; \x7d part def A \x7b part p; \x7d"

/-- A feature without a keyword can differ in kind from what it redefines. -/
theorem not_kind_shorthand_inheritedBefore : ¬ ∀ source loaded declarations, ofSource source = .ok loaded →
    Declaration.ofSource source = .ok declarations → ∀ id ∈ (Draft.ofDeclarations declarations).shorthands,
      ∀ redefined, loaded.model.redefines? id = some redefined →
        loaded.model.kind id = loaded.model.kind redefined := by
  intro inferred
  obtain ⟨declarations, loaded, read, loads, same⟩ := exists_of_map_declarations inheritedBefore
    (fun d m => (d.shorthands, m.redefines? 1, m.kind 1, m.kind 3))
    ([1, 3], some 3, .feature, .partUsage) (by cbv)
  simp only [Prod.mk.injEq] at same
  obtain ⟨shorthands, edge, own, kind⟩ := same
  have differ := inferred inheritedBefore loaded declarations loads read 1 (by rw [shorthands]; decide) 3 edge
  rw [own, kind] at differ
  cases differ

end LoadedModel
end StructuralModel
