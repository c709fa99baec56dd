import StructuralModel.Elaboration.Draft
import StructuralModel.Proofs.TraversalOrder

/-! The declaration pass as a run of additions, and what every such run leaves: no name twice in one
namespace, elements in depth-first order, and no edges yet. -/

namespace StructuralModel.Draft
open Model

/-- The texts, values and pending names of a declaration are all that changes. -/
structure Describes (d after : Draft) : Prop where
  graph : SameGraph d.model after.model
  redefinitions : after.redefinitions = d.redefinitions

/-- One new element with all that its own declaration says. Only a feature may have a redefinition pending, and one
that is to take the kind of what it redefines is an attribute till then. -/
structure Adds (d : Draft) (owner? : Option ElementId) (kind : ElementKind) (name? : Option String)
    (added : Draft) : Prop where
  fresh : ∀ name, name? = some name → d.model.child? owner? name = none
  graph : SameGraph (d.model.add owner? kind name?) added.model
  redefinitions : added.redefinitions = d.redefinitions ∨ kind.isFeature = true ∧
    ∃ pending, pending.element = d.model.size ∧ (pending.takesKind = true → kind = .feature) ∧
      added.redefinitions = d.redefinitions ++ [pending]

/-- A run of the declaration pass in a namespace: the members of a new element come before the next one. -/
inductive Declares : Option ElementId → Draft → Draft → Prop
  | done {owner? d} : Declares owner? d d
  | report {owner? d problem after} (rest : Declares owner? (d.report problem) after) : Declares owner? d after
  | element {owner? d kind name? added filled after} (adds : Adds d owner? kind name? added)
      (members : Declares (some d.model.size) added filled) (rest : Declares owner? filled after) :
      Declares owner? d after

variable {d added after : Draft} {owner? : Option ElementId} {kind : ElementKind} {name? : Option String}

theorem Declares.trans {middle : Draft} (first : Declares owner? d middle) (last : Declares owner? middle after) :
    Declares owner? d after := by
  induction first with
  | done => exact last
  | report _ ih => exact .report (ih last)
  | element adds members _ _ ih => exact .element adds members (ih last)

namespace Describes

theorem refl (d : Draft) : Describes d d :=
  ⟨.refl _, rfl⟩

theorem trans {middle : Draft} (first : Describes d middle) (last : Describes middle after) : Describes d after :=
  ⟨first.graph.trans last.graph, last.redefinitions.trans first.redefinitions⟩

theorem setMultiplicity (id : ElementId) (count? : Option (Spanned Float)) :
    Describes d (d.setMultiplicity id count?) := by
  cases count? with
  | none => exact refl d
  | some count =>
    simp only [Draft.setMultiplicity]
    split
    · exact ⟨.setMultiplicity _ _, rfl⟩
    · exact ⟨.refl _, rfl⟩

theorem setValue (id : ElementId) (value? : Option (Spanned Expr)) : Describes d (d.setValue id value?) := by
  cases value? with
  | none => exact refl d
  | some value => exact ⟨.setValue _ _, rfl⟩

theorem addGenerals (id : ElementId) (names : List (Spanned Path)) : Describes d (d.addGenerals id names) :=
  ⟨.refl _, rfl⟩

theorem addComment (id : ElementId) (about : List (Spanned Path)) (body : Spanned String) :
    Describes d (d.addComment id about body) :=
  ⟨.setBody _ _, rfl⟩

theorem setBody (id : ElementId) (body : String) : Describes d (d.edit (·.setBody id body)) :=
  ⟨.setBody _ _, rfl⟩

theorem setLocale (id : ElementId) (locale? : Option (Spanned String)) : Describes d (d.setLocale id locale?) := by
  cases locale? with
  | none => exact refl d
  | some locale => exact ⟨.setLocale _ _, rfl⟩

end Describes

namespace Adds

theorem add (fresh : ∀ name, name? = some name → d.model.child? owner? name = none) (span : Span) :
    Adds d owner? kind name? (d.add owner? kind name? span) :=
  ⟨fresh, .refl _, .inl rfl⟩

theorem describe (adds : Adds d owner? kind name? added) (describes : Describes added after) :
    Adds d owner? kind name? after where
  fresh := adds.fresh
  graph := adds.graph.trans describes.graph
  redefinitions := by
    rw [describes.redefinitions]
    exact adds.redefinitions

/-- A usage is described before its redefinition is noted. -/
theorem addHeader (fresh : ∀ name, name? = some name → d.model.child? owner? name = none) (span : Span)
    (usage : UsageKind) (header : UsageHeader) :
    Adds d owner? usage.elementKind name?
      ((d.add owner? usage.elementKind name? span).addHeader d.model.size usage header) := by
  have described := ((Describes.setMultiplicity (d := d.add owner? usage.elementKind name? span) d.model.size
    header.multiplicity?).trans (.setValue d.model.size header.value?)).trans
      (.addGenerals d.model.size (header.types ++ header.subsets))
  rw [Draft.addHeader]
  cases header.redefines? with
  | none => exact (add fresh span).describe described
  | some target =>
    refine ⟨fresh, described.graph, .inr ⟨by cases usage <;> rfl, ⟨⟨d.model.size, target⟩, usage = .shorthand⟩, rfl, ?_, ?_⟩⟩
    · intro shorthand
      rw [of_decide_eq_true shorthand]
      rfl
    · simp only [addRedefinition, described.redefinitions]
      rfl

end Adds

/-- Either the name is taken and nothing is added, or an element is, and then its content. -/
theorem declares_addNamed {name : Spanned String} {content : Draft → ElementId → Draft}
    (declares : (∀ other, some name.value = some other → d.model.child? owner? other = none) →
      ∃ added, Adds d owner? kind (some name.value) added ∧ Declares (some d.model.size) added
        (content (d.add owner? kind (some name.value) name.span) d.model.size)) :
    Declares owner? d (d.addNamed owner? kind name content) := by
  rw [addNamed]
  cases taken : d.model.child? owner? name.value with
  | some first =>
    simp only [duplicate?, taken, Option.map_some]
    exact .report .done
  | none =>
    simp only [duplicate?, taken, Option.map_none]
    obtain ⟨added, adds, members⟩ := declares (by rintro _ ⟨⟩; exact taken)
    exact .element adds members .done

/-- A nameless element is never a duplicate. -/
theorem unnamed (d : Draft) (owner? : Option ElementId) :
    ∀ name : String, none = some name → d.model.child? owner? name = none := by
  rintro _ ⟨⟩

mutual

theorem declares_declare (owner? : Option ElementId) : ∀ (declaration : Declaration) (d : Draft),
    Declares owner? d (d.declare owner? declaration)
  | .package name members, d => by
    rw [declare]
    exact declares_addNamed fun fresh => ⟨_, .add fresh _, declares_declareAll _ members _⟩
  | .definition kind name generals members, d => by
    rw [declare]
    exact declares_addNamed fun fresh =>
      ⟨_, (Adds.add fresh _).describe (.addGenerals _ generals), declares_declareAll _ members _⟩
  | .usage usage header members, d => by
    rw [declare]
    split
    · exact .done
    · exact declares_addNamed fun fresh => ⟨_, .addHeader fresh _ usage header, declares_declareAll _ members _⟩
  | .enumerationLiteral name, d => by
    rw [declare]
    exact declares_addNamed fun fresh => ⟨_, .add fresh _, .done⟩
  | .comment none about body, d => by
    rw [declare]
    exact .element ((Adds.add (unnamed d owner?) body.span).describe (.addComment _ about body)) .done .done
  | .comment (some name) about body, d => by
    rw [declare]
    exact declares_addNamed fun fresh => ⟨_, (Adds.add fresh _).describe (.addComment _ about body), .done⟩
  | .documentation locale? body, d => by
    rw [declare]
    exact .element (((Adds.add (unnamed d owner?) body.span).describe (.setBody _ body.value)).describe
      (.setLocale _ locale?)) .done .done
  | .importing _, d => by
    rw [declare]
    exact .done

theorem declares_declareAll (owner? : Option ElementId) : ∀ (members : List Declaration) (d : Draft),
    Declares owner? d (d.declareAll owner? members)
  | [], d => by
    rw [declareAll]
    exact .done
  | declaration :: rest, d => by
    rw [declareAll]
    exact (declares_declare owner? declaration d).trans (declares_declareAll owner? rest _)

end

/-- What holds of a draft between two declarations. -/
structure Ready (d : Draft) : Prop where
  forest : d.model.Forest
  distinct : d.model.DistinctNames
  nested : d.model.Nested
  unlinked : ∀ id, d.model.generalTypes id = []
  ascend : d.redefinitions.Pairwise fun first second => (first.element : Nat) < second.element
  features : ∀ pending ∈ d.redefinitions, d.model.isFeature pending.element = true
  provisional : ∀ pending ∈ d.redefinitions, pending.takesKind = true → d.model.kind pending.element = .feature

/-- Members can be added to an owner as long as it encloses the youngest element. -/
def Open (d : Draft) (owner? : Option ElementId) : Prop :=
  ∀ owner : Nat, owner? = some owner → owner < d.model.size ∧ owner ∈ d.model.enclosing (d.model.size - 1)

theorem Open.known (opened : Open d owner?) : d.model.known? owner? = owner? := by
  cases owner? with
  | none => rfl
  | some owner => exact known_eq_some.mpr ⟨rfl, (opened owner rfl).1⟩

theorem Ready.empty : Ready .empty where
  forest := .empty
  distinct := .empty
  nested id owner owned := by simp [Model.owner?, element, Draft.empty, Model.empty, default] at owned
  unlinked id := by simp [generalTypes, Element.generalTypes, element, Draft.empty, Model.empty, default]
  ascend := .nil
  features := by simp [Draft.empty]
  provisional := by simp [Draft.empty]

theorem Ready.report (ready : Ready d) (problem : DeclarationProblem) : Ready (d.report problem) :=
  ⟨ready.forest, ready.distinct, ready.nested, ready.unlinked, ready.ascend, ready.features, ready.provisional⟩

/-- Redefinitions are pending of older elements alone, so that of a new one comes last. -/
theorem Adds.ascend (adds : Adds d owner? kind name? added) (ready : Ready d) :
    added.redefinitions.Pairwise fun first second => (first.element : Nat) < second.element := by
  rcases adds.redefinitions with same | ⟨_, pending, newest, _, same⟩
  · rw [same]
    exact ready.ascend
  · rw [same, List.pairwise_append]
    refine ⟨ready.ascend, List.pairwise_singleton _ _, ?_⟩
    intro earlier member last new
    rw [List.mem_singleton.mp new, newest]
    exact lt_of_isFeature (ready.features earlier member)

/-- An element that has a redefinition pending is kept as it is. -/
theorem Adds.kind_pending (adds : Adds d owner? kind name? added) (ready : Ready d) {pending : PendingRedefinition}
    (member : pending ∈ d.redefinitions) : added.model.kind pending.element = d.model.kind pending.element := by
  rw [adds.graph.kind, kind_add, if_neg (Nat.ne_of_lt (lt_of_isFeature (ready.features pending member)))]

theorem Adds.kind_new (adds : Adds d owner? kind name? added) : added.model.kind d.model.size = kind := by
  rw [adds.graph.kind, kind_add, if_pos rfl]

theorem Adds.features (adds : Adds d owner? kind name? added) (ready : Ready d) :
    ∀ pending ∈ added.redefinitions, added.model.isFeature pending.element = true := by
  have old : ∀ pending ∈ d.redefinitions, added.model.isFeature pending.element = true := by
    intro pending member
    rw [isFeature, adds.kind_pending ready member]
    exact ready.features pending member
  rcases adds.redefinitions with same | ⟨feature, own, newest, _, same⟩
  · rw [same]
    exact old
  · rw [same, List.forall_mem_append]
    refine ⟨old, List.forall_mem_singleton.mpr ?_⟩
    rw [newest, isFeature, adds.kind_new]
    exact feature

theorem Adds.provisional (adds : Adds d owner? kind name? added) (ready : Ready d) :
    ∀ pending ∈ added.redefinitions, pending.takesKind = true → added.model.kind pending.element = .feature := by
  have old : ∀ pending ∈ d.redefinitions, pending.takesKind = true → added.model.kind pending.element = .feature := by
    intro pending member takes
    rw [adds.kind_pending ready member]
    exact ready.provisional pending member takes
  rcases adds.redefinitions with same | ⟨_, own, newest, plain, same⟩
  · rw [same]
    exact old
  · rw [same, List.forall_mem_append]
    refine ⟨old, List.forall_mem_singleton.mpr fun takes => ?_⟩
    rw [newest, adds.kind_new]
    exact plain takes

theorem Adds.ready (adds : Adds d owner? kind name? added) (ready : Ready d) (opened : Open d owner?) :
    Ready added where
  forest := adds.graph.forest (ready.forest.add owner? kind name?)
  distinct := adds.graph.distinctNames (ready.distinct.add ready.forest opened.known adds.fresh)
  nested := adds.graph.nested (ready.nested.add ready.forest fun owner owned => (opened owner owned).2)
  unlinked id := by
    rw [adds.graph.generalTypes, generalTypes_add, ready.unlinked]
    exact ite_self _
  ascend := adds.ascend ready
  features := adds.features ready
  provisional := adds.provisional ready

theorem Adds.owner (adds : Adds d owner? kind name? added) (id : Nat) :
    added.model.owner? id = if id = d.model.size then d.model.known? owner? else d.model.owner? id := by
  rw [adds.graph.owner, owner_add]

theorem Adds.size (adds : Adds d owner? kind name? added) : added.model.size = d.model.size + 1 := by
  rw [adds.graph.size, size_add]

/-- The new element is the youngest, and can have members itself. -/
theorem Adds.opened (adds : Adds d owner? kind name? added) : Open added (some d.model.size) := by
  rintro owner same
  obtain rfl := Option.some.inj same
  rw [adds.size]
  exact ⟨Nat.lt_succ_self _, mem_enclosing_self⟩

/-- What a run keeps and what it leaves. -/
structure Grows (owner? : Option ElementId) (d after : Draft) : Prop where
  ready : Ready after
  opened : Open after owner?
  larger : d.model.size ≤ after.model.size
  owner : ∀ id : Nat, id < d.model.size → after.model.owner? id = d.model.owner? id

/-- After the members of an element its owner still encloses the youngest element, one of them. -/
theorem Adds.reopened {filled : Draft} (adds : Adds d owner? kind name? added) (opened : Open d owner?)
    (members : Grows (some d.model.size) added filled) : Open filled owner? := by
  intro owner same
  have larger := members.larger
  have known : owner < d.model.size := (opened owner same).1
  rw [adds.size] at larger
  have owned : filled.model.owner? d.model.size = some owner := by
    rw [members.owner _ (by rw [adds.size]; exact Nat.lt_succ_self _), adds.owner, if_pos rfl, opened.known, same]
  have around : owner ∈ filled.model.enclosing d.model.size :=
    mem_enclosing.mpr (.inr ⟨owner, owned, mem_enclosing_self⟩)
  exact ⟨by omega, mem_enclosing_trans around (members.opened _ rfl).2⟩

theorem Declares.grows (run : Declares owner? d after) (ready : Ready d) (opened : Open d owner?) :
    Grows owner? d after := by
  induction run with
  | done => exact ⟨ready, opened, Nat.le_refl _, fun _ _ => rfl⟩
  | report _ ih =>
    have later := ih (ready.report _) opened
    exact ⟨later.ready, later.opened, later.larger, later.owner⟩
  | element adds _ _ membersGrow restGrows =>
    have members := membersGrow (adds.ready ready opened) adds.opened
    have rest := restGrows members.ready (adds.reopened opened members)
    have size := adds.size
    refine ⟨rest.ready, rest.opened, ?_, fun id known => ?_⟩
    · have inner := members.larger
      have outer := rest.larger
      omega
    · have inner := members.larger
      rw [rest.owner id (by omega), members.owner id (by omega), adds.owner, if_neg (Nat.ne_of_lt known)]

/-- Whatever is declared, the draft is ready for its names to be resolved. -/
theorem ready_ofDeclarations (declarations : List Declaration) : Ready (ofDeclarations declarations) :=
  ((declares_declareAll none declarations .empty).grows .empty (by rintro _ ⟨⟩)).ready

end StructuralModel.Draft
