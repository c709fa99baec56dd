import StructuralModel.Proofs.WellFormed

/-! A document is turned into a model by building steps alone, so what every sequence of steps keeps holds of
every model that loads. -/

namespace StructuralModel

namespace Model

/-- A step that makes no reference to an element. -/
def Edit.Plain : Edit → Prop
  | .addAbout .. => False
  | _ => True

variable {allowed : Edit → Prop}

/-- Some building steps of a sort lead from one model to the other. -/
def BuiltFrom (allowed : Edit → Prop) (m after : Model) : Prop :=
  ∃ edits : List Edit, (∀ edit ∈ edits, allowed edit) ∧ edits.foldl apply m = after

namespace BuiltFrom

variable {m middle after : Model}

theorem refl (m : Model) : BuiltFrom allowed m m := ⟨[], nofun, rfl⟩

theorem trans (first : BuiltFrom allowed m middle) (last : BuiltFrom allowed middle after) :
    BuiltFrom allowed m after := by
  obtain ⟨edits, before, rfl⟩ := first
  obtain ⟨more, later, rfl⟩ := last
  exact ⟨edits ++ more, List.forall_mem_append.mpr ⟨before, later⟩, List.foldl_append⟩

theorem step (m : Model) (edit : Edit) (allows : allowed edit) : BuiltFrom allowed m (m.apply edit) :=
  ⟨[edit], List.forall_mem_singleton.mpr allows, rfl⟩

theorem weaken {more : Edit → Prop} (built : BuiltFrom allowed m after) (allows : ∀ edit, allowed edit → more edit) :
    BuiltFrom more m after := by
  obtain ⟨edits, each, same⟩ := built
  exact ⟨edits, fun edit member => allows edit (each edit member), same⟩

/-- What every step keeps is kept. -/
theorem keeps {holds : Model → Prop} (step : ∀ m edit, allowed edit → holds m → holds (Model.apply m edit))
    (built : BuiltFrom allowed m after) (initial : holds m) : holds after := by
  obtain ⟨edits, each, rfl⟩ := built
  induction edits generalizing m with
  | nil => exact initial
  | cons edit rest ih =>
    obtain ⟨here, later⟩ := List.forall_mem_cons.mp each
    exact ih (step m edit here initial) later

theorem linkAll {α : Type} {link : Model → α → Except DeclarationProblem Model}
    (links : ∀ m name linked, link m name = .ok linked → BuiltFrom allowed m linked) (m : Model) (names : List α) :
    BuiltFrom allowed m (m.linkAll link names).1 :=
  linkAll_induction (fun _ linked => BuiltFrom allowed m linked) (fun _ _ _ built => built)
    (fun name _ before linked built ok => built.trans (links before name linked ok)) names (refl m)

end BuiltFrom
end Model

namespace Draft
open Model

variable {d : Draft}

theorem built_setMultiplicity (id : ElementId) (count? : Option (Spanned Float)) :
    BuiltFrom Edit.Plain d.model (d.setMultiplicity id count?).model := by
  cases count? with
  | none => exact .refl _
  | some count =>
    rw [setMultiplicity]
    split
    next instances _ => exact .step d.model (.setMultiplicity id instances) trivial
    next => exact .refl _

theorem built_setValue (id : ElementId) (value? : Option (Spanned Expr)) :
    BuiltFrom Edit.Plain d.model (d.setValue id value?).model := by
  cases value? with
  | none => exact .refl _
  | some value => exact .step d.model (.setValue id value.value) trivial

theorem built_setLocale (id : ElementId) (locale? : Option (Spanned String)) :
    BuiltFrom Edit.Plain d.model (d.setLocale id locale?).model := by
  cases locale? with
  | none => exact .refl _
  | some locale => exact .step d.model (.setLocale id locale.value) trivial

theorem built_addHeader (id : ElementId) (kind : UsageKind) (header : UsageHeader) :
    BuiltFrom Edit.Plain d.model (d.addHeader id kind header).model := by
  have described := (built_setMultiplicity (d := d) id header.multiplicity?).trans (built_setValue id header.value?)
  rw [addHeader]
  cases header.redefines? with
  | none => exact described
  | some target => exact described

/-- A name that is taken adds nothing. -/
theorem built_addNamed {owner? : Option ElementId} {kind : ElementKind} {name : Spanned String}
    {content : Draft → ElementId → Draft}
    (filled : ∀ (added : Draft) id, BuiltFrom Edit.Plain added.model (content added id).model) :
    BuiltFrom Edit.Plain d.model (d.addNamed owner? kind name content).model := by
  rw [addNamed]
  cases d.duplicate? owner? name with
  | some problem => exact .refl _
  | none =>
    have added : BuiltFrom Edit.Plain d.model (d.add owner? kind (some name.value) name.span).model :=
      .step d.model (.add owner? kind (some name.value)) trivial
    exact added.trans (filled _ _)

mutual

theorem built_declare (owner? : Option ElementId) : ∀ (declaration : Declaration) (d : Draft),
    BuiltFrom Edit.Plain d.model (d.declare owner? declaration).model
  | .package name members, d => by
    rw [declare]
    exact built_addNamed fun added id => built_declareAll (some id) members added
  | .definition kind name generals members, d => by
    rw [declare]
    exact built_addNamed fun added id => built_declareAll (some id) members (added.addGenerals id generals)
  | .usage kind header members, d => by
    rw [declare]
    cases header.declaredName? with
    | none => exact .refl _
    | some name =>
      exact built_addNamed fun added id =>
        (built_addHeader id kind header).trans (built_declareAll (some id) members _)
  | .enumerationLiteral name, d => by
    rw [declare]
    exact built_addNamed fun added id => .refl _
  | .comment none about body, d => by
    rw [declare]
    exact (BuiltFrom.step d.model (.add owner? .comment none) trivial).trans
      (.step _ (.setBody d.model.size body.value) trivial)
  | .comment (some name) about body, d => by
    rw [declare]
    exact built_addNamed fun added id => .step added.model (.setBody id body.value) trivial
  | .documentation locale? body, d => by
    rw [declare]
    have added : BuiltFrom Edit.Plain d.model (d.add owner? .documentation none body.span).model :=
      .step d.model (.add owner? .documentation none) trivial
    have written : BuiltFrom Edit.Plain d.model
        ((d.add owner? .documentation none body.span).edit (·.setBody d.model.size body.value)).model :=
      added.trans (.step _ (.setBody d.model.size body.value) trivial)
    exact written.trans (built_setLocale d.model.size locale?)
  | .importing target, d => by
    rw [declare]
    exact .refl _

theorem built_declareAll (owner? : Option ElementId) : ∀ (declarations : List Declaration) (d : Draft),
    BuiltFrom Edit.Plain d.model (d.declareAll owner? declarations).model
  | [], d => .refl _
  | declaration :: rest, d => by
    rw [declareAll]
    exact (built_declare owner? declaration d).trans (built_declareAll owner? rest _)

end

theorem built_linkGeneral (m : Model) (general : PendingName Path) (linked : Model)
    (ok : d.linkGeneral m general = .ok linked) : BuiltFrom Edit.Plain m linked := by
  rcases linkGeneral_spec ok with rfl | ⟨target, _, rfl⟩
  · exact .refl _
  · exact .step m (.addGeneral general.element target) trivial

theorem built_linkRedefinition (m : Model) (redefinition : PendingRedefinition) (linked : Model)
    (ok : d.linkRedefinition m redefinition = .ok linked) : BuiltFrom Edit.Plain m linked := by
  simp only [linkRedefinition] at ok
  split at ok
  next redefined _ =>
    have redefines : BuiltFrom Edit.Plain m _ := .step m (.setRedefines redefinition.element redefined) trivial
    split at ok
    · rw [← Except.ok.inj ok]
      exact redefines.trans (.step _ (.setKind redefinition.element (m.kind redefined)) trivial)
    · rw [← Except.ok.inj ok]
      exact redefines
  next => split at ok <;> cases ok

theorem built_linkAbout (m : Model) (target : PendingName Path) (linked : Model)
    (ok : linkAbout m target = .ok linked) : BuiltFrom (fun _ => True) m linked := by
  obtain ⟨element, rfl⟩ := linkAbout_spec ok
  exact .step m (.addAbout target.element element) trivial

/-- No comment refers to an element before the last pass. -/
theorem built_redefined (d : Draft) : BuiltFrom Edit.Plain d.model
    ((d.model.linkAll d.linkGeneral d.generals).1.linkAll d.linkRedefinition d.redefinitions).1 :=
  (BuiltFrom.linkAll (fun m general linked ok => built_linkGeneral m general linked ok) d.model d.generals).trans
    (.linkAll (fun m redefinition linked ok => built_linkRedefinition m redefinition linked ok) _ d.redefinitions)

theorem built_ofDeclarations (declarations : List Declaration) :
    BuiltFrom Edit.Plain .empty (ofDeclarations declarations).model :=
  built_declareAll none declarations .empty

theorem built_linked (d : Draft) : BuiltFrom (fun _ => True) d.model d.linked.1 :=
  ((built_redefined d).weaken fun _ _ => trivial).trans (.linkAll built_linkAbout _ d.abouts)

end Draft

namespace LoadedModel
open Model

/-- A model that loads is the result of building steps from nothing. -/
theorem builtFrom_empty {source : String} {loaded : LoadedModel} (loads : ofSource source = .ok loaded) :
    BuiltFrom (fun _ => True) .empty loaded.model := by
  obtain ⟨declarations, _, declared⟩ := declarations_of_ofSource loads
  rw [(ofDeclarations_ok declared).1]
  exact ((Draft.built_ofDeclarations declarations).weaken fun _ _ => trivial).trans (Draft.built_linked _)

end LoadedModel
end StructuralModel
