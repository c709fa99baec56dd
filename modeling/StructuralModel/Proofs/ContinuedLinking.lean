import StructuralModel.Proofs.ContinuedEvaluation
import StructuralModel.Proofs.LinkOrder

/-! Names that are resolved in a model and in one that goes on where it ends. The names that wait in both are
resolved alike, since none of them starts with that of a new root; the others change nothing that both have. -/

namespace StructuralModel

namespace Model

section linkAll

variable {α : Type} {link link' : Model → α → Except DeclarationProblem Model} {m other : Model}

theorem linkAll_append (first second : List α) : m.linkAll link (first ++ second) =
    (((m.linkAll link first).1.linkAll link second).1,
      (m.linkAll link first).2 ++ ((m.linkAll link first).1.linkAll link second).2) := by
  induction first generalizing m with
  | nil => rfl
  | cons name rest ih =>
    rw [List.cons_append, linkAll, linkAll]
    cases link m name with
    | ok linked => exact ih
    | error problem =>
      dsimp only
      rw [ih]
      rfl

/-- Two runs over the same names in step. -/
theorem linkAll_both (holds : Model → Model → Prop) {names : List α}
    (step : ∀ name ∈ names, ∀ m other linked linked', holds m other → link m name = .ok linked →
      link' other name = .ok linked' → holds linked linked')
    (clean : (m.linkAll link names).2 = []) (clean' : (other.linkAll link' names).2 = []) (initial : holds m other) :
    holds (m.linkAll link names).1 (other.linkAll link' names).1 := by
  induction names generalizing m other with
  | nil => exact initial
  | cons name rest ih =>
    obtain ⟨here, later⟩ := List.forall_mem_cons.mp step
    obtain ⟨linked, ok⟩ := Draft.exists_of_linkAll_clean clean
    obtain ⟨linked', ok'⟩ := Draft.exists_of_linkAll_clean clean'
    rw [Draft.linkAll_ok ok] at clean ⊢
    rw [Draft.linkAll_ok ok'] at clean' ⊢
    exact ih later clean clean' (here m other linked linked' initial ok ok')

theorem linkAll_value (kept : ∀ name m linked, link m name = .ok linked → ∀ id, linked.value? id = m.value? id)
    (names : List α) (id : ElementId) : (m.linkAll link names).1.value? id = m.value? id :=
  linkAll_induction (fun _ linked => linked.value? id = m.value? id) (fun _ _ _ same => same)
    (fun name _ between linked same ok => (kept name between linked ok id).trans same) names rfl

end linkAll

section edits

variable {m : Model}

theorem unannotated_addAbout {comment target : Nat} (inside : target < m.size) {id : Nat} (known : id < m.size) :
    ((m.addAbout comment target).element id).unannotated =
      if comment = id then { (m.element id).unannotated with about := (m.element id).unannotated.about ++ [target] }
      else (m.element id).unannotated := by
  rw [element_addAbout]
  by_cases here : comment = id
  · subst here
    rw [if_pos ⟨known, inside⟩, if_pos rfl, if_pos rfl]
    rfl
  · rw [if_neg here]
    split <;> simp [Element.unannotated]

theorem SameTree.redefine (id target : ElementId) (takesKind : Bool) : SameTree m (m.redefine id target takesKind) := by
  rw [Model.redefine]
  split
  · exact (SameTree.setRedefines id target).trans (.setKind id _)
  · exact .setRedefines id target

theorem value_addFound (id : ElementId) (target? : Option ElementId) (other : ElementId) :
    (m.addFound id target?).value? other = m.value? other := by
  cases target? with
  | none => rfl
  | some target =>
    rw [value?, addFound, element_addGeneral]
    split <;> rfl

theorem value_redefine (id target : ElementId) (takesKind : Bool) (other : ElementId) :
    (m.redefine id target takesKind).value? other = m.value? other := by
  have linked : (m.setRedefines id target).value? other = m.value? other := by
    rw [value?, element_setRedefines]
    split <;> rfl
  rw [Model.redefine]
  split
  · refine Eq.trans ?_ linked
    rw [value?, element_setKind]
    split <;> rfl
  · exact linked

theorem value_addAbout (comment target id : ElementId) : (m.addAbout comment target).value? id = m.value? id := by
  rw [value?, element_addAbout]
  split <;> rfl

end edits

namespace Continues

variable {names : List String} {m m' other other' : Model} (continues : Continues names m other)

include continues

/-- Both models are changed alike in the elements that both have. -/
theorem both (first : SameTree m m') (second : SameTree other other')
    (element : ∀ id : Nat, id < m.size → (other'.element id).unannotated = (m'.element id).unannotated) :
    Continues names m' other' where
  size := first.size.symm ▸ second.size.symm ▸ continues.size
  element id known := element id (first.size ▸ known)
  rooted root member := first.size.symm ▸ continues.rooted root (first.roots ▸ member)
  roots := by
    obtain ⟨added, same, named⟩ := continues.roots
    refine ⟨added, by rw [second.roots, same, first.roots], fun root member name new => ?_⟩
    exact named root member name ((second.name root).symm.trans new)

/-- Only elements are changed that the shorter model does not have. -/
theorem beyond (second : SameTree other other')
    (kept : ∀ id : Nat, id < m.size → (other'.element id).unannotated = (other.element id).unannotated) :
    Continues names m other' :=
  continues.both (.refl m) second fun id known => (kept id known).trans (continues.element id known)

section edges

variable {id target : Nat}

theorem addFound {target? : Option ElementId} (inside : ∀ target : Nat, target? = some target → target < m.size) :
    Continues names (m.addFound id target?) (other.addFound id target?) := by
  refine continues.both MoreEdges.addFound.toSameTree MoreEdges.addFound.toSameTree fun position known => ?_
  cases target? with
  | none => exact continues.element position known
  | some target =>
    have here : (target : Nat) < m.size := inside target rfl
    have there := Nat.lt_of_lt_of_le here continues.size
    have same := continues.element position known
    simp only [Model.addFound, element_addGeneral, known, Nat.lt_of_lt_of_le known continues.size, here, there, and_true]
    split
    · exact congrArg (fun e : Element => { e with general := e.general ++ [target] }) same
    · exact same

theorem addFound_beyond (new : m.size ≤ id) (target? : Option ElementId) :
    Continues names m (other.addFound id target?) := by
  refine continues.beyond MoreEdges.addFound.toSameTree fun position known => ?_
  cases target? with
  | none => rfl
  | some target =>
    rw [Model.addFound, element_addGeneral, if_neg]
    rintro ⟨rfl, _⟩
    exact Nat.not_lt_of_le new known

theorem redefine (known : id < m.size) (inside : target < m.size) (takesKind : Bool) :
    Continues names (m.redefine id target takesKind) (other.redefine id target takesKind) := by
  refine continues.both (.redefine ..) (.redefine ..) fun position old => ?_
  have same := continues.element position old
  rw [element_redefine takesKind known inside, element_redefine takesKind (Nat.lt_of_lt_of_le known continues.size)
    (Nat.lt_of_lt_of_le inside continues.size), continues.kind inside, continues.kind old]
  split
  · exact congrArg (fun e : Element => { e with
      redefines? := some target, kind := if takesKind then m.kind target else m.kind position }) same
  · exact same

theorem redefine_beyond (new : m.size ≤ id) (target : ElementId) (takesKind : Bool) :
    Continues names m (other.redefine id target takesKind) := by
  refine continues.beyond (.redefine ..) fun position known => ?_
  have apart : id ≠ position := Nat.ne_of_gt (Nat.lt_of_lt_of_le known new)
  cases takesKind with
  | false => simp [Model.redefine, element_setRedefines, apart]
  | true => simp [Model.redefine, element_setKind, element_setRedefines, apart]

theorem addAbout (comment : ElementId) (inside : target < m.size) :
    Continues names (m.addAbout comment target) (other.addAbout comment target) := by
  refine continues.both (SameGraph.addAbout ..).toSameTree (SameGraph.addAbout ..).toSameTree fun position known => ?_
  rw [unannotated_addAbout inside known, unannotated_addAbout (Nat.lt_of_lt_of_le inside continues.size)
    (Nat.lt_of_lt_of_le known continues.size), continues.element position known]

/-- An element may be what a new comment is about. -/
theorem addAbout_beyond {comment : Nat} (new : m.size ≤ comment) (target : ElementId) :
    Continues names m (other.addAbout comment target) := by
  refine continues.beyond (SameGraph.addAbout ..).toSameTree fun position known => ?_
  by_cases inside : target < other.size
  · rw [unannotated_addAbout inside (Nat.lt_of_lt_of_le known continues.size), if_neg]
    rintro rfl
    exact Nat.not_lt_of_le new known
  · rw [Model.addAbout, if_neg fun both => inside both.2]

end edges

section lookup

theorem lt_of_typeTarget {id target : Nat} {path : Path} (found : m.typeTarget? id path = some (some target)) :
    target < m.size := by
  rw [typeTarget?] at found
  split at found
  next chosen resolved =>
    split at found
    · obtain rfl := Option.some.inj (Option.some.inj found)
      exact lt_of_resolvePath continues.rooted resolved
    · cases found
  next =>
    split at found <;> cases found

variable {id : Nat} (known : id < m.size)

include known

/-- A name is looked up from the owner of the element that it stands in. -/
theorem resolvePath_owner {path : Path} (apart : path.first ∉ names) :
    other.resolvePath? (other.owner? id) path.segments = m.resolvePath? (m.owner? id) path.segments := by
  rw [continues.owner known]
  exact continues.resolvePath (fun owner owned => Nat.lt_trans (owner_lt owned) known) apart

theorem typeTarget {path : Path} (apart : path.first ∉ names) : other.typeTarget? id path = m.typeTarget? id path := by
  rw [typeTarget?, typeTarget?, continues.resolvePath_owner known apart]
  cases resolved : m.resolvePath? (m.owner? id) path.segments with
  | none => rfl
  | some target =>
    dsimp only
    rw [continues.kind (lt_of_resolvePath continues.rooted resolved)]

theorem redefinedBy (name : String) : other.redefinedBy? id name = m.redefinedBy? id name := by
  rw [redefinedBy?, redefinedBy?, continues.owner known]
  cases owned : m.owner? id with
  | none => rfl
  | some owner => exact continues.inheritedFeature? (Nat.lt_trans (owner_lt owned) known) name

end lookup

end Continues

end Model

namespace Draft
open Model

/-- How two models are linked side by side: names that wait in both of them one after the other in both, and then those
that wait in the longer one only. -/
structure LinksAlike {α : Type} (names : List String) (base : Nat) (link link' : Model → α → Except DeclarationProblem Model)
    (old new : List α) : Prop where
  size : ∀ name m linked, link m name = .ok linked → linked.size = m.size
  both : ∀ name ∈ old, ∀ m other linked linked', m.size = base → Continues names m other → link m name = .ok linked →
    link' other name = .ok linked' → Continues names linked linked'
  beyond : ∀ name ∈ new, ∀ m other linked', m.size = base → Continues names m other → link' other name = .ok linked' →
    Continues names m linked'

theorem LinksAlike.run {α : Type} {names : List String} {base : Nat}
    {link link' : Model → α → Except DeclarationProblem Model} {old new : List α} {m other : Model}
    (alike : LinksAlike names base link link' old new) (size : m.size = base) (continues : Continues names m other)
    (clean : (m.linkAll link old).2 = []) (clean' : (other.linkAll link' (old ++ new)).2 = []) :
    (m.linkAll link old).1.size = base ∧
      Continues names (m.linkAll link old).1 (other.linkAll link' (old ++ new)).1 := by
  rw [linkAll_append] at clean' ⊢
  obtain ⟨first, _⟩ := List.append_eq_nil_iff.mp clean'
  obtain ⟨size, between⟩ := linkAll_both (fun m other => m.size = base ∧ Continues names m other)
    (fun name member m other linked linked' ⟨size, continues⟩ ok ok' =>
      ⟨(alike.size name m linked ok).trans size, alike.both name member m other linked linked' size continues ok ok'⟩)
    clean first ⟨size, continues⟩
  refine ⟨size, ?_⟩
  refine (linkAll_induction (fun waiting longer => (∀ name ∈ waiting, name ∈ new) ∧ Continues names _ longer)
    (fun _ _ _ holds => ⟨(List.forall_mem_cons.mp holds.1).2, holds.2⟩) ?_ new ⟨fun _ member => member, between⟩).2
  intro name rest longer linked ⟨waiting, holds⟩ ok
  obtain ⟨here, later⟩ := List.forall_mem_cons.mp waiting
  exact ⟨later, alike.beyond name here _ longer linked size holds ok⟩

/-- A draft with further elements, and with further names that wait in them. -/
structure Prolongs (names : List String) (d longer : Draft) : Prop where
  model : Continues names d.model longer.model
  generals : ∃ more, longer.generals = d.generals ++ more ∧ ∀ general ∈ more, d.model.size ≤ (general.element : Nat)
  redefinitions : ∃ more, longer.redefinitions = d.redefinitions ++ more ∧
    ∀ pending ∈ more, d.model.size ≤ (pending.element : Nat)
  abouts : ∃ more, longer.abouts = d.abouts ++ more ∧ ∀ target ∈ more, d.model.size ≤ (target.element : Nat)

/-- The names that wait in a draft do so in elements of it, and do not start with one of the given names. -/
structure Awaits (names : List String) (d : Draft) : Prop where
  generals : ∀ general ∈ d.generals, (general.element : Nat) < d.model.size ∧ general.name.value.first ∉ names
  redefinitions : ∀ pending ∈ d.redefinitions, (pending.element : Nat) < d.model.size
  abouts : ∀ target ∈ d.abouts, (target.element : Nat) < d.model.size ∧ target.name.value.first ∉ names

variable {names : List String} {d longer : Draft}

theorem linksAlike_generals (awaits : Awaits names d) {more : List (PendingName Path)}
    (new : ∀ general ∈ more, d.model.size ≤ (general.element : Nat)) :
    LinksAlike names d.model.size d.linkGeneral longer.linkGeneral d.generals more where
  size general m linked ok := by
    obtain ⟨target?, _, rfl⟩ := linkGeneral_ok_iff.mp ok
    exact MoreEdges.addFound.size
  both general member m other linked linked' size continues ok ok' := by
    obtain ⟨known, apart⟩ := awaits.generals general member
    obtain ⟨target?, found, rfl⟩ := linkGeneral_ok_iff.mp ok
    obtain ⟨target?', found', rfl⟩ := linkGeneral_ok_iff.mp ok'
    rw [continues.typeTarget (size ▸ known) apart, found] at found'
    obtain rfl := Option.some.inj found'
    refine continues.addFound fun target same => ?_
    subst same
    exact continues.lt_of_typeTarget found
  beyond general member m other linked' size continues ok := by
    obtain ⟨target?, _, rfl⟩ := linkGeneral_ok_iff.mp ok
    exact continues.addFound_beyond (size ▸ new general member) target?

theorem linksAlike_redefinitions (awaits : Awaits names d) {more : List PendingRedefinition}
    (new : ∀ pending ∈ more, d.model.size ≤ (pending.element : Nat)) :
    LinksAlike names d.model.size d.linkRedefinition longer.linkRedefinition d.redefinitions more where
  size pending m linked ok := by
    obtain ⟨target, _, rfl⟩ := linkRedefinition_ok_iff.mp ok
    exact (SameTree.redefine _ target _).size
  both pending member m other linked linked' size continues ok ok' := by
    have known : (pending.element : Nat) < m.size := size ▸ awaits.redefinitions pending member
    obtain ⟨target, found, rfl⟩ := linkRedefinition_ok_iff.mp ok
    obtain ⟨target', found', rfl⟩ := linkRedefinition_ok_iff.mp ok'
    rw [continues.redefinedBy known, found] at found'
    obtain rfl := Option.some.inj found'
    exact continues.redefine known (lt_of_redefinedBy found) pending.takesKind
  beyond pending member m other linked' size continues ok := by
    obtain ⟨target, _, rfl⟩ := linkRedefinition_ok_iff.mp ok
    exact continues.redefine_beyond (size ▸ new pending member) target pending.takesKind

theorem linkAbout_ok_iff {m linked : Model} {target : PendingName Path} : linkAbout m target = .ok linked ↔ ∃ element,
    m.resolvePath? (m.owner? target.element) target.name.value.segments = some element ∧
      linked = m.addAbout target.element element := by
  rw [linkAbout]
  cases m.resolvePath? (m.owner? target.element) target.name.value.segments with
  | none => simp
  | some element => simp [eq_comm]

theorem linksAlike_abouts (awaits : Awaits names d) {more : List (PendingName Path)}
    (new : ∀ target ∈ more, d.model.size ≤ (target.element : Nat)) :
    LinksAlike names d.model.size linkAbout linkAbout d.abouts more where
  size target m linked ok := by
    obtain ⟨element, _, rfl⟩ := linkAbout_ok_iff.mp ok
    exact (SameGraph.addAbout ..).size
  both target member m other linked linked' size continues ok ok' := by
    obtain ⟨known, apart⟩ := awaits.abouts target member
    obtain ⟨element, found, rfl⟩ := linkAbout_ok_iff.mp ok
    obtain ⟨element', found', rfl⟩ := linkAbout_ok_iff.mp ok'
    rw [continues.resolvePath_owner (size ▸ known) apart, found] at found'
    obtain rfl := Option.some.inj found'
    exact continues.addAbout _ (lt_of_resolvePath continues.rooted found)
  beyond target member m other linked' size continues ok := by
    obtain ⟨element, _, rfl⟩ := linkAbout_ok_iff.mp ok
    exact continues.addAbout_beyond (size ▸ new target member) element

/-- The passes over both drafts keep in step. -/
theorem Prolongs.linked (prolongs : Prolongs names d longer) (awaits : Awaits names d) (clean : d.linked.2 = [])
    (clean' : longer.linked.2 = []) : Continues names d.linked.1 longer.linked.1 := by
  obtain ⟨generals, sameGenerals, newGenerals⟩ := prolongs.generals
  obtain ⟨redefinitions, sameRedefinitions, newRedefinitions⟩ := prolongs.redefinitions
  obtain ⟨abouts, sameAbouts, newAbouts⟩ := prolongs.abouts
  simp only [Draft.linked, sameGenerals, sameRedefinitions, sameAbouts, List.append_eq_nil_iff] at clean clean' ⊢
  obtain ⟨⟨typed, redefined⟩, complete⟩ := clean
  obtain ⟨⟨typed', redefined'⟩, complete'⟩ := clean'
  obtain ⟨size, continues⟩ := (linksAlike_generals awaits newGenerals).run rfl prolongs.model typed typed'
  obtain ⟨size, continues⟩ := (linksAlike_redefinitions awaits newRedefinitions).run size continues redefined redefined'
  exact ((linksAlike_abouts awaits newAbouts).run size continues complete complete').2

/-- No pass writes a value. -/
theorem value_linked (d : Draft) (id : ElementId) : d.linked.1.value? id = d.model.value? id := by
  have generals : ∀ m : Model, (m.linkAll d.linkGeneral d.generals).1.value? id = m.value? id := by
    intro m
    refine linkAll_value (fun general m linked ok other => ?_) d.generals id
    obtain ⟨target?, _, rfl⟩ := linkGeneral_ok_iff.mp ok
    exact value_addFound _ target? other
  have redefinitions : ∀ m : Model, (m.linkAll d.linkRedefinition d.redefinitions).1.value? id = m.value? id := by
    intro m
    refine linkAll_value (fun pending m linked ok other => ?_) d.redefinitions id
    obtain ⟨target, _, rfl⟩ := linkRedefinition_ok_iff.mp ok
    exact value_redefine _ target _ other
  refine (linkAll_value (fun target m linked ok other => ?_) d.abouts id).trans ((redefinitions _).trans (generals _))
  obtain ⟨element, _, rfl⟩ := linkAbout_ok_iff.mp ok
  exact value_addAbout _ element other

end Draft
end StructuralModel
