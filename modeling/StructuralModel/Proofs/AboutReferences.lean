import StructuralModel.Proofs.BuildingSteps
import StructuralModel.Proofs.DeclarationOrder

/-! References from comments to elements. A building step records each on both of its ends, so both tell the same
references, and each end has them in the order in which they were added. -/

namespace StructuralModel

namespace Model

/-- A comment and an element that it is about. -/
structure Reference where
  comment : ElementId
  target : ElementId
deriving DecidableEq

/-- What the comment refers to. -/
def targetsOf (references : List Reference) (comment : ElementId) : List ElementId :=
  (references.filter fun reference => reference.comment = comment).map (·.target)

/-- What refers to the element. -/
def referrers (references : List Reference) (target : ElementId) : List ElementId :=
  (references.filter fun reference => reference.target = target).map (·.comment)

/-- The reference that a building step adds. -/
def addedReferences (m : Model) : Edit → List Reference
  | .addAbout comment target => if comment < m.size ∧ target < m.size then [⟨comment, target⟩] else []
  | _ => []

/-- The references that building steps add, in the order of the steps. -/
def referencesFrom (m : Model) : List Edit → List Reference
  | [] => []
  | edit :: rest => m.addedReferences edit ++ (m.apply edit).referencesFrom rest

def referencesOf (edits : List Edit) : List Reference :=
  empty.referencesFrom edits

/-- The references of a model, as its elements have them. -/
structure Records (m : Model) (references : List Reference) : Prop where
  about : ∀ id, (m.element id).about = targetsOf references id
  annotatedBy : ∀ id, (m.element id).annotatedBy = referrers references id

variable {m other : Model} {references more : List Reference} {comment target : ElementId}

theorem targetsOf_cons (reference : Reference) (rest : List Reference) (id : ElementId) :
    targetsOf (reference :: rest) id =
      (if reference.comment = id then [reference.target] else []) ++ targetsOf rest id := by
  rw [targetsOf, List.filter_cons]
  by_cases here : reference.comment = id <;> simp [here, targetsOf]

theorem targetsOf_append (references more : List Reference) (id : ElementId) :
    targetsOf (references ++ more) id = targetsOf references id ++ targetsOf more id := by
  simp [targetsOf]

theorem referrers_append (references more : List Reference) (id : ElementId) :
    referrers (references ++ more) id = referrers references id ++ referrers more id := by
  simp [referrers]

/-- An end that is read from the references of the other end is there once for each reference between the two. -/
theorem count_map_filter {read : Reference → ElementId} {keep : Reference → Bool} {id : ElementId} {reference : Reference}
    (only : ∀ other, read other = id ∧ keep other ↔ other = reference) :
    ((references.filter keep).map read).count id = references.count reference := by
  rw [List.count, List.countP_map, List.countP_filter, List.count]
  refine List.countP_congr fun other _ => ?_
  simpa using only other

theorem count_targetsOf : (targetsOf references comment).count target = references.count ⟨comment, target⟩ :=
  count_map_filter fun ⟨_, _⟩ => by simp [and_comm]

theorem count_referrers : (referrers references target).count comment = references.count ⟨comment, target⟩ :=
  count_map_filter fun ⟨_, _⟩ => by simp

theorem mem_referrers : comment ∈ referrers references target ↔ target ∈ targetsOf references comment := by
  rw [← List.count_pos_iff, count_referrers, ← count_targetsOf, List.count_pos_iff]

/-- The elements of the second model have the references they have in the first. -/
structure SameReferences (m other : Model) : Prop where
  about : ∀ id, (other.element id).about = (m.element id).about
  annotatedBy : ∀ id, (other.element id).annotatedBy = (m.element id).annotatedBy

namespace SameReferences

theorem refl (m : Model) : SameReferences m m :=
  ⟨fun _ => rfl, fun _ => rfl⟩

theorem update {id : ElementId} {f : Element → Element} {members_kept owner_kept general_kept}
    (kept : ∀ e, (f e).about = e.about ∧ (f e).annotatedBy = e.annotatedBy) :
    SameReferences m (m.update id f members_kept owner_kept general_kept) where
  about other := read_update Element.about (fun e => (kept e).1) other
  annotatedBy other := read_update Element.annotatedBy (fun e => (kept e).2) other

theorem add (owner? : Option ElementId) (kind : ElementKind) (name? : Option String) :
    SameReferences m (m.add owner? kind name?) := by
  have same : ∀ id : Nat, ((m.add owner? kind name?).element id).about = (m.element id).about ∧
      ((m.add owner? kind name?).element id).annotatedBy = (m.element id).annotatedBy := by
    intro id
    by_cases new : id = m.size
    · subst new
      rw [element_add_last, element_eq_default (Nat.le_refl _)]
      exact ⟨rfl, rfl⟩
    · rw [element_add_of_ne new]
      split <;> exact ⟨rfl, rfl⟩
  exact ⟨fun id => (same id).1, fun id => (same id).2⟩

theorem apply (edit : Edit) (plain : edit.Plain) : SameReferences m (m.apply edit) := by
  cases edit with
  | add owner? kind name? => exact add owner? kind name?
  | setKind id kind => exact (update fun _ => ⟨rfl, rfl⟩ : SameReferences m (m.setKind id kind))
  | addGeneral id general =>
    rw [Model.apply, Model.addGeneral]
    split
    · exact update fun _ => ⟨rfl, rfl⟩
    · exact refl m
  | setRedefines id redefined =>
    rw [Model.apply, Model.setRedefines]
    split
    · exact update fun _ => ⟨rfl, rfl⟩
    · exact refl m
  | setValue id value => exact (update fun _ => ⟨rfl, rfl⟩ : SameReferences m (m.setValue id value))
  | setMultiplicity id count => exact (update fun _ => ⟨rfl, rfl⟩ : SameReferences m (m.setMultiplicity id count))
  | setBody id text => exact (update fun _ => ⟨rfl, rfl⟩ : SameReferences m (m.setBody id text))
  | setLocale id locale => exact (update fun _ => ⟨rfl, rfl⟩ : SameReferences m (m.setLocale id locale))
  | addAbout comment target => exact plain.elim

end SameReferences

namespace Records

theorem empty : Records .empty [] where
  about id := by simp [element, Model.empty, default, targetsOf]
  annotatedBy id := by simp [element, Model.empty, default, referrers]

theorem of_same (records : Records m references) (same : SameReferences m other) : Records other references where
  about id := (same.about id).trans (records.about id)
  annotatedBy id := (same.annotatedBy id).trans (records.annotatedBy id)

/-- A reference that is added comes last on both of its ends. -/
theorem addAbout (records : Records m references) (comment target : ElementId) :
    Records (m.addAbout comment target) (references ++ m.addedReferences (.addAbout comment target)) where
  about id := by
    rw [element_addAbout, targetsOf_append, ← records.about, addedReferences]
    split
    · by_cases here : comment = id <;> simp [targetsOf, here]
    · simp [targetsOf]
  annotatedBy id := by
    rw [element_addAbout, referrers_append, ← records.annotatedBy, addedReferences]
    split
    · by_cases here : target = id <;> simp [referrers, here]
    · simp [referrers]

theorem apply (records : Records m references) (edit : Edit) :
    Records (m.apply edit) (references ++ m.addedReferences edit) := by
  cases edit with
  | addAbout comment target => exact records.addAbout comment target
  | _ =>
    rw [show m.addedReferences _ = [] from rfl, List.append_nil]
    exact records.of_same (.apply _ trivial)

theorem run (records : Records m references) (edits : List Edit) :
    Records (edits.foldl Model.apply m) (references ++ m.referencesFrom edits) := by
  induction edits generalizing m references with
  | nil => simpa [referencesFrom] using records
  | cons edit rest ih =>
    rw [referencesFrom, ← List.append_assoc, List.foldl_cons]
    exact ih (records.apply edit)

/-- An end has a reference as often as the other end has it. -/
theorem count_annotatedBy (records : Records m references) (comment target : ElementId) :
    (m.element target).annotatedBy.count comment = (m.element comment).about.count target := by
  rw [records.annotatedBy, records.about, count_referrers, count_targetsOf]

end Records

theorem records_ofEdits (edits : List Edit) : Records (ofEdits edits) (referencesOf edits) :=
  Records.empty.run edits

theorem Records.of_plain (records : Records m references) (built : BuiltFrom Edit.Plain m other) :
    Records other references :=
  @BuiltFrom.keeps Edit.Plain m other (Records · references)
    (fun _ edit plain before => before.of_same (.apply edit plain)) built records

/-- The reference that a name after the word `about` stands for. -/
def reference? (m : Model) (target : PendingName Path) : Option Reference :=
  (m.resolvePath? (m.owner? target.element) target.name.value.segments).map (⟨target.element, ·⟩)

/-- The names that wait for a comment tell what it refers to, in their order. -/
theorem targetsOf_filterMap {targets : List (PendingName Path)}
    (resolved : ∀ target ∈ targets, (m.reference? target).isSome) (comment : ElementId) :
    (targetsOf (targets.filterMap m.reference?) comment).map some =
      (Draft.waitingFor targets (·.element) (·.name.value) comment).map fun path =>
        m.resolvePath? (m.owner? comment) path.segments := by
  induction targets with
  | nil => rfl
  | cons target rest ih =>
    obtain ⟨here, later⟩ := List.forall_mem_cons.mp resolved
    obtain ⟨made, same⟩ := Option.isSome_iff_exists.mp here
    obtain ⟨element, found, rfl⟩ := Option.map_eq_some_iff.mp same
    rw [List.filterMap_cons_some same, targetsOf_cons, Draft.waitingFor_cons, List.map_append, List.map_append,
      ih later]
    congr 1
    by_cases here : target.element = comment
    · subst here
      simp [found]
    · simp [here]

theorem SameGraph.reference? (same : SameGraph m other) : other.reference? = m.reference? := by
  funext target
  rw [Model.reference?, Model.reference?, same.owner, same.resolvePath]

/-- The last pass adds a reference for each name that denotes an element, in the order of the names. -/
theorem Records.linkAll (records : Records m references) (rooted : ∀ root ∈ m.roots, (root : Nat) < m.size)
    {targets : List (PendingName Path)} (known : ∀ target ∈ targets, (target.element : Nat) < m.size) :
    Records (m.linkAll Draft.linkAbout targets).1 (references ++ targets.filterMap m.reference?) := by
  induction targets generalizing m references with
  | nil => simpa [Model.linkAll] using records
  | cons target rest ih =>
    obtain ⟨here, later⟩ := List.forall_mem_cons.mp known
    cases found : m.resolvePath? (m.owner? target.element) target.name.value.segments with
    | none =>
      have missing : m.reference? target = none := by rw [reference?, found]; rfl
      rw [Model.linkAll, Draft.linkAbout, found, List.filterMap_cons_none missing]
      exact ih records rooted later
    | some element =>
      have made : m.reference? target = some ⟨target.element, element⟩ := by rw [reference?, found]; rfl
      have same : SameGraph m (m.addAbout target.element element) := .addAbout _ _
      have added := records.addAbout target.element element
      rw [addedReferences, if_pos ⟨here, lt_of_resolvePath rooted found⟩] at added
      rw [Model.linkAll, Draft.linkAbout, found, List.filterMap_cons_some made, ← same.reference?, List.append_cons]
      refine ih added ?_ ?_
      · rw [same.roots, same.size]
        exact rooted
      · rw [same.size]
        exact later

end Model

namespace Draft
open Model

/-- The references of the comments that a draft declares. -/
def references (d : Draft) (m : Model) : List Reference :=
  d.abouts.filterMap m.reference?

end Draft

namespace LoadedModel
open Model

variable {declarations : List Declaration} {loaded : LoadedModel}

/-- A model that loads has the references that its comments are declared with, and each name stands for one. -/
theorem records_of_ofDeclarations (loads : ofDeclarations declarations = .ok loaded) :
    Records loaded.model ((Draft.ofDeclarations declarations).references loaded.model) ∧
      ∀ target ∈ (Draft.ofDeclarations declarations).abouts, (loaded.model.reference? target).isSome := by
  obtain ⟨_, clean, _⟩ := (loads_iff declarations).mp ⟨loaded, loads⟩
  have bounded := (Draft.laysOut_ofDeclarations declarations).bounded
  have same := (Draft.linking_linked (Draft.ready_ofDeclarations declarations)).more
  have valid := forest_of_ofDeclarations loads
  have built := (Draft.built_ofDeclarations declarations).trans (Draft.built_redefined _)
  rw [(ofDeclarations_ok loads).1] at valid ⊢
  generalize Draft.ofDeclarations declarations = d at *
  obtain ⟨graph, resolved⟩ := Draft.linked_spec d
  have records : Records d.completed [] := Records.empty.of_plain built
  constructor
  · rw [Draft.references, graph.reference?]
    refine records.linkAll ?_ ?_
    · rw [← graph.roots, ← graph.size]
      exact valid.rooted
    · rw [← graph.size, same.size]
      exact Draft.known_abouts bounded
  · intro target member
    rw [graph.reference?, reference?, Option.isSome_map]
    exact (resolved.mp clean).2.2 target member

/-- What a comment refers to is what the names after its word `about` denote. -/
theorem about_of_ofDeclarations (loads : ofDeclarations declarations = .ok loaded) (comment : ElementId) :
    (loaded.model.element comment).about.map some = ((Draft.ofDeclarations declarations).awaited comment).abouts.map
      fun path => loaded.model.resolvePath? (loaded.model.owner? comment) path.segments := by
  obtain ⟨records, resolved⟩ := records_of_ofDeclarations loads
  rw [records.about]
  exact targetsOf_filterMap resolved comment

end LoadedModel
end StructuralModel
