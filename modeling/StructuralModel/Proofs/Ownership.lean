import StructuralModel.Model.Edit
import StructuralModel.Model.Lookup

/-! Every sequence of building steps leaves a forest: an element stands among the members of its
owner and nowhere else, and members stand in the order in which they were added. -/

namespace StructuralModel.Model

structure Forest (m : Model) : Prop where
  member_iff : ∀ owner id : Nat, id ∈ m.members owner ↔ m.owner? id = some owner
  root_iff : ∀ id : Nat, id ∈ m.roots ↔ id < m.size ∧ m.owner? id = none
  members_ascend : ∀ owner, (m.members owner).Pairwise (· < ·)
  roots_ascend : m.roots.Pairwise (· < ·)

/-- Two models with the same elements at the same places. -/
structure SameTree (m other : Model) : Prop where
  size : other.size = m.size
  roots : other.roots = m.roots
  members : ∀ id, other.members id = m.members id
  owner : ∀ id, other.owner? id = m.owner? id
  name : ∀ id, other.name? id = m.name? id

variable {m : Model}

theorem owner_eq_none {id : Nat} (unknown : m.size ≤ id) : m.owner? id = none := by
  rw [owner?, element_eq_default unknown]
  rfl

theorem lt_of_kind {id : Nat} (kind : m.kind id ≠ .package) : id < m.size := by
  refine Nat.lt_of_not_le fun unknown => kind ?_
  rw [Model.kind, element_eq_default unknown]
  rfl

theorem lt_of_isFeature {id : Nat} (feature : m.isFeature id = true) : id < m.size :=
  lt_of_kind fun package => by simp [isFeature, package, ElementKind.isFeature] at feature

theorem known_eq_some {owner? : Option ElementId} {owner : Nat} :
    m.known? owner? = some owner ↔ owner? = some owner ∧ owner < m.size := by
  simp [known?, Option.filter_eq_some_iff]

namespace SameTree

theorem refl (m : Model) : SameTree m m :=
  ⟨rfl, rfl, fun _ => rfl, fun _ => rfl, fun _ => rfl⟩

theorem trans {first second third : Model} (before : SameTree first second)
    (after : SameTree second third) : SameTree first third where
  size := after.size.trans before.size
  roots := after.roots.trans before.roots
  members id := (after.members id).trans (before.members id)
  owner id := (after.owner id).trans (before.owner id)
  name id := (after.name id).trans (before.name id)

theorem forest {other : Model} (same : SameTree m other) (valid : Forest m) : Forest other where
  member_iff owner id := by
    rw [same.members, same.owner]
    exact valid.member_iff owner id
  root_iff id := by
    rw [same.roots, same.size, same.owner]
    exact valid.root_iff id
  members_ascend owner := by
    rw [same.members]
    exact valid.members_ascend owner
  roots_ascend := by
    rw [same.roots]
    exact valid.roots_ascend

theorem update {id : ElementId} {f : Element → Element} {members_kept owner_kept general_kept}
    (name_kept : ∀ e, (f e).name? = e.name?) :
    SameTree m (m.update id f members_kept owner_kept general_kept) where
  size := size_update
  roots := roots_update
  members other := read_update Element.members members_kept other
  owner other := read_update Element.owner? owner_kept other
  name other := read_update Element.name? name_kept other

theorem setKind (id : ElementId) (kind : ElementKind) : SameTree m (m.setKind id kind) :=
  update fun _ => rfl

theorem addGeneral (id general : ElementId) : SameTree m (m.addGeneral id general) := by
  rw [Model.addGeneral]
  split
  · exact update fun _ => rfl
  · exact refl m

theorem setRedefines (id redefined : ElementId) : SameTree m (m.setRedefines id redefined) := by
  rw [Model.setRedefines]
  split
  · exact update fun _ => rfl
  · exact refl m

end SameTree

/-- Two models with the same elements of the same kinds, joined by the same edges. -/
structure SameGraph (m other : Model) : Prop extends SameTree m other where
  kind : ∀ id, other.kind id = m.kind id
  general : ∀ id, (other.element id).general = (m.element id).general
  redefines : ∀ id, other.redefines? id = m.redefines? id

namespace SameGraph

theorem refl (m : Model) : SameGraph m m :=
  ⟨.refl m, fun _ => rfl, fun _ => rfl, fun _ => rfl⟩

theorem trans {first second third : Model} (before : SameGraph first second)
    (after : SameGraph second third) : SameGraph first third where
  toSameTree := before.toSameTree.trans after.toSameTree
  kind id := (after.kind id).trans (before.kind id)
  general id := (after.general id).trans (before.general id)
  redefines id := (after.redefines id).trans (before.redefines id)

theorem generalTypes {other : Model} (same : SameGraph m other) (id : ElementId) :
    other.generalTypes id = m.generalTypes id := by
  have redefines := same.redefines id
  simp only [redefines?] at redefines
  simp only [Model.generalTypes, Element.generalTypes, same.general, redefines]

theorem update {id : ElementId} {f : Element → Element} {members_kept owner_kept general_kept}
    (same : ∀ e, (f e).name? = e.name? ∧ (f e).kind = e.kind ∧ (f e).general = e.general ∧
      (f e).redefines? = e.redefines?) : SameGraph m (m.update id f members_kept owner_kept general_kept) where
  toSameTree := .update fun e => (same e).1
  kind other := read_update Element.kind (fun e => (same e).2.1) other
  general other := read_update Element.general (fun e => (same e).2.2.1) other
  redefines other := read_update Element.redefines? (fun e => (same e).2.2.2) other

theorem setValue (id : ElementId) (value : Expr) : SameGraph m (m.setValue id value) :=
  update fun _ => ⟨rfl, rfl, rfl, rfl⟩

theorem setMultiplicity (id : ElementId) (count : Nat) : SameGraph m (m.setMultiplicity id count) :=
  update fun _ => ⟨rfl, rfl, rfl, rfl⟩

theorem setBody (id : ElementId) (text : String) : SameGraph m (m.setBody id text) :=
  update fun _ => ⟨rfl, rfl, rfl, rfl⟩

theorem setLocale (id : ElementId) (locale : String) : SameGraph m (m.setLocale id locale) :=
  update fun _ => ⟨rfl, rfl, rfl, rfl⟩

theorem addAbout (comment target : ElementId) : SameGraph m (m.addAbout comment target) := by
  rw [Model.addAbout]
  split
  · exact trans (update (by intro _; exact ⟨rfl, rfl, rfl, rfl⟩)) (update (by intro _; exact ⟨rfl, rfl, rfl, rfl⟩))
  · exact refl m

end SameGraph

section add

variable {owner? : Option ElementId} {kind : ElementKind} {name? : Option String}

theorem members_add (id : Nat) : (m.add owner? kind name?).members id =
    m.members id ++ if m.known? owner? = some id then [m.size] else [] := by
  simp only [members]
  by_cases new : id = m.size
  · subst new
    have unowned : m.known? owner? ≠ some m.size := fun owned => Nat.lt_irrefl _ (known_eq_some.mp owned).2
    rw [element_add_last, if_neg unowned, element_eq_default (Nat.le_refl _)]
    rfl
  · rw [element_add_of_ne new]
    split <;> simp

theorem owner_add (id : Nat) : (m.add owner? kind name?).owner? id =
    if id = m.size then m.known? owner? else m.owner? id := by
  simp only [Model.owner?]
  split
  next new => rw [new, element_add_last]
  next old =>
    rw [element_add_of_ne old]
    split <;> rfl

theorem name_add (id : Nat) : (m.add owner? kind name?).name? id =
    if id = m.size then name? else m.name? id := by
  simp only [Model.name?]
  split
  next new => rw [new, element_add_last]
  next old =>
    rw [element_add_of_ne old]
    split <;> rfl

theorem kind_add (id : Nat) : (m.add owner? kind name?).kind id = if id = m.size then kind else m.kind id := by
  simp only [Model.kind]
  split
  next new => rw [new, element_add_last]
  next old =>
    rw [element_add_of_ne old]
    split <;> rfl

theorem generalTypes_add (id : Nat) : (m.add owner? kind name?).generalTypes id =
    if id = m.size then [] else m.generalTypes id := by
  simp only [Model.generalTypes]
  split
  next new =>
    rw [new, element_add_last]
    rfl
  next old =>
    rw [element_add_of_ne old]
    split <;> rfl

end add

namespace Forest

theorem empty : Forest .empty where
  member_iff owner id := by simp [members, Model.owner?, element, Model.empty, default]
  root_iff id := by simp [Model.empty, size]
  members_ascend owner := by simp [members, element, Model.empty, default]
  roots_ascend := by simp [Model.empty]

theorem owner_known (valid : Forest m) {id owner : Nat} (owned : m.owner? id = some owner) : id < m.size :=
  (lt_of_mem_members ((valid.member_iff owner id).mpr owned)).2

/-- The new element is the youngest, so it stands last among the members of its owner. -/
theorem add (valid : Forest m) (owner? : Option ElementId) (kind : ElementKind) (name? : Option String) :
    Forest (m.add owner? kind name?) := by
  have older : ∀ owner id, id ∈ m.members owner → id < m.size := fun owner id member =>
    (lt_of_mem_members member).2
  constructor
  · intro owner id
    rw [members_add, owner_add, List.mem_append, valid.member_iff]
    by_cases new : id = m.size
    · subst new
      simp [owner_eq_none]
    · have old : id ∉ (if m.known? owner? = some owner then [m.size] else []) := by
        split <;> simp [new]
      simp [new, old]
  · intro id
    rw [roots_add, size_add, owner_add]
    by_cases new : id = m.size
    · subst new
      cases m.known? owner? <;> simp [valid.root_iff]
    · have bound : id < m.size + 1 ↔ id < m.size := by omega
      rw [if_neg new, bound, ← valid.root_iff]
      split <;> simp [new]
  · intro owner
    rw [members_add, List.pairwise_append]
    refine ⟨valid.members_ascend owner, by split <;> simp, ?_⟩
    intro id member last added
    split at added
    · rw [List.mem_singleton.mp added]
      exact older owner id member
    · cases added
  · rw [roots_add]
    split
    · refine List.pairwise_append.mpr ⟨valid.roots_ascend, by simp, ?_⟩
      intro id member last added
      rw [List.mem_singleton.mp added]
      exact ((valid.root_iff id).mp member).1
    · exact valid.roots_ascend

theorem apply (valid : Forest m) (edit : Edit) : Forest (m.apply edit) := by
  cases edit with
  | add owner? kind name? => exact valid.add owner? kind name?
  | setKind id kind => exact (SameTree.setKind id kind).forest valid
  | addGeneral id general => exact (SameTree.addGeneral id general).forest valid
  | setRedefines id redefined => exact (SameTree.setRedefines id redefined).forest valid
  | setValue id value => exact (SameGraph.setValue id value).forest valid
  | setMultiplicity id count => exact (SameGraph.setMultiplicity id count).forest valid
  | setBody id text => exact (SameGraph.setBody id text).forest valid
  | setLocale id locale => exact (SameGraph.setLocale id locale).forest valid
  | addAbout comment target => exact (SameGraph.addAbout comment target).forest valid

theorem ofEdits (edits : List Edit) : Forest (ofEdits edits) := by
  have run : ∀ (edits : List Edit) (m : Model), Forest m → Forest (edits.foldl Model.apply m) := by
    intro edits
    induction edits with
    | nil => exact fun _ valid => valid
    | cons edit rest ih => exact fun m valid => ih _ (valid.apply edit)
  exact run edits _ empty

end Forest

theorem mem_ownedFeatures (valid : Forest m) {owner feature : ElementId} :
    feature ∈ m.ownedFeatures owner ↔ m.isFeature feature = true ∧ m.owner? feature = some owner := by
  rw [ownedFeatures, List.mem_filter, valid.member_iff, and_comm]

/-- No two elements of one namespace have the same name. -/
def DistinctNames (m : Model) : Prop :=
  ∀ owner? first second name, first ∈ m.namespaceMembers owner? → second ∈ m.namespaceMembers owner? →
    m.name? first = some name → m.name? second = some name → first = second

/-- With distinct names, a name denotes the member that has it. -/
theorem child_eq_some_iff (distinct : DistinctNames m) {space? : Option ElementId} {name : String} {id : ElementId} :
    m.child? space? name = some id ↔ id ∈ m.namespaceMembers space? ∧ m.name? id = some name := by
  constructor
  · intro found
    have named : (m.name? id == some name) = true := List.find?_some (p := fun id => m.name? id == some name) found
    exact ⟨List.mem_of_find?_eq_some found, by simpa using named⟩
  · rintro ⟨member, named⟩
    cases found : m.child? space? name with
    | none =>
      have absent := List.find?_eq_none.mp found id member
      simp [named] at absent
    | some first =>
      have own : (m.name? first == some name) = true := List.find?_some (p := fun id => m.name? id == some name) found
      exact congrArg some
        (distinct space? first id name (List.mem_of_find?_eq_some found) member (by simpa using own) named)

theorem SameTree.namespaceMembers {other : Model} (same : SameTree m other) (owner? : Option ElementId) :
    other.namespaceMembers owner? = m.namespaceMembers owner? := by
  cases owner? with
  | none => exact same.roots
  | some owner => exact same.members owner

theorem SameTree.distinctNames {other : Model} (same : SameTree m other) (distinct : DistinctNames m) :
    DistinctNames other := by
  intro owner? first second name
  rw [same.namespaceMembers, same.name, same.name]
  exact distinct owner? first second name

theorem Forest.rooted (valid : Forest m) : ∀ root ∈ m.roots, (root : Nat) < m.size :=
  fun root member => ((valid.root_iff root).mp member).1

theorem lt_of_feature {scope found : Nat} {name : String} (feature : m.feature? scope name = some found) :
    found < m.size := by
  obtain ⟨ancestor, _, own⟩ := List.exists_of_findSome?_eq_some feature
  exact (lt_of_mem_members (List.mem_filter.mp (List.mem_of_find?_eq_some own)).1).2

section lookup

variable (rooted : ∀ root ∈ m.roots, (root : Nat) < m.size)
include rooted

theorem lt_of_mem_namespaceMembers {owner? : Option ElementId} {id : Nat} (member : id ∈ m.namespaceMembers owner?) :
    id < m.size := by
  cases owner? with
  | none => exact rooted id member
  | some owner => exact (lt_of_mem_members member).2

theorem lt_of_child {space? : Option ElementId} {name : String} {found : Nat}
    (child : m.child? space? name = some found) : found < m.size :=
  lt_of_mem_namespaceMembers rooted (List.mem_of_find?_eq_some child)

theorem lt_of_descend {id found : Nat} {name : String} (down : m.descend? id name = some found) : found < m.size := by
  cases child : m.child? (some id) name with
  | some member =>
    rw [descend?, child] at down
    exact lt_of_child rooted (child.trans down)
  | none =>
    rw [descend?, child] at down
    exact lt_of_feature down

theorem lt_of_foldlM_descend {segments : List String} {id found : Nat} (known : id < m.size)
    (down : segments.foldlM m.descend? id = some found) : found < m.size := by
  induction segments generalizing id with
  | nil => exact Option.some.inj down ▸ known
  | cons name rest ih =>
    obtain ⟨next, first, down⟩ := Option.bind_eq_some_iff.mp down
    exact ih (lt_of_descend rooted first) down

/-- A name denotes an element that the model has. -/
theorem lt_of_resolvePath {start? : Option ElementId} {segments : List String} {found : Nat}
    (resolved : m.resolvePath? start? segments = some found) : found < m.size := by
  cases segments with
  | nil => cases resolved
  | cons first rest =>
    obtain ⟨id, start, down⟩ := Option.bind_eq_some_iff.mp resolved
    obtain ⟨space?, _, child⟩ := List.exists_of_findSome?_eq_some start
    exact lt_of_foldlM_descend rooted (lt_of_child rooted child) down

end lookup

theorem mem_namespaceMembers_add {owner? space? : Option ElementId} {kind : ElementKind} {name? : Option String}
    (known : m.known? owner? = owner?) {id : Nat}
    (member : id ∈ (m.add owner? kind name?).namespaceMembers space?) :
    id ∈ m.namespaceMembers space? ∨ id = m.size ∧ space? = owner? := by
  cases space? with
  | none =>
    rw [namespaceMembers, roots_add, known] at member
    split at member
    next root =>
      rcases List.mem_append.mp member with old | new
      · exact .inl old
      · exact .inr ⟨List.mem_singleton.mp new, (Option.isNone_iff_eq_none.mp root).symm⟩
    next => exact .inl member
  | some space =>
    rw [namespaceMembers, members_add, known] at member
    rcases List.mem_append.mp member with old | new
    · exact .inl old
    · split at new
      next same => exact .inr ⟨List.mem_singleton.mp new, same.symm⟩
      next => cases new

theorem DistinctNames.empty : DistinctNames .empty := by
  intro owner? first second name member
  cases owner? with
  | none => cases member
  | some owner => simp [namespaceMembers, members, element, Model.empty, default] at member

/-- A name that the owner does not have yet can be added to it. -/
theorem DistinctNames.add (distinct : DistinctNames m) (valid : Forest m) {owner? : Option ElementId}
    {kind : ElementKind} {name? : Option String} (known : m.known? owner? = owner?)
    (fresh : ∀ name, name? = some name → m.child? owner? name = none) :
    DistinctNames (m.add owner? kind name?) := by
  have absent : ∀ id ∈ m.namespaceMembers owner?, ∀ name, name? = some name → m.name? id ≠ some name := by
    intro id member name own named
    have missing := List.find?_eq_none.mp (fresh name own) id member
    simp [named] at missing
  intro space? first second name firstMember secondMember firstNamed secondNamed
  rw [name_add] at firstNamed secondNamed
  rcases mem_namespaceMembers_add known firstMember with firstOld | ⟨rfl, rfl⟩ <;>
    rcases mem_namespaceMembers_add known secondMember with secondOld | ⟨rfl, same⟩
  · rw [if_neg (Nat.ne_of_lt (lt_of_mem_namespaceMembers valid.rooted firstOld))] at firstNamed
    rw [if_neg (Nat.ne_of_lt (lt_of_mem_namespaceMembers valid.rooted secondOld))] at secondNamed
    exact distinct space? first second name firstOld secondOld firstNamed secondNamed
  · rw [if_neg (Nat.ne_of_lt (lt_of_mem_namespaceMembers valid.rooted firstOld))] at firstNamed
    rw [if_pos rfl] at secondNamed
    exact absurd firstNamed (absent first (same ▸ firstOld) name secondNamed)
  · rw [if_pos rfl] at firstNamed
    rw [if_neg (Nat.ne_of_lt (lt_of_mem_namespaceMembers valid.rooted secondOld))] at secondNamed
    exact absurd secondNamed (absent second secondOld name firstNamed)
  · rfl

end StructuralModel.Model
