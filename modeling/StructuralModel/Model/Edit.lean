import StructuralModel.Model.Basic

/-! Building a model step by step. A step that names an element the model does not have changes
nothing, so every sequence of steps leads to a model. -/

namespace StructuralModel.Model

/-- Replaces an element by one with the same place in the ownership tree. -/
def update (m : Model) (id : ElementId) (f : Element → Element)
    (members_kept : ∀ e, (f e).members = e.members) (owner_kept : ∀ e, (f e).owner? = e.owner?)
    (general_kept : ∀ e, ∀ general : Nat, general ∈ (f e).generalTypes →
      general ∈ e.generalTypes ∨ general < m.size) :
    Model where
  elements := m.elements.modify id f
  roots := m.roots
  members_younger other known member owned := by
    rw [Array.size_modify] at known ⊢
    rw [Array.getElem_modify] at owned
    split at owned
    · rw [members_kept] at owned
      exact m.members_younger other known member owned
    · exact m.members_younger other known member owned
  owner_older other known owner owned := by
    rw [Array.size_modify] at known
    rw [Array.getElem_modify] at owned
    split at owned
    · rw [owner_kept] at owned
      exact m.owner_older other known owner owned
    · exact m.owner_older other known owner owned
  general_known other known general edge := by
    rw [Array.size_modify] at known ⊢
    rw [Array.getElem_modify] at edge
    split at edge
    · rcases general_kept _ general edge with old | new
      · exact m.general_known other known general old
      · exact new
    · exact m.general_known other known general edge

section update

variable {m : Model} {id : ElementId} {f : Element → Element}
  {members_kept : ∀ e, (f e).members = e.members} {owner_kept : ∀ e, (f e).owner? = e.owner?}
  {general_kept : ∀ e, ∀ general : Nat, general ∈ (f e).generalTypes →
    general ∈ e.generalTypes ∨ general < m.size}

@[simp] theorem size_update : (m.update id f members_kept owner_kept general_kept).size = m.size := by
  simp [size, update]

@[simp] theorem roots_update : (m.update id f members_kept owner_kept general_kept).roots = m.roots := rfl

theorem element_update (other : Nat) :
    (m.update id f members_kept owner_kept general_kept).element other =
      if id = other ∧ other < m.size then f (m.element other) else m.element other := by
  by_cases known : other < m.size
  · have inside : other < (m.update id f members_kept owner_kept general_kept).elements.size := by
      simpa [size, update] using known
    rw [element_eq inside, element_eq known]
    by_cases same : id = other
    · simp only [update, Array.getElem_modify, known, same, and_self, if_true]
      rfl
    · simp only [update, Array.getElem_modify, same, false_and, if_false]
      rfl
  · rw [element_eq_default (by simpa using known), element_eq_default (Nat.le_of_not_lt known)]
    simp [known]

/-- What no update of an element changes is the same everywhere. -/
theorem read_update {α : Type} (read : Element → α) (kept : ∀ e, read (f e) = read e) (other : Nat) :
    read ((m.update id f members_kept owner_kept general_kept).element other) = read (m.element other) := by
  rw [element_update]
  split
  · exact kept _
  · rfl

end update

/-- The elements with one more, listed as a member of its owner. -/
private def extend (elements : Array Element) (owner? : Option ElementId) (added : Element) :
    Array Element :=
  match owner? with
  | none => elements.push added
  | some owner =>
    (elements.modify owner fun e => { e with members := e.members ++ [elements.size] }).push added

private theorem size_extend (elements : Array Element) (owner? : Option ElementId) (added : Element) :
    (extend elements owner? added).size = elements.size + 1 := by
  cases owner? <;> simp [extend]

private theorem getElem_extend_last {elements : Array Element} {owner? : Option ElementId}
    {added : Element} (known : elements.size < (extend elements owner? added).size) :
    (extend elements owner? added)[elements.size] = added := by
  cases owner? with
  | none => simp [extend]
  | some owner => simp [extend, Array.getElem_push]

private theorem getElem_extend_old {elements : Array Element} {owner? : Option ElementId}
    {added : Element} {id : Nat} (known : id < (extend elements owner? added).size)
    (old : id < elements.size) :
    (extend elements owner? added)[id] =
      if owner? = some id then { elements[id] with members := elements[id].members ++ [elements.size] }
      else elements[id] := by
  cases owner? with
  | none => simp [extend, Array.getElem_push_lt, old]
  | some owner =>
    simp only [extend, Array.getElem_push, Array.size_modify, old, ↓reduceDIte,
      Array.getElem_modify, Option.some.injEq]

private theorem getElem_extend {elements : Array Element} {owner? : Option ElementId}
    {added : Element} {id : Nat} (known : id < (extend elements owner? added).size) :
    (∃ old : id < elements.size,
      (extend elements owner? added)[id].members =
        elements[id].members ++ (if owner? = some id then [elements.size] else []) ∧
      (extend elements owner? added)[id].owner? = elements[id].owner? ∧
      (extend elements owner? added)[id].generalTypes = elements[id].generalTypes) ∨
    id = elements.size ∧ (extend elements owner? added)[id] = added := by
  by_cases old : id < elements.size
  · refine .inl ⟨old, ?_⟩
    rw [getElem_extend_old known old]
    split <;> simp [Element.generalTypes]
  · refine .inr ?_
    rw [size_extend] at known
    have last : id = elements.size := by omega
    subst last
    exact ⟨rfl, getElem_extend_last _⟩

/-- The owner, if the model has it. -/
def known? (m : Model) (owner? : Option ElementId) : Option ElementId :=
  owner?.filter fun owner => decide (owner < m.size)

private theorem lt_of_mem_known {m : Model} {owner? : Option Nat} {owner : Nat}
    (member : m.known? owner? = some owner) : owner < m.size := by
  simp only [known?, Option.filter_eq_some_iff, decide_eq_true_eq] at member
  exact member.2

/-- Adds an element without members or edges; its position is the size of the model so far. An
unknown owner makes it a root. -/
def add (m : Model) (owner? : Option ElementId) (kind : ElementKind) (name? : Option String) : Model :=
  let owner? := m.known? owner?
  let segment := name?.getD (QualifiedName.anonymous m.size)
  let path := match owner? with
    | some owner => QualifiedName.join (m.path owner) segment
    | none => segment
  { elements := extend m.elements owner? { kind, name?, path, owner? }
    roots := if owner?.isNone then m.roots ++ [m.size] else m.roots
    members_younger := by
      intro id known member owned
      rw [size_extend]
      rcases getElem_extend known with ⟨old, members, _, _⟩ | ⟨_, new⟩
      · rw [members, List.mem_append] at owned
        rcases owned with owned | owned
        · have bounds := m.members_younger id old member owned
          omega
        · split at owned
          · simp only [List.mem_singleton] at owned
            omega
          · simp at owned
      · rw [new] at owned
        simp at owned
    owner_older := by
      intro id known owner owned
      rcases getElem_extend known with ⟨old, _, same, _⟩ | ⟨last, new⟩
      · rw [same] at owned
        exact m.owner_older id old owner owned
      · rw [new] at owned
        rw [last]
        exact lt_of_mem_known owned
    general_known := by
      intro id known general edge
      rw [size_extend]
      rcases getElem_extend known with ⟨old, _, _, same⟩ | ⟨_, new⟩
      · rw [same] at edge
        have bound := m.general_known id old general edge
        omega
      · rw [new] at edge
        simp [Element.generalTypes] at edge }

section add

variable {m : Model} {owner? : Option ElementId} {kind : ElementKind} {name? : Option String}

@[simp] theorem size_add : (m.add owner? kind name?).size = m.size + 1 := by
  simp [size, add, size_extend]

theorem roots_add : (m.add owner? kind name?).roots =
    if (m.known? owner?).isNone then m.roots ++ [m.size] else m.roots := rfl

theorem element_add_last : (m.add owner? kind name?).element m.size =
    { kind, name?, owner? := m.known? owner?
      path := match m.known? owner? with
        | some owner => QualifiedName.join (m.path owner) (name?.getD (QualifiedName.anonymous m.size))
        | none => name?.getD (QualifiedName.anonymous m.size) } := by
  have inside : m.size < (m.add owner? kind name?).elements.size := by
    simp only [add, size_extend]
    exact Nat.lt_succ_self _
  rw [element_eq inside]
  exact getElem_extend_last _

theorem element_add_of_ne {other : Nat} (old : other ≠ m.size) :
    (m.add owner? kind name?).element other =
      if m.known? owner? = some other then
        { m.element other with members := (m.element other).members ++ [m.size] }
      else m.element other := by
  by_cases known : other < m.size
  · have inside : other < (m.add owner? kind name?).elements.size := by
      simp only [add, size_extend]
      exact Nat.lt_succ_of_lt known
    rw [element_eq inside, element_eq known]
    exact getElem_extend_old _ known
  · have unowned : m.known? owner? ≠ some other := fun owned => known (lt_of_mem_known owned)
    have outside : (m.add owner? kind name?).size ≤ other := by
      rw [size_add]
      omega
    rw [if_neg unowned, element_eq_default outside, element_eq_default (Nat.le_of_not_lt known)]

end add

def setKind (m : Model) (id : ElementId) (kind : ElementKind) : Model :=
  m.update id (fun e => { e with kind }) (by simp) (by simp) (by simp +contextual [Element.generalTypes])

def setValue (m : Model) (id : ElementId) (value : Expr) : Model :=
  m.update id (fun e => { e with value? := some value }) (by simp) (by simp)
    (by simp +contextual [Element.generalTypes])

def setMultiplicity (m : Model) (id : ElementId) (count : Nat) : Model :=
  m.update id (fun e => { e with multiplicity? := some count }) (by simp) (by simp)
    (by simp +contextual [Element.generalTypes])

def setBody (m : Model) (id : ElementId) (text : String) : Model :=
  m.update id (fun e => { e with body? := some text }) (by simp) (by simp)
    (by simp +contextual [Element.generalTypes])

def setLocale (m : Model) (id : ElementId) (locale : String) : Model :=
  m.update id (fun e => { e with locale? := some locale }) (by simp) (by simp)
    (by simp +contextual [Element.generalTypes])

def addGeneral (m : Model) (id general : ElementId) : Model :=
  if known : general < m.size then
    m.update id (fun e => { e with general := e.general ++ [general] }) (by simp) (by simp) (by
      intro e other edge
      simp only [Element.generalTypes, List.mem_append, List.mem_singleton] at edge ⊢
      rcases edge with (old | rfl) | old
      · exact .inl (.inl old)
      · exact .inr known
      · exact .inl (.inr old))
  else m

def setRedefines (m : Model) (id redefined : ElementId) : Model :=
  if known : redefined < m.size then
    m.update id (fun e => { e with redefines? := some redefined }) (by simp) (by simp) (by
      intro e other edge
      simp only [Element.generalTypes, List.mem_append, Option.toList_some, List.mem_singleton] at edge ⊢
      rcases edge with old | rfl
      · exact .inl (.inl old)
      · exact .inr known)
  else m

section edges

variable {m : Model} {id : ElementId}

theorem element_setKind (kind : ElementKind) (other : Nat) : (m.setKind id kind).element other =
    if id = other ∧ other < m.size then { m.element other with kind } else m.element other :=
  element_update other

theorem element_setValue (value : Expr) (other : Nat) : (m.setValue id value).element other =
    if id = other ∧ other < m.size then { m.element other with value? := some value } else m.element other :=
  element_update other

theorem element_setMultiplicity (count : Nat) (other : Nat) : (m.setMultiplicity id count).element other =
    if id = other ∧ other < m.size then { m.element other with multiplicity? := some count } else m.element other :=
  element_update other

theorem element_setBody (text : String) (other : Nat) : (m.setBody id text).element other =
    if id = other ∧ other < m.size then { m.element other with body? := some text } else m.element other :=
  element_update other

theorem element_setLocale (locale : String) (other : Nat) : (m.setLocale id locale).element other =
    if id = other ∧ other < m.size then { m.element other with locale? := some locale } else m.element other :=
  element_update other

theorem element_addGeneral (general : ElementId) (other : Nat) : (m.addGeneral id general).element other =
    if id = other ∧ other < m.size ∧ general < m.size then
      { m.element other with general := (m.element other).general ++ [general] }
    else m.element other := by
  rw [addGeneral]
  split
  next known => simp only [element_update, known, and_true]
  next unknown => simp only [unknown, and_false, if_false]

theorem element_setRedefines (redefined : ElementId) (other : Nat) : (m.setRedefines id redefined).element other =
    if id = other ∧ other < m.size ∧ redefined < m.size then
      { m.element other with redefines? := some redefined }
    else m.element other := by
  rw [setRedefines]
  split
  next known => simp only [element_update, known, and_true]
  next unknown => simp only [unknown, and_false, if_false]

end edges

/-- Records on both ends that a comment refers to an element. -/
def addAbout (m : Model) (comment target : ElementId) : Model :=
  if comment < m.size ∧ target < m.size then
    (m.update comment (fun e => { e with about := e.about ++ [target] }) (by simp) (by simp)
      (by simp +contextual [Element.generalTypes])).update target
        (fun e => { e with annotatedBy := e.annotatedBy ++ [comment] }) (by simp) (by simp)
        (by simp +contextual [Element.generalTypes])
  else m

/-- The two ends can be the same element. -/
theorem element_addAbout {m : Model} (comment target : ElementId) (other : Nat) :
    (m.addAbout comment target).element other =
      if comment < m.size ∧ target < m.size then
        { m.element other with
          about := (m.element other).about ++ if comment = other then [target] else []
          annotatedBy := (m.element other).annotatedBy ++ if target = other then [comment] else [] }
      else m.element other := by
  rw [addAbout]
  split
  next known =>
    refine (element_update (f := fun e => { e with annotatedBy := e.annotatedBy ++ [comment] }) other).trans ?_
    have size := @size_update m comment (fun e => { e with about := e.about ++ [target] }) (by simp) (by simp)
      (by simp +contextual [Element.generalTypes])
    have referring := @element_update m comment (fun e => { e with about := e.about ++ [target] }) (by simp) (by simp)
      (by simp +contextual [Element.generalTypes]) other
    rw [size, referring]
    by_cases source : comment = other <;> by_cases reached : target = other <;> simp_all
  next => rfl

inductive Edit
  | add (owner? : Option ElementId) (kind : ElementKind) (name? : Option String)
  | setKind (id : ElementId) (kind : ElementKind)
  | addGeneral (id general : ElementId)
  | setRedefines (id redefined : ElementId)
  | setValue (id : ElementId) (value : Expr)
  | setMultiplicity (id : ElementId) (count : Nat)
  | setBody (id : ElementId) (text : String)
  | setLocale (id : ElementId) (locale : String)
  | addAbout (comment target : ElementId)

def apply (m : Model) : Edit → Model
  | .add owner? kind name? => m.add owner? kind name?
  | .setKind id kind => m.setKind id kind
  | .addGeneral id general => m.addGeneral id general
  | .setRedefines id redefined => m.setRedefines id redefined
  | .setValue id value => m.setValue id value
  | .setMultiplicity id count => m.setMultiplicity id count
  | .setBody id text => m.setBody id text
  | .setLocale id locale => m.setLocale id locale
  | .addAbout comment target => m.addAbout comment target

def ofEdits (edits : List Edit) : Model :=
  edits.foldl apply empty

end StructuralModel.Model
