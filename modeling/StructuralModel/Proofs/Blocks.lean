import StructuralModel.Proofs.Declaring

/-! What a top-level declaration adds to a draft. It is the same block of elements wherever in the document
the declaration stands, moved behind the elements that are there already. -/

namespace StructuralModel
open Model

/-- The same value, wherever it stands. -/
def Spanned.unplaced {α : Type} (s : Spanned α) : Spanned α := ⟨s.value, .atStart⟩

def UsageHeader.unplaced (header : UsageHeader) : UsageHeader where
  name? := header.name?.map (·.unplaced)
  redefines? := header.redefines?.map (·.unplaced)
  types := header.types.map (·.unplaced)
  multiplicity? := header.multiplicity?.map (·.unplaced)
  subsets := header.subsets.map (·.unplaced)
  value? := header.value?.map (·.unplaced)

namespace Declaration

mutual

/-- The declaration without the places of its names and values in the source. -/
def unplaced : Declaration → Declaration
  | .package name members => .package name.unplaced (unplacedAll members)
  | .definition kind name generals members =>
    .definition kind name.unplaced (generals.map (·.unplaced)) (unplacedAll members)
  | .usage kind header members => .usage kind header.unplaced (unplacedAll members)
  | .enumerationLiteral name => .enumerationLiteral name.unplaced
  | .comment name? about body => .comment (name?.map (·.unplaced)) (about.map (·.unplaced)) body.unplaced
  | .documentation locale? body => .documentation (locale?.map (·.unplaced)) body.unplaced
  | .importing name => .importing name.unplaced

def unplacedAll : List Declaration → List Declaration
  | [] => []
  | declaration :: rest => declaration.unplaced :: unplacedAll rest

end

/-- The name that the declared element has in its namespace. -/
def name? : Declaration → Option String
  | .package name _ | .definition _ name _ _ | .enumerationLiteral name => some name.value
  | .usage _ header _ => header.declaredName?.map (·.value)
  | .comment name? _ _ => name?.map (·.value)
  | .documentation _ _ | .importing _ => none

end Declaration

/-- The names that an element waits for. -/
structure Awaited where
  generals : List Path
  /-- Each with whether the feature takes the kind of what it redefines. -/
  redefinitions : List (String × Bool)
  abouts : List Path

namespace Awaited

def none : Awaited := ⟨[], [], []⟩

def append (first second : Awaited) : Awaited :=
  ⟨first.generals ++ second.generals, first.redefinitions ++ second.redefinitions, first.abouts ++ second.abouts⟩

end Awaited

/-- What a draft says of an element. -/
structure Entry where
  kind : ElementKind
  name? : Option String
  owner? : Option ElementId
  members : List ElementId
  awaited : Awaited

namespace Entry

def blank : Entry := ⟨.package, Option.none, Option.none, [], .none⟩

/-- The same entry where elements have other positions. -/
def map (f : ElementId → ElementId) (entry : Entry) : Entry :=
  { entry with owner? := entry.owner?.map f, members := entry.members.map f }

def await (entry : Entry) (more : Awaited) : Entry :=
  { entry with awaited := entry.awaited.append more }

end Entry

namespace Draft

/-- What is read from the names that wait for an element, in the order in which they stand. -/
def waitingFor {α β : Type} (names : List α) (element : α → ElementId) (read : α → β) (id : ElementId) : List β :=
  (names.filter fun name => element name = id).map read

def awaited (d : Draft) (id : ElementId) : Awaited where
  generals := waitingFor d.generals (·.element) (·.name.value) id
  redefinitions := waitingFor d.redefinitions (·.element) (fun pending => (pending.name.value, pending.takesKind)) id
  abouts := waitingFor d.abouts (·.element) (·.name.value) id

def entry (d : Draft) (id : ElementId) : Entry :=
  ⟨d.model.kind id, d.model.name? id, d.model.owner? id, d.model.members id, d.awaited id⟩

/-- No name waits for an element that does not exist. -/
def Bounded (d : Draft) : Prop :=
  ∀ id : Nat, d.model.size ≤ id → d.entry id = .blank

section waiting

variable {α β : Type} {names more : List α} {element : α → ElementId} {read : α → β} {id : ElementId}

theorem waitingFor_append :
    waitingFor (names ++ more) element read id = waitingFor names element read id ++ waitingFor more element read id := by
  simp [waitingFor]

theorem waitingFor_map {γ : Type} (values : List γ) (own : ElementId) (make : γ → α)
    (same : ∀ value, element (make value) = own) :
    waitingFor (values.map make) element read id = if id = own then values.map (read ∘ make) else [] := by
  have which : (fun name => decide (element name = id)) ∘ make = fun _ => decide (own = id) := by
    funext value
    simp only [Function.comp, same]
  rw [waitingFor, List.filter_map, which]
  by_cases here : id = own
  · simp [here]
  · simp [here, Ne.symm here]

end waiting

/-- A change of what is said of one element: more names wait for it, and something may be wrong. -/
structure Revises (id : ElementId) (more : Awaited) (faulty : Bool) (d after : Draft) : Prop where
  size : after.model.size = d.model.size
  entry : ∀ other, after.entry other = if other = id then (d.entry other).await more else d.entry other
  clean : after.problems = [] ↔ d.problems = [] ∧ faulty = false
  errors : ∀ problem ∈ after.problems, problem ∈ d.problems ∨ problem.severity = .error

namespace Revises

variable {d middle after : Draft} {id : ElementId}

theorem await_none (entry : Entry) : entry.await .none = entry := by
  simp [Entry.await, Awaited.append, Awaited.none]

theorem await_await (entry : Entry) (first second : Awaited) :
    (entry.await first).await second = entry.await (first.append second) := by
  simp [Entry.await, Awaited.append, List.append_assoc]

theorem trans {first second : Awaited} {faulty wrong : Bool} (before : Revises id first faulty d middle)
    (rest : Revises id second wrong middle after) : Revises id (first.append second) (faulty || wrong) d after where
  size := rest.size.trans before.size
  entry other := by
    rw [rest.entry, before.entry]
    split
    · exact await_await ..
    · rfl
  clean := by
    rw [rest.clean, before.clean]
    simp [and_assoc]
  errors problem member := by
    rcases rest.errors problem member with old | error
    · exact before.errors problem old
    · exact .inr error

/-- Texts and values are not part of what is said here. -/
theorem describe (graph : SameGraph d.model after.model) (generals : after.generals = d.generals)
    (redefinitions : after.redefinitions = d.redefinitions) (abouts : after.abouts = d.abouts)
    (problems : after.problems = d.problems) : Revises id .none false d after where
  size := graph.size
  entry other := by
    simp only [await_none, ite_self]
    simp only [Draft.entry, awaited, graph.kind, graph.name, graph.owner, graph.members, generals, redefinitions, abouts]
  clean := by simp [problems]
  errors problem member := .inl (problems ▸ member)

theorem setValue (value? : Option (Spanned Expr)) : Revises id .none false d (d.setValue id value?) := by
  cases value? with
  | none => exact describe (.refl _) rfl rfl rfl rfl
  | some value => exact describe (.setValue _ _) rfl rfl rfl rfl

theorem setBody (body : String) : Revises id .none false d (d.edit (·.setBody id body)) :=
  describe (.setBody _ _) rfl rfl rfl rfl

theorem setLocale (locale? : Option (Spanned String)) : Revises id .none false d (d.setLocale id locale?) := by
  cases locale? with
  | none => exact describe (.refl _) rfl rfl rfl rfl
  | some locale => exact describe (.setLocale _ _) rfl rfl rfl rfl

theorem setMultiplicity (count? : Option (Spanned Float)) :
    Revises id .none (count?.any fun count => (instanceCount? count.value).isNone) d (d.setMultiplicity id count?) := by
  cases count? with
  | none => exact describe (.refl _) rfl rfl rfl rfl
  | some count =>
    simp only [Draft.setMultiplicity, Option.any_some]
    cases instanceCount? count.value with
    | some instances => exact describe (.setMultiplicity _ _) rfl rfl rfl rfl
    | none =>
      have described : Revises id .none false d d := describe (.refl _) rfl rfl rfl rfl
      refine ⟨rfl, described.entry, by simp [report], ?_⟩
      intro problem member
      rcases List.mem_append.mp member with old | new
      · exact .inl old
      · exact .inr (List.mem_singleton.mp new ▸ rfl)

theorem addGenerals (names : List (Spanned Path)) :
    Revises id ⟨names.map (·.value), [], []⟩ false d (d.addGenerals id names) where
  size := rfl
  entry other := by
    have same : ∀ name : Spanned Path, (⟨id, name⟩ : PendingName Path).element = id := fun _ => rfl
    simp only [Draft.entry, awaited, Draft.addGenerals, waitingFor_append, waitingFor_map _ _ _ same]
    split
    · simp [Entry.await, Awaited.append, Function.comp_def]
    · simp
  clean := by simp [Draft.addGenerals]
  errors problem member := .inl member

theorem addRedefinition (kind : UsageKind) (name? : Option (Spanned String)) :
    Revises id ⟨[], name?.toList.map fun name => (name.value, decide (kind = .shorthand)), []⟩ false d
      (d.addRedefinition id kind name?) := by
  cases name? with
  | none => exact describe (.refl _) rfl rfl rfl rfl
  | some name =>
    refine ⟨rfl, fun other => ?_, by simp [Draft.addRedefinition], fun problem member => .inl member⟩
    simp only [Draft.entry, awaited, Draft.addRedefinition, waitingFor_append]
    by_cases here : other = id
    · subst here
      simp [Entry.await, Awaited.append, waitingFor]
    · simp [here, Ne.symm here, waitingFor]

theorem addAbouts (names : List (Spanned Path)) :
    Revises id ⟨[], [], names.map (·.value)⟩ false d { d with abouts := d.abouts ++ names.map (⟨id, ·⟩) } where
  size := rfl
  entry other := by
    have same : ∀ name : Spanned Path, (⟨id, name⟩ : PendingName Path).element = id := fun _ => rfl
    simp only [Draft.entry, awaited, waitingFor_append, waitingFor_map _ _ _ same]
    split
    · simp [Entry.await, Awaited.append, Function.comp_def]
    · simp
  clean := by simp
  errors problem member := .inl member

end Revises

section add

variable {d : Draft} {owner? : Option ElementId} {kind : ElementKind} {name? : Option String} {span : Span}

theorem entry_add_new : (d.add owner? kind name? span).entry d.model.size =
    ⟨kind, name?, d.model.known? owner?, [], d.awaited d.model.size⟩ := by
  have unowned : d.model.known? owner? ≠ some d.model.size :=
    fun owned => Nat.lt_irrefl _ (known_eq_some.mp owned).2
  have childless : d.model.members d.model.size = [] := by
    rw [members, element_eq_default (Nat.le_refl _)]
    rfl
  have owned : (d.model.add owner? kind name?).members d.model.size = [] := by
    rw [members_add, childless, if_neg unowned]
    rfl
  simp only [entry, add, kind_add, name_add, owner_add, owned, if_true]
  rfl

theorem entry_add_old {id : Nat} (old : id ≠ d.model.size) : (d.add owner? kind name? span).entry id =
    if d.model.known? owner? = some id then { d.entry id with members := d.model.members id ++ [d.model.size] }
    else d.entry id := by
  have awaited : (d.add owner? kind name? span).awaited id = d.awaited id := rfl
  simp only [entry, awaited]
  simp only [add, kind_add, name_add, owner_add, members_add, old, if_false]
  split
  · rfl
  · rw [List.append_nil]

end add

/-- A draft followed by a block of new elements. -/
structure Joins (d block after : Draft) : Prop where
  size : after.model.size = d.model.size + block.model.size
  old : ∀ id : Nat, id < d.model.size → after.entry id = d.entry id
  new : ∀ id : Nat, after.entry (d.model.size + id) = (block.entry id).map (d.model.size + ·)
  bounded : block.Bounded
  clean : after.problems = [] ↔ d.problems = [] ∧ block.problems = []
  errors : ∀ problem ∈ after.problems, problem ∈ d.problems ∨ problem.severity = .error

namespace Joins

variable {d block after : Draft}

theorem of_empty (bounded : d.Bounded) : Joins d empty d where
  size := rfl
  old _ _ := rfl
  new id := by
    rw [bounded _ (Nat.le_add_right ..)]
    rfl
  bounded _ _ := rfl
  clean := by simp [empty]
  errors problem member := .inl member

/-- What is revised in the block is revised behind the draft as well. -/
theorem revise (joins : Joins d block after) {id : Nat} {more : Awaited} {faulty : Bool} {revised last : Draft}
    (known : id < block.model.size) (inside : Revises id more faulty block revised)
    (outside : Revises (d.model.size + id) more faulty after last) : Joins d revised last where
  size := by rw [outside.size, inside.size, joins.size]
  old other older := by
    have apart : other ≠ d.model.size + id := by omega
    rw [outside.entry, if_neg apart, joins.old other older]
  new other := by
    have same : d.model.size + other = d.model.size + id ↔ other = id := by omega
    rw [outside.entry, inside.entry, joins.new]
    simp only [same]
    split <;> rfl
  bounded other beyond := by
    rw [inside.size] at beyond
    have apart : other ≠ id := by omega
    rw [inside.entry, if_neg apart, joins.bounded other beyond]
  clean := by
    rw [outside.clean, inside.clean, joins.clean, and_assoc]
  errors problem member := by
    rcases outside.errors problem member with old | error
    · exact joins.errors problem old
    · exact .inr error

theorem report (joins : Joins d block after) {problem other : DeclarationProblem} (error : other.severity = .error) :
    Joins d (block.report problem) (after.report other) where
  size := joins.size
  old := joins.old
  new := joins.new
  bounded := joins.bounded
  clean := by simp [Draft.report]
  errors found member := by
    rcases List.mem_append.mp member with old | new
    · exact joins.errors found old
    · exact .inr (List.mem_singleton.mp new ▸ error)

theorem known (joins : Joins d block after) (owner? : Option ElementId) :
    after.model.known? (owner?.map (d.model.size + ·)) = (block.model.known? owner?).map (d.model.size + ·) := by
  cases owner? with
  | none => rfl
  | some owner =>
    have same : d.model.size + owner < after.model.size ↔ owner < block.model.size := by
      rw [joins.size]
      exact Nat.add_lt_add_iff_left
    by_cases inside : owner < block.model.size <;> simp [known?, Option.filter, same, inside]

theorem add (joins : Joins d block after) (owner? : Option ElementId) (kind : ElementKind) (name? : Option String)
    (span other : Span) :
    Joins d (block.add owner? kind name? span) (after.add (owner?.map (d.model.size + ·)) kind name? other) where
  size := by
    simp only [Draft.add, size_add, joins.size]
    omega
  old id older := by
    have bound := joins.size
    have apart : id ≠ after.model.size := by omega
    have foreign : (block.model.known? owner?).map (d.model.size + ·) ≠ some id := by
      intro owned
      obtain ⟨owner, _, same⟩ := Option.map_eq_some_iff.mp owned
      omega
    rw [entry_add_old apart, joins.known, if_neg foreign, joins.old id older]
  new id := by
    by_cases newest : id = block.model.size
    · subst newest
      have awaited := congrArg Entry.awaited (joins.new block.model.size)
      rw [entry_add_new, ← joins.size, entry_add_new, joins.known]
      rw [← joins.size] at awaited
      simp only [Entry.map, List.map_nil, Entry.mk.injEq, true_and]
      exact awaited
    · have apart : d.model.size + id ≠ after.model.size := by
        rw [joins.size]
        omega
      have same : (block.model.known? owner?).map (d.model.size + ·) = some (d.model.size + id) ↔
          block.model.known? owner? = some id := by
        cases block.model.known? owner? <;> simp
      have members := congrArg Entry.members (joins.new id)
      rw [entry_add_old apart, entry_add_old newest, joins.known]
      simp only [same]
      split
      · rw [joins.new]
        simp only [Entry.map, Draft.entry] at members ⊢
        simp [members, joins.size]
      · exact joins.new id
  bounded id beyond := by
    simp only [Draft.add, size_add] at beyond
    have newest : id ≠ block.model.size := by omega
    have foreign : block.model.known? owner? ≠ some id := by
      intro owned
      have inside : id < block.model.size := (known_eq_some.mp owned).2
      omega
    rw [entry_add_old newest, if_neg foreign, joins.bounded id (by omega)]
  clean := joins.clean
  errors := joins.errors

/-- Whether a name is taken inside an element of the block is decided in the block. -/
theorem child_eq_none (joins : Joins d block after) (owner : ElementId) (name : String) :
    after.model.child? (some (d.model.size + owner)) name = none ↔ block.model.child? (some owner) name = none := by
  have members : after.model.members (d.model.size + owner) =
      (block.model.members owner).map (d.model.size + ·) := congrArg Entry.members (joins.new owner)
  have names : ∀ id, after.model.name? (d.model.size + id) = block.model.name? id :=
    fun id => congrArg Entry.name? (joins.new id)
  rw [child?, child?, namespaceMembers, namespaceMembers, members, List.find?_eq_none, List.find?_eq_none]
  simp only [List.forall_mem_map, names]

/-- The same element is declared in the block and behind the draft, or its name is taken in both. -/
theorem addNamed (joins : Joins d block after) {owner? : Option ElementId} {kind : ElementKind}
    {name : Spanned String} {inner outer : Draft → ElementId → Draft}
    (free : block.model.child? owner? name.value = none ↔
      after.model.child? (owner?.map (d.model.size + ·)) name.value = none)
    (content : ∀ {block after}, Joins d block after → ∀ id : Nat, id < block.model.size →
      Joins d (inner block id) (outer after (d.model.size + id))) :
    Joins d (block.addNamed owner? kind name.unplaced inner)
      (after.addNamed (owner?.map (d.model.size + ·)) kind name outer) := by
  rw [Draft.addNamed, Draft.addNamed, duplicate?, duplicate?, Spanned.unplaced]
  cases taken : block.model.child? owner? name.value with
  | none =>
    rw [free.mp taken]
    simp only [Option.map_none]
    rw [joins.size]
    apply content (joins.add owner? kind (some name.value) .atStart name.span)
    rw [Draft.add, size_add]
    exact Nat.lt_succ_self _
  | some first =>
    cases same : after.model.child? (owner?.map (d.model.size + ·)) name.value with
    | none =>
      rw [free.mpr same] at taken
      cases taken
    | some second =>
      simp only [Option.map_some]
      exact joins.report rfl

end Joins

section unplaced

variable {α : Type}

theorem any_unplaced (value? : Option (Spanned α)) (check : α → Bool) :
    ((value?.map (·.unplaced)).any fun value => check value.value) = value?.any fun value => check value.value := by
  cases value? <;> rfl

theorem values_unplaced (values : List (Spanned α)) :
    (values.map (·.unplaced)).map (·.value) = values.map (·.value) := by
  simp [Spanned.unplaced]

end unplaced

/-- What a usage says before its body. -/
theorem Revises.addHeader {d : Draft} {id : ElementId} (kind : UsageKind) (header : UsageHeader) :
    Revises id
      ⟨(header.types ++ header.subsets).map (·.value),
        header.redefines?.toList.map fun name => (name.value, decide (kind = .shorthand)), []⟩
      (header.multiplicity?.any fun count => (instanceCount? count.value).isNone)
      d (d.addHeader id kind header) := by
  have counted : Revises id _ _ d _ := .setMultiplicity header.multiplicity?
  have revised := ((counted.trans (.setValue header.value?)).trans
    (.addGenerals (header.types ++ header.subsets))).trans (.addRedefinition kind header.redefines?)
  rw [Draft.addHeader]
  simpa [Awaited.append, Awaited.none] using revised

theorem Revises.addComment {d : Draft} {id : ElementId} (about : List (Spanned Path)) (body : Spanned String) :
    Revises id ⟨[], [], about.map (·.value)⟩ false d (d.addComment id about body) := by
  have written : Revises id _ _ d _ := .setBody body.value
  have revised := written.trans (.addAbouts about)
  simpa [Awaited.append, Awaited.none, Draft.addComment, Draft.edit] using revised

namespace Joins

variable {d block after : Draft}

theorem addHeader (joins : Joins d block after) {id : Nat} (known : id < block.model.size) (kind : UsageKind)
    (header : UsageHeader) :
    Joins d (block.addHeader id kind header.unplaced) (after.addHeader (d.model.size + id) kind header) := by
  have outside : Revises (d.model.size + id) _ _ after _ := .addHeader kind header
  have inside : Revises id _ _ block _ := .addHeader kind header.unplaced
  have counts : (header.unplaced.multiplicity?.any fun count => (instanceCount? count.value).isNone) =
      header.multiplicity?.any fun count => (instanceCount? count.value).isNone :=
    any_unplaced header.multiplicity? fun count => (instanceCount? count).isNone
  have types : (header.unplaced.types ++ header.unplaced.subsets).map (·.value) =
      (header.types ++ header.subsets).map (·.value) := by
    simp only [UsageHeader.unplaced, List.map_append, values_unplaced]
  have redefines : (header.unplaced.redefines?.toList.map fun name => (name.value, decide (kind = .shorthand))) =
      header.redefines?.toList.map fun name => (name.value, decide (kind = .shorthand)) := by
    cases given : header.redefines? <;> simp [UsageHeader.unplaced, given, Spanned.unplaced]
  rw [counts, types, redefines] at inside
  exact joins.revise known inside outside

theorem addGenerals (joins : Joins d block after) {id : Nat} (known : id < block.model.size)
    (names : List (Spanned Path)) :
    Joins d (block.addGenerals id (names.map (·.unplaced))) (after.addGenerals (d.model.size + id) names) := by
  have inside : Revises id _ _ block _ := .addGenerals (names.map (·.unplaced))
  rw [values_unplaced] at inside
  exact joins.revise known inside (.addGenerals names)

theorem addComment (joins : Joins d block after) {id : Nat} (known : id < block.model.size)
    (about : List (Spanned Path)) (body : Spanned String) :
    Joins d (block.addComment id (about.map (·.unplaced)) body.unplaced)
      (after.addComment (d.model.size + id) about body) := by
  have inside : Revises id _ _ block _ := .addComment (about.map (·.unplaced)) body.unplaced
  rw [values_unplaced] at inside
  exact joins.revise known inside (.addComment about body)

end Joins

theorem declaredName_unplaced (header : UsageHeader) :
    header.unplaced.declaredName? = header.declaredName?.map (·.unplaced) := by
  cases named : header.name? with
  | none =>
    simp only [UsageHeader.declaredName?, UsageHeader.unplaced, named, Option.map_none]
    cases header.redefines? <;> rfl
  | some name => simp [UsageHeader.declaredName?, UsageHeader.unplaced, named]

mutual

/-- A declaration says the same in the block and behind the draft, if its name is free in both or in neither. -/
theorem Joins.declare {d : Draft} : ∀ (declaration : Declaration) {block after : Draft} (owner? : Option ElementId),
    Joins d block after →
    (∀ name, declaration.name? = some name → (block.model.child? owner? name = none ↔
      after.model.child? (owner?.map (d.model.size + ·)) name = none)) →
    Joins d (block.declare owner? declaration.unplaced) (after.declare (owner?.map (d.model.size + ·)) declaration)
  | .package name members, block, after, owner?, joins, free => by
    rw [Declaration.unplaced, Draft.declare, Draft.declare]
    apply joins.addNamed (free _ rfl)
    intro block after inner id _
    exact Joins.declareAll members id inner
  | .definition kind name generals members, block, after, owner?, joins, free => by
    rw [Declaration.unplaced, Draft.declare, Draft.declare]
    apply joins.addNamed (free _ rfl)
    intro block after inner id known
    exact Joins.declareAll members id (inner.addGenerals known generals)
  | .usage kind header members, block, after, owner?, joins, free => by
    rw [Declaration.unplaced, Draft.declare, Draft.declare, declaredName_unplaced]
    cases named : header.declaredName? with
    | none => exact joins
    | some name =>
      have own : (Declaration.usage kind header members).name? = some name.value := by
        simp [Declaration.name?, named]
      apply joins.addNamed (free _ own)
      intro block after inner id known
      exact Joins.declareAll members id (inner.addHeader known kind header)
  | .enumerationLiteral name, block, after, owner?, joins, free => by
    rw [Declaration.unplaced, Draft.declare, Draft.declare]
    apply joins.addNamed (free _ rfl)
    intro block after inner id _
    exact inner
  | .comment none about body, block, after, owner?, joins, free => by
    rw [Declaration.unplaced, Option.map_none, Draft.declare, Draft.declare, joins.size]
    refine (joins.add owner? .comment none _ _).addComment ?_ about body
    rw [Draft.add, size_add]
    exact Nat.lt_succ_self _
  | .comment (some name) about body, block, after, owner?, joins, free => by
    rw [Declaration.unplaced, Option.map_some, Draft.declare, Draft.declare]
    apply joins.addNamed (free _ rfl)
    intro block after inner id known
    exact inner.addComment known about body
  | .documentation locale? body, block, after, owner?, joins, free => by
    rw [Declaration.unplaced, Draft.declare, Draft.declare, joins.size]
    have added := joins.add owner? .documentation none body.unplaced.span body.span
    have known : block.model.size < (block.add owner? .documentation none body.unplaced.span).model.size := by
      rw [Draft.add, size_add]
      exact Nat.lt_succ_self _
    have described := added.revise known (.setBody body.value) (.setBody body.value)
    refine described.revise ?_ (.setLocale _) (by cases locale? <;> exact .setLocale _)
    rw [(Revises.setBody _).size]
    exact known
  | .importing _, block, after, owner?, joins, free => by
    rw [Declaration.unplaced, Draft.declare, Draft.declare]
    exact joins

theorem Joins.declareAll {d : Draft} : ∀ (members : List Declaration) {block after : Draft} (owner : ElementId),
    Joins d block after →
    Joins d (block.declareAll (some owner) (Declaration.unplacedAll members))
      (after.declareAll (some (d.model.size + owner)) members)
  | [], block, after, owner, joins => by
    rw [Declaration.unplacedAll, Draft.declareAll, Draft.declareAll]
    exact joins
  | declaration :: rest, block, after, owner, joins => by
    rw [Declaration.unplacedAll, Draft.declareAll, Draft.declareAll]
    apply Joins.declareAll rest owner
    apply Joins.declare declaration (some owner) joins
    intro name _
    exact (joins.child_eq_none owner name).symm

end

end Draft
end StructuralModel
