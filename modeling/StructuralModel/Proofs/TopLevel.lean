import StructuralModel.Proofs.Blocks

/-! A document as its top-level declarations one after the other. Nothing is wrong with it exactly if nothing
is wrong with any of them and no name is declared twice; then it consists of the blocks of them. -/

namespace StructuralModel
open Model

namespace Draft

variable {d after : Draft} {owner? : Option ElementId}

theorem addNamed_free {kind : ElementKind} {name : Spanned String} {content : Draft → ElementId → Draft}
    (free : d.model.child? owner? name.value = none) :
    d.addNamed owner? kind name content = content (d.add owner? kind (some name.value) name.span) d.model.size := by
  rw [addNamed, duplicate?, free]
  rfl

theorem addNamed_taken {kind : ElementKind} {name : Spanned String} {content : Draft → ElementId → Draft}
    {first : ElementId} (taken : d.model.child? owner? name.value = some first) :
    ∃ problem : DeclarationProblem, problem.severity = .error ∧
      d.addNamed owner? kind name content = d.report problem := by
  rw [addNamed, duplicate?, taken]
  exact ⟨_, rfl, rfl⟩

/-- A name that is taken is all that is told of the declaration. -/
theorem declare_taken (declaration : Declaration) {name : String} {first : ElementId}
    (named : declaration.name? = some name) (taken : d.model.child? owner? name = some first) :
    ∃ problem : DeclarationProblem, problem.severity = .error ∧ d.declare owner? declaration = d.report problem := by
  cases declaration with
  | package own members | definition kind own generals members | enumerationLiteral own =>
    obtain rfl := Option.some.inj named
    rw [declare]
    exact addNamed_taken taken
  | usage kind header members =>
    obtain ⟨own, declared, rfl⟩ := Option.map_eq_some_iff.mp named
    rw [declare, declared]
    exact addNamed_taken taken
  | comment own? about body =>
    obtain ⟨own, rfl, rfl⟩ := Option.map_eq_some_iff.mp named
    rw [declare]
    exact addNamed_taken taken
  | documentation locale? body => cases named
  | importing target => cases named

/-- A declaration whose name is free adds one element to the namespace, or none at all. -/
theorem declare_free (declaration : Declaration)
    (free : ∀ name, declaration.name? = some name → d.model.child? owner? name = none) :
    d.declare owner? declaration = d ∧ declaration.name? = none ∨ ∃ kind added,
      Adds d owner? kind declaration.name? added ∧ Declares (some d.model.size) added (d.declare owner? declaration) := by
  have fresh : ∀ {name : Spanned String}, declaration.name? = some name.value →
      ∀ other, some name.value = some other → d.model.child? owner? other = none := by
    rintro name named _ ⟨⟩
    exact free _ named
  cases declaration with
  | package name members =>
    rw [declare, addNamed_free (free _ rfl)]
    exact .inr ⟨_, _, .add (fresh rfl) _, declares_declareAll _ members _⟩
  | definition kind name generals members =>
    rw [declare, addNamed_free (free _ rfl)]
    exact .inr ⟨_, _, (Adds.add (fresh rfl) _).describe (.addGenerals _ generals), declares_declareAll _ members _⟩
  | usage usage header members =>
    rw [declare]
    cases declared : header.declaredName? with
    | none => exact .inl ⟨rfl, by simp [Declaration.name?, declared]⟩
    | some name =>
      have named : (Declaration.usage usage header members).name? = some name.value := by
        simp [Declaration.name?, declared]
      simp only [addNamed_free (free _ named)]
      rw [named]
      exact .inr ⟨_, _, .addHeader (fresh named) _ usage header, declares_declareAll _ members _⟩
  | enumerationLiteral name =>
    rw [declare, addNamed_free (free _ rfl)]
    exact .inr ⟨_, _, .add (fresh rfl) _, .done⟩
  | comment name? about body =>
    cases name? with
    | none =>
      rw [declare]
      exact .inr ⟨_, _, (Adds.add (unnamed d owner?) body.span).describe (.addComment _ about body), .done⟩
    | some name =>
      rw [declare, addNamed_free (free _ rfl)]
      exact .inr ⟨_, _, (Adds.add (fresh rfl) _).describe (.addComment _ about body), .done⟩
  | documentation locale? body =>
    rw [declare]
    exact .inr ⟨_, _, ((Adds.add (unnamed d owner?) body.span).describe (.setBody _ body.value)).describe
      (.setLocale _ locale?), .done⟩
  | importing target =>
    rw [declare]
    exact .inl ⟨rfl, rfl⟩

/-- What is declared inside an element is not seen at the top level. -/
theorem Declares.inside (run : Declares owner? d after) (ready : Ready d) (opened : Open d owner?)
    (nested : owner? ≠ none) : after.model.roots = d.model.roots ∧
      ∀ id : Nat, id < d.model.size → after.model.name? id = d.model.name? id := by
  induction run with
  | done => exact ⟨rfl, fun _ _ => rfl⟩
  | report _ ih =>
    exact ih (ready.report _) opened nested
  | @element owner? d kind name? added filled after adds membersRun _ membersInside restInside =>
    have added := adds.ready ready opened
    have filled := membersRun.grows added adds.opened
    obtain ⟨roots, names⟩ := membersInside added adds.opened (by simp)
    obtain ⟨lastRoots, lastNames⟩ := restInside filled.ready (adds.reopened opened filled) nested
    have size := adds.size
    have larger := filled.larger
    constructor
    · rw [lastRoots, roots, adds.graph.roots, roots_add, opened.known, if_neg]
      simpa [Option.isNone_iff_eq_none] using nested
    · intro id known
      rw [lastNames id (by omega), names id (by omega), adds.graph.name, name_add, if_neg (Nat.ne_of_lt known)]

theorem Ready.declare (ready : Ready d) (declaration : Declaration) : Ready (d.declare none declaration) :=
  ((declares_declare none declaration d).grows ready (by rintro _ ⟨⟩)).ready

/-- A declaration whose name is free puts one root with this name behind the others, or declares nothing. -/
theorem root_declare (ready : Ready d) (declaration : Declaration)
    (free : ∀ name, declaration.name? = some name → d.model.child? none name = none) :
    d.declare none declaration = d ∧ declaration.name? = none ∨
      (d.declare none declaration).model.roots = d.model.roots ++ [d.model.size] ∧
        (d.declare none declaration).model.name? d.model.size = declaration.name? ∧
        ∀ id : Nat, id < d.model.size → (d.declare none declaration).model.name? id = d.model.name? id := by
  rcases declare_free declaration free with nothing | ⟨kind, added, adds, run⟩
  · exact .inl nothing
  · have opened : Open d none := by rintro _ ⟨⟩
    obtain ⟨roots, names⟩ := run.inside (adds.ready ready opened) adds.opened (by simp)
    have size := adds.size
    refine .inr ⟨?_, ?_, fun id known => ?_⟩
    · rw [roots, adds.graph.roots, roots_add]
      rfl
    · rw [names _ (by omega), adds.graph.name, name_add, if_pos rfl]
    · have kept : id < added.model.size := size ▸ Nat.lt_succ_of_lt known
      rw [names id kept, adds.graph.name, name_add, if_neg (Nat.ne_of_lt known)]

/-- After a declaration its own name is taken, and otherwise the names that were taken before. -/
theorem child_declare (ready : Ready d) (declaration : Declaration)
    (free : ∀ name, declaration.name? = some name → d.model.child? none name = none) (name : String) :
    (d.declare none declaration).model.child? none name = none ↔
      d.model.child? none name = none ∧ declaration.name? ≠ some name := by
  rcases root_declare ready declaration free with ⟨same, unnamed⟩ | ⟨roots, newest, names⟩
  · simp [same, unnamed]
  · have older : ∀ id ∈ d.model.roots, (d.declare none declaration).model.name? id = d.model.name? id :=
      fun id root => names id ((ready.forest.root_iff id).mp root).1
    rw [child?, child?, namespaceMembers, namespaceMembers, roots, List.find?_append, Option.or_eq_none_iff,
      List.find?_eq_none, List.find?_eq_none, List.find?_eq_none, List.forall_mem_singleton, newest]
    apply and_congr
    · exact forall₂_congr fun id root => by rw [older id root]
    · simp

theorem Joins.bounded_after {block : Draft} (joins : Joins d block after) : after.Bounded := by
  intro id beyond
  rw [joins.size] at beyond
  obtain ⟨inner, rfl⟩ := Nat.exists_eq_add_of_le (Nat.le_trans (Nat.le_add_right ..) beyond)
  rw [joins.new, joins.bounded inner (by omega)]
  rfl

/-- What the draft says of its elements, by position. -/
def entries (d : Draft) : List Entry :=
  (List.range d.model.size).map d.entry

@[simp] theorem length_entries : d.entries.length = d.model.size := by
  simp [entries]

end Draft

/-- The entries of a block moved behind others. -/
def Entry.join (before block : List Entry) : List Entry :=
  before ++ block.map (Entry.map (before.length + ·))

/-- What the declaration adds to a document, as if it stood alone. -/
def Declaration.block (declaration : Declaration) : Draft :=
  Draft.empty.declare none declaration.unplaced

namespace Draft

variable {d after : Draft}

theorem Joins.entries {block : Draft} (joins : Joins d block after) :
    after.entries = Entry.join d.entries block.entries := by
  have old : (List.range d.model.size).map after.entry = d.entries :=
    List.map_congr_left fun id member => joins.old id (List.mem_range.mp member)
  have new : (List.range block.model.size).map (after.entry ∘ (d.model.size + ·)) =
      block.entries.map (Entry.map (d.model.size + ·)) := by
    rw [Draft.entries, List.map_map]
    exact List.map_congr_left fun id _ => joins.new id
  rw [Draft.entries, joins.size, List.range_add, List.map_append, List.map_map, old, new, Entry.join, length_entries]

theorem joins_block (bounded : d.Bounded) (declaration : Declaration)
    (free : ∀ name, declaration.name? = some name → d.model.child? none name = none) :
    Joins d declaration.block (d.declare none declaration) := by
  apply Joins.declare declaration none (.of_empty bounded)
  intro name named
  exact iff_of_true rfl (free name named)

/-- A document laid out behind a draft, one block after the other. -/
structure LaysOut (d : Draft) (declarations : List Declaration) (after : Draft) : Prop where
  clean : after.problems = [] ↔ d.problems = [] ∧ (∀ declaration ∈ declarations, declaration.block.problems = []) ∧
    (declarations.filterMap (·.name?)).Nodup ∧
      ∀ name ∈ declarations.filterMap (·.name?), d.model.child? none name = none
  errors : ∀ problem ∈ after.problems, problem ∈ d.problems ∨ problem.severity = .error
  bounded : after.Bounded
  entries : after.problems = [] → after.entries = (declarations.map (·.block.entries)).foldl Entry.join d.entries

/-- A declaration with a free name is followed by a document without that name. -/
theorem LaysOut.free {declaration : Declaration} {rest : List Declaration} (ready : Ready d) (bounded : d.Bounded)
    (free : ∀ name, declaration.name? = some name → d.model.child? none name = none)
    (later : LaysOut (d.declare none declaration) rest after) : LaysOut d (declaration :: rest) after := by
  have joins := joins_block bounded declaration free
  have names : (declaration :: rest).filterMap (·.name?) = declaration.name?.toList ++ rest.filterMap (·.name?) := by
    cases named : declaration.name? <;> simp [named]
  refine ⟨?_, ?_, later.bounded, ?_⟩
  · rw [later.clean, joins.clean, names, List.forall_mem_cons]
    simp only [child_declare ready declaration free]
    cases named : declaration.name? with
    | none =>
      simp only [Option.toList_none, List.nil_append, ne_eq, reduceCtorEq, not_false_eq_true, and_true]
      tauto
    | some name =>
      have own : d.model.child? none name = none := free name named
      simp only [Option.toList_some, List.singleton_append, List.nodup_cons, List.forall_mem_cons, own, true_and]
      constructor
      · rintro ⟨⟨clean, block⟩, blocks, distinct, others⟩
        exact ⟨clean, ⟨block, blocks⟩, ⟨fun again => (others name again).2 rfl, distinct⟩,
          fun other member => (others other member).1⟩
      · rintro ⟨clean, ⟨block, blocks⟩, ⟨unused, distinct⟩, others⟩
        refine ⟨⟨clean, block⟩, blocks, distinct, fun other member => ⟨others other member, ?_⟩⟩
        rintro ⟨⟩
        exact unused member
  · intro problem member
    rcases later.errors problem member with old | error
    · exact joins.errors problem old
    · exact .inr error
  · intro clean
    rw [later.entries clean, joins.entries]
    rfl

theorem laysOut_declareAll (declarations : List Declaration) (ready : Ready d) (bounded : d.Bounded) :
    LaysOut d declarations (d.declareAll none declarations) := by
  induction declarations generalizing d with
  | nil =>
    rw [declareAll]
    exact ⟨by simp, fun problem member => .inl member, bounded, fun _ => rfl⟩
  | cons declaration rest ih =>
    rw [declareAll]
    by_cases free : ∀ name, declaration.name? = some name → d.model.child? none name = none
    · exact .free ready bounded free (ih (ready.declare declaration) (joins_block bounded declaration free).bounded_after)
    · push Not at free
      obtain ⟨name, named, taken⟩ := free
      obtain ⟨first, found⟩ := Option.ne_none_iff_exists'.mp taken
      obtain ⟨problem, error, reported⟩ := declare_taken declaration named found
      rw [reported]
      have later := ih (ready.report problem) bounded
      have faulty : ((d.report problem).declareAll none rest).problems ≠ [] := by
        intro clean
        have none := (later.clean.mp clean).1
        simp [report] at none
      refine ⟨iff_of_false faulty ?_, ?_, later.bounded, fun clean => absurd clean faulty⟩
      · rintro ⟨_, _, _, unused⟩
        exact taken (unused name (List.mem_filterMap.mpr ⟨declaration, List.mem_cons_self, named⟩))
      · intro other member
        rcases later.errors other member with old | error
        · rcases List.mem_append.mp old with old | new
          · exact .inl old
          · exact .inr (List.mem_singleton.mp new ▸ error)
        · exact .inr error

theorem bounded_empty : empty.Bounded :=
  fun _ _ => rfl

theorem laysOut_ofDeclarations (declarations : List Declaration) :
    LaysOut empty declarations (ofDeclarations declarations) :=
  laysOut_declareAll declarations .empty bounded_empty

/-- Nothing is wrong with a document before its names are resolved if its top-level names are distinct and
nothing is wrong inside its declarations. -/
theorem problems_ofDeclarations (declarations : List Declaration) : (ofDeclarations declarations).problems = [] ↔
    (∀ declaration ∈ declarations, declaration.block.problems = []) ∧ (declarations.filterMap (·.name?)).Nodup := by
  rw [(laysOut_ofDeclarations declarations).clean]
  have unused : ∀ name ∈ declarations.filterMap (·.name?), empty.model.child? none name = none := fun _ _ => rfl
  exact ⟨fun ⟨_, blocks, distinct, _⟩ => ⟨blocks, distinct⟩, fun ⟨blocks, distinct⟩ => ⟨rfl, blocks, distinct, unused⟩⟩

theorem errors_ofDeclarations {declarations : List Declaration} :
    ∀ problem ∈ (ofDeclarations declarations).problems, problem.severity = .error := by
  intro problem member
  rcases (laysOut_ofDeclarations declarations).errors problem member with old | error
  · cases old
  · exact error

end Draft
end StructuralModel
