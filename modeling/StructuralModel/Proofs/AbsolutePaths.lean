import StructuralModel.Proofs.WellFormed

/-! Every named element of a model that loads is found by the names of its owners and its own, from the root down, and
from everywhere else too unless a name that is written nearer hides the first of them. -/

namespace StructuralModel

namespace Model

/-- An owner, if there is one, has a name. -/
def OwnerNamed (m : Model) (owner? : Option ElementId) : Prop :=
  ∀ owner, owner? = some owner → ∃ name, m.name? owner = some name

/-- All that owns something has a name. -/
def OwnersNamed (m : Model) : Prop :=
  ∀ id : Nat, m.OwnerNamed (m.owner? id)

/-- The names of the owners of an element from the root down, and its own name. -/
def absolutePath (m : Model) (id : ElementId) : List String :=
  (m.enclosing id).reverse.filterMap m.name?

/-- Names that are there stay, and owners get names. -/
structure NamesOwners (m after : Model) : Prop where
  named : ∀ id name, m.name? id = some name → after.name? id = some name
  owners : m.OwnersNamed → after.OwnersNamed

variable {m middle after : Model}

theorem OwnerNamed.mono {owner? : Option ElementId} (around : m.OwnerNamed owner?)
    (kept : ∀ id name, m.name? id = some name → after.name? id = some name) : after.OwnerNamed owner? := by
  intro owner same
  obtain ⟨name, named⟩ := around owner same
  exact ⟨name, kept owner name named⟩

theorem lt_size_of_name {id : Nat} {name : String} (named : m.name? id = some name) : id < m.size := by
  refine Nat.lt_of_not_le fun unknown => ?_
  simp [Model.name?, element_eq_default unknown, default] at named

namespace NamesOwners

theorem trans (first : NamesOwners m middle) (last : NamesOwners middle after) : NamesOwners m after where
  named id name same := last.named id name (first.named id name same)
  owners named := last.owners (first.owners named)

theorem of_sameTree (same : SameTree m after) : NamesOwners m after where
  named id name known := (same.name id).trans known
  owners named id owner owned := by
    rw [same.name]
    exact named id owner ((same.owner id).symm.trans owned)

theorem refl (m : Model) : NamesOwners m m :=
  of_sameTree (.refl m)

theorem add {owner? : Option ElementId} (around : m.OwnerNamed owner?) (kind : ElementKind) (name? : Option String) :
    NamesOwners m (m.add owner? kind name?) := by
  have kept : ∀ id name, m.name? id = some name → (m.add owner? kind name?).name? id = some name := by
    intro id name named
    rw [name_add, if_neg (lt_size_of_name named).ne, named]
  refine ⟨kept, fun named id => ?_⟩
  rw [owner_add]
  split
  · exact fun owner owned => around.mono kept owner (known_eq_some.mp owned).1
  · exact (named id).mono kept

end NamesOwners

theorem OwnersNamed.empty : OwnersNamed .empty := by
  intro id owner owned
  simp [Model.owner?, element, Model.empty, default] at owned

end Model

namespace Draft
open Model

variable {d : Draft} {owner? : Option ElementId}

theorem sameTree_addHeader (id : ElementId) (kind : UsageKind) (header : UsageHeader) :
    SameTree d.model (d.addHeader id kind header).model := by
  have described := ((Describes.setMultiplicity (d := d) id header.multiplicity?).trans (.setValue id header.value?)).trans
    (.addGenerals id (header.types ++ header.subsets))
  rw [addHeader]
  cases header.redefines? with
  | none => exact described.graph.toSameTree
  | some target => exact described.graph.toSameTree

/-- What is declared inside an element that has a name is owned by this name. -/
theorem namesOwners_addNamed (around : d.model.OwnerNamed owner?) {kind : ElementKind} {name : Spanned String}
    {content : Draft → ElementId → Draft}
    (filled : ∀ (added : Draft) id, added.model.OwnerNamed (some id) → NamesOwners added.model (content added id).model) :
    NamesOwners d.model (d.addNamed owner? kind name content).model := by
  rw [addNamed]
  cases d.duplicate? owner? name with
  | some problem => exact .refl _
  | none =>
    have added : NamesOwners d.model (d.add owner? kind (some name.value) name.span).model := .add around kind _
    refine added.trans (filled _ _ fun owner same => ⟨name.value, ?_⟩)
    rw [← Option.some.inj same, Draft.add, name_add, if_pos rfl]

mutual

/-- Only what is declared by name has members. -/
theorem namesOwners_declare (owner? : Option ElementId) : ∀ (declaration : Declaration) (d : Draft),
    d.model.OwnerNamed owner? → NamesOwners d.model (d.declare owner? declaration).model
  | .package name members, d, around => by
    rw [declare]
    exact namesOwners_addNamed around fun added id named =>
      namesOwners_declareAll (some id) members added named
  | .definition kind name generals members, d, around => by
    rw [declare]
    exact namesOwners_addNamed around fun added id named =>
      namesOwners_declareAll (some id) members (added.addGenerals id generals) named
  | .usage kind header members, d, around => by
    rw [declare]
    cases header.declaredName? with
    | none => exact .refl _
    | some name =>
      refine namesOwners_addNamed around fun added id named => ?_
      have described : NamesOwners added.model (added.addHeader id kind header).model :=
        .of_sameTree (sameTree_addHeader id kind header)
      exact described.trans (namesOwners_declareAll (some id) members _ (named.mono described.named))
  | .enumerationLiteral name, d, around => by
    rw [declare]
    exact namesOwners_addNamed around fun added _ _ => .refl _
  | .comment none about body, d, around => by
    rw [declare]
    have added : NamesOwners d.model (d.add owner? .comment none body.span).model := .add around _ _
    exact added.trans (.of_sameTree (Describes.addComment _ about body).graph.toSameTree)
  | .comment (some name) about body, d, around => by
    rw [declare]
    exact namesOwners_addNamed around fun added id _ => .of_sameTree (Describes.addComment id about body).graph.toSameTree
  | .documentation locale? body, d, around => by
    rw [declare]
    have added : NamesOwners d.model (d.add owner? .documentation none body.span).model := .add around _ _
    have described := (Describes.setBody (d := d.add owner? .documentation none body.span) d.model.size body.value).trans
      (.setLocale d.model.size locale?)
    exact added.trans (.of_sameTree described.graph.toSameTree)
  | .importing _, d, around => by
    rw [declare]
    exact .refl _

theorem namesOwners_declareAll (owner? : Option ElementId) : ∀ (declarations : List Declaration) (d : Draft),
    d.model.OwnerNamed owner? → NamesOwners d.model (d.declareAll owner? declarations).model
  | [], d, around => by
    rw [declareAll]
    exact .refl _
  | declaration :: rest, d, around => by
    rw [declareAll]
    have first := namesOwners_declare owner? declaration d around
    exact first.trans (namesOwners_declareAll owner? rest _ (around.mono first.named))

end

theorem ownersNamed_ofDeclarations (declarations : List Declaration) : (ofDeclarations declarations).model.OwnersNamed :=
  (namesOwners_declareAll none declarations .empty nofun).owners .empty

end Draft

namespace Model

variable {m : Model} {id owner : Nat} {name : String}

theorem absolutePath_of_none (root : m.owner? id = none) (named : m.name? id = some name) : m.absolutePath id = [name] := by
  simp [absolutePath, enclosing_of_none root, named]

theorem absolutePath_of_some (owned : m.owner? id = some owner) (named : m.name? id = some name) :
    m.absolutePath id = m.absolutePath owner ++ [name] := by
  simp [absolutePath, enclosing_of_some owned, named]

/-- Where all owners have names, none of them is left out of a path. -/
theorem map_absolutePath (owners : OwnersNamed m) (named : m.name? id = some name) :
    (m.absolutePath id).map some = (m.enclosing id).reverse.map m.name? := by
  induction id using Nat.strong_induction_on generalizing name with
  | _ id ih =>
    cases owned : m.owner? id with
    | none => simp [absolutePath_of_none owned named, enclosing_of_none owned, named]
    | some owner =>
      obtain ⟨own, ownerNamed⟩ := owners id owner owned
      have around := ih owner (owner_lt owned) ownerNamed
      simp [absolutePath_of_some owned named, enclosing_of_some owned, named, around]

theorem absolutePath_ne_nil (named : m.name? id = some name) : m.absolutePath id ≠ [] := by
  cases owned : m.owner? id with
  | none => simp [absolutePath_of_none owned named]
  | some owner => simp [absolutePath_of_some owned named]

/-- The last segment of a path is a step down from what the others lead to. -/
theorem resolvePath_concat {start? : Option ElementId} {path : List String} (nonempty : path ≠ []) (name : String) :
    m.resolvePath? start? (path ++ [name]) = (m.resolvePath? start? path).bind fun found => m.descend? found name := by
  obtain ⟨first, rest, rfl⟩ := List.exists_cons_of_ne_nil nonempty
  rw [List.cons_append, resolvePath?, resolvePath?]
  cases (m.namespaces start?).findSome? fun space => m.child? space first with
  | none => rfl
  | some found => simp [List.foldlM_append]

/-- A name that no namespace on the way has is one of the roots. -/
theorem findSome_namespaces {start? : Option ElementId} {first : String}
    (free : ∀ space, some space ∈ m.namespaces start? → m.child? (some space) first = none) :
    (m.namespaces start?).findSome? (fun space => m.child? space first) = m.child? none first := by
  cases start? with
  | none => simp [namespaces]
  | some start =>
    have inner : ∀ space ∈ (m.enclosing start).map some, m.child? space first = none := by
      intro space member
      obtain ⟨outer, _, rfl⟩ := List.mem_map.mp member
      exact free outer (List.mem_append_left _ member)
    rw [namespaces, List.findSome?_append, List.findSome?_eq_none_iff.mpr inner]
    simp

/-- A direct member comes before every inherited feature, so each step down a path goes to the next owner. -/
theorem resolvePath_absolutePath (forest : Forest m) (distinct : DistinctNames m) (owners : OwnersNamed m)
    {start? : Option ElementId} (named : m.name? id = some name)
    (free : ∀ first, (m.absolutePath id).head? = some first →
      ∀ space, some space ∈ m.namespaces start? → m.child? (some space) first = none) :
    m.resolvePath? start? (m.absolutePath id) = some id := by
  induction id using Nat.strong_induction_on generalizing name with
  | _ id ih =>
    cases owned : m.owner? id with
    | none =>
      rw [absolutePath_of_none owned named] at free ⊢
      have root : m.child? none name = some id :=
        (child_eq_some_iff distinct).mpr ⟨(forest.root_iff id).mpr ⟨lt_size_of_name named, owned⟩, named⟩
      rw [resolvePath?, findSome_namespaces (free name rfl), root]
      rfl
    | some owner =>
      obtain ⟨own, ownerNamed⟩ := owners id owner owned
      have nonempty := absolutePath_ne_nil ownerNamed
      rw [absolutePath_of_some owned named] at free ⊢
      have reached : m.resolvePath? start? (m.absolutePath owner) = some owner :=
        ih owner (owner_lt owned) ownerNamed fun first head => free first (by simp [head])
      have member : m.child? (some owner) name = some id :=
        (child_eq_some_iff distinct).mpr ⟨(forest.member_iff owner id).mpr owned, named⟩
      rw [resolvePath_concat nonempty, reached, Option.bind_some, descend?, member]
      rfl

end Model

namespace LoadedModel
open Model

theorem ownersNamed_of_ofSource {source : String} {loaded : LoadedModel} (loads : ofSource source = .ok loaded) :
    loaded.model.OwnersNamed := by
  obtain ⟨declarations, _, declared⟩ := declarations_of_ofSource loads
  rw [(ofDeclarations_ok declared).1]
  have linking := Draft.linking_linked (Draft.ready_ofDeclarations declarations)
  exact (NamesOwners.of_sameTree linking.more.toSameTree).owners (Draft.ownersNamed_ofDeclarations declarations)

/-- An absolute path leads to its element from the root, and from every element unless this or one of its owners has a
member with the name that the path begins with. -/
theorem resolves_absolutePath {source : String} {loaded : LoadedModel} (loads : ofSource source = .ok loaded)
    {id : Nat} {name : String} (named : loaded.model.name? id = some name) :
    (loaded.model.absolutePath id).map some = (loaded.model.enclosing id).reverse.map loaded.model.name? ∧
      loaded.model.resolvePath? none (loaded.model.absolutePath id) = some id ∧
      ∀ start : Nat, (∀ outer ∈ loaded.model.enclosing start, ∀ member ∈ loaded.model.members outer,
        loaded.model.name? member ≠ (loaded.model.absolutePath id).head?) →
        loaded.model.resolvePath? (some start) (loaded.model.absolutePath id) = some id := by
  obtain ⟨valid, forest⟩ := valid_of_ofSource loads
  have owners := ownersNamed_of_ofSource loads
  refine ⟨map_absolutePath owners named, ?_, fun start apart => ?_⟩
  · exact resolvePath_absolutePath forest valid.distinct owners named fun _ _ space inner => by simp [namespaces] at inner
  · refine resolvePath_absolutePath forest valid.distinct owners named fun first head space inner => ?_
    have around : space ∈ loaded.model.enclosing start := by simpa [namespaces] using inner
    refine List.find?_eq_none.mpr fun member owned => ?_
    have other := apart space around member owned
    rw [head] at other
    simpa using other

theorem overriding_paths : ∃ loaded, ofSource overriding = .ok loaded ∧ loaded.model.name? 3 = some "w" ∧
    loaded.model.absolutePath 3 = ["B", "w"] ∧ loaded.model.enclosing 1 = [1, 0] ∧ loaded.model.members 1 = [] ∧
    loaded.model.members 0 = [1] ∧ loaded.model.name? 1 = some "w" := by
  have facts : ((ofSource overriding).map fun loaded => (loaded.model.name? 3, loaded.model.absolutePath 3,
      loaded.model.enclosing 1, loaded.model.members 1, loaded.model.members 0, loaded.model.name? 1)) =
      .ok (some "w", ["B", "w"], [1, 0], [], [1], some "w") := by cbv
  obtain ⟨loaded, loads, same⟩ := exists_of_map_ofSource facts
  simp only [Prod.mk.injEq] at same
  exact ⟨loaded, loads, same⟩

/-- The redefinition of `w` in `B` is found from inside `A`, though `B` inherits the feature `w` of `A`. -/
theorem resolves_overriding : ∃ loaded, ofSource overriding = .ok loaded ∧
    loaded.model.resolvePath? none ["B", "w"] = some 3 ∧ loaded.model.resolvePath? (some 1) ["B", "w"] = some 3 := by
  obtain ⟨loaded, loads, named, path, around, none, member, feature⟩ := overriding_paths
  obtain ⟨_, fromRoot, fromElement⟩ := resolves_absolutePath loads named
  rw [path] at fromRoot fromElement
  refine ⟨loaded, loads, fromRoot, fromElement 1 fun outer inside other owned => ?_⟩
  rw [around] at inside
  simp only [List.mem_cons, List.not_mem_nil, or_false] at inside
  rcases inside with rfl | rfl
  · simp [none] at owned
  · rw [member, List.mem_singleton] at owned
    simp [owned, feature]

end LoadedModel
end StructuralModel
