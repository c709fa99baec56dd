import StructuralModel.Proofs.BuildingSteps

/-! The path of an element is the names around it, joined by the separator. Paths are told apart as far as names can
be read back from them: a name with a separator in it, or one like the segment of an unnamed element, can make two
elements have the same path. -/

namespace StructuralModel

namespace QualifiedName

/-- The name is read back from every path that it stands in: no separator is found in it, not even with the start of
the separator that follows. -/
structure Unbroken (name : String) : Prop where
  within : ¬ [':', ':'] <:+: name.toList
  atEnd : name.toList.getLast? ≠ some ':'

theorem unbroken_of_plain {name : String} (plain : ':' ∉ name.toList) : Unbroken name where
  within inside := plain (inside.subset (by simp))
  atEnd last := plain (List.mem_of_getLast? last)

theorem toList_anonymous (position : Nat) : (anonymous position).toList = ['_', '_'] ++ Nat.toDigits 10 position := by
  simp [anonymous, Nat.repr, Nat.toString_eq_repr]

theorem unbroken_anonymous (position : Nat) : Unbroken (anonymous position) := by
  apply unbroken_of_plain
  rw [toList_anonymous]
  intro member
  rcases List.mem_append.mp member with mark | digit
  · simp at mark
  · exact absurd (Nat.isDigit_of_mem_toDigits (by decide) (by decide) digit) (by decide)

theorem anonymous_injective {position other : Nat} (same : anonymous position = anonymous other) : position = other := by
  have digits := (String.append_right_inj "__").mp same
  rw [Nat.toString_eq_repr, Nat.toString_eq_repr] at digits
  exact Nat.repr_injective digits

theorem segmentChars_cons {c next : Char} {rest segment : List Char} {segments : List (List Char)}
    (apart : ¬ (c = ':' ∧ next = ':')) (found : segmentChars (next :: rest) = segment :: segments) :
    segmentChars (c :: next :: rest) = (c :: segment) :: segments := by
  rw [segmentChars, found]
  exact fun first second => apart ⟨first, second⟩

theorem apart_of_within {c next : Char} {rest : List Char} (within : ¬ [':', ':'] <:+: c :: next :: rest) :
    ¬ (c = ':' ∧ next = ':') := by
  rintro ⟨rfl, rfl⟩
  exact within ⟨[], rest, rfl⟩

theorem segmentChars_single {name : List Char} (within : ¬ [':', ':'] <:+: name) : segmentChars name = [name] := by
  induction name with
  | nil => rfl
  | cons c more ih =>
    cases more with
    | nil => rfl
    | cons next more =>
      have later := ih fun inside => within (List.infix_cons inside)
      exact segmentChars_cons (apart_of_within within) later

theorem segmentChars_separated {name : List Char} (within : ¬ [':', ':'] <:+: name)
    (atEnd : name.getLast? ≠ some ':') (rest : List Char) :
    segmentChars (name ++ ':' :: ':' :: rest) = name :: segmentChars rest := by
  induction name with
  | nil => rfl
  | cons c more ih =>
    cases more with
    | nil =>
      have plain : c ≠ ':' := by simpa using atEnd
      exact segmentChars_cons (fun both => plain both.1) rfl
    | cons next more =>
      have later := ih (fun inside => within (List.infix_cons inside)) (by simpa using atEnd)
      exact segmentChars_cons (apart_of_within within) later

/-- Names that are read back from every path are read back from the path that they make up. -/
theorem segments_joinAll {names : List String} (nonempty : names ≠ []) (unbroken : ∀ name ∈ names, Unbroken name) :
    segments (joinAll names) = names := by
  have chars : segmentChars (joinAll names).toList = names.map String.toList := by
    rw [joinAll, String.toList_intercalate]
    induction names with
    | nil => exact absurd rfl nonempty
    | cons name rest ih =>
      have first := unbroken name List.mem_cons_self
      cases rest with
      | nil => simpa using segmentChars_single first.within
      | cons next rest =>
        have later := ih (by simp) fun name member => unbroken name (List.mem_cons_of_mem _ member)
        have separated := segmentChars_separated first.within first.atEnd
          (List.intercalate "::".toList ((next :: rest).map String.toList))
        rw [later] at separated
        simpa using separated
  rw [segments, chars, List.map_map]
  simp [Function.comp_def]

theorem joinAll_concat {names : List String} (nonempty : names ≠ []) (last : String) :
    joinAll (names ++ [last]) = join (joinAll names) last := by
  apply String.toList_injective
  simp only [join, joinAll, String.toList_intercalate, String.toList_append]
  induction names with
  | nil => exact absurd rfl nonempty
  | cons name rest ih =>
    cases rest with
    | nil => simp
    | cons next rest =>
      have later := ih (by simp)
      simp only [List.cons_append, List.map_cons, List.intercalate_cons_cons, List.append_assoc] at later ⊢
      rw [later]

end QualifiedName

namespace Model
open QualifiedName

variable {m : Model}

/-- What stands for an element in the paths of all that it encloses. -/
def segment (m : Model) (id : ElementId) : String :=
  (m.name? id).getD (anonymous id)

/-- The segments of an element and its owners, from the outside in. -/
def segmentsTo (m : Model) (id : ElementId) : List String :=
  (m.enclosing id).reverse.map m.segment

theorem segmentsTo_of_none {id : Nat} (root : m.owner? id = none) : m.segmentsTo id = [m.segment id] := by
  simp [segmentsTo, enclosing_of_none root]

theorem segmentsTo_of_some {id owner : Nat} (owned : m.owner? id = some owner) :
    m.segmentsTo id = m.segmentsTo owner ++ [m.segment id] := by
  simp [segmentsTo, enclosing_of_some owned]

theorem segmentsTo_ne_nil (id : Nat) : m.segmentsTo id ≠ [] := by
  cases owned : m.owner? id with
  | none => simp [segmentsTo_of_none owned]
  | some owner => simp [segmentsTo_of_some owned]

theorem length_segmentsTo_ne (owner : Nat) {segment own : String} :
    [segment].length ≠ (m.segmentsTo owner ++ [own]).length := by
  have nonempty := List.length_pos_iff.mpr (m.segmentsTo_ne_nil owner)
  rw [List.length_append, List.length_singleton, List.length_singleton]
  omega

/-- The path of every element is that of its owner with its own segment. -/
def Pathed (m : Model) : Prop :=
  ∀ id : Nat, id < m.size → m.path id = match m.owner? id with
    | some owner => join (m.path owner) (m.segment id)
    | none => m.segment id

theorem Pathed.path_eq (pathed : Pathed m) {id : Nat} (known : id < m.size) : m.path id = joinAll (m.segmentsTo id) := by
  induction id using Nat.strong_induction_on with
  | _ id ih =>
    rw [pathed id known]
    cases owned : m.owner? id with
    | none => simp [segmentsTo_of_none owned, joinAll]
    | some owner =>
      have older : owner < id := owner_lt owned
      have around := ih owner older (Nat.lt_trans older known)
      dsimp only
      rw [segmentsTo_of_some owned, joinAll_concat (segmentsTo_ne_nil owner), around]

/-- The elements of the second model have the paths they have in the first. -/
structure SamePaths (m other : Model) : Prop where
  path (id : ElementId) : other.path id = m.path id

namespace SamePaths

theorem refl (m : Model) : SamePaths m m := ⟨fun _ => rfl⟩

theorem trans {middle last : Model} (first : SamePaths m middle) (second : SamePaths middle last) :
    SamePaths m last :=
  ⟨fun id => (second.path id).trans (first.path id)⟩

theorem update {id : ElementId} {f : Element → Element} {members_kept owner_kept general_kept}
    (kept : ∀ e, (f e).path = e.path) : SamePaths m (m.update id f members_kept owner_kept general_kept) :=
  ⟨fun other => read_update Element.path kept other⟩

/-- An edit other than an addition leaves the paths as they are. -/
theorem apply (edit : Edit) (described : ∀ owner? kind name?, edit ≠ .add owner? kind name?) :
    SamePaths m (m.apply edit) := by
  cases edit with
  | add owner? kind name? => exact absurd rfl (described owner? kind name?)
  | setKind id kind => exact (update fun _ => rfl : SamePaths m (m.setKind id kind))
  | addGeneral id general =>
    rw [Model.apply, Model.addGeneral]
    split
    · exact update fun _ => rfl
    · exact refl m
  | setRedefines id redefined =>
    rw [Model.apply, Model.setRedefines]
    split
    · exact update fun _ => rfl
    · exact refl m
  | setValue id value => exact (update fun _ => rfl : SamePaths m (m.setValue id value))
  | setMultiplicity id count => exact (update fun _ => rfl : SamePaths m (m.setMultiplicity id count))
  | setBody id text => exact (update fun _ => rfl : SamePaths m (m.setBody id text))
  | setLocale id locale => exact (update fun _ => rfl : SamePaths m (m.setLocale id locale))
  | addAbout comment target =>
    rw [Model.apply, Model.addAbout]
    split
    · exact trans (update (by intro _; rfl)) (update (by intro _; rfl))
    · exact refl m

end SamePaths

theorem path_add {owner? : Option ElementId} {kind : ElementKind} {name? : Option String} (id : Nat) :
    (m.add owner? kind name?).path id =
      if id = m.size then
        match m.known? owner? with
        | some owner => join (m.path owner) (name?.getD (anonymous m.size))
        | none => name?.getD (anonymous m.size)
      else m.path id := by
  simp only [path]
  split
  next new => rw [new, element_add_last]; rfl
  next old =>
    rw [element_add_of_ne old]
    split <;> rfl

namespace Pathed

theorem empty : Pathed .empty := by
  intro id known
  simp [size, Model.empty] at known

theorem of_same {other : Model} (pathed : Pathed m) (tree : SameTree m other) (paths : SamePaths m other) :
    Pathed other := by
  intro id known
  have kept := pathed id (tree.size ▸ known)
  simp only [segment, tree.name, tree.owner, paths.path] at kept ⊢
  exact kept

/-- Owners are older than what they own, so the paths that are there stay as they are. -/
theorem add (pathed : Pathed m) (owner? : Option ElementId) (kind : ElementKind) (name? : Option String) :
    Pathed (m.add owner? kind name?) := by
  intro id known
  rw [size_add] at known
  by_cases new : id = m.size
  · subst new
    rw [path_add, owner_add, if_pos rfl, if_pos rfl]
    simp only [segment, name_add, if_true]
    cases owned : m.known? owner? with
    | none => rfl
    | some owner =>
      have older : owner < m.size := (known_eq_some.mp owned).2
      simp only [path_add, if_neg (Nat.ne_of_lt older)]
  · have old : id < m.size := by omega
    have kept := pathed id old
    rw [path_add, owner_add, if_neg new, if_neg new, kept]
    simp only [segment, name_add, if_neg new]
    cases owned : m.owner? id with
    | none => rfl
    | some owner =>
      have older : owner < id := owner_lt owned
      have apart : owner ≠ m.size := Nat.ne_of_lt (Nat.lt_trans older old)
      simp only [path_add, if_neg apart]

theorem apply (pathed : Pathed m) (edit : Edit) : Pathed (m.apply edit) := by
  have paths := SamePaths.apply (m := m) edit
  cases edit with
  | add owner? kind name? => exact pathed.add owner? kind name?
  | setKind id kind => exact pathed.of_same (.setKind id kind) (paths nofun)
  | addGeneral id general => exact pathed.of_same (.addGeneral id general) (paths nofun)
  | setRedefines id redefined => exact pathed.of_same (.setRedefines id redefined) (paths nofun)
  | setValue id value => exact pathed.of_same (SameGraph.setValue id value).toSameTree (paths nofun)
  | setMultiplicity id count => exact pathed.of_same (SameGraph.setMultiplicity id count).toSameTree (paths nofun)
  | setBody id text => exact pathed.of_same (SameGraph.setBody id text).toSameTree (paths nofun)
  | setLocale id locale => exact pathed.of_same (SameGraph.setLocale id locale).toSameTree (paths nofun)
  | addAbout comment target => exact pathed.of_same (SameGraph.addAbout comment target).toSameTree (paths nofun)

end Pathed

/-- The name of an element can be read back from paths, and no unnamed element beside it has it as its segment. -/
structure Telling (m : Model) (id : Nat) (name : String) : Prop where
  unbroken : Unbroken name
  own : ∀ other : Nat, other < m.size → m.owner? other = m.owner? id → m.name? other = none → name ≠ anonymous other

/-- All names on the way from the root to an element are telling. -/
def ToldApart (m : Model) (id : Nat) : Prop :=
  ∀ outer ∈ m.enclosing id, ∀ name, m.name? outer = some name → m.Telling outer name

theorem ToldApart.owner {id owner : Nat} (told : m.ToldApart id) (owned : m.owner? id = some owner) :
    m.ToldApart owner :=
  fun outer around => told outer (mem_enclosing.mpr (.inr ⟨owner, owned, around⟩))

theorem ToldApart.unbroken {id : Nat} (told : m.ToldApart id) : ∀ name ∈ m.segmentsTo id, Unbroken name := by
  intro name member
  obtain ⟨outer, around, rfl⟩ := List.mem_map.mp member
  rw [segment]
  cases named : m.name? outer with
  | none => exact unbroken_anonymous outer
  | some name => exact (told outer (List.mem_reverse.mp around) name named).unbroken

/-- Elements with one owner and one segment are the same. -/
theorem eq_of_segment (forest : m.Forest) (distinct : m.DistinctNames) {first second : Nat}
    (firstKnown : first < m.size) (secondKnown : second < m.size) (beside : m.owner? first = m.owner? second)
    (firstTold : m.ToldApart first) (secondTold : m.ToldApart second) (same : m.segment first = m.segment second) :
    first = second := by
  simp only [segment] at same
  cases firstNamed : m.name? first with
  | none =>
    cases secondNamed : m.name? second with
    | none =>
      rw [firstNamed, secondNamed] at same
      exact anonymous_injective same
    | some name =>
      rw [firstNamed, secondNamed] at same
      have telling := secondTold second mem_enclosing_self name secondNamed
      exact absurd same.symm (telling.own first firstKnown beside firstNamed)
  | some name =>
    cases secondNamed : m.name? second with
    | none =>
      rw [firstNamed, secondNamed] at same
      have telling := firstTold first mem_enclosing_self name firstNamed
      exact absurd same (telling.own second secondKnown beside.symm secondNamed)
    | some other =>
      rw [firstNamed, secondNamed] at same
      obtain rfl : name = other := same
      cases owned : m.owner? first with
      | none =>
        exact distinct none first second name ((forest.root_iff first).mpr ⟨firstKnown, owned⟩)
          ((forest.root_iff second).mpr ⟨secondKnown, beside.symm.trans owned⟩) firstNamed secondNamed
      | some owner =>
        exact distinct (some owner) first second name ((forest.member_iff owner first).mpr owned)
          ((forest.member_iff owner second).mpr (beside.symm.trans owned)) firstNamed secondNamed

theorem eq_of_segmentsTo (forest : m.Forest) (distinct : m.DistinctNames) {first second : Nat}
    (firstKnown : first < m.size) (secondKnown : second < m.size) (firstTold : m.ToldApart first)
    (secondTold : m.ToldApart second) (same : m.segmentsTo first = m.segmentsTo second) : first = second := by
  induction first using Nat.strong_induction_on generalizing second with
  | _ first ih =>
    cases firstOwned : m.owner? first with
    | none =>
      cases secondOwned : m.owner? second with
      | none =>
        rw [segmentsTo_of_none firstOwned, segmentsTo_of_none secondOwned, List.singleton_inj] at same
        exact eq_of_segment forest distinct firstKnown secondKnown (firstOwned.trans secondOwned.symm) firstTold
          secondTold same
      | some owner =>
        rw [segmentsTo_of_none firstOwned, segmentsTo_of_some secondOwned] at same
        exact absurd (congrArg List.length same) (length_segmentsTo_ne owner)
    | some owner =>
      cases secondOwned : m.owner? second with
      | none =>
        rw [segmentsTo_of_some firstOwned, segmentsTo_of_none secondOwned] at same
        exact absurd (congrArg List.length same.symm) (length_segmentsTo_ne owner)
      | some other =>
        rw [segmentsTo_of_some firstOwned, segmentsTo_of_some secondOwned] at same
        obtain ⟨around, own⟩ := List.append_inj' same rfl
        have firstOlder : owner < first := owner_lt firstOwned
        have secondOlder : other < second := owner_lt secondOwned
        have together : owner = other := ih owner firstOlder (Nat.lt_trans firstOlder firstKnown)
          (Nat.lt_trans secondOlder secondKnown) (firstTold.owner firstOwned) (secondTold.owner secondOwned) around
        have beside : m.owner? first = m.owner? second := by rw [firstOwned, secondOwned, together]
        exact eq_of_segment forest distinct firstKnown secondKnown beside firstTold secondTold
          (List.singleton_inj.mp own)

/-- The search for a path finds the first of the elements that have it. -/
theorem findPath?_path (ordered : m.traversal = List.range m.size) {id : Nat} (known : id < m.size) :
    ∃ first : Nat, first ≤ id ∧ m.findPath? (m.path id) = some first ∧ m.path first = m.path id ∧
      ∀ earlier : Nat, earlier < first → m.path earlier ≠ m.path id := by
  have some_id : ((List.range m.size).find? fun other => m.path other == m.path id).isSome = true :=
    List.find?_isSome.mpr ⟨id, List.mem_range.mpr known, by simp⟩
  obtain ⟨first, found⟩ := Option.isSome_iff_exists.mp some_id
  obtain ⟨same, _, earlier⟩ := List.find?_range_eq_some.mp found
  have before : ∀ other : Nat, other < first → m.path other ≠ m.path id := by simpa using earlier
  refine ⟨first, Nat.le_of_not_lt fun later => before id later rfl, ?_, by simpa using same, before⟩
  rw [findPath?, ordered]
  exact found

theorem findPath?_path_iff (ordered : m.traversal = List.range m.size) :
    (∀ first second : Nat, first < m.size → second < m.size → m.path first = m.path second → first = second) ↔
      ∀ id : Nat, id < m.size → m.findPath? (m.path id) = some id := by
  constructor
  · intro unique id known
    obtain ⟨first, early, found, same, _⟩ := findPath?_path ordered known
    obtain rfl := unique first id (Nat.lt_of_le_of_lt early known) known same
    exact found
  · intro found first second firstKnown secondKnown same
    have firstFound := found first firstKnown
    rw [same, found second secondKnown] at firstFound
    exact (Option.some.inj firstFound).symm

end Model

namespace LoadedModel
open Model QualifiedName

theorem pathed_of_ofSource {source : String} {loaded : LoadedModel} (loads : ofSource source = .ok loaded) :
    loaded.model.Pathed :=
  (builtFrom_empty loads).keeps (fun _ edit _ pathed => pathed.apply edit) .empty

theorem forest_of_ofSource {source : String} {loaded : LoadedModel} (loads : ofSource source = .ok loaded) :
    loaded.model.Forest := by
  obtain ⟨declarations, _, loads⟩ := declarations_of_ofSource loads
  exact forest_of_ofDeclarations loads

/-- Elements are told apart by their paths unless a name on the way to one of them is not telling. A search for a path
finds the first element that has it, so every element is found by its path exactly if all paths are different. -/
theorem path_injective {source : String} {loaded : LoadedModel} (loads : ofSource source = .ok loaded) :
    (∀ first second : Nat, first < loaded.model.size → second < loaded.model.size → loaded.model.ToldApart first →
      loaded.model.ToldApart second → loaded.model.path first = loaded.model.path second → first = second) ∧
    (∀ id : Nat, id < loaded.model.size → ∃ first : Nat, first ≤ id ∧
      loaded.model.findPath? (loaded.model.path id) = some first ∧ loaded.model.path first = loaded.model.path id ∧
      ∀ earlier : Nat, earlier < first → loaded.model.path earlier ≠ loaded.model.path id) ∧
    ((∀ first second : Nat, first < loaded.model.size → second < loaded.model.size →
      loaded.model.path first = loaded.model.path second → first = second) ↔
      ∀ id : Nat, id < loaded.model.size → loaded.model.findPath? (loaded.model.path id) = some id) := by
  have valid := wellFormed_of_ofSource loads
  have forest := forest_of_ofSource loads
  have pathed := pathed_of_ofSource loads
  refine ⟨?_, fun _ => findPath?_path valid.ordered, findPath?_path_iff valid.ordered⟩
  intro first second firstKnown secondKnown firstTold secondTold same
  rw [pathed.path_eq firstKnown, pathed.path_eq secondKnown] at same
  have segments := congrArg QualifiedName.segments same
  rw [segments_joinAll (segmentsTo_ne_nil first) firstTold.unbroken,
    segments_joinAll (segmentsTo_ne_nil second) secondTold.unbroken] at segments
  exact eq_of_segmentsTo forest valid.distinct firstKnown secondKnown firstTold secondTold segments

/-- `A` owns a comment without a name, and a feature whose name has a colon at its start. -/
def colonFirst : String :=
  "part def A \x7b comment /* x */ attribute ':b'; \x7d"

theorem colonFirst_loads : ∃ loaded, ofSource colonFirst = .ok loaded ∧ loaded.model.size = 3 ∧
    loaded.model.owner? 0 = none ∧ loaded.model.owner? 1 = some 0 ∧ loaded.model.owner? 2 = some 0 ∧
    loaded.model.name? 0 = some "A" ∧ loaded.model.name? 1 = none ∧ loaded.model.name? 2 = some ":b" := by
  have facts : ((ofSource colonFirst).map fun loaded => (loaded.model.size, loaded.model.owner? 0,
      loaded.model.owner? 1, loaded.model.owner? 2, loaded.model.name? 0, loaded.model.name? 1,
      loaded.model.name? 2)) = .ok (3, none, some 0, some 0, some "A", none, some ":b") := by cbv
  obtain ⟨loaded, loads, same⟩ := exists_of_map_ofSource facts
  simp only [Prod.mk.injEq] at same
  exact ⟨loaded, loads, same⟩

theorem path_colonFirst : ∃ loaded, ofSource colonFirst = .ok loaded ∧ loaded.model.ToldApart 1 ∧
    loaded.model.ToldApart 2 ∧ loaded.model.path 1 ≠ loaded.model.path 2 := by
  obtain ⟨loaded, loads, size, root, commentOwned, featureOwned, definition, comment, feature⟩ := colonFirst_loads
  have unnamed : ∀ id : Nat, id < loaded.model.size → loaded.model.name? id = none → id = 1 := by
    intro id known none
    obtain rfl | rfl | rfl : id = 0 ∨ id = 1 ∨ id = 2 := by omega
    · simp [definition] at none
    · rfl
    · simp [feature] at none
  have telling : ∀ id : Nat, ∀ name ∈ ["A", ":b"], loaded.model.Telling id name := by
    intro id name member
    constructor
    · simp only [List.mem_cons, List.not_mem_nil, or_false] at member
      rcases member with rfl | rfl <;> exact ⟨by decide, by decide⟩
    · intro other known _ none
      rw [unnamed other known none]
      simp only [List.mem_cons, List.not_mem_nil, or_false] at member
      rcases member with rfl | rfl <;> decide
  have commentTold : loaded.model.ToldApart 1 := by
    intro outer around name named
    rw [enclosing_of_some commentOwned, enclosing_of_none root] at around
    simp only [List.mem_cons, List.not_mem_nil, or_false] at around
    rcases around with rfl | rfl
    · simp [comment] at named
    · exact telling _ name (by simp_all)
  have featureTold : loaded.model.ToldApart 2 := by
    intro outer around name named
    rw [enclosing_of_some featureOwned, enclosing_of_none root] at around
    simp only [List.mem_cons, List.not_mem_nil, or_false] at around
    rcases around with rfl | rfl <;> exact telling _ name (by simp_all)
  refine ⟨loaded, loads, commentTold, featureTold, fun same => ?_⟩
  have equal := (path_injective loads).1 1 2 (by omega) (by omega) commentTold featureTold same
  cases equal

/-- The part `b` in `A` and the quoted part at the top level have one path. -/
def quotedSeparator : String :=
  "part def A \x7b part def b; \x7d part def 'A::b';"

theorem quotedSeparator_loads : ∃ loaded, ofSource quotedSeparator = .ok loaded ∧ loaded.model.size = 3 ∧
    loaded.model.path 1 = "A::b" ∧ loaded.model.path 2 = "A::b" ∧ loaded.model.findPath? "A::b" = some 1 := by
  have facts : ((ofSource quotedSeparator).map fun loaded => (loaded.model.size, loaded.model.path 1,
      loaded.model.path 2, loaded.model.findPath? "A::b")) = .ok (3, "A::b", "A::b", some 1) := by cbv
  obtain ⟨loaded, loads, same⟩ := exists_of_map_ofSource facts
  simp only [Prod.mk.injEq] at same
  exact ⟨loaded, loads, same⟩

/-- Different elements can have one path. -/
theorem not_unique_quotedSeparator : ¬ ∀ source loaded, ofSource source = .ok loaded →
    (∀ first second : Nat, first < loaded.model.size → second < loaded.model.size →
      loaded.model.path first = loaded.model.path second → first = second) ∧
    ∀ id : Nat, id < loaded.model.size → loaded.model.findPath? (loaded.model.path id) = some id := by
  intro unique
  obtain ⟨loaded, loads, size, nested, quoted, found⟩ := quotedSeparator_loads
  have foundLast := (unique quotedSeparator loaded loads).2 2 (by omega)
  rw [quoted, found] at foundLast
  cases foundLast

end LoadedModel
end StructuralModel
