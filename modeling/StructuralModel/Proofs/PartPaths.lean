import StructuralModel.Proofs.OwnErrors
import StructuralModel.Proofs.Visibility

/-! What aggregates range over: the ways down from a scope through part usages. On each of them no part is met
twice, so there are finitely many on every model, cyclic part structures included. -/

namespace StructuralModel.Model

/-- A way down from a scope through part usages, each visible in the one before it. None is met twice, and none of
the barred elements is met. -/
structure PartPath (m : Model) (barred : List ElementId) (scope : ElementId) (path : List ElementId) : Prop where
  nonempty : path ≠ []
  parts : ∀ part ∈ path, m.kind part = .partUsage
  visible : (scope :: path).IsChain fun above part => part ∈ m.visibleFeatures above
  distinct : path.Nodup
  apart : ∀ part ∈ path, part ∉ barred

/-- One way down comes before another in depth-first order: it ends where the other one goes on, or where they part
it takes the feature that is listed first. -/
inductive DepthFirst (m : Model) : ElementId → List ElementId → List ElementId → Prop
  | ends {scope part rest} : DepthFirst m scope [] (part :: rest)
  | leaves {scope first second rest others} (listed : [first, second].Sublist (m.visibleFeatures scope)) :
      DepthFirst m scope (first :: rest) (second :: others)
  | shares {scope part path other} (deeper : DepthFirst m part path other) :
      DepthFirst m scope (part :: path) (part :: other)

/-- The number of instances that the last part of a path stands for, starting from some at its beginning. -/
def weightAlong (m : Model) (weight : Float) (path : List ElementId) : Float :=
  path.foldl (fun weight part => weight * Float.ofNat (m.element part).multiplicity) weight

/-- The ways down from a scope that meet none of some elements, as they are gone through depth-first. -/
def partPaths (m : Model) (barred : List ElementId) (scope : ElementId) : List (List ElementId) :=
  (m.visibleFeatures scope).attach.flatMap fun ⟨part, _⟩ =>
    if part ∈ barred then []
    else if m.kind part ≠ .partUsage then []
    else [part] :: (m.partPaths (part :: barred) part).map (part :: ·)
termination_by m.unmet barred
decreasing_by
  exact unmet_lt (lt_of_mem_visibleFeatures ‹_›) ‹_› (by simp +contextual) (by simp)

/-- The ways down that go through a part first. -/
def pathsThrough (m : Model) (barred : List ElementId) (part : ElementId) : List (List ElementId) :=
  if part ∈ barred then []
  else if m.kind part ≠ .partUsage then []
  else [part] :: (m.partPaths (part :: barred) part).map (part :: ·)

variable {m : Model} {barred : List ElementId} {scope part : ElementId} {path rest : List ElementId}

theorem partPaths_eq (barred : List ElementId) (scope : ElementId) :
    m.partPaths barred scope = (m.visibleFeatures scope).flatMap (m.pathsThrough barred) := by
  rw [partPaths, List.flatMap_subtype, List.unattach_attach]
  exact fun _ _ => rfl

theorem pathsThrough_of_part (new : part ∉ barred) (kind : m.kind part = .partUsage) :
    m.pathsThrough barred part = [part] :: (m.partPaths (part :: barred) part).map (part :: ·) := by
  rw [pathsThrough, if_neg new, if_neg (by simp [kind])]

theorem mem_pathsThrough : path ∈ m.pathsThrough barred part ↔
    part ∉ barred ∧ m.kind part = .partUsage ∧
      ∃ rest, path = part :: rest ∧ (rest = [] ∨ rest ∈ m.partPaths (part :: barred) part) := by
  rw [pathsThrough]
  split
  next old => simp [old]
  next new =>
    split
    next other => simp [other]
    next kind =>
      rw [not_not] at kind
      simp only [List.mem_cons, List.mem_map, new, kind, not_false_eq_true, true_and]
      constructor
      · rintro (rfl | ⟨rest, below, rfl⟩)
        · exact ⟨[], rfl, .inl rfl⟩
        · exact ⟨rest, rfl, .inr below⟩
      · rintro ⟨rest, rfl, rfl | below⟩
        · exact .inl rfl
        · exact .inr ⟨rest, below, rfl⟩

/-- After its first part a way down goes on as one from that part, which is barred from then on. -/
theorem partPath_cons : m.PartPath barred scope (part :: rest) ↔
    part ∈ m.visibleFeatures scope ∧ part ∉ barred ∧ m.kind part = .partUsage ∧
      (rest = [] ∨ m.PartPath (part :: barred) part rest) := by
  constructor
  · rintro ⟨_, parts, visible, distinct, apart⟩
    rw [List.isChain_cons_cons] at visible
    rw [List.nodup_cons] at distinct
    refine ⟨visible.1, apart part (by simp), parts part (by simp), ?_⟩
    by_cases last : rest = []
    · exact .inl last
    · refine .inr ⟨last, fun other member => parts other (by simp [member]), visible.2, distinct.2, ?_⟩
      intro other member
      rw [List.mem_cons, not_or]
      exact ⟨fun same => distinct.1 (same ▸ member), apart other (by simp [member])⟩
  · rintro ⟨visible, new, kind, rfl | below⟩
    · exact ⟨by simp, by simpa using kind, by simpa using visible, by simp, by simpa using new⟩
    · have unmet : part ∉ rest := fun again => below.apart part again (by simp)
      refine ⟨by simp, List.forall_mem_cons.mpr ⟨kind, below.parts⟩, .cons_cons visible below.visible,
        List.nodup_cons.mpr ⟨unmet, below.distinct⟩, List.forall_mem_cons.mpr ⟨new, fun other member => ?_⟩⟩
      exact fun old => below.apart other member (List.mem_cons_of_mem _ old)

theorem mem_partPaths : path ∈ m.partPaths barred scope ↔ m.PartPath barred scope path := by
  induction barred, scope using partPaths.induct m generalizing path with
  | case1 barred scope ih =>
    rw [partPaths_eq, List.mem_flatMap]
    simp only [mem_pathsThrough]
    constructor
    · rintro ⟨part, visible, new, kind, rest, rfl, below⟩
      exact partPath_cons.mpr ⟨visible, new, kind, below.imp_right (ih part visible new).mp⟩
    · intro way
      cases path with
      | nil => exact absurd rfl way.nonempty
      | cons part rest =>
        obtain ⟨visible, new, kind, below⟩ := partPath_cons.mp way
        exact ⟨part, visible, new, kind, rest, rfl, below.imp_right (ih part visible new).mpr⟩

theorem DepthFirst.irrefl (forest : Forest m) (path : List ElementId) (scope : ElementId) :
    ¬ m.DepthFirst scope path path := by
  induction path generalizing scope with
  | nil => exact nofun
  | cons part rest ih =>
    intro before
    cases before with
    | leaves listed =>
      have twice := List.Nodup.sublist listed (nodup_visibleFeatures forest scope)
      simp at twice
    | shares deeper => exact ih part deeper

theorem pairwise_partPaths (barred : List ElementId) (scope : ElementId) :
    (m.partPaths barred scope).Pairwise (m.DepthFirst scope) := by
  induction barred, scope using partPaths.induct m with
  | case1 barred scope ih =>
    rw [partPaths_eq, List.pairwise_flatMap]
    constructor
    -- Through one part, the part alone comes first and all other ways go on below it.
    · intro part visible
      by_cases through : part ∉ barred ∧ m.kind part = .partUsage
      · obtain ⟨new, kind⟩ := through
        rw [pathsThrough_of_part new kind, List.pairwise_cons, List.pairwise_map]
        refine ⟨fun longer member => ?_, (ih part visible new).imp .shares⟩
        obtain ⟨rest, below, rfl⟩ := List.mem_map.mp member
        obtain ⟨next, others, rfl⟩ := List.exists_cons_of_ne_nil (mem_partPaths.mp below).nonempty
        exact .shares .ends
      · have none : m.pathsThrough barred part = [] :=
          List.eq_nil_iff_forall_not_mem.mpr fun path member =>
            through ⟨(mem_pathsThrough.mp member).1, (mem_pathsThrough.mp member).2.1⟩
        rw [none]
        exact .nil
    -- Through different parts, the ways differ from the start.
    · refine List.pairwise_iff_forall_sublist.mpr fun listed path first other second => ?_
      obtain ⟨_, _, rest, rfl, _⟩ := mem_pathsThrough.mp first
      obtain ⟨_, _, others, rfl, _⟩ := mem_pathsThrough.mp second
      exact .leaves listed

/-- The instances are the last parts of the ways down that end in the type. -/
theorem instancesBelow_eq_map (type : ElementId) (barred : List ElementId) (scope : ElementId) (weight : Float) :
    m.instancesBelow type barred scope weight =
      ((m.partPaths barred scope).filter fun path => m.specializes (path.getLastD scope) type).map fun path =>
        ⟨path.getLastD scope, m.weightAlong weight path⟩ := by
  induction barred, scope, weight using instancesBelow.induct m with
  | case1 barred scope weight ih =>
    rw [instancesBelow_eq, partPaths_eq, List.filter_flatMap, List.map_flatMap]
    refine List.flatMap_congr fun part visible => ?_
    split
    next old => simp [pathsThrough, old]
    next new =>
      split
      next other => simp [pathsThrough, other]
      next kind =>
        rw [not_not] at kind
        rw [pathsThrough_of_part new kind, ih part visible new, List.filter_cons, List.filter_map]
        simp only [Function.comp_def, List.getLastD_cons, List.getLastD_nil]
        cases m.specializes part type <;>
          simp only [if_true, Bool.false_eq_true, if_false, List.map_cons, List.map_map, Function.comp_def,
            List.getLastD_cons, List.getLastD_nil, weightAlong, List.foldl_cons, List.foldl_nil, List.nil_append,
            List.cons_append]

theorem totalWeight_map (paths : List (List ElementId)) (last : List ElementId → ElementId) (weight : List ElementId → Float) :
    totalWeight (paths.map fun path => ⟨last path, weight path⟩) = (paths.map weight).foldl (· + ·) (-0.0) := by
  rw [totalWeight, List.foldl_map, List.foldl_map]

/-- Aggregates range over the ways down from the scope that end in a part of the type, in depth-first order, and the
functions that count add up how many instances each of them stands for. -/
theorem instances_each_path (edits : List Edit) (type scope : ElementId) : ∃ paths : List (List ElementId),
    paths.Pairwise ((ofEdits edits).DepthFirst scope) ∧ paths.Nodup ∧
    (∀ path, path ∈ paths ↔ (ofEdits edits).PartPath [scope] scope path ∧
      (ofEdits edits).specializes (path.getLastD scope) type = true) ∧
    (ofEdits edits).instances type scope =
      paths.map (fun path => ⟨path.getLastD scope, (ofEdits edits).weightAlong 1 path⟩) ∧
    ∀ env featureValue origin? function argument, function = "count" ∨ function = "size" →
      (ofEdits edits).typeArgument ⟨scope, origin?⟩ function argument = .ok type →
      (ofEdits edits).evaluateWith env featureValue ⟨scope, origin?⟩ (.call function [argument]) =
        .ok (.scalar ((paths.map ((ofEdits edits).weightAlong 1)).foldl (· + ·) (-0.0))) := by
  have ordered := (pairwise_partPaths (m := ofEdits edits) [scope] scope).filter fun path =>
    (ofEdits edits).specializes (path.getLastD scope) type
  have found : (ofEdits edits).instances type scope = _ := instancesBelow_eq_map type [scope] scope 1
  refine ⟨_, ordered, ordered.imp fun before same => ?_, fun path => ?_, found, ?_⟩
  · exact DepthFirst.irrefl (Forest.ofEdits edits) _ scope (same ▸ before)
  · rw [List.mem_filter, mem_partPaths]
  · intro env featureValue origin? function argument named typed
    have called : Builtin.ofName? function = some .count ∨ Builtin.ofName? function = some .size := by
      rcases named with rfl | rfl
      · exact .inl rfl
      · exact .inr rfl
    rw [evaluateWith_count _ called, countInstances, typed, ok_bind, found, totalWeight_map]
    rfl

/-- Every node has two left nodes and three right ones. -/
def nodes : List Edit := [
  .add none .partDefinition (some "Node"), .add (some 0) .partUsage (some "left"), .addGeneral 1 0,
  .setMultiplicity 1 2, .add (some 0) .partUsage (some "right"), .addGeneral 2 0, .setMultiplicity 2 3]

theorem instances_each_path_nodes :
    (ofEdits nodes).typeArgument ⟨0, none⟩ "count" (.reference ⟨"Node", []⟩) = .ok 0 ∧
    ∃ paths : List (List ElementId), [1, 2] ∈ paths ∧ [2, 1] ∈ paths ∧ [1, 1] ∉ paths ∧
      (ofEdits nodes).instances 0 0 =
        paths.map (fun path => ⟨path.getLastD 0, (ofEdits nodes).weightAlong 1 path⟩) ∧
      (ofEdits nodes).evaluateWith {} (fun _ _ => .ok .absent) ⟨0, none⟩ (.call "count" [.reference ⟨"Node", []⟩]) =
        .ok (.scalar ((paths.map ((ofEdits nodes).weightAlong 1)).foldl (· + ·) (-0.0))) := by
  have typed : (ofEdits nodes).typeArgument ⟨0, none⟩ "count" (.reference ⟨"Node", []⟩) = .ok 0 := by cbv
  have seen : (ofEdits nodes).visibleFeatures 0 = [1, 2] ∧ (ofEdits nodes).visibleFeatures 1 = [1, 2] ∧
      (ofEdits nodes).visibleFeatures 2 = [1, 2] := ⟨by cbv, by cbv, by cbv⟩
  have kinds : (ofEdits nodes).kind 1 = .partUsage ∧ (ofEdits nodes).kind 2 = .partUsage := ⟨by cbv, by cbv⟩
  have ends : (ofEdits nodes).specializes 1 0 = true ∧ (ofEdits nodes).specializes 2 0 = true := ⟨by cbv, by cbv⟩
  have leftRight : (ofEdits nodes).PartPath [0] 0 [1, 2] :=
    ⟨by simp, by simp [kinds], by simp [seen], by simp, by simp⟩
  have rightLeft : (ofEdits nodes).PartPath [0] 0 [2, 1] :=
    ⟨by simp, by simp [kinds], by simp [seen], by simp, by simp⟩
  obtain ⟨paths, _, _, listed, found, counted⟩ := instances_each_path nodes 0 0
  refine ⟨typed, paths, (listed _).mpr ⟨leftRight, ends.2⟩, (listed _).mpr ⟨rightLeft, ends.1⟩, fun again => ?_, found,
    counted _ _ none "count" _ (.inl rfl) typed⟩
  exact absurd ((listed _).mp again).1.distinct (by simp)

end StructuralModel.Model
