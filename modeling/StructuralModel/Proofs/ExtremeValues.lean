import Mathlib.Data.List.Induction
import StructuralModel.Proofs.StackGuard

/-! The least and the greatest value of a feature in the parts of a type. Every part that is reached takes part in the
choice with the value that it has, a part that stands for no instance as well. -/

namespace StructuralModel
open Operators

/-- The aggregate picks one of the values. -/
def Aggregate.Picks (kind : Aggregate) : Prop :=
  kind = .min ∨ kind = .max

/-- How a value has to compare with the best one so far to take its place. -/
def Aggregate.wanted : Aggregate → Ordering
  | .max => .gt
  | _ => .lt

namespace Model

section picking

variable {kind : Aggregate} (picks : kind.Picks) {table : ConversionTable}

include picks

theorem combine_none (value : Value) (weight : Float) :
    Aggregate.combine kind table none value weight = .ok value := by
  rcases picks with rfl | rfl <;> rfl

theorem combine_some (best value : Value) (weight : Float) :
    Aggregate.combine kind table (some best) value weight =
      order .lt value best table >>= fun ordering? => .ok (if ordering? = some kind.wanted then value else best) := by
  rcases picks with rfl | rfl <;> rfl

theorem combine_reweighted (result? : Option Value) (value : Value) (weight other : Float) :
    Aggregate.combine kind table result? value weight = Aggregate.combine kind table result? value other := by
  cases result? with
  | none => rw [combine_none picks, combine_none picks]
  | some best => rw [combine_some picks, combine_some picks]

theorem conclude_eq (m : Model) (type scope : ElementId) (found others : List Instance) (result? : Option Value) :
    kind.conclude m table type scope found result? = kind.conclude m table type scope others result? := by
  rcases picks with rfl | rfl <;> cases result? <;> rfl

end picking

section choice

variable (m : Model) (env : Environment) (featureValue : ElementId → ElementId → Evaluated Value) (kind : Aggregate)
  (feature : String)

/-- The outcome of an aggregate over some instances of a type. -/
def aggregateAmong (type scope : ElementId) (found : List Instance) : Evaluated Value :=
  m.gathered env featureValue kind feature none found >>= kind.conclude m env.conversions type scope found

/-- The value in the next part does not take the place of the best one so far. -/
def Idle (before : List Instance) (next : Instance) : Prop :=
  ∀ best?, m.gathered env featureValue kind feature none before = .ok best? →
    ∃ best value ordering?, best? = some best ∧
      m.valueInPart featureValue (Builtin.aggregate kind).name feature next.part = .ok value ∧
      order .lt value best env.conversions = .ok ordering? ∧ ordering? ≠ some kind.wanted

end choice

section aggregation

variable {m : Model} {env : Environment} {featureValue : ElementId → ElementId → Evaluated Value} {kind : Aggregate}
  {feature : String}

theorem evaluateWith_among {frame : Frame} {typeName featureName : Expr} {type : ElementId}
    (typed : m.typeArgument frame (Builtin.aggregate kind).name typeName = .ok type)
    (named : featureArgument (Builtin.aggregate kind).name featureName = .ok feature) :
    m.evaluateWith env featureValue frame (.call (Builtin.aggregate kind).name [typeName, featureName]) =
      m.aggregateAmong env featureValue kind feature type frame.scope (m.instances type frame.scope) := by
  rw [evaluateWith_aggregate _ (Builtin.ofName?_name _), aggregate_pair, typed, named]
  rfl

theorem gathered_append (result? : Option Value) (before after : List Instance) :
    m.gathered env featureValue kind feature result? (before ++ after) =
      m.gathered env featureValue kind feature result? before >>= fun middle? =>
        m.gathered env featureValue kind feature middle? after := by
  rw [gathered, List.foldlM_append]
  rfl

variable (picks : kind.Picks)

include picks

/-- Only the parts count, and their order. -/
theorem gathered_reweighted {found others : List Instance} (same : others.map (·.part) = found.map (·.part))
    (result? : Option Value) : m.gathered env featureValue kind feature result? others =
      m.gathered env featureValue kind feature result? found := by
  induction found generalizing others result? with
  | nil => rw [List.map_eq_nil_iff.mp same]
  | cons next rest ih =>
    obtain ⟨other, further, rfl, part, parts⟩ := List.map_eq_cons_iff.mp same
    rw [gathered_cons, gathered_cons, part]
    refine bind_congr fun value => ?_
    rw [combine_reweighted picks result? value other.weight next.weight]
    exact bind_congr fun result => ih parts (some result)

/-- Instances that are idle where they stand can be left out. -/
theorem gathered_filter (left : Instance → Bool) (found : List Instance)
    (idle : ∀ before next after, found = before ++ next :: after → left next = true →
      m.Idle env featureValue kind feature before next) :
    m.gathered env featureValue kind feature none (found.filter fun next => !left next) =
      m.gathered env featureValue kind feature none found := by
  -- Whether an instance is idle depends on what stands before it, so the last one is taken off first.
  induction found using List.reverseRecOn with
  | nil => rfl
  | append_singleton before next ih =>
    have earlier := ih fun first other after split => idle first other (after ++ [next]) (by simp [split])
    rw [List.filter_append, gathered_append, gathered_append, earlier]
    cases best : m.gathered env featureValue kind feature none before with
    | error error => rfl
    | ok best? =>
      rw [ok_bind, ok_bind]
      cases skipped : left next with
      | false => rw [List.filter_cons_of_pos (by simp [skipped]), List.filter_nil]
      | true =>
        obtain ⟨best, value, ordering?, rfl, given, compared, unwanted⟩ := idle before next [] rfl skipped best? best
        rw [List.filter_cons_of_neg (by simp [skipped]), List.filter_nil, gathered_cons, given, ok_bind,
          combine_some picks, compared, ok_bind, if_neg unwanted]
        rfl

end aggregation

/-- The least and the greatest value in the parts of a type depend on which parts are reached and not on how many
instances they stand for. Parts that stand for none can be left out where they do not come to be picked. -/
theorem evaluateWith_picked (m : Model) (env : Environment) (featureValue : ElementId → ElementId → Evaluated Value)
    (frame : Frame) {kind : Aggregate} (picks : kind.Picks) (typeName featureName : Expr) {type : ElementId}
    {feature : String} (typed : m.typeArgument frame (Builtin.aggregate kind).name typeName = .ok type)
    (named : featureArgument (Builtin.aggregate kind).name featureName = .ok feature) :
    (∀ others : List Instance, others.map (·.part) = (m.instances type frame.scope).map (·.part) →
      m.evaluateWith env featureValue frame (.call (Builtin.aggregate kind).name [typeName, featureName]) =
        m.aggregateAmong env featureValue kind feature type frame.scope others) ∧
    ((∀ before next after, m.instances type frame.scope = before ++ next :: after → (next.weight == 0) = true →
        m.Idle env featureValue kind feature before next) →
      m.evaluateWith env featureValue frame (.call (Builtin.aggregate kind).name [typeName, featureName]) =
        m.aggregateAmong env featureValue kind feature type frame.scope
          ((m.instances type frame.scope).filter fun next => !(next.weight == 0))) := by
  rw [evaluateWith_among typed named, aggregateAmong]
  refine ⟨fun others same => ?_, fun idle => ?_⟩
  · rw [aggregateAmong, gathered_reweighted picks same]
    exact bind_congr fun result? => conclude_eq picks ..
  · rw [aggregateAmong, gathered_filter picks (fun next => next.weight == 0) _ idle]
    exact bind_congr fun result? => conclude_eq picks ..

section cart

/-- A cart with a wide wheel. The spare wheel is not wide, and there is none of it. -/
def cart : List Edit := [
  .add none .partDefinition (some "Wheel"), .add (some 0) .feature (some "width"),
  .setValue 1 (.literal (.number 1)), .add none .partDefinition (some "WideWheel"), .addGeneral 2 0,
  .add (some 2) .feature (some "width"), .setRedefines 3 1, .setValue 3 (.literal (.number 2)),
  .add none .partDefinition (some "Cart"), .add (some 4) .partUsage (some "rear"), .addGeneral 5 2,
  .add (some 4) .partUsage (some "spare"), .addGeneral 6 0, .setMultiplicity 6 0]

theorem instances_cart : (ofEdits cart).instances 0 4 = [⟨5, 1 * Float.ofNat 1⟩, ⟨6, 1 * Float.ofNat 0⟩] := by
  have seen : (ofEdits cart).visibleFeatures 4 = [5, 6] ∧ (ofEdits cart).visibleFeatures 5 = [3] ∧
      (ofEdits cart).visibleFeatures 6 = [1] := ⟨by cbv, by cbv, by cbv⟩
  have kinds : (ofEdits cart).kind 5 = .partUsage ∧ (ofEdits cart).kind 6 = .partUsage ∧
      (ofEdits cart).kind 1 = .feature ∧ (ofEdits cart).kind 3 = .feature := ⟨by cbv, by cbv, by cbv, by cbv⟩
  have ends : (ofEdits cart).specializes 5 0 = true ∧ (ofEdits cart).specializes 6 0 = true := ⟨by cbv, by cbv⟩
  have counts : ((ofEdits cart).element 5).multiplicity = 1 ∧ ((ofEdits cart).element 6).multiplicity = 0 :=
    ⟨by cbv, by cbv⟩
  have below (weight : Float) : (ofEdits cart).instancesBelow 0 [5, 4] 5 weight = [] ∧
      (ofEdits cart).instancesBelow 0 [6, 4] 6 weight = [] := by
    constructor <;> rw [instancesBelow_eq] <;> simp [seen, kinds]
  rw [instances, instancesBelow_eq, seen.1]
  simp [kinds, ends, counts, below]

theorem filter_cart : ((ofEdits cart).instances 0 4).filter (fun next => !(next.weight == 0)) = [⟨5, 1 * Float.ofNat 1⟩] := by
  have weights : (1 * Float.ofNat 1 == 0) = false ∧ (1 * Float.ofNat 0 == 0) = true := by decide +kernel
  simp [instances_cart, weights]

theorem valueInPart_cart (function : String) (room : Nat) :
    (ofEdits cart).valueInPart ((ofEdits cart).featureValue {} (room + 1) []) function "width" 5 = .ok (.scalar 2) ∧
    (ofEdits cart).valueInPart ((ofEdits cart).featureValue {} (room + 1) []) function "width" 6 = .ok (.scalar 1) := by
  have found : (ofEdits cart).feature? 5 "width" = some 3 ∧ (ofEdits cart).feature? 6 "width" = some 1 :=
    ⟨by cbv, by cbv⟩
  have kinds : (ofEdits cart).kind 1 = .feature ∧ (ofEdits cart).kind 3 = .feature := ⟨by cbv, by cbv⟩
  have inherited : (ofEdits cart).isInherited 3 5 = true ∧ (ofEdits cart).isInherited 1 6 = true := ⟨by cbv, by cbv⟩
  have effective : (ofEdits cart).effective 3 5 = .ok 3 ∧ (ofEdits cart).effective 1 6 = .ok 1 := ⟨by cbv, by cbv⟩
  have valued : (ofEdits cart).value? 3 = some (.literal (.number 2)) ∧
      (ofEdits cart).value? 1 = some (.literal (.number 1)) := ⟨by cbv, by cbv⟩
  simp [valueInPart, found, elementValue, kinds, inherited, featureValue_eq, effective, expressedValue, valued,
    evaluateWith]

theorem order_cart (table : ConversionTable) : order .lt (.scalar 1) (.scalar 2) table = .ok (some .lt) := by
  have below : (1 : Float) < 2 := by decide +kernel
  simp [order, compare?, below]

/-- The rear wheel comes first. -/
theorem gathered_cart {kind : Aggregate} (picks : kind.Picks) (room : Nat) (weight : Float) :
    (ofEdits cart).gathered {} ((ofEdits cart).featureValue {} (room + 1) []) kind "width" none [⟨5, weight⟩] =
      .ok (some (.scalar 2)) := by
  rw [gathered_cons, (valueInPart_cart ..).1, ok_bind, combine_none picks]
  rfl

theorem typeArgument_cart (function : String) :
    (ofEdits cart).typeArgument ⟨4, none⟩ function (.reference ⟨"Wheel", []⟩) = .ok 0 := by
  cbv

theorem split_pair {first second next : Instance} {before after : List Instance}
    (split : [first, second] = before ++ next :: after) :
    before = [] ∧ next = first ∨ before = [first] ∧ next = second := by
  rcases before with _ | ⟨_, _ | ⟨_, before⟩⟩ <;> simp_all

/-- The spare wheel is no match for the wide one. -/
theorem evaluateWith_picked_cart : Aggregate.max.Picks ∧
    (ofEdits cart).evaluateWith {} ((ofEdits cart).featureValue {} 1 []) ⟨4, none⟩
        (.call "max" [.reference ⟨"Wheel", []⟩, .reference ⟨"width", []⟩]) =
      (ofEdits cart).aggregateAmong {} ((ofEdits cart).featureValue {} 1 []) .max "width" 0 4
        (((ofEdits cart).instances 0 4).filter fun next => !(next.weight == 0)) := by
  refine ⟨.inr rfl, (evaluateWith_picked (ofEdits cart) {} ((ofEdits cart).featureValue {} 1 []) ⟨4, none⟩ (.inr rfl)
    (.reference ⟨"Wheel", []⟩) (.reference ⟨"width", []⟩) (typeArgument_cart _) rfl).2 fun before next after split none => ?_⟩
  rw [instances_cart] at split
  rcases split_pair split with ⟨rfl, rfl⟩ | ⟨rfl, rfl⟩
  · exact absurd none (by decide +kernel)
  · intro best? gathered
    rw [gathered_cart (.inr rfl)] at gathered
    exact ⟨_, _, _, (Except.ok.inj gathered).symm, (valueInPart_cart _ 0).2, order_cart _, by decide⟩

theorem aggregateAmong_cart {kind : Aggregate} (picks : kind.Picks) (weight : Float) :
    (ofEdits cart).aggregateAmong {} ((ofEdits cart).featureValue {} 256 []) kind "width" 0 4 [⟨5, weight⟩] =
      .ok (.scalar 2) := by
  rw [aggregateAmong, gathered_cart picks 255]
  rcases picks with rfl | rfl <;> rfl

theorem least_cart : (ofEdits cart).evaluate {} (.call (Builtin.aggregate .min).name [.reference ⟨"Wheel", []⟩,
    .reference ⟨"width", []⟩]) 4 = .ok (.scalar 1) := by
  rw [evaluate, evaluateWith_among (typeArgument_cart _) rfl, instances_cart, aggregateAmong, ← List.singleton_append,
    gathered_append, gathered_cart (.inl rfl) 255, ok_bind, gathered_cons, (valueInPart_cart _ 255).2, ok_bind,
    combine_some (.inl rfl), order_cart]
  rfl

/-- The spare wheel makes the least width, although there is none. -/
theorem picked_weightless : ¬ ∀ (edits : List Edit) (env : Environment) (scope : ElementId) (kind : Aggregate)
    (typeName featureName : Expr) (type : ElementId) (feature : String), kind.Picks →
    (ofEdits edits).typeArgument ⟨scope, none⟩ (Builtin.aggregate kind).name typeName = .ok type →
    featureArgument (Builtin.aggregate kind).name featureName = .ok feature →
    (ofEdits edits).evaluate env (.call (Builtin.aggregate kind).name [typeName, featureName]) scope =
      (ofEdits edits).aggregateAmong env ((ofEdits edits).featureValue env env.maxDepth []) kind feature type scope
        (((ofEdits edits).instances type scope).filter fun next => !(next.weight == 0)) := by
  intro claim
  have same := claim cart {} 4 .min (.reference ⟨"Wheel", []⟩) (.reference ⟨"width", []⟩) 0 "width" (.inl rfl)
    (typeArgument_cart _) rfl
  rw [filter_cart, aggregateAmong_cart (.inl rfl), least_cart] at same
  have widths : (1 : Float) = 2 := Value.scalar.inj (Except.ok.inj same)
  have below : (1 : Float) < 2 := by decide +kernel
  have irreflexive : ¬ (2 : Float) < 2 := by decide +kernel
  rw [widths] at below
  exact irreflexive below

end cart

end Model
end StructuralModel
