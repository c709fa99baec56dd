import StructuralModel.Proofs.OwnErrors
import StructuralModel.Proofs.Ownership
import StructuralModel.Proofs.Reachability

/-! An expression depends on features only through their outcomes, and it asks only for features that
the model has, in scopes that the model has. -/

namespace StructuralModel

/-- A relation between outcomes that evaluation in a model keeps: steps of its own are related to themselves, among
them the resolution of what a scope inherits, and related steps followed by related steps are related. -/
structure Compatible (m : Model) (related : (α : Type) → Evaluated α → Evaluated α → Prop) : Prop where
  operational : ∀ {α} {outcome : Evaluated α}, Operational outcome → related α outcome outcome
  resolved : ∀ target scope, m.isInherited target scope = true →
    related ElementId (m.resolved target scope) (m.resolved target scope)
  bind : ∀ {α β} {first second : Evaluated α} {next other : α → Evaluated β}, related α first second →
    (∀ value, first = .ok value → related β (next value) (other value)) →
    related β (first >>= next) (second >>= other)

namespace Compatible

variable {m : Model} {related : (α : Type) → Evaluated α → Evaluated α → Prop} (compatible : Compatible m related)

include compatible

theorem own_bind {α β : Type} {own : Evaluated α} {next other : α → Evaluated β} (operational : Operational own)
    (rest : ∀ value, own = .ok value → related β (next value) (other value)) :
    related β (own >>= next) (own >>= other) :=
  compatible.bind (compatible.operational operational) rest

theorem bind_own {α β : Type} {first second : Evaluated α} {next : α → Evaluated β}
    (same : related α first second) (operational : ∀ value, Operational (next value)) :
    related β (first >>= next) (second >>= next) :=
  compatible.bind same fun value _ => compatible.operational (operational value)

theorem foldlM {α β : Type} {next other : α → β → Evaluated α} (list : List β) (start : α)
    (same : ∀ total, ∀ item ∈ list, related α (next total item) (other total item)) :
    related α (list.foldlM next start) (list.foldlM other start) := by
  induction list generalizing start with
  | nil => exact compatible.operational (.ok start)
  | cons item rest ih =>
    rw [List.foldlM_cons, List.foldlM_cons]
    exact compatible.bind (same start item (by simp))
      fun total _ => ih total fun total item member => same total item (by simp [member])

end Compatible

/-- A relation of this kind that takes notice of the guard's errors only. -/
structure Congruent (related : (α : Type) → Evaluated α → Evaluated α → Prop) : Prop where
  settled : ∀ {α} {outcome : Evaluated α}, Settled outcome → related α outcome outcome
  bind : ∀ {α β} {first second : Evaluated α} {next other : α → Evaluated β}, related α first second →
    (∀ value, first = .ok value → related β (next value) (other value)) →
    related β (first >>= next) (second >>= other)

namespace Congruent

variable {related : (α : Type) → Evaluated α → Evaluated α → Prop} (congruent : Congruent related)

include congruent

theorem compatible (m : Model) : Compatible m related where
  operational operational := congruent.settled operational.settled
  resolved target scope _ := congruent.settled (Model.settled_resolved target scope)
  bind := congruent.bind

theorem own_bind {α β : Type} {own : Evaluated α} {next other : α → Evaluated β} (settled : Settled own)
    (rest : ∀ value, own = .ok value → related β (next value) (other value)) :
    related β (own >>= next) (own >>= other) :=
  congruent.bind (congruent.settled settled) rest

end Congruent

namespace Model

variable {m : Model}

theorem isInherited_iff {target scope : ElementId} :
    m.isInherited target scope = true ↔ ∃ owner, m.owner? target = some owner ∧ m.Reaches scope owner := by
  simp [isInherited, Option.any_eq_true, specializes_iff]

/-- A scope inherits only if it is an element of the model: a position outside has no edges. -/
theorem lt_of_isInherited {target scope : Nat} (known : target < m.size)
    (inherited : m.isInherited target scope = true) : scope < m.size := by
  obtain ⟨owner, owned, reached⟩ := isInherited_iff.mp inherited
  rcases Relation.ReflTransGen.cases_head reached with rfl | ⟨next, edge, _⟩
  · exact Nat.lt_trans (owner_lt owned) known
  · exact edge.known.1

/-- The scope is the owner of the feature or inherits from it, if the feature has an owner. -/
def Sees (m : Model) (scope feature : ElementId) : Prop :=
  ∀ owner, m.owner? feature = some owner → m.Reaches scope owner

theorem sees_of_isInherited {target scope : ElementId} (inherited : m.isInherited target scope = true) :
    m.Sees scope target := by
  obtain ⟨owner, owned, reached⟩ := isInherited_iff.mp inherited
  intro other same
  exact Option.some.inj (owned.symm.trans same) ▸ reached

/-- A feature that is not inherited is evaluated in its owner. -/
theorem sees_owner (target : ElementId) : m.Sees ((m.owner? target).getD target) target := by
  intro owner owned
  rw [owned]
  exact .refl

/-- The scope in which a feature is evaluated that is not inherited. -/
theorem lt_of_owner {target : Nat} (known : target < m.size) : (m.owner? target).getD target < m.size := by
  cases owned : m.owner? target with
  | none => exact known
  | some owner => exact Nat.lt_trans (owner_lt owned) known

theorem lt_of_mem_redefinitionChain {feature target : Nat} (known : feature < m.size)
    (member : target ∈ m.redefinitionChain feature) : target < m.size := by
  rcases List.mem_cons.mp member with rfl | member
  · exact known
  · exact (redefined_reached _ _ _ member).known.2

theorem lt_of_expressive {feature : Nat} (known : feature < m.size) : m.expressive feature < m.size := by
  rw [expressive]
  cases found : (m.redefinitionChain feature).find? m.isExpressive with
  | some target => exact lt_of_mem_redefinitionChain known (List.mem_of_find?_eq_some found)
  | none =>
    refine lt_of_mem_redefinitionChain known ?_
    rw [redefinitionChain, List.getLastD_cons]
    exact List.getLastD_mem_cons ..

theorem lt_of_mem_nearestEnds {feature chosen : Nat} {closure : List Ancestor}
    (member : chosen ∈ m.nearestEnds feature closure) : chosen < m.size := by
  rw [nearestEnds] at member
  split at member
  next => cases member
  next =>
    obtain ⟨_, listed, rfl⟩ := List.mem_map.mp member
    obtain ⟨_, _, placed⟩ := List.mem_flatMap.mp (List.mem_filter.mp listed).1
    obtain ⟨_, ends, rfl⟩ := List.mem_map.mp placed
    have owned := (List.mem_filter.mp (List.mem_filter.mp ends).1).1
    exact (lt_of_mem_members (List.mem_filter.mp owned).1).2

theorem lt_of_resolve {feature scope chosen : Nat} (known : feature < m.size)
    (resolved : m.resolve feature scope = .ok chosen) : chosen < m.size := by
  rw [resolve] at resolved
  split at resolved
  next => cases resolved
  next =>
    split at resolved
    next => exact Except.ok.inj resolved ▸ lt_of_expressive known
    next single only =>
      exact Except.ok.inj resolved ▸ lt_of_expressive (lt_of_mem_nearestEnds (by rw [only]; simp))
    next => cases resolved

theorem lt_of_effective {feature scope chosen : Nat} (known : feature < m.size)
    (resolved : m.effective feature scope = .ok chosen) : chosen < m.size := by
  rw [effective] at resolved
  split at resolved
  next =>
    rw [Model.resolved] at resolved
    cases found : m.resolve feature scope with
    | error error =>
      rw [found] at resolved
      cases resolved
    | ok target =>
      rw [found] at resolved
      exact Except.ok.inj resolved ▸ lt_of_resolve known found
  next => exact Except.ok.inj resolved ▸ known

section congruence

variable {related : (α : Type) → Evaluated α → Evaluated α → Prop} (compatible : Compatible m related)
  {env : Environment} {first second : ElementId → ElementId → Evaluated Value}
  (agree : ∀ feature scope : Nat, feature < m.size → scope < m.size → m.Sees scope feature →
    related Value (first feature scope) (second feature scope))

include compatible agree

theorem elementValue_congr (target scope : ElementId) :
    related Value (m.elementValue first target scope) (m.elementValue second target scope) := by
  cases kind : m.kind target with
  | feature =>
    have known : target < m.size := lt_of_kind (by simp [kind])
    simp only [elementValue, kind]
    split
    next inherited => exact agree target scope known (lt_of_isInherited known inherited) (sees_of_isInherited inherited)
    next => exact agree target _ known (lt_of_owner known) (sees_owner target)
  | partUsage =>
    simp only [elementValue, kind]
    split
    next inherited => exact compatible.bind_own (compatible.resolved target scope inherited) fun _ => .ok _
    next => exact compatible.operational (.ok _)
  | partDefinition | attributeDefinition | enumerationDefinition | enumerationLiteral =>
    simp only [elementValue, kind]
    exact compatible.operational (.ok _)
  | package | comment | documentation =>
    simp only [elementValue, kind]
    exact compatible.operational (Operational.error_iff.mpr rfl)

theorem valueInPart_congr (function feature : String) (part : ElementId) :
    related Value (m.valueInPart first function feature part) (m.valueInPart second function feature part) := by
  rw [valueInPart, valueInPart]
  split
  · exact elementValue_congr compatible agree ..
  · exact compatible.operational (Operational.error_iff.mpr rfl)

theorem aggregate_congr (table : ConversionTable) (frame : Frame) (kind : Aggregate) (arguments : List Expr) :
    related Value (m.aggregate table first frame kind arguments)
      (m.aggregate table second frame kind arguments) := by
  match arguments with
  | [typeName, featureName] =>
    rw [aggregate_pair, aggregate_pair]
    refine compatible.own_bind (operational_typeArgument ..) fun type _ => ?_
    refine compatible.own_bind (operational_featureArgument ..) fun feature _ => ?_
    refine compatible.bind_own (compatible.foldlM _ _ fun result? next _ => ?_) fun _ => operational_conclude ..
    exact compatible.bind_own (valueInPart_congr compatible agree ..) fun _ => (operational_combine ..).bind fun _ _ => .ok _
  | [] | [_] | _ :: _ :: _ :: _ =>
    rw [aggregate_arity kind (by simp), aggregate_arity kind (by simp)]
    exact compatible.operational (Operational.error_iff.mpr rfl)

/-- Related outcomes of the features lead to related outcomes of every expression. -/
theorem evaluateWith_congr (frame : Frame) (expr : Expr) :
    related Value (m.evaluateWith env first frame expr) (m.evaluateWith env second frame expr) := by
  induction expr using evaluateWith.induct with
  | case1 | case2 | case3 | case4 =>
    simp only [evaluateWith]
    exact compatible.operational (.ok _)
  | case5 path =>
    simp only [evaluateWith]
    exact compatible.own_bind (operational_lookup ..) fun target _ => elementValue_congr compatible agree ..
  | case6 target name ih =>
    simp only [evaluateWith]
    refine compatible.bind ih fun value _ => ?_
    cases value with
    | composite element origin =>
      dsimp only
      split
      · exact elementValue_congr compatible agree ..
      · exact compatible.operational (Operational.throw_iff.mpr rfl)
    | _ => exact compatible.operational (Operational.throw_iff.mpr rfl)
  | case7 op operand ih =>
    simp only [evaluateWith]
    exact compatible.bind_own ih fun _ => Operators.operational_unary ..
  | case8 op lhs rhs left right =>
    simp only [evaluateWith]
    refine compatible.bind left fun value _ => ?_
    split
    · exact compatible.operational (.ok _)
    · exact compatible.bind_own right fun _ => Operators.operational_binary ..
  | case9 condition whenTrue whenFalse test positive negative =>
    simp only [evaluateWith]
    refine compatible.bind test fun value _ => ?_
    split
    · exact positive
    · exact negative
    · exact compatible.operational (Operational.throw_iff.mpr rfl)
  | case10 function arguments called =>
    rw [evaluateWith_unknown _ called, evaluateWith_unknown _ called]
    exact compatible.operational (Operational.error_iff.mpr rfl)
  | case11 function arguments called =>
    rw [evaluateWith_count _ (.inl called), evaluateWith_count _ (.inl called)]
    exact compatible.operational (operational_countInstances ..)
  | case12 function arguments called =>
    rw [evaluateWith_count _ (.inr called), evaluateWith_count _ (.inr called)]
    exact compatible.operational (operational_countInstances ..)
  | case13 function arguments kind called =>
    rw [evaluateWith_aggregate _ called, evaluateWith_aggregate _ called]
    exact aggregate_congr compatible agree ..
  | case14 function numeric called argument ih =>
    rw [evaluateWith_numeric _ called, evaluateWith_numeric _ called]
    exact compatible.bind_own ih fun _ => operational_applyNumeric ..
  | case16 function called argument ih =>
    rw [evaluateWith_sqrt _ called, evaluateWith_sqrt _ called]
    exact compatible.bind_own ih fun _ => operational_sqrtValue ..
  | case15 function numeric called arguments wrong =>
    rw [evaluateWith_arity (.inl ⟨numeric, called⟩) (length_ne_one wrong),
      evaluateWith_arity (.inl ⟨numeric, called⟩) (length_ne_one wrong)]
    exact compatible.operational (Operational.error_iff.mpr rfl)
  | case17 function called arguments wrong =>
    rw [evaluateWith_arity (.inr called) (length_ne_one wrong), evaluateWith_arity (.inr called) (length_ne_one wrong)]
    exact compatible.operational (Operational.error_iff.mpr rfl)

end congruence

end Model
end StructuralModel
