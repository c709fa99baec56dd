import Mathlib
import StructuralModel.Proofs.Dimension
import StructuralModel.Proofs.ExpressionTokens
import StructuralModel.Proofs.StackGuard

/-! Where the units of results come from. A quantity is a literal or made from other quantities, so a set of units
that literals keep to and operators do not leave is never left, and there are errors about units only where the set
has a unit. The units that do not cancel in base symbols are such a set, and so is the empty one. -/

namespace StructuralModel

namespace ConversionTable
open PhysicalUnit

/-- Operators on quantities with these units give quantities with these units, or plain numbers. -/
structure Closed (table : ConversionTable) (admits : PhysicalUnit → Prop) : Prop where
  combined : ∀ {a b u}, admits a → admits b → a.mul? b = some u ∨ a.div? b = some u → table.dimension u ≠ 0 → admits u
  power : ∀ {u power} {n : Int}, admits u → u.pow? n = some power → power.isDimensionless = false → admits power
  root : ∀ {u root}, admits u → u.sqrt? = some root → root.isDimensionless = false → admits root

variable {table : ConversionTable} {u : PhysicalUnit}

/-- Without conversions every symbol counts for itself. -/
theorem dimensionOf_empty {factors : List Factor} (ascending : factors.Pairwise fun a b => a.1 < b.1) (name : String) :
    empty.dimensionOf factors name = exponentIn name factors := by
  induction factors with
  | nil => rfl
  | cons factor rest ih =>
    obtain ⟨other, n⟩ := factor
    rw [List.pairwise_cons] at ascending
    rw [dimensionOf_cons, Pi.add_apply, ih ascending.2, exponentIn]
    split
    next same =>
      subst same
      have absent : exponentIn other rest = 0 :=
        exponentIn_eq_zero fun factor member same => String.lt_irrefl _ (same ▸ ascending.1 factor member)
      rw [absent, add_zero]
      exact Pi.single_eq_same ..
    next apart =>
      have none : empty.factorDimension (other, n) name = 0 := Pi.single_eq_of_ne (Ne.symm apart) _
      rw [none, zero_add]

/-- A unit in base symbols measures something as soon as it has a symbol. -/
theorem dimension_empty_ne_zero (symbols : u.isDimensionless = false) : empty.dimension u ≠ 0 := by
  intro zero
  cases listed : u.factors with
  | nil => simp [isDimensionless, listed] at symbols
  | cons factor rest =>
    have exponent := congrFun zero factor.1
    rw [dimension, dimensionOf_empty u.canonical.ascending, listed, exponentIn, if_pos rfl] at exponent
    exact u.canonical.nonzero factor (by simp [listed]) exponent

theorem dimension_sqrt {root : PhysicalUnit} (even : u.sqrt? = some root) :
    table.dimension u = (2 : Int) • table.dimension root := by
  rw [sqrt?] at even
  split at even
  next halves =>
    obtain rfl := Option.some.inj even
    rw [dimension, dimension, mapExponents, dimensionOf, dimensionOf, List.smul_sum, List.map_map, List.map_map]
    refine congrArg List.sum (List.map_congr_left fun factor member => ?_)
    have whole : factor.2 / 2 * 2 = factor.2 := Int.ediv_mul_cancel (Int.dvd_of_emod_eq_zero (halves factor member))
    rw [Function.comp, Function.comp, ← factorDimension_mul, whole]
  next => cases even

/-- What does not cancel goes on not to cancel, whatever powers and roots are taken of it. -/
theorem closed_uncancelled (table : ConversionTable) : table.Closed fun u => table.dimension u ≠ 0 where
  combined _ _ _ measures := measures
  power {u power n} measures raised symbols zero := by
    rw [dimension_pow raised, smul_eq_zero] at zero
    rcases zero with rfl | zero
    · obtain rfl := Option.some.inj raised
      cases symbols
    · exact measures zero
  root measures even _ zero := measures (by rw [dimension_sqrt even, zero, smul_zero])

theorem closed_none (table : ConversionTable) : table.Closed fun _ => False :=
  ⟨fun impossible => impossible.elim, fun impossible => impossible.elim, fun impossible => impossible.elim⟩

end ConversionTable

/-- Numbers keep to a set of units, and handles stand for elements of the model. -/
def Value.Within (m : Model) (admits : PhysicalUnit → Prop) : Value → Prop
  | .quantity _ unit => admits unit
  | .composite element _ => (element : Nat) < m.size
  | .scalar _ | .boolean _ | .text _ | .literal .. | .absent => True

/-- Whether an error speaks of units that do not go together or leave the range of exponents. -/
def EvaluationError.concernsUnits : EvaluationError → Bool
  | .unitMismatch .. | .unitOverflow .. => true
  | _ => false

/-- What comes out has a property. An error about units takes a unit that is admitted. -/
structure Confined (admits : PhysicalUnit → Prop) {α : Type} (holds : α → Prop) (outcome : Evaluated α) : Prop where
  value : ∀ value, outcome = .ok value → holds value
  error : ∀ error, outcome = .error error → error.concernsUnits = true → ∃ unit, admits unit

namespace Confined

variable {admits : PhysicalUnit → Prop} {α β : Type} {holds : α → Prop}

theorem ok {value : α} (held : holds value) : Confined admits holds (.ok value) where
  value _ same := Except.ok.inj same ▸ held
  error _ impossible := nomatch impossible

theorem failed {error : EvaluationError} (other : error.concernsUnits = false) :
    Confined admits holds (.error error) where
  value _ impossible := nomatch impossible
  error _ same units := by
    rw [← Except.error.inj same, other] at units
    cases units

theorem failedOn {error : EvaluationError} {unit : PhysicalUnit} (admitted : admits unit) :
    Confined admits holds (.error error) where
  value _ impossible := nomatch impossible
  error _ _ _ := ⟨unit, admitted⟩

theorem bind {outcome : Evaluated α} {next : α → Evaluated β} {result : β → Prop} (first : Confined admits holds outcome)
    (rest : ∀ value, holds value → Confined admits result (next value)) : Confined admits result (outcome >>= next) := by
  cases outcome with
  | ok value => exact rest value (first.value value rfl)
  | error error =>
    rw [error_bind]
    refine ⟨fun _ impossible => (nomatch impossible), fun other same units => first.error error rfl ?_⟩
    rwa [Except.error.inj same]

theorem foldlM {next : α → β → Evaluated α} {list : List β} {start : α} (initial : holds start)
    (step : ∀ total item, holds total → Confined admits holds (next total item)) :
    Confined admits holds (list.foldlM next start) := by
  induction list generalizing start with
  | nil => exact ok initial
  | cons item rest ih =>
    rw [List.foldlM_cons]
    exact (step start item initial).bind fun total held => ih held

end Confined

namespace Operators
open ConversionTable

variable {m : Model} {table : ConversionTable} {admits : PhysicalUnit → Prop} {op : BinaryOp} {lhs rhs value : Value}
  {x y : Float} {xUnit yUnit : PhysicalUnit}

theorem within_measured (admitted : xUnit.isDimensionless = false → admits xUnit) :
    (Value.measured x xUnit).Within m admits := by
  rw [Value.measured]
  split
  next => trivial
  next symbols => exact admitted (Bool.eq_false_iff.mpr symbols)

theorem confined_unary (op : UnaryOp) (within : value.Within m admits) :
    Confined admits (Value.Within m admits) (unary op value) := by
  rw [unary.eq_def]
  split
  · exact .ok trivial
  · exact .ok within
  · exact .ok trivial
  · exact .failed rfl

theorem confined_convert (admitted : admits xUnit) : Confined admits (fun _ => True) (convert op xUnit y yUnit table) := by
  rw [convert]
  split
  · exact .ok trivial
  · exact .failedOn admitted

theorem confined_numbers : Confined admits (fun _ => True) (numbers op x y) := by
  rw [numbers.eq_def]
  split
  case h_4 | h_5 =>
    split
    · exact .failed rfl
    · exact .ok trivial
  case h_7 => exact .failed rfl
  all_goals exact .ok trivial

theorem confined_order (left : lhs.Within m admits) (right : rhs.Within m admits) :
    Confined admits (fun _ => True) (order op lhs rhs table) := by
  rw [order.eq_def]
  split
  · exact .ok trivial
  · exact (confined_convert left).bind fun _ _ => .ok trivial
  · exact .ok trivial
  · exact .failedOn right
  · exact .failedOn left
  · exact .failed rfl

theorem confined_equals (left : lhs.Within m admits) (right : rhs.Within m admits) :
    Confined admits (fun _ => True) (equals lhs rhs table) := by
  rw [equals.eq_def]
  split
  case h_2 => exact (confined_convert left).bind fun _ _ => .ok trivial
  case h_8 => exact .failedOn right
  case h_9 => exact .failedOn left
  case h_10 => exact .failed rfl
  all_goals exact .ok trivial

theorem confined_logical : Confined admits (Value.Within m admits) (logical op lhs rhs) := by
  rw [logical.eq_def]
  split
  · exact .ok trivial
  · exact .failed rfl

/-- A product that keeps its unit has one that does not cancel. -/
theorem confined_collapse (admitted : admits xUnit) (combined : table.dimension yUnit ≠ 0 → admits yUnit) :
    Confined admits (Value.Within m admits) (collapse op x yUnit table) := by
  rw [collapse]
  split
  next => exact .failedOn admitted
  next scale base normalized =>
    split
    next => exact .ok trivial
    next symbols =>
      apply Confined.ok
      apply combined
      rw [← dimension_normalize normalized]
      exact dimension_empty_ne_zero (Bool.eq_false_iff.mpr symbols)

section closed

variable (closed : table.Closed admits)

include closed

theorem confined_quantities (left : admits xUnit) (right : admits yUnit) :
    Confined admits (Value.Within m admits) (quantities op x xUnit y yUnit table) := by
  rw [quantities.eq_def]
  split
  case h_4 =>
    split
    next product => exact confined_collapse left (closed.combined left right (.inl product))
    next => exact .failedOn left
  case h_5 =>
    refine confined_numbers.bind fun quotient _ => ?_
    split
    next divided => exact confined_collapse left (closed.combined left right (.inr divided))
    next => exact .failedOn left
  case h_6 => exact .failed rfl
  all_goals exact (confined_convert left).bind fun _ _ => confined_numbers.bind fun _ _ => .ok left

theorem confined_quantityWithScalar (left : admits xUnit) :
    Confined admits (Value.Within m admits) (quantityWithScalar op x xUnit y) := by
  rw [quantityWithScalar.eq_def]
  split
  case h_3 =>
    split
    next => exact .failed rfl
    next =>
      split
      next raised => exact .ok (within_measured (closed.power left raised))
      next => exact .failedOn left
  case h_4 => exact .failedOn left
  all_goals exact confined_numbers.bind fun _ _ => .ok left

theorem confined_scalarWithQuantity (right : admits yUnit) :
    Confined admits (Value.Within m admits) (scalarWithQuantity op x y yUnit) := by
  rw [scalarWithQuantity.eq_def]
  split
  · exact .ok right
  · split
    next inverted => exact confined_numbers.bind fun _ _ => .ok (within_measured (closed.power right inverted))
    next => exact .failedOn right
  · exact .failed rfl
  · exact .failedOn right

theorem confined_arithmetic (left : lhs.Within m admits) (right : rhs.Within m admits) :
    Confined admits (Value.Within m admits) (arithmetic op lhs rhs table) := by
  rw [arithmetic.eq_def]
  split
  · exact confined_numbers.bind fun _ _ => .ok trivial
  · split
    · exact .ok trivial
    · exact .failed rfl
  · exact confined_quantities closed left right
  · exact confined_quantityWithScalar closed left
  · exact confined_scalarWithQuantity closed right
  · exact .failed rfl

theorem confined_binary (left : lhs.Within m admits) (right : rhs.Within m admits) :
    Confined admits (Value.Within m admits) (binary op lhs rhs table) := by
  rw [binary.eq_def]
  split
  case h_1 | h_2 | h_3 => exact confined_logical
  case h_4 | h_5 => exact (confined_equals left right).bind fun _ _ => .ok trivial
  case h_6 | h_7 | h_8 | h_9 => exact (confined_order left right).bind fun _ _ => .ok trivial
  all_goals exact confined_arithmetic closed left right

end closed

end Operators

/-- The units that evaluation reads from an expression, apart from the empty one, are admitted. -/
def Expr.UnitsAmong (env : Environment) (admits : PhysicalUnit → Prop) (expr : Expr) : Prop :=
  env.quantities = true → ∀ unit ∈ expr.units, unit.isDimensionless = false → admits unit

namespace Model
open Operators

variable {m : Model} {env : Environment} {admits : PhysicalUnit → Prop} {value : Value} {weight : Float}
  {featureValue : ElementId → ElementId → Evaluated Value}

theorem confined_lookup (frame : Frame) (path : Path) : Confined admits (fun _ => True) (m.lookup frame path) := by
  rw [lookup]
  split
  · exact .ok trivial
  · exact .failed rfl

theorem confined_typeArgument (frame : Frame) (function : String) (argument : Expr) :
    Confined admits (fun _ => True) (m.typeArgument frame function argument) := by
  rw [typeArgument.eq_def]
  split
  · refine (confined_lookup ..).bind fun type _ => ?_
    dsimp only
    split
    · exact .ok trivial
    · exact .failed rfl
  · exact .failed rfl

theorem confined_featureArgument (function : String) (argument : Expr) :
    Confined admits (fun _ => True) (featureArgument function argument) := by
  rw [featureArgument.eq_def]
  split
  · exact .ok trivial
  · exact .failed rfl

theorem confined_countInstances (frame : Frame) (function : String) (arguments : List Expr) :
    Confined admits (Value.Within m admits) (m.countInstances frame function arguments) := by
  rw [countInstances.eq_def]
  split
  · exact (confined_typeArgument ..).bind fun _ _ => .ok trivial
  · exact .failed rfl

theorem confined_applyNumeric (function : NumericFunction) (within : value.Within m admits) :
    Confined admits (Value.Within m admits) (applyNumeric function value) := by
  rw [applyNumeric.eq_def]
  split
  · exact .ok trivial
  · exact .ok within
  · exact .failed rfl

/-- What has nested features has members or general types. -/
theorem lt_of_hasNestedFeatures {id : Nat} (nested : m.hasNestedFeatures id = true) : id < m.size := by
  obtain ⟨ancestor, member, owns⟩ := List.any_eq_true.mp nested
  rcases Relation.ReflTransGen.cases_head (reaches_of_mem_generalClosure member) with same | ⟨next, edge, _⟩
  · rw [← same, Bool.not_eq_true', List.isEmpty_eq_false_iff_exists_mem] at owns
    obtain ⟨owned, listed⟩ := owns
    exact Nat.lt_trans (lt_of_mem_members (List.mem_filter.mp listed).1).1 (lt_of_mem_members (List.mem_filter.mp listed).1).2
  · exact edge.known.1

theorem within_unexpressedValue (chosen scope : ElementId) :
    (m.unexpressedValue chosen scope).Within m admits := by
  rw [unexpressedValue]
  split
  next something =>
    rcases Bool.or_eq_true_iff.mp something with part | nested
    · exact lt_of_kind fun package => by simp [package, ElementKind.isPart] at part
    · exact lt_of_hasNestedFeatures nested
  next => trivial

theorem confined_resolved {target scope : Nat} (known : target < m.size) :
    Confined admits (fun chosen : Nat => chosen < m.size) (m.resolved target scope) := by
  rw [resolved]
  cases found : m.resolve target scope with
  | ok chosen => exact .ok (lt_of_resolve known found)
  | error error => exact .failed rfl

theorem confined_effective {feature scope : Nat} (known : feature < m.size) :
    Confined admits (fun chosen : Nat => chosen < m.size) (m.effective feature scope) := by
  rw [effective]
  split
  · exact confined_resolved known
  · exact .ok known

section closed

variable (closed : env.conversions.Closed admits)

include closed

theorem confined_sqrtValue (within : value.Within m admits) : Confined admits (Value.Within m admits) (sqrtValue value) := by
  rw [sqrtValue.eq_def]
  split
  · exact .failed rfl
  · split
    · exact .failed rfl
    · split
      · split
        next root => exact .ok (within_measured (closed.root within root))
        next => exact .failed rfl
      · exact .ok trivial

theorem confined_weighted (within : value.Within m admits) :
    Confined admits (Value.Within m admits) (weighted value weight env.conversions) := by
  rw [weighted]
  split
  · exact .ok within
  · exact confined_binary closed within trivial

theorem confined_combine (kind : Aggregate) {result? : Option Value} (gathered : ∀ result ∈ result?, result.Within m admits)
    (within : value.Within m admits) :
    Confined admits (Value.Within m admits) (Aggregate.combine kind env.conversions result? value weight) := by
  rw [Aggregate.combine.eq_def]
  split
  · exact confined_weighted closed within
  · exact confined_weighted closed within
  · exact (confined_weighted closed within).bind fun _ next => confined_binary closed (gathered _ rfl) next
  · exact (confined_weighted closed within).bind fun _ next => confined_binary closed (gathered _ rfl) next
  · exact .ok within
  · exact .ok within
  all_goals
    refine (confined_order within (gathered _ rfl)).bind fun ordering _ => .ok ?_
    split
    · exact within
    · exact gathered _ rfl

theorem confined_conclude (kind : Aggregate) (type scope : ElementId) (found : List Instance) {result? : Option Value}
    (gathered : ∀ result ∈ result?, result.Within m admits) :
    Confined admits (Value.Within m admits) (kind.conclude m env.conversions type scope found result?) := by
  rw [Aggregate.conclude.eq_def]
  split
  · split
    · exact .ok trivial
    · exact .failed rfl
  · split
    · exact confined_binary closed (gathered _ rfl) trivial
    · exact .ok (gathered _ rfl)

variable (features : ∀ feature scope : Nat, feature < m.size →
  Confined admits (Value.Within m admits) (featureValue feature scope))

include features

omit closed in
theorem confined_elementValue (target scope : ElementId) :
    Confined admits (Value.Within m admits) (m.elementValue featureValue target scope) := by
  cases kind : m.kind target with
  | feature =>
    have known : target < m.size := lt_of_kind (by simp [kind])
    simp only [elementValue, kind]
    split
    · exact features target scope known
    · exact features target _ known
  | partUsage =>
    have known : target < m.size := lt_of_kind (by simp [kind])
    simp only [elementValue, kind]
    split
    · exact (confined_resolved known).bind fun part found => .ok found
    · exact .ok known
  | partDefinition | attributeDefinition | enumerationDefinition =>
    have known : target < m.size := lt_of_kind (by simp [kind])
    simp only [elementValue, kind]
    exact .ok known
  | enumerationLiteral =>
    simp only [elementValue, kind]
    exact .ok trivial
  | package | comment | documentation =>
    simp only [elementValue, kind]
    exact .failed rfl

omit closed in
theorem confined_valueInPart (function feature : String) (part : ElementId) :
    Confined admits (Value.Within m admits) (m.valueInPart featureValue function feature part) := by
  rw [valueInPart]
  split
  · exact confined_elementValue features ..
  · exact .failed rfl

theorem confined_aggregateOver (kind : Aggregate) (function feature : String) (found : List Instance) :
    Confined admits (fun result? => ∀ result ∈ result?, Value.Within m admits result)
      (m.aggregateOver env.conversions featureValue kind function feature found) := by
  refine Confined.foldlM (by simp) fun result? next gathered => (confined_valueInPart features ..).bind fun value within => ?_
  exact (confined_combine closed kind gathered within).bind fun result within => .ok (by simpa using within)

theorem confined_aggregate (frame : Frame) (kind : Aggregate) (arguments : List Expr) :
    Confined admits (Value.Within m admits) (m.aggregate env.conversions featureValue frame kind arguments) := by
  match arguments with
  | [typeName, featureName] =>
    rw [aggregate_pair]
    refine (confined_typeArgument ..).bind fun type _ => (confined_featureArgument ..).bind fun feature _ => ?_
    exact (confined_aggregateOver closed features ..).bind fun result? gathered => confined_conclude closed kind _ _ _ gathered
  | [] | [_] | _ :: _ :: _ :: _ =>
    rw [aggregate_arity kind (by simp)]
    exact .failed rfl

/-- Units stay among the admitted ones in every expression whose literals keep to them, if they do in features. -/
theorem confined_evaluateWith (frame : Frame) (expr : Expr) (among : expr.UnitsAmong env admits) :
    Confined admits (Value.Within m admits) (m.evaluateWith env featureValue frame expr) := by
  induction expr using evaluateWith.induct with
  | case1 | case2 | case3 =>
    simp only [evaluateWith]
    exact .ok trivial
  | case4 x unit =>
    simp only [evaluateWith]
    refine .ok ?_
    split
    next enabled => exact within_measured (among enabled unit (by simp [Expr.units]))
    next => trivial
  | case5 path =>
    simp only [evaluateWith]
    exact (confined_lookup ..).bind fun target _ => confined_elementValue features ..
  | case6 target name ih =>
    simp only [evaluateWith]
    refine (ih among).bind fun value within => ?_
    cases value with
    | composite element origin =>
      dsimp only
      split
      · exact confined_elementValue features ..
      · exact .failed rfl
    | _ => exact .failed rfl
  | case7 op operand ih =>
    simp only [evaluateWith]
    exact (ih among).bind fun _ within => confined_unary op within
  | case8 op lhs rhs left right =>
    simp only [evaluateWith]
    have leftAmong : lhs.UnitsAmong env admits := fun enabled unit member => among enabled unit (by simp [Expr.units, member])
    have rightAmong : rhs.UnitsAmong env admits := fun enabled unit member => among enabled unit (by simp [Expr.units, member])
    refine (left leftAmong).bind fun value within => ?_
    split
    · exact .ok within
    · exact (right rightAmong).bind fun _ other => confined_binary closed within other
  | case9 condition whenTrue whenFalse test positive negative =>
    simp only [evaluateWith]
    refine (test fun enabled unit member => among enabled unit (by simp [Expr.units, member])).bind fun value _ => ?_
    split
    · exact positive fun enabled unit member => among enabled unit (by simp [Expr.units, member])
    · exact negative fun enabled unit member => among enabled unit (by simp [Expr.units, member])
    · exact .failed rfl
  | case10 function arguments called =>
    rw [evaluateWith_unknown _ called]
    exact .failed rfl
  | case11 function arguments called =>
    rw [evaluateWith_count _ (.inl called)]
    exact confined_countInstances ..
  | case12 function arguments called =>
    rw [evaluateWith_count _ (.inr called)]
    exact confined_countInstances ..
  | case13 function arguments kind called =>
    rw [evaluateWith_aggregate _ called]
    exact confined_aggregate closed features ..
  | case14 function numeric called argument ih =>
    rw [evaluateWith_numeric _ called]
    exact (ih fun enabled unit member => among enabled unit (by simp [Expr.units, Expr.listUnits, member])).bind
      fun _ within => confined_applyNumeric numeric within
  | case16 function called argument ih =>
    rw [evaluateWith_sqrt _ called]
    exact (ih fun enabled unit member => among enabled unit (by simp [Expr.units, Expr.listUnits, member])).bind
      fun _ within => confined_sqrtValue closed within
  | case15 function numeric called arguments wrong =>
    rw [evaluateWith_arity (.inl ⟨numeric, called⟩) (length_ne_one wrong)]
    exact .failed rfl
  | case17 function called arguments wrong =>
    rw [evaluateWith_arity (.inr called) (length_ne_one wrong)]
    exact .failed rfl

end closed

/-- The literals of all expressions of the model have admitted units. -/
def LiteralsAmong (m : Model) (env : Environment) (admits : PhysicalUnit → Prop) : Prop :=
  ∀ id expr, m.value? id = some expr → expr.UnitsAmong env admits

variable (closed : env.conversions.Closed admits) (among : m.LiteralsAmong env admits)

include closed among

theorem confined_expressedValue (features : ∀ feature scope : Nat, feature < m.size →
    Confined admits (Value.Within m admits) (featureValue feature scope)) (chosen scope : ElementId) :
    Confined admits (Value.Within m admits) (m.expressedValue env featureValue chosen scope) := by
  rw [expressedValue]
  split
  next expressed => exact confined_evaluateWith closed features _ _ (among _ _ expressed)
  next => exact .ok (within_unexpressedValue ..)

theorem confined_featureValue (room : Nat) (active : List Access) (feature scope : Nat) (known : feature < m.size) :
    Confined admits (Value.Within m admits) (m.featureValue env room active feature scope) := by
  induction room generalizing active feature scope with
  | zero =>
    rw [featureValue_eq]
    refine (confined_effective known).bind fun chosen _ => ?_
    split
    · exact .failed rfl
    · exact .failed rfl
  | succ room ih =>
    rw [featureValue_eq]
    refine (confined_effective known).bind fun chosen _ => ?_
    split
    · exact .failed rfl
    · exact confined_expressedValue closed among (fun feature scope known => ih _ feature scope known) chosen scope

theorem confined_evaluate (expr : Expr) (scope : ElementId) (exprAmong : expr.UnitsAmong env admits) :
    Confined admits (Value.Within m admits) (m.evaluate env expr scope) :=
  confined_evaluateWith closed (fun _ _ => confined_featureValue closed among _ _ _ _) _ _ exprAmong

theorem confined_evaluateFeature (feature scope : ElementId) :
    Confined admits (Value.Within m admits) (m.evaluateFeature env feature scope) := by
  rw [evaluateFeature]
  split
  next isFeature => exact confined_featureValue closed among _ _ _ _ (lt_of_isFeature isFeature)
  next => exact .failed rfl

end Model

/-- A number that measures nothing is a plain one. -/
structure Value.Collapsed (table : ConversionTable) (value : Value) : Prop where
  measures : ∀ x unit, value = .quantity x unit → table.dimension unit ≠ 0
  plain : value.isNumber = true → value.dimension table = 0 → ∃ x, value = .scalar x

/-- No quantity comes out, and no error about units. -/
structure UnitFree (outcome : Evaluated Value) : Prop where
  plain : ∀ x unit, outcome ≠ .ok (.quantity x unit)
  matched : ∀ op lhs rhs, outcome ≠ .error (.unitMismatch op lhs rhs)
  fits : ∀ op unit, outcome ≠ .error (.unitOverflow op unit)

/-- No unit among these cancels in base symbols, apart from the empty one. -/
def ConversionTable.Uncancelled (table : ConversionTable) (units : List PhysicalUnit) : Prop :=
  ∀ unit ∈ units, table.dimension unit = 0 → unit.isDimensionless = true

section results

variable {m : Model} {env : Environment} {outcome : Evaluated Value}

theorem Confined.collapsed {value : Value}
    (confined : Confined (fun unit => env.conversions.dimension unit ≠ 0)
      (Value.Within m fun unit => env.conversions.dimension unit ≠ 0) outcome)
    (evaluated : outcome = .ok value) : value.Collapsed env.conversions where
  measures x unit same := by
    have within := confined.value value evaluated
    rwa [same] at within
  plain number zero := by
    rcases Value.isNumber_iff.mp number with ⟨x, rfl⟩ | ⟨x, unit, rfl⟩
    · exact ⟨x, rfl⟩
    · exact absurd zero (confined.value _ evaluated)

theorem Confined.unitFree (confined : Confined (fun _ => False) (Value.Within m fun _ => False) outcome) : UnitFree outcome where
  plain _ _ evaluated := confined.value _ evaluated
  matched _ _ _ failed := (confined.error _ failed rfl).elim fun _ impossible => impossible
  fits _ _ failed := (confined.error _ failed rfl).elim fun _ impossible => impossible

theorem Expr.unitsAmong_of_uncancelled {expr : Expr} (uncancelled : env.conversions.Uncancelled expr.units) :
    expr.UnitsAmong env fun unit => env.conversions.dimension unit ≠ 0 := by
  intro _ unit member symbols zero
  rw [uncancelled unit member zero] at symbols
  cases symbols

end results

namespace Model

/-- Units that cancel do not survive evaluation: where no literal is written in one, every number whose unit
cancels has come out as a plain number. -/
theorem evaluate_collapsed (m : Model) (env : Environment) (expr : Expr) (scope : ElementId)
    (written : env.conversions.Uncancelled expr.units)
    (modeled : ∀ id expr, m.value? id = some expr → env.conversions.Uncancelled expr.units) :
    (∀ value, m.evaluate env expr scope = .ok value → value.Collapsed env.conversions) ∧
      ∀ feature value, m.evaluateFeature env feature scope = .ok value → value.Collapsed env.conversions := by
  have closed := ConversionTable.closed_uncancelled env.conversions
  have among : m.LiteralsAmong env _ := fun id expr valued => Expr.unitsAmong_of_uncancelled (modeled id expr valued)
  exact ⟨fun value => (confined_evaluate closed among expr scope (Expr.unitsAmong_of_uncancelled written)).collapsed,
    fun feature value => (confined_evaluateFeature closed among feature scope).collapsed⟩

/-- A part definition with a power in kilowatts and a rate in reciprocal watts. -/
def ratedMotor (power rate : Float) : Model := ofEdits [
  .add none .partDefinition (some "Motor"),
  .add (some 0) .feature (some "power"), .setValue 1 (.quantity power (.symbol "kW")),
  .add (some 0) .feature (some "rate"), .setValue 2 (.quantity rate Operators.perWatt)]

/-- An environment in which a kilowatt is a multiple of a watt and nothing else converts. -/
def wattage : Environment := { conversions := Operators.kilowatts }

theorem uncancelled_ratedMotor (power rate : Float) (id : Nat) (expr : Expr)
    (valued : (ratedMotor power rate).value? id = some expr) : wattage.conversions.Uncancelled expr.units := by
  have size : (ratedMotor power rate).size = 3 := by cbv
  have known : id < 3 := by
    refine Nat.lt_of_not_le fun unknown => ?_
    rw [value?, element_eq_default (size ▸ unknown)] at valued
    cases valued
  have kilowatt : wattage.conversions.dimension (.symbol "kW") "W" = 1 := by decide
  have reciprocal : wattage.conversions.dimension Operators.perWatt "W" = -1 := by decide
  have values : (ratedMotor power rate).value? 0 = none ∧
      (ratedMotor power rate).value? 1 = some (.quantity power (.symbol "kW")) ∧
      (ratedMotor power rate).value? 2 = some (.quantity rate Operators.perWatt) := by
    refine ⟨?_, ?_, ?_⟩ <;> cbv
  intro unit member zero
  obtain rfl | rfl | rfl : id = 0 ∨ id = 1 ∨ id = 2 := by omega
  · cases values.1.symm.trans valued
  · obtain rfl := Option.some.inj (values.2.1.symm.trans valued)
    rw [List.mem_singleton.mp member] at zero
    simp [zero] at kilowatt
  · obtain rfl := Option.some.inj (values.2.2.symm.trans valued)
    rw [List.mem_singleton.mp member] at zero
    simp [zero] at reciprocal

theorem evaluate_collapsed_ratedMotor :
    wattage.conversions.Uncancelled (Expr.binary .mul (.reference (.simple "power")) (.reference (.simple "rate"))).units ∧
    (∀ id expr, (ratedMotor 1.5 2).value? id = some expr → wattage.conversions.Uncancelled expr.units) ∧
    ∃ x, (ratedMotor 1.5 2).evaluate wattage
        (.binary .mul (.reference (.simple "power")) (.reference (.simple "rate"))) 0 = .ok (.scalar x) ∧
      (Value.scalar x).Collapsed wattage.conversions := by
  have written : wattage.conversions.Uncancelled
      (Expr.binary .mul (.reference (.simple "power")) (.reference (.simple "rate"))).units := by
    simp [ConversionTable.Uncancelled, Expr.units]
  have power : ∀ x y, (ratedMotor x y).evaluate wattage (.reference (.simple "power")) 0 =
      .ok (.quantity x (.symbol "kW")) := by
    intro x y
    cbv
  have rate : ∀ x y, (ratedMotor x y).evaluate wattage (.reference (.simple "rate")) 0 =
      .ok (.quantity y Operators.perWatt) := by
    intro x y
    cbv
  obtain ⟨x, product, _⟩ := Operators.homogeneous_cancelling.2.2
  have value : (ratedMotor 1.5 2).evaluate wattage
      (.binary .mul (.reference (.simple "power")) (.reference (.simple "rate"))) 0 = .ok (.scalar x) := by
    have left := power 1.5 2
    have right := rate 1.5 2
    rw [evaluate] at left right ⊢
    rw [evaluateWith, left, ok_bind, right]
    exact product
  exact ⟨written, uncancelled_ratedMotor 1.5 2, x, value,
    (evaluate_collapsed _ wattage _ 0 written (uncancelled_ratedMotor 1.5 2)).1 _ value⟩

/-- With quantities disabled evaluation is unit-free, whatever units the literals carry. -/
theorem evaluate_unitFree (m : Model) (env : Environment) (expr : Expr) (scope : ElementId)
    (disabled : env.quantities = false) :
    UnitFree (m.evaluate env expr scope) ∧ ∀ feature, UnitFree (m.evaluateFeature env feature scope) := by
  have closed := ConversionTable.closed_none env.conversions
  have ignored : ∀ expr : Expr, expr.UnitsAmong env fun _ => False := by
    intro expr enabled
    rw [disabled] at enabled
    cases enabled
  have among : m.LiteralsAmong env fun _ => False := fun _ expr _ => ignored expr
  exact ⟨(confined_evaluate closed among expr scope (ignored expr)).unitFree,
    fun feature => (confined_evaluateFeature closed among feature scope).unitFree⟩

/-- A part definition with a mass and a length. -/
def crate (mass length : Float) : Model := ofEdits [
  .add none .partDefinition (some "Crate"),
  .add (some 0) .feature (some "mass"), .setValue 1 (.quantity mass (.symbol "kg")),
  .add (some 0) .feature (some "length"), .setValue 2 (.quantity length (.symbol "m"))]

theorem evaluate_unitFree_crate :
    (crate 5 3).evaluate { quantities := false, conversions := .empty }
      (.binary .add (.reference (.simple "mass")) (.reference (.simple "length"))) 0 = .ok (.scalar (5 + 3)) ∧
    UnitFree ((crate 5 3).evaluate { quantities := false, conversions := .empty }
      (.binary .add (.reference (.simple "mass")) (.reference (.simple "length"))) 0) := by
  have mass : ∀ x y, (crate x y).evaluate { quantities := false, conversions := .empty }
      (.reference (.simple "mass")) 0 = .ok (.scalar x) := by
    intro x y
    cbv
  have length : ∀ x y, (crate x y).evaluate { quantities := false, conversions := .empty }
      (.reference (.simple "length")) 0 = .ok (.scalar y) := by
    intro x y
    cbv
  have left := mass 5 3
  have right := length 5 3
  refine ⟨?_, (evaluate_unitFree (crate 5 3) { quantities := false, conversions := .empty } _ 0 rfl).1⟩
  rw [evaluate] at left right ⊢
  rw [evaluateWith, left, ok_bind, right]
  rfl

end Model
end StructuralModel
