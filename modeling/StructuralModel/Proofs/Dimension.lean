import Mathlib.Algebra.BigOperators.Group.List.Basic
import Mathlib.Algebra.BigOperators.GroupWithZero.Action
import Mathlib.Algebra.Group.Pi.Lemmas
import Mathlib.Algebra.GroupWithZero.Action.Pi
import StructuralModel.Evaluation.Operators

/-! Operators respect what numbers measure. The exponents of units have a limited range and conversions
merge symbols, but wherever an operator gives a result the exact integer exponents agree. -/

namespace StructuralModel

/-- An exponent of any size for every base symbol. -/
abbrev Dimension := String → Int

namespace ConversionTable
open PhysicalUnit

/-- The symbol of a factor is replaced by its base, once. -/
def factorDimension (table : ConversionTable) (factor : Factor) : Dimension :=
  Pi.single (table.baseOf factor.1) factor.2

def dimensionOf (table : ConversionTable) (factors : List Factor) : Dimension :=
  (factors.map table.factorDimension).sum

def dimension (table : ConversionTable) (u : PhysicalUnit) : Dimension :=
  table.dimensionOf u.factors

variable {table : ConversionTable} {a b u : PhysicalUnit}

theorem factorDimension_add (name : String) (k n : Int) :
    table.factorDimension (name, k + n) = table.factorDimension (name, k) + table.factorDimension (name, n) :=
  Pi.single_add ..

theorem factorDimension_neg (name : String) (n : Int) :
    table.factorDimension (name, -n) = -table.factorDimension (name, n) :=
  Pi.single_neg ..

@[simp] theorem factorDimension_zero (name : String) : table.factorDimension (name, 0) = 0 :=
  Pi.single_zero ..

theorem factorDimension_mul (name : String) (k n : Int) :
    table.factorDimension (name, k * n) = n • table.factorDimension (name, k) := by
  rw [factorDimension, factorDimension, mul_comm, ← smul_eq_mul, Pi.single_smul]

@[simp] theorem dimensionOf_nil : table.dimensionOf [] = 0 := rfl

@[simp] theorem dimensionOf_cons (factor : Factor) (rest : List Factor) :
    table.dimensionOf (factor :: rest) = table.factorDimension factor + table.dimensionOf rest := by
  simp only [dimensionOf, List.map_cons, List.sum_cons]

/-- Nothing is lost with a factor that cancels. -/
theorem dimensionOf_addExponent (name : String) (n : Int) (factors : List Factor) :
    table.dimensionOf (addExponent name n factors) =
      table.dimensionOf factors + table.factorDimension (name, n) := by
  induction factors with
  | nil =>
    rw [addExponent]
    split
    next zero => simp [zero]
    next => simp
  | cons factor rest ih =>
    obtain ⟨other, k⟩ := factor
    rw [addExponent]
    split
    next => rw [dimensionOf_cons, dimensionOf_cons, ih, add_assoc]
    next =>
      split
      next same =>
        subst same
        rw [dimensionOf_cons, add_right_comm, ← factorDimension_add]
        split
        next cancels => rw [cancels, factorDimension_zero, zero_add]
        next => rw [dimensionOf_cons]
      next =>
        split
        next zero => rw [zero, factorDimension_zero, add_zero]
        next => rw [dimensionOf_cons, add_comm]

theorem dimension_times {name : String} {n : Int} (fits : a.times? name n = some u) :
    table.dimension u = table.dimension a + table.factorDimension (name, n) := by
  rw [times?] at fits
  split at fits
  next =>
    obtain rfl := Option.some.inj fits
    exact dimensionOf_addExponent name n a.factors
  next => cases fits

/-- Steps that each add to the dimension add up. -/
theorem dimension_foldlM {step : PhysicalUnit → Factor → Option PhysicalUnit} {added : Factor → Dimension}
    (adds : ∀ u factor v, step u factor = some v → table.dimension v = table.dimension u + added factor)
    {factors : List Factor} (fits : factors.foldlM step a = some u) :
    table.dimension u = table.dimension a + (factors.map added).sum := by
  induction factors generalizing a with
  | nil =>
    obtain rfl := Option.some.inj fits
    rw [List.map_nil, List.sum_nil, add_zero]
  | cons factor rest ih =>
    rw [List.foldlM_cons] at fits
    obtain ⟨next, first, fits⟩ := Option.bind_eq_some_iff.mp fits
    rw [ih fits, adds _ _ _ first, List.map_cons, List.sum_cons, add_assoc]

theorem dimension_mul (fits : a.mul? b = some u) :
    table.dimension u = table.dimension a + table.dimension b :=
  dimension_foldlM (fun _ _ _ added => dimension_times added) fits

theorem dimension_div (fits : a.div? b = some u) :
    table.dimension u = table.dimension a - table.dimension b := by
  have negated : table.dimension u =
      table.dimension a + (b.factors.map fun factor => -table.factorDimension factor).sum := by
    refine dimension_foldlM (fun u factor v added => ?_) fits
    split at added
    next =>
      rw [dimension_times added]
      exact congrArg (table.dimension u + ·) (factorDimension_neg factor.1 factor.2)
    next => cases added
  have total : -table.dimension b = (b.factors.map fun factor => -table.factorDimension factor).sum := by
    rw [dimension, dimensionOf, List.sum_neg, List.map_map]
    rfl
  rw [negated, ← total, sub_eq_add_neg]

@[simp] theorem dimension_dimensionless : table.dimension .dimensionless = 0 := rfl

theorem dimension_eq_zero (empty : u.isDimensionless = true) : table.dimension u = 0 := by
  rw [dimension, List.isEmpty_iff.mp empty, dimensionOf_nil]

theorem dimension_pow {n : Int} (fits : u.pow? n = some a) : table.dimension a = n • table.dimension u := by
  rw [pow?] at fits
  split at fits
  next zero =>
    obtain rfl := Option.some.inj fits
    rw [zero, zero_smul, dimension_dimensionless]
  next =>
    split at fits
    next =>
      obtain rfl := Option.some.inj fits
      rw [dimension, dimension, mapExponents, dimensionOf, dimensionOf, List.smul_sum, List.map_map, List.map_map]
      refine congrArg List.sum (List.map_congr_left fun factor _ => ?_)
      exact factorDimension_mul factor.1 factor.2 n
    next => cases fits

/-- The unit in base symbols has as exponents what the unit measures. A base is not looked up again, so these
are read without a table. -/
theorem dimension_base (fits : table.base? u = some b) : empty.dimension b = table.dimension u := by
  have bases : empty.dimension b = empty.dimension .dimensionless + (u.factors.map table.factorDimension).sum :=
    dimension_foldlM (fun _ _ _ added => dimension_times added) fits
  rw [bases, dimension_dimensionless, zero_add]
  rfl

theorem dimension_normalize {scale : Float} (fits : table.normalize? u = some (scale, b)) :
    empty.dimension b = table.dimension u := by
  obtain ⟨base, found, same⟩ := Option.map_eq_some_iff.mp fits
  obtain rfl := (Prod.mk.inj same).2
  exact dimension_base found

theorem dimension_factor {factor : Float} (converts : table.factor? a b = some factor) :
    table.dimension a = table.dimension b := by
  rw [factor?] at converts
  split at converts
  next same => rw [same]
  next =>
    obtain ⟨⟨sourceScale, sourceBase⟩, source, converts⟩ := Option.bind_eq_some_iff.mp converts
    obtain ⟨⟨targetScale, targetBase⟩, target, converts⟩ := Option.bind_eq_some_iff.mp converts
    dsimp only at converts
    split at converts
    next same => rw [← dimension_normalize source, ← dimension_normalize target, same]
    next => cases converts

end ConversionTable

namespace Value

def isNumber (value : Value) : Bool :=
  value.number?.isSome

/-- Plain numbers measure nothing. -/
def dimension (table : ConversionTable) (value : Value) : Dimension :=
  table.dimension value.unit

variable {table : ConversionTable} {x : Float} {u : PhysicalUnit}

@[simp] theorem dimension_scalar : (scalar x).dimension table = 0 := rfl

@[simp] theorem dimension_quantity : (quantity x u).dimension table = table.dimension u := rfl

theorem isNumber_iff {value : Value} :
    value.isNumber = true ↔ (∃ x, value = .scalar x) ∨ ∃ x u, value = .quantity x u := by
  cases value <;> simp [isNumber, number?]

/-- A number measures the same as a scalar if its unit is dimensionless. -/
theorem dimension_measured (table : ConversionTable) (x : Float) (u : PhysicalUnit) :
    (measured x u).isNumber = true ∧ (measured x u).dimension table = table.dimension u := by
  rw [measured]
  split
  next empty => exact ⟨rfl, (ConversionTable.dimension_eq_zero empty).symm⟩
  next => exact ⟨rfl, rfl⟩

end Value

namespace Operators
open ConversionTable

/-- How the dimensions of two numbers and of what an operator makes of them go together. -/
def Homogeneous (table : ConversionTable) (op : BinaryOp) (lhs rhs result : Value) : Prop :=
  match op with
  | .add | .sub | .rem =>
    lhs.dimension table = rhs.dimension table ∧
      result.isNumber = true ∧ result.dimension table = lhs.dimension table
  | .eq | .ne | .lt | .le | .gt | .ge => lhs.dimension table = rhs.dimension table
  | .mul => result.isNumber = true ∧ result.dimension table = lhs.dimension table + rhs.dimension table
  | .div => result.isNumber = true ∧ result.dimension table = lhs.dimension table - rhs.dimension table
  | .pow =>
    result.isNumber = true ∧ match lhs, rhs with
      | .scalar _, .scalar _ => result.dimension table = 0
      | .quantity .., .scalar y => ∃ n, toInteger? y = some n ∧ result.dimension table = n • lhs.dimension table
      | _, _ => False
  | .and | .or | .xor => False

variable {table : ConversionTable} {op : BinaryOp} {lhs rhs result : Value} {x y z : Float} {xUnit yUnit : PhysicalUnit}

theorem bind_eq_ok {α β : Type} {outcome : Evaluated α} {next : α → Evaluated β} {value : β}
    (succeeds : outcome >>= next = .ok value) : ∃ middle, outcome = .ok middle ∧ next middle = .ok value := by
  cases outcome with
  | ok middle => exact ⟨middle, rfl, succeeds⟩
  | error error => cases succeeds

theorem dimension_convert {converted : Float} (converts : convert op xUnit y yUnit table = .ok converted) :
    table.dimension xUnit = table.dimension yUnit := by
  rw [convert] at converts
  split at converts
  next factor found => exact (dimension_factor found).symm
  next => cases converts

theorem dimension_collapse {u : PhysicalUnit} (collapses : collapse op x u table = .ok result) :
    result.isNumber = true ∧ result.dimension table = table.dimension u := by
  rw [collapse] at collapses
  split at collapses
  next => cases collapses
  next scale base found =>
    split at collapses
    next cancels =>
      obtain rfl := Except.ok.inj collapses
      refine ⟨rfl, ?_⟩
      rw [Value.dimension_scalar, ← dimension_normalize found, dimension_eq_zero cancels]
    next =>
      obtain rfl := Except.ok.inj collapses
      exact ⟨rfl, rfl⟩

theorem homogeneous_quantities (succeeds : quantities op x xUnit y yUnit table = .ok result) :
    Homogeneous table op (.quantity x xUnit) (.quantity y yUnit) result := by
  cases op with
  | add | sub | rem =>
    obtain ⟨converted, converts, succeeds⟩ := bind_eq_ok succeeds
    obtain ⟨number, _, same⟩ := bind_eq_ok succeeds
    obtain rfl := Except.ok.inj same
    exact ⟨dimension_convert converts, rfl, rfl⟩
  | mul =>
    simp only [quantities] at succeeds
    split at succeeds
    next unit product =>
      obtain ⟨number, collapsed⟩ := dimension_collapse succeeds
      exact ⟨number, collapsed.trans (dimension_mul product)⟩
    next => cases succeeds
  | div =>
    obtain ⟨quotient, _, succeeds⟩ := bind_eq_ok succeeds
    split at succeeds
    next unit divided =>
      obtain ⟨number, collapsed⟩ := dimension_collapse succeeds
      exact ⟨number, collapsed.trans (dimension_div divided)⟩
    next => cases succeeds
  | _ => cases succeeds

theorem homogeneous_quantityWithScalar (succeeds : quantityWithScalar op x xUnit y = .ok result) :
    Homogeneous table op (.quantity x xUnit) (.scalar y) result := by
  cases op with
  | mul =>
    obtain ⟨number, _, same⟩ := bind_eq_ok succeeds
    obtain rfl := Except.ok.inj same
    exact ⟨rfl, (add_zero _).symm⟩
  | div =>
    obtain ⟨number, _, same⟩ := bind_eq_ok succeeds
    obtain rfl := Except.ok.inj same
    exact ⟨rfl, (sub_zero _).symm⟩
  | pow =>
    simp only [quantityWithScalar] at succeeds
    split at succeeds
    next => cases succeeds
    next n integral =>
      split at succeeds
      next power raised =>
        obtain rfl := Except.ok.inj succeeds
        obtain ⟨number, measured⟩ := Value.dimension_measured table (powInt x n) power
        exact ⟨number, n, (Option.filter_eq_some_iff.mp integral).1, measured.trans (dimension_pow raised)⟩
      next => cases succeeds
  | _ => cases succeeds

theorem homogeneous_scalarWithQuantity (succeeds : scalarWithQuantity op x y yUnit = .ok result) :
    Homogeneous table op (.scalar x) (.quantity y yUnit) result := by
  cases op with
  | mul =>
    obtain rfl := Except.ok.inj succeeds
    exact ⟨rfl, (zero_add _).symm⟩
  | div =>
    simp only [scalarWithQuantity] at succeeds
    split at succeeds
    next inverse raised =>
      obtain ⟨number, _, same⟩ := bind_eq_ok succeeds
      obtain rfl := Except.ok.inj same
      obtain ⟨number, measured⟩ := Value.dimension_measured table number inverse
      refine ⟨number, ?_⟩
      rw [measured, dimension_pow raised, neg_one_zsmul, Value.dimension_scalar, zero_sub, Value.dimension_quantity]
    next => cases succeeds
  | _ => cases succeeds

theorem homogeneous_scalars (succeeds : numbers op x y = .ok z) :
    Homogeneous table op (.scalar x) (.scalar y) (.scalar z) := by
  cases op with
  | add | sub | rem => exact ⟨rfl, rfl, rfl⟩
  | mul => exact ⟨rfl, (zero_add _).symm⟩
  | div => exact ⟨rfl, (sub_zero _).symm⟩
  | pow => exact ⟨rfl, rfl⟩
  | _ => cases succeeds

theorem dimension_order {ordering : Option Ordering} (left : lhs.isNumber = true) (right : rhs.isNumber = true)
    (succeeds : order op lhs rhs table = .ok ordering) : lhs.dimension table = rhs.dimension table := by
  obtain ⟨x, rfl⟩ | ⟨x, xUnit, rfl⟩ := Value.isNumber_iff.mp left <;>
    obtain ⟨y, rfl⟩ | ⟨y, yUnit, rfl⟩ := Value.isNumber_iff.mp right
  · rfl
  · cases succeeds
  · cases succeeds
  · obtain ⟨converted, converts, _⟩ := bind_eq_ok succeeds
    exact dimension_convert converts

theorem dimension_equals {equal : Bool} (left : lhs.isNumber = true) (right : rhs.isNumber = true)
    (succeeds : equals lhs rhs table = .ok equal) : lhs.dimension table = rhs.dimension table := by
  obtain ⟨x, rfl⟩ | ⟨x, xUnit, rfl⟩ := Value.isNumber_iff.mp left <;>
    obtain ⟨y, rfl⟩ | ⟨y, yUnit, rfl⟩ := Value.isNumber_iff.mp right
  · rfl
  · cases succeeds
  · cases succeeds
  · obtain ⟨converted, converts, _⟩ := bind_eq_ok succeeds
    exact dimension_convert converts

theorem homogeneous_arithmetic (left : lhs.isNumber = true) (right : rhs.isNumber = true)
    (succeeds : arithmetic op lhs rhs table = .ok result) : Homogeneous table op lhs rhs result := by
  obtain ⟨x, rfl⟩ | ⟨x, xUnit, rfl⟩ := Value.isNumber_iff.mp left <;>
    obtain ⟨y, rfl⟩ | ⟨y, yUnit, rfl⟩ := Value.isNumber_iff.mp right
  · obtain ⟨number, applied, same⟩ := bind_eq_ok succeeds
    obtain rfl := Except.ok.inj same
    exact homogeneous_scalars applied
  · exact homogeneous_scalarWithQuantity succeeds
  · exact homogeneous_quantityWithScalar succeeds
  · exact homogeneous_quantities succeeds

/-- Wherever an operator gives a result for two numbers, their dimensions and that of the result agree. -/
theorem homogeneous_binary (left : lhs.isNumber = true) (right : rhs.isNumber = true)
    (succeeds : binary op lhs rhs table = .ok result) : Homogeneous table op lhs rhs result := by
  cases op with
  | add | sub | mul | div | rem | pow => exact homogeneous_arithmetic left right succeeds
  | eq | ne =>
    obtain ⟨equal, compared, _⟩ := bind_eq_ok succeeds
    exact dimension_equals left right compared
  | lt | le | gt | ge =>
    obtain ⟨ordering, compared, _⟩ := bind_eq_ok succeeds
    exact dimension_order left right compared
  | and | or | xor =>
    -- Only two booleans have a logical result.
    cases lhs with
    | boolean => cases left
    | _ => cases succeeds

/-- A kilowatt is a multiple of a watt. -/
def kilowatts : ConversionTable := ⟨[("kW", ⟨1000, "W"⟩)]⟩

def perWatt : PhysicalUnit where
  factors := [("W", -1)]
  canonical := ⟨by simp, by simp, by simp [FitsExponent]⟩

def kilowattsPerWatt : PhysicalUnit where
  factors := [("W", -1), ("kW", 1)]
  canonical := ⟨by decide, by simp, by simp [FitsExponent]⟩

theorem homogeneous_cancelling : (Value.quantity 1.5 (.symbol "kW")).isNumber = true ∧
    (Value.quantity 2 perWatt).isNumber = true ∧
    ∃ x, binary .mul (.quantity 1.5 (.symbol "kW")) (.quantity 2 perWatt) kilowatts = .ok (.scalar x) ∧
      Homogeneous kilowatts .mul (.quantity 1.5 (.symbol "kW")) (.quantity 2 perWatt) (.scalar x) := by
  have product : binary .mul (.quantity 1.5 (.symbol "kW")) (.quantity 2 perWatt) kilowatts =
      .ok (.scalar (1.5 * 2 * kilowatts.scale kilowattsPerWatt)) := by
    rfl
  exact ⟨rfl, rfl, _, product, homogeneous_binary rfl rfl product⟩

end Operators
end StructuralModel
