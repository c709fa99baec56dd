import StructuralModel.Proofs.DerivedUnits
import StructuralModel.Proofs.UnitArithmetic

/-! Compatible units. Two units are converted into each other if they are the same, or if both can be expressed in base
symbols and then measure the same. Whatever the table merges, and wherever that fails, this is an equivalence. -/

namespace StructuralModel

namespace ConversionTable
open PhysicalUnit

variable {table : ConversionTable} {a b u base : PhysicalUnit} {name : String}

/-- The factors with the base of each symbol in its place. Several of them can have the same base. -/
def based (table : ConversionTable) (factors : List Factor) : List Factor :=
  factors.map fun factor => (table.baseOf factor.1, factor.2)

/-- No exponent of a base leaves its range while the factors are merged from the first to the last. -/
def Merges (table : ConversionTable) (u : PhysicalUnit) : Prop :=
  InRange (fun _ => 0) (table.based u.factors)

/-- Numbers of the first unit can be expressed in the second. -/
def Compatible (table : ConversionTable) (a b : PhysicalUnit) : Prop :=
  (table.factor? a b).isSome = true

theorem total_based (factors : List Factor) : total name (table.based factors) = table.dimensionOf factors name := by
  induction factors with
  | nil => rfl
  | cons factor rest ih =>
    rw [dimensionOf_cons, Pi.add_apply, ← ih, based, List.map_cons, total_cons, factorDimension, Pi.single_apply]
    exact congrArg (· + _) (if_congr eq_comm rfl rfl)

/-- A unit is expressed in base symbols factor by factor, as in a product. -/
theorem base_eq_timesAll (table : ConversionTable) (u : PhysicalUnit) :
    table.base? u = dimensionless.timesAll? (table.based u.factors) := by
  have fits := u.canonical.fits
  rw [base?, timesAll?, based, List.foldlM_map]
  generalize u.factors = factors, dimensionless = start at fits
  induction factors generalizing start with
  | nil => rfl
  | cons factor rest ih =>
    obtain ⟨own, later⟩ := List.forall_mem_cons.mp fits
    rw [List.foldlM_cons, List.foldlM_cons, if_pos own]
    exact Option.bind_congr fun next _ => ih next later

theorem base_eq_some_iff : table.base? u = some base ↔ table.Merges u ∧ base.Realizes (table.dimension u) := by
  have totals : (fun name => dimensionless.exponent name + total name (table.based u.factors)) = table.dimension u :=
    funext fun name => (zero_add _).trans (total_based u.factors)
  rw [base_eq_timesAll, timesAll_eq_some_iff, totals]
  rfl

theorem exists_base_iff : (∃ base, table.base? u = some base) ↔ table.Merges u := by
  rw [base_eq_timesAll, ← Option.ne_none_iff_exists', ne_eq, timesAll_eq_none_iff, not_not]
  rfl

/-- Units with the same base measure the same, and the other way round where both have one. -/
theorem compatible_iff : table.Compatible a b ↔
    a = b ∨ table.Merges a ∧ table.Merges b ∧ table.dimension a = table.dimension b := by
  rw [Compatible, isSome_factor_iff]
  refine or_congr_right ⟨?_, ?_⟩
  · rintro ⟨base, first, second⟩
    obtain ⟨merges, realizes⟩ := base_eq_some_iff.mp first
    obtain ⟨merges', realizes'⟩ := base_eq_some_iff.mp second
    exact ⟨merges, merges', funext fun name => (realizes.exponent name).symm.trans (realizes'.exponent name)⟩
  · rintro ⟨merges, merges', same⟩
    obtain ⟨base, found⟩ := exists_base_iff.mpr merges
    have realizes := (base_eq_some_iff.mp found).2
    exact ⟨base, found, base_eq_some_iff.mpr ⟨merges', same ▸ realizes⟩⟩

/-- Converting is possible within classes of units. One that cannot be expressed in base symbols is a class of its own. -/
theorem equivalence_compatible (table : ConversionTable) : Equivalence table.Compatible where
  refl a := compatible_iff.mpr (.inl rfl)
  symm converts := isSome_factor_symm.mp converts
  trans {a b c} first second := by
    rcases compatible_iff.mp first with rfl | ⟨merges, _, same⟩
    · exact second
    · rcases compatible_iff.mp second with rfl | ⟨_, merges', same'⟩
      · exact first
      · exact compatible_iff.mpr (.inr ⟨merges, merges', same.trans same'⟩)

/-- Under every table, one with derived bases included, compatibility is an equivalence of units: units are compatible
if they are the same or if both can be merged into base symbols and measure the same there. So quantities can be added
and compared in one order exactly if they can in the other. -/
theorem compatible_equivalence (table : ConversionTable) :
    Equivalence table.Compatible ∧
      (∀ a b, table.Compatible a b ↔ a = b ∨ table.Merges a ∧ table.Merges b ∧ table.dimension a = table.dimension b) ∧
      ∀ op, Operators.combines op = true → ∀ a b x y,
        (∃ value, Operators.binary op (.quantity x a) (.quantity y b) table = .ok value) ↔
          ∃ value, Operators.binary op (.quantity y b) (.quantity x a) table = .ok value := by
  refine ⟨table.equivalence_compatible, fun a b => compatible_iff, fun op combining a b x y => ?_⟩
  rw [Operators.binary_quantities_iff combining, Operators.binary_quantities_iff combining]
  exact isSome_factor_symm

/-- Grams and as many kilograms as an exponent can count. -/
def crowded : PhysicalUnit where
  factors := [("g", 1), ("kg", 2147483647)]
  canonical := ⟨by decide, by decide, by decide⟩

/-- Grams are one kilogram too many. -/
theorem compatible_equivalence_crowded : standard.base? crowded = none ∧ standard.Compatible crowded crowded ∧
    Operators.combines .add = true ∧
      ∃ value, Operators.binary .add (.quantity 2 (symbol "kg")) (.quantity 1 (symbol "g")) standard = .ok value := by
  obtain ⟨equivalence, _, eitherWay⟩ := compatible_equivalence standard
  have adds : ∃ value, Operators.binary .add (.quantity 1 (symbol "g")) (.quantity 2 (symbol "kg")) standard = .ok value :=
    (Operators.binary_quantities_iff rfl 1 2 _ _ standard).mpr (isSome_factor_symbol.mpr (.inr rfl))
  exact ⟨by decide, equivalence.refl crowded, rfl, (eitherWay .add rfl _ _ _ _).mp adds⟩

end ConversionTable
end StructuralModel
