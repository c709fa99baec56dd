import StructuralModel.Settings.Basic
import StructuralModel.Evaluation.Operators

/-! Derived units and the units that define them. A symbol is replaced by its base once, on both sides of a conversion;
so a derived unit is compatible with its base exactly as long as the base is not derived from something else. -/

namespace StructuralModel

namespace ConversionTable
open PhysicalUnit

variable {table : ConversionTable} {name : String} {conversion : Conversion}

/-- No symbol is its own base. -/
def Irreflexive (table : ConversionTable) : Prop :=
  ∀ entry ∈ table.conversions, entry.1 ≠ entry.2.base

theorem Irreflexive.insert (distinct : table.Irreflexive) (other : name ≠ conversion.base) :
    (table.insert name conversion).Irreflexive :=
  List.forall_mem_cons.mpr ⟨other, fun entry member => distinct entry (List.mem_filter.mp member).1⟩

theorem Irreflexive.insertAll (distinct : table.Irreflexive) {conversions : List (String × Conversion)}
    (others : ∀ entry ∈ conversions, entry.1 ≠ entry.2.base) : (table.insertAll conversions).Irreflexive := by
  induction conversions generalizing table with
  | nil => exact distinct
  | cons entry rest ih =>
    obtain ⟨first, later⟩ := List.forall_mem_cons.mp others
    exact ih (distinct.insert first) later

theorem irreflexive_standard : standard.Irreflexive := by
  apply Irreflexive.insertAll
  · intro entry member
    cases member
  · simp only [List.forall_mem_cons]
    decide

theorem mem_of_find? (found : table.find? name = some conversion) : (name, conversion) ∈ table.conversions := by
  rw [find?] at found
  obtain ⟨before, after, same, _⟩ := List.lookup_eq_some_iff.mp found
  exact same ▸ List.mem_append_right before List.mem_cons_self

theorem Irreflexive.ne_base (distinct : table.Irreflexive) (found : table.find? name = some conversion) :
    name ≠ conversion.base :=
  distinct _ (mem_of_find? found)

theorem baseOf_of_find? (found : table.find? name = some conversion) : table.baseOf name = conversion.base := by
  rw [baseOf, found]

theorem baseOf_eq_self_iff (distinct : table.Irreflexive) : table.baseOf name = name ↔ table.find? name = none := by
  rw [baseOf]
  cases found : table.find? name with
  | none => simp
  | some conversion =>
    refine iff_of_false ?_ (by simp)
    exact fun same => distinct.ne_base found same.symm

theorem symbol_injective {first second : String} (same : symbol first = symbol second) : first = second := by
  have factors := congrArg PhysicalUnit.factors same
  simpa [symbol] using factors

/-- Two units are converted into each other when they are the same or the same in base symbols. -/
theorem isSome_factor_iff {a b : PhysicalUnit} : (table.factor? a b).isSome = true ↔
    a = b ∨ ∃ base, table.base? a = some base ∧ table.base? b = some base := by
  rw [factor?]
  split
  next same => simp [same]
  next other =>
    rw [or_iff_right other, normalize?, normalize?]
    cases table.base? a with
    | none => simp
    | some base =>
      cases table.base? b with
      | none => simp
      | some base' => by_cases same : base = base' <;> simp [same, eq_comm]

/-- One symbol is normalized by one replacement. -/
theorem base_symbol (table : ConversionTable) (name : String) :
    table.base? (symbol name) = some (symbol (table.baseOf name)) := rfl

theorem isSome_factor_symbol {first second : String} : (table.factor? (symbol first) (symbol second)).isSome = true ↔
    first = second ∨ table.baseOf first = table.baseOf second := by
  rw [isSome_factor_iff, base_symbol, base_symbol]
  refine or_congr ⟨symbol_injective, congrArg symbol⟩ ⟨?_, fun same => ⟨_, rfl, by rw [same]⟩⟩
  rintro ⟨base, one, other⟩
  exact symbol_injective (Option.some.inj (one.trans other.symm))

theorem isSome_factor_base (distinct : table.Irreflexive) (found : table.find? name = some conversion) :
    (table.factor? (symbol name) (symbol conversion.base)).isSome = true ↔ table.find? conversion.base = none := by
  rw [isSome_factor_symbol, baseOf_of_find? found, ← baseOf_eq_self_iff distinct]
  exact (or_iff_right (distinct.ne_base found)).trans eq_comm

theorem isSome_factor_symm {a b : PhysicalUnit} :
    (table.factor? a b).isSome = true ↔ (table.factor? b a).isSome = true := by
  rw [isSome_factor_iff, isSome_factor_iff]
  exact or_congr eq_comm (exists_congr fun base => and_comm)

end ConversionTable

namespace Operators

/-- The operators that ask for operands of one dimension and cannot fail otherwise. -/
def combines (op : BinaryOp) : Bool :=
  op.isComparison || op matches .add | .sub

/-- Quantities can be added and compared as far as the unit of the second is converted into that of the first. -/
theorem binary_quantities_iff {op : BinaryOp} (combining : combines op = true) (x y : Float) (a b : PhysicalUnit)
    (table : ConversionTable) : (∃ value, binary op (.quantity x a) (.quantity y b) table = .ok value) ↔
      (table.factor? b a).isSome = true := by
  cases op <;> cases combining
  all_goals
    simp only [binary, arithmetic, quantities, order, equals, convert]
    cases table.factor? b a <;> simp [numbers, bind, Except.bind, pure, Except.pure]

end Operators

namespace Settings
open ConversionTable

variable {settings : Settings} {name : String} {conversion : Conversion}

theorem ne_base_of_checkConversion (checked : checkConversion name conversion = .ok ()) : name ≠ conversion.base := by
  rw [checkConversion] at checked
  split at checked
  · cases checked
  · split at checked
    · cases checked
    next other => exact other

theorem forM_eq_ok {α : Type} {f : α → Except SettingsError Unit} {items : List α} (checked : items.forM f = .ok ()) :
    ∀ item ∈ items, f item = .ok () := by
  induction items with
  | nil => simp
  | cons item items ih =>
    have step : (item :: items).forM f = f item >>= fun _ => items.forM f := rfl
    rw [step] at checked
    cases first : f item with
    | error error =>
      rw [first] at checked
      cases checked
    | ok =>
      rw [first] at checked
      exact List.forall_mem_cons.mpr ⟨first, ih checked⟩

theorem checkEvaluation_of_check (checked : settings.check = .ok ()) : checkEvaluation settings.evaluation = .ok () := by
  rw [check] at checked
  cases evaluation : checkEvaluation settings.evaluation with
  | error error =>
    rw [evaluation] at checked
    cases checked
  | ok => rfl

theorem units_ne_base (checked : settings.check = .ok ()) :
    ∀ entry ∈ settings.evaluation.units, entry.1 ≠ entry.2.base := by
  have evaluation := checkEvaluation_of_check checked
  rw [checkEvaluation] at evaluation
  split at evaluation
  · cases evaluation
  · exact fun entry member => ne_base_of_checkConversion (forM_eq_ok evaluation entry member)

theorem irreflexive_conversions (checked : settings.check = .ok ()) :
    settings.environment.conversions.Irreflexive :=
  irreflexive_standard.insertAll (units_ne_base checked)

/-- Under settings that pass their check, a derived unit can be converted into its base exactly if the base is not
derived itself; then values in the two units can be added and compared, either way round, and else they cannot. -/
theorem derived_compatible_iff (checked : settings.check = .ok ())
    (derived : settings.environment.conversions.find? name = some conversion) :
    ((settings.environment.conversions.factor? (.symbol name) (.symbol conversion.base)).isSome = true ↔
        settings.environment.conversions.find? conversion.base = none) ∧
      ∀ op, Operators.combines op = true → ∀ x y,
        ((∃ value, Operators.binary op (.quantity x (.symbol name)) (.quantity y (.symbol conversion.base))
            settings.environment.conversions = .ok value) ↔
          settings.environment.conversions.find? conversion.base = none) ∧
        ((∃ value, Operators.binary op (.quantity x (.symbol conversion.base)) (.quantity y (.symbol name))
            settings.environment.conversions = .ok value) ↔
          settings.environment.conversions.find? conversion.base = none) := by
  have compatible := isSome_factor_base (irreflexive_conversions checked) derived
  refine ⟨compatible, fun op combining x y => ⟨?_, ?_⟩⟩
  · rw [Operators.binary_quantities_iff combining, isSome_factor_symm, compatible]
  · rw [Operators.binary_quantities_iff combining, compatible]

/-- Pounds, defined by kilograms, and stones, defined by pounds. -/
def imperial : Settings where
  evaluation := { units := [("lb", ⟨0.5, "kg"⟩), ("st", ⟨14, "lb"⟩)] }

theorem check_imperial : imperial.check = .ok () := by
  have pound : checkConversion "lb" ⟨0.5, "kg"⟩ = .ok () := by
    rw [checkConversion, if_neg (by decide +kernel), if_neg (by decide)]
  have stone : checkConversion "st" ⟨14, "lb"⟩ = .ok () := by
    rw [checkConversion, if_neg (by decide +kernel), if_neg (by decide)]
  have evaluation : checkEvaluation imperial.evaluation = .ok () := by
    simp [checkEvaluation, imperial, pound, stone, bind, Except.bind, pure, Except.pure]
  have report : checkReport imperial.report = .ok () := by
    rw [checkReport, if_neg (by decide +kernel)]
  rw [check, evaluation, report]
  rfl

theorem derived_compatible_pound : imperial.check = .ok () ∧
    imperial.environment.conversions.find? "lb" = some ⟨0.5, "kg"⟩ ∧
    (imperial.environment.conversions.factor? (.symbol "lb") (.symbol "kg")).isSome = true := by
  have derived : imperial.environment.conversions.find? "lb" = some ⟨0.5, "kg"⟩ := rfl
  exact ⟨check_imperial, derived, (derived_compatible_iff check_imperial derived).1.mpr rfl⟩

/-- A stone is not compatible with a pound. -/
theorem not_compatible_stone : ¬ ∀ settings : Settings, settings.check = .ok () → ∀ name conversion,
    settings.environment.conversions.find? name = some conversion →
      (settings.environment.conversions.factor? (.symbol name) (.symbol conversion.base)).isSome = true := by
  intro compatible
  have derived : imperial.environment.conversions.find? "st" = some ⟨14, "lb"⟩ := rfl
  have stone := compatible imperial check_imperial "st" ⟨14, "lb"⟩ derived
  rw [isSome_factor_base (irreflexive_conversions check_imperial) derived] at stone
  cases stone

end Settings
end StructuralModel
