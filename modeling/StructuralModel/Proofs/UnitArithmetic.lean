import StructuralModel.Proofs.UnitDiscipline
import StructuralModel.Proofs.UnitText

/-! The arithmetic of units is that of integer exponents, and fails exactly where an exponent leaves its range. Products
and quotients are built factor by factor, so the totals on the way have to fit too; as a unit has each symbol once, they
are the exponents before or after. -/

namespace StructuralModel
namespace PhysicalUnit
open ConversionTable

variable {u v : PhysicalUnit} {name : String} {n : Int} {factors rest : List Factor} {factor : Factor}

/-! What a unit measures in its own symbols. -/

theorem exponent_eq (u : PhysicalUnit) (name : String) : u.exponent name = empty.dimension u name :=
  (dimensionOf_empty u.canonical.ascending name).symm

theorem factorDimension_empty (factor : Factor) (name : String) :
    empty.factorDimension factor name = if factor.1 = name then factor.2 else 0 :=
  (Pi.single_apply ..).trans (if_congr eq_comm rfl rfl)

theorem mem_of_exponentIn_ne_zero (some : exponentIn name factors ≠ 0) :
    (name, exponentIn name factors) ∈ factors := by
  induction factors with
  | nil => exact absurd rfl some
  | cons factor rest ih =>
    obtain ⟨other, k⟩ := factor
    rw [exponentIn] at some ⊢
    split at some
    next same => rw [if_pos same, same]; exact List.mem_cons_self
    next apart => rw [if_neg apart]; exact List.mem_cons_of_mem _ (ih some)

theorem exponent_of_mem (member : factor ∈ u.factors) : u.exponent factor.1 = factor.2 := by
  have ascending := u.canonical.ascending
  rw [exponent]
  generalize u.factors = factors at member ascending
  induction factors with
  | nil => cases member
  | cons head rest ih =>
    rw [List.pairwise_cons] at ascending
    rw [exponentIn]
    rcases List.mem_cons.mp member with rfl | later
    · rw [if_pos rfl]
    · rw [if_neg (ascending.1 factor later).ne, ih later ascending.2]

/-- A property that zero has is one of the exponents of all symbols as soon as it is one of those of the factors. -/
theorem forall_factor_iff (holds : Int → Prop) (zero : holds 0) :
    (∀ factor ∈ u.factors, holds factor.2) ↔ ∀ name, holds (u.exponent name) := by
  constructor
  · intro each name
    by_cases none : u.exponent name = 0
    · rw [none]
      exact zero
    · exact each _ (mem_of_exponentIn_ne_zero none)
  · intro each factor member
    rw [← exponent_of_mem member]
    exact each factor.1

theorem fits_exponent (u : PhysicalUnit) : ∀ name, FitsExponent (u.exponent name) :=
  (forall_factor_iff _ (by decide)).mp u.canonical.fits

/-- Units with the same exponents are the same. -/
theorem ext_exponent (same : ∀ name, u.exponent name = v.exponent name) : u = v := by
  have among : ∀ {u v : PhysicalUnit}, (∀ name, u.exponent name = v.exponent name) →
      ∀ factor ∈ u.factors, factor ∈ v.factors := by
    intro u v same factor member
    have exponent := (same factor.1).symm.trans (exponent_of_mem member)
    have listed : (factor.1, v.exponent factor.1) ∈ v.factors :=
      mem_of_exponentIn_ne_zero fun zero => u.canonical.nonzero factor member (exponent.symm.trans zero)
    rwa [exponent] at listed
  exact eq_of_mem_iff fun factor => ⟨among same factor, among (fun name => (same name).symm) factor⟩

/-- The unit is in canonical form, with the given exponents. -/
structure Realizes (u : PhysicalUnit) (exponents : String → Int) : Prop where
  canonical : Canonical u.factors
  exponent : ∀ name, u.exponent name = exponents name

theorem realizes_iff {exponents : String → Int} : u.Realizes exponents ↔ ∀ name, u.exponent name = exponents name :=
  ⟨Realizes.exponent, fun same => ⟨u.canonical, same⟩⟩

/-! Factors one after the other. -/

/-- The sum of the exponents of a symbol. -/
def total (name : String) (factors : List Factor) : Int :=
  ((factors.filter fun factor => factor.1 = name).map (·.2)).sum

@[simp] theorem total_nil : total name [] = 0 := rfl

theorem total_cons (name : String) (factor : Factor) (rest : List Factor) :
    total name (factor :: rest) = (if factor.1 = name then factor.2 else 0) + total name rest := by
  by_cases own : factor.1 = name <;> simp [total, own]

theorem total_append (name : String) (front back : List Factor) :
    total name (front ++ back) = total name front + total name back := by
  simp [total]

theorem total_eq_zero (absent : ∀ factor ∈ factors, factor.1 ≠ name) : total name factors = 0 := by
  have none : factors.filter (fun factor => factor.1 = name) = [] :=
    List.filter_eq_nil_iff.mpr fun factor member => by simpa using absent factor member
  rw [total, none]
  rfl

theorem dimensionOf_eq_total (factors : List Factor) (name : String) :
    empty.dimensionOf factors name = total name factors := by
  induction factors with
  | nil => rfl
  | cons factor rest ih => rw [dimensionOf_cons, Pi.add_apply, ih, total_cons, factorDimension_empty]

theorem total_factors (name : String) (u : PhysicalUnit) : total name u.factors = u.exponent name := by
  rw [← dimensionOf_eq_total, exponent_eq]
  rfl

/-- Multiplies by factors from the left to the right; each has to have an exponent that fits. -/
def timesAll? (u : PhysicalUnit) (factors : List Factor) : Option PhysicalUnit :=
  factors.foldlM (fun u factor => if FitsExponent factor.2 then u.times? factor.1 factor.2 else none) u

theorem timesAll_single (u : PhysicalUnit) (factor : Factor) :
    u.timesAll? [factor] = if FitsExponent factor.2 then u.times? factor.1 factor.2 else none := by
  rw [timesAll?, List.foldlM_cons]
  exact bind_pure _

theorem timesAll_append (u : PhysicalUnit) (front back : List Factor) :
    u.timesAll? (front ++ back) = (u.timesAll? front).bind (·.timesAll? back) :=
  List.foldlM_append ..

/-- The exponents of the factors fit, and so do their sums on the way. -/
structure InRange (exponents : String → Int) (factors : List Factor) : Prop where
  own : ∀ factor ∈ factors, FitsExponent factor.2
  totals : ∀ front, front <+: factors → ∀ name, FitsExponent (exponents name + total name front)

theorem inRange_nil {exponents : String → Int} : InRange exponents [] ↔ ∀ name, FitsExponent (exponents name) := by
  constructor
  · intro inRange name
    simpa using inRange.totals [] List.prefix_rfl name
  · intro fits
    refine ⟨List.forall_mem_nil _, fun front start name => ?_⟩
    rw [List.prefix_nil.mp start, total_nil, add_zero]
    exact fits name

theorem inRange_cons {exponents : String → Int} : InRange exponents (factor :: rest) ↔
    (∀ name, FitsExponent (exponents name)) ∧ FitsExponent factor.2 ∧
      InRange (fun name => exponents name + if factor.1 = name then factor.2 else 0) rest := by
  constructor
  · intro inRange
    obtain ⟨first, later⟩ := List.forall_mem_cons.mp inRange.own
    refine ⟨fun name => ?_, first, later, fun front start name => ?_⟩
    · simpa using inRange.totals [] (List.nil_prefix) name
    · rw [add_assoc, ← total_cons]
      exact inRange.totals (factor :: front) (List.prefix_cons_inj factor |>.mpr start) name
  · rintro ⟨initial, first, later⟩
    refine ⟨List.forall_mem_cons.mpr ⟨first, later.own⟩, fun front start name => ?_⟩
    rcases List.prefix_cons_iff.mp start with rfl | ⟨front, rfl, shorter⟩
    · rw [total_nil, add_zero]
      exact initial name
    · rw [total_cons, ← add_assoc]
      exact later.totals front shorter name

theorem times_eq_none_iff : u.times? name n = none ↔ ¬ FitsExponent (u.exponent name + n) := by
  rw [times?, dite_eq_right_iff]
  exact ⟨fun none fits => Option.some_ne_none _ (none fits), fun overflow fits => absurd fits overflow⟩

theorem exponent_times (product : u.times? name n = some v) (other : String) :
    v.exponent other = u.exponent other + if name = other then n else 0 := by
  rw [exponent_eq, exponent_eq, dimension_times product, Pi.add_apply, factorDimension_empty]

/-- The product fails at the first sum that is out of range. -/
theorem timesAll_eq_none_iff : u.timesAll? factors = none ↔ ¬ InRange u.exponent factors := by
  induction factors generalizing u with
  | nil => exact iff_of_false (Option.some_ne_none u) (not_not.mpr (inRange_nil.mpr u.fits_exponent))
  | cons factor rest ih =>
    rw [timesAll?, List.foldlM_cons, inRange_cons]
    by_cases own : FitsExponent factor.2
    · rw [if_pos own]
      cases next : u.times? factor.1 factor.2 with
      | none =>
        refine ⟨fun _ inRange => times_eq_none_iff.mp next ?_, fun _ => rfl⟩
        simpa using (inRange.2.2.totals [] List.nil_prefix factor.1)
      | some v =>
        refine ih.trans (not_congr ?_)
        rw [show v.exponent = _ from funext (exponent_times next)]
        exact ⟨fun later => ⟨u.fits_exponent, own, later⟩, fun inRange => inRange.2.2⟩
    · rw [if_neg own]
      exact ⟨fun _ inRange => own inRange.2.1, fun _ => rfl⟩

theorem exponent_timesAll (product : u.timesAll? factors = some v) (name : String) :
    v.exponent name = u.exponent name + total name factors := by
  induction factors generalizing u with
  | nil => rw [Option.some.inj product, total_nil, add_zero]
  | cons factor rest ih =>
    rw [timesAll?, List.foldlM_cons] at product
    obtain ⟨next, first, product⟩ := Option.bind_eq_some_iff.mp product
    split at first
    next => rw [ih product, exponent_times first, total_cons, add_assoc]
    next => cases first

theorem timesAll_eq_some_iff : u.timesAll? factors = some v ↔
    InRange u.exponent factors ∧ v.Realizes fun name => u.exponent name + total name factors := by
  rw [realizes_iff]
  constructor
  · intro product
    refine ⟨?_, exponent_timesAll product⟩
    by_contra overflow
    rw [timesAll_eq_none_iff.mpr overflow] at product
    cases product
  · rintro ⟨inRange, exponents⟩
    cases product : u.timesAll? factors with
    | none => exact absurd inRange (timesAll_eq_none_iff.mp product)
    | some w => rw [ext_exponent fun name => (exponent_timesAll product name).trans (exponents name).symm]

/-- Where each symbol stands once, the first factors have all of its total or nothing. -/
theorem total_prefix (distinct : factors.Pairwise fun a b => a.1 ≠ b.1) {front : List Factor} (start : front <+: factors)
    (name : String) : total name front = 0 ∨ total name front = total name factors := by
  obtain ⟨back, rfl⟩ := start
  rw [total_append]
  by_cases absent : ∀ factor ∈ front, factor.1 ≠ name
  · exact .inl (total_eq_zero absent)
  · push Not at absent
    obtain ⟨factor, member, rfl⟩ := absent
    -- The symbol does not come again.
    have none : total factor.1 back = 0 := total_eq_zero fun other later =>
      ((List.pairwise_append.mp distinct).2.2 factor member other later).symm
    exact .inr (by rw [none, add_zero])

theorem inRange_iff_of_distinct (distinct : factors.Pairwise fun a b => a.1 ≠ b.1) : InRange u.exponent factors ↔
    (∀ factor ∈ factors, FitsExponent factor.2) ∧ ∀ name, FitsExponent (u.exponent name + total name factors) := by
  refine ⟨fun inRange => ⟨inRange.own, inRange.totals factors List.prefix_rfl⟩, fun ⟨own, fits⟩ => ⟨own, ?_⟩⟩
  intro front start name
  rcases total_prefix distinct start name with none | all
  · rw [none, add_zero]
    exact u.fits_exponent name
  · rw [all]
    exact fits name

/-! Products, quotients, powers and roots. -/

theorem apart_factors (u : PhysicalUnit) : u.factors.Pairwise fun a b => a.1 ≠ b.1 :=
  u.canonical.ascending.imp fun less => less.ne

theorem mul_eq_timesAll (a b : PhysicalUnit) : a.mul? b = a.timesAll? b.factors := by
  have fits := b.canonical.fits
  rw [mul?, timesAll?]
  generalize b.factors = factors at fits
  induction factors generalizing a with
  | nil => rfl
  | cons factor rest ih =>
    obtain ⟨own, later⟩ := List.forall_mem_cons.mp fits
    rw [List.foldlM_cons, List.foldlM_cons, if_pos own]
    exact Option.bind_congr fun next _ => ih next later

/-- The factors of the inverse, whether or not they fit. -/
def inverted (factors : List Factor) : List Factor :=
  factors.map fun factor => (factor.1, -factor.2)

theorem total_inverted (name : String) (factors : List Factor) : total name (inverted factors) = -total name factors := by
  induction factors with
  | nil => rfl
  | cons factor rest ih =>
    rw [inverted, List.map_cons, total_cons, total_cons, neg_add, ← ih, inverted]
    split <;> simp

theorem div_eq_timesAll (a b : PhysicalUnit) : a.div? b = a.timesAll? (inverted b.factors) := by
  rw [timesAll?, inverted, List.foldlM_map]
  rfl

/-- The outcome of an operation on units: where it fails, and which exponents it gives elsewhere. -/
structure Exactly (outcome : Option PhysicalUnit) (fails : Prop) (exponents : String → Int) : Prop where
  none_iff : outcome = none ↔ fails
  realizes : ∀ u, outcome = some u → u.Realizes exponents

variable {outcome other : Option PhysicalUnit} {fails : Prop} {exponents : String → Int}

theorem exactly_none (failed : fails) : Exactly none fails exponents where
  none_iff := iff_of_true rfl failed
  realizes _ other := absurd other.symm (Option.some_ne_none _)

theorem exactly_some (succeeds : ¬ fails) (realizes : u.Realizes exponents) : Exactly (some u) fails exponents where
  none_iff := iff_of_false (Option.some_ne_none u) succeeds
  realizes _ same := Option.some.inj same ▸ realizes

theorem Exactly.eq_some (exactly : Exactly outcome fails exponents) (succeeds : ¬ fails)
    (same : ∀ name, exponents name = u.exponent name) : outcome = some u := by
  cases result : outcome with
  | none => exact absurd (exactly.none_iff.mp result) succeeds
  | some v => rw [ext_exponent fun name => ((exactly.realizes v result).exponent name).trans (same name)]

theorem Exactly.unique (first : Exactly outcome fails exponents) (second : Exactly other fails exponents) :
    outcome = other := by
  cases result : other with
  | none => exact first.none_iff.mpr (second.none_iff.mp result)
  | some u =>
    refine first.eq_some (fun failed => ?_) fun name => ((second.realizes u result).exponent name).symm
    rw [second.none_iff.mpr failed] at result
    cases result

theorem exactly_mul (a b : PhysicalUnit) : Exactly (a.mul? b) (∃ name, ¬ FitsExponent (a.exponent name + b.exponent name))
    fun name => a.exponent name + b.exponent name := by
  rw [mul_eq_timesAll]
  constructor
  · rw [timesAll_eq_none_iff, inRange_iff_of_distinct b.apart_factors, and_iff_right b.canonical.fits, not_forall]
    simp only [total_factors]
  · intro u product
    simpa only [total_factors] using (timesAll_eq_some_iff.mp product).2

theorem mul?_comm (a b : PhysicalUnit) : a.mul? b = b.mul? a := by
  have swapped := exactly_mul b a
  simp only [add_comm (b.exponent _)] at swapped
  exact (exactly_mul a b).unique swapped

theorem exactly_div (a b : PhysicalUnit) : Exactly (a.div? b)
    (∃ name, b.exponent name = -2147483648 ∨ ¬ FitsExponent (a.exponent name - b.exponent name))
    fun name => a.exponent name - b.exponent name := by
  have distinct : (inverted b.factors).Pairwise fun a b => a.1 ≠ b.1 := List.pairwise_map.mpr b.apart_factors
  have own : (∀ factor ∈ inverted b.factors, FitsExponent factor.2) ↔ ∀ name, FitsExponent (-b.exponent name) := by
    rw [inverted, List.forall_mem_map]
    exact forall_factor_iff (fun n => FitsExponent (-n)) (by decide)
  rw [div_eq_timesAll]
  constructor
  · rw [timesAll_eq_none_iff, inRange_iff_of_distinct distinct, own, ← forall_and, not_forall]
    refine exists_congr fun name => ?_
    rw [total_inverted, total_factors, ← sub_eq_add_neg, not_and_or]
    refine or_congr_left ?_
    have fits := b.fits_exponent name
    rw [FitsExponent] at fits ⊢
    omega
  · intro u quotient
    simpa only [total_inverted, total_factors, ← sub_eq_add_neg] using (timesAll_eq_some_iff.mp quotient).2

theorem exponentIn_map {f : Int → Int} (zero : f 0 = 0) (name : String) (factors : List Factor) :
    exponentIn name (factors.map fun factor => (factor.1, f factor.2)) = f (exponentIn name factors) := by
  induction factors with
  | nil => exact zero.symm
  | cons factor rest ih => rw [List.map_cons, exponentIn, exponentIn, ih, apply_ite f]

theorem realizes_mapExponents {f : Int → Int}
    {valid : ∀ factor ∈ u.factors, f factor.2 ≠ 0 ∧ FitsExponent (f factor.2)} (zero : f 0 = 0) :
    (u.mapExponents f valid).Realizes fun name => f (u.exponent name) :=
  realizes_iff.mpr fun name => exponentIn_map zero name u.factors

theorem exactly_pow (u : PhysicalUnit) (n : Int) : Exactly (u.pow? n) (∃ name, ¬ FitsExponent (n * u.exponent name))
    fun name => n * u.exponent name := by
  have fit : (∀ factor ∈ u.factors, FitsExponent (factor.2 * n)) ↔ ∀ name, FitsExponent (n * u.exponent name) := by
    simp only [mul_comm n]
    exact forall_factor_iff (fun k => FitsExponent (k * n)) (by rw [zero_mul]; decide)
  rw [← not_forall, ← fit, pow?]
  split
  next zero =>
    subst zero
    refine exactly_some (not_not.mpr fun factor _ => ?_) (realizes_iff.mpr fun name => (zero_mul _).symm)
    rw [mul_zero]
    decide
  next =>
    split
    next fits =>
      refine exactly_some (not_not.mpr fits) ?_
      simpa only [mul_comm n] using realizes_mapExponents (f := (· * n)) (zero_mul n)
    next overflow => exact exactly_none overflow

theorem exactly_sqrt (u : PhysicalUnit) : Exactly u.sqrt? (∃ name, u.exponent name % 2 = 1)
    fun name => u.exponent name / 2 := by
  have even : (∀ factor ∈ u.factors, factor.2 % 2 = 0) ↔ ∀ name, u.exponent name % 2 = 0 :=
    forall_factor_iff (· % 2 = 0) rfl
  have odd : (∃ name, u.exponent name % 2 = 1) ↔ ¬ ∀ factor ∈ u.factors, factor.2 % 2 = 0 := by
    rw [even, not_forall]
    exact exists_congr fun name => Int.emod_two_ne_zero.symm
  rw [odd, sqrt?]
  split
  next halves => exact exactly_some (not_not.mpr halves) (realizes_mapExponents (f := (· / 2)) rfl)
  next odd => exact exactly_none odd

/-- A factor is divided out again if its exponents can be negated. -/
theorem div_mul {a b c : PhysicalUnit} (product : a.mul? b = some c) (negatable : ∀ name, b.exponent name ≠ -2147483648) :
    c.div? b = some a := by
  have exponents := ((exactly_mul a b).realizes c product).exponent
  have back : ∀ name, c.exponent name - b.exponent name = a.exponent name := fun name => by
    rw [exponents, add_sub_cancel_right]
  refine (exactly_div c b).eq_some ?_ back
  rintro ⟨name, least | overflow⟩
  · exact negatable name least
  · rw [back] at overflow
    exact overflow (a.fits_exponent name)

theorem sqrt_square {c : PhysicalUnit} (square : u.pow? 2 = some c) : c.sqrt? = some u := by
  have exponents := ((exactly_pow u 2).realizes c square).exponent
  refine (exactly_sqrt c).eq_some ?_ fun name => ?_
  · rintro ⟨name, odd⟩
    rw [exponents, Int.mul_emod_right] at odd
    cases odd
  · rw [exponents, Int.mul_ediv_cancel_left _ (by decide)]

/-- Products, quotients, powers and roots of units have the exponents that the integers have, and fail exactly where one of
these is out of range, or, in a quotient, the negation of one. A product is undone by a quotient and a square by a root. -/
theorem arithmetic_exact (a b : PhysicalUnit) (n : Int) :
    (Exactly (a.mul? b) (∃ name, ¬ FitsExponent (a.exponent name + b.exponent name))
        (fun name => a.exponent name + b.exponent name) ∧ a.mul? b = b.mul? a) ∧
      Exactly (a.div? b) (∃ name, b.exponent name = -2147483648 ∨ ¬ FitsExponent (a.exponent name - b.exponent name))
        (fun name => a.exponent name - b.exponent name) ∧
      Exactly (a.pow? n) (∃ name, ¬ FitsExponent (n * a.exponent name)) (fun name => n * a.exponent name) ∧
      Exactly a.sqrt? (∃ name, a.exponent name % 2 = 1) (fun name => a.exponent name / 2) ∧
      (∀ c, a.mul? b = some c → (∀ name, b.exponent name ≠ -2147483648) → c.div? b = some a) ∧
      ∀ c, a.pow? 2 = some c → c.sqrt? = some a :=
  ⟨⟨exactly_mul a b, mul?_comm a b⟩, exactly_div a b, exactly_pow a n, exactly_sqrt a,
    fun _ product negatable => div_mul product negatable, fun _ square => sqrt_square square⟩

def speed : PhysicalUnit where
  factors := [("m", 1), ("s", -1)]
  canonical := ⟨by decide, by decide, by decide⟩

/-- The second cancels and comes back. -/
theorem arithmetic_exact_speed : ∃ product square, speed.mul? (symbol "s") = some product ∧
    (∀ name, (symbol "s").exponent name ≠ -2147483648) ∧ product.div? (symbol "s") = some speed ∧
      speed.pow? 2 = some square ∧ square.sqrt? = some speed := by
  obtain ⟨_, _, _, _, undone, rooted⟩ := arithmetic_exact speed (symbol "s") 2
  obtain ⟨product, times⟩ := Option.isSome_iff_exists.mp (show (speed.mul? (symbol "s")).isSome = true by decide)
  obtain ⟨square, power⟩ := Option.isSome_iff_exists.mp (show (speed.pow? 2).isSome = true by decide)
  have negatable : ∀ name, (symbol "s").exponent name ≠ -2147483648 :=
    (forall_factor_iff (· ≠ -2147483648) (by decide)).mp (by decide)
  exact ⟨product, square, times, negatable, undone product times negatable, power, rooted square power⟩

end PhysicalUnit
end StructuralModel
