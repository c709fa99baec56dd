import StructuralModel.Proofs.NumberText
import StructuralModel.Proofs.PrimaryReading

/-! A whole number is printed as its decimal digits. The numbers that round to it lie so close that no other whole number
is among them; so of the multiples of a power of ten only the number itself is found. -/

namespace StructuralModel
namespace Decimal

/-- The interval of a whole number holds no other whole number. -/
structure Interval.Around (interval : Interval) (n : Nat) : Prop where
  value : interval.value = n * interval.scale
  scale : 3 ≤ interval.scale
  below : interval.value ≤ interval.low + 2
  above : interval.high ≤ interval.value + 2
  low : interval.low < interval.value
  high : interval.value < interval.high

section Around

variable {interval : Interval} {n : Nat} (around : interval.Around n)

include around

theorem Interval.Around.holds_iff (exponent digits : Nat) :
    interval.holds exponent digits = true ↔ digits * 10 ^ exponent = n := by
  have value := around.value
  have scale := around.scale
  have below := around.below
  have above := around.above
  have low := around.low
  have high := around.high
  have point : digits * (10 ^ exponent * interval.scale) = digits * 10 ^ exponent * interval.scale :=
    (Nat.mul_assoc ..).symm
  have apart : (digits * 10 ^ exponent * interval.scale + interval.scale ≤ n * interval.scale ∧
      digits * 10 ^ exponent ≠ n) ∨ digits * 10 ^ exponent = n ∨
      (n * interval.scale + interval.scale ≤ digits * 10 ^ exponent * interval.scale ∧ digits * 10 ^ exponent ≠ n) := by
    rw [← Nat.succ_mul, ← Nat.succ_mul]
    rcases Nat.lt_trichotomy (digits * 10 ^ exponent) n with less | same | greater
    · exact .inl ⟨Nat.mul_le_mul_right _ less, Nat.ne_of_lt less⟩
    · exact .inr (.inl same)
    · exact .inr (.inr ⟨Nat.mul_le_mul_right _ greater, Nat.ne_of_gt greater⟩)
  rw [Interval.holds, Interval.units]
  simp only [Int.toNat_natCast, Int.toNat_neg_natCast, Nat.pow_eq, Nat.pow_zero, Nat.mul_one, point]
  split
  all_goals
    simp only [Bool.and_eq_true, decide_eq_true_eq]
    rcases apart with ⟨before, other⟩ | same | ⟨after, other⟩
    · exact ⟨fun inside => by omega, fun same => absurd same other⟩
    · rw [same]
      exact ⟨fun _ => rfl, fun _ => by omega⟩
    · exact ⟨fun inside => by omega, fun same => absurd same other⟩

theorem Interval.Around.nearest? (exponent : Nat) :
    interval.nearest? exponent = if n % 10 ^ exponent = 0 then some (n / 10 ^ exponent) else none := by
  have scale : 0 < interval.scale := Nat.lt_of_lt_of_le (by decide) around.scale
  have below : interval.value / (10 ^ exponent * interval.scale) = n / 10 ^ exponent := by
    rw [around.value, Nat.mul_div_mul_right _ _ scale]
  have rest := Nat.div_add_mod n (10 ^ exponent)
  rw [Nat.mul_comm] at rest
  have bound := Nat.mod_lt n (Nat.pow_pos (n := exponent) (by decide : 0 < 10))
  have next : interval.holds exponent (n / 10 ^ exponent + 1) = false := by
    refine Bool.eq_false_iff.mpr fun holds => ?_
    have same := (around.holds_iff _ _).mp holds
    rw [Nat.succ_mul] at same
    omega
  have own : interval.holds exponent (n / 10 ^ exponent) = decide (n % 10 ^ exponent = 0) := by
    rw [Bool.eq_iff_iff, around.holds_iff, decide_eq_true_eq]
    omega
  rw [Interval.nearest?, Interval.units]
  simp only [Int.toNat_natCast, Int.toNat_neg_natCast, Nat.pow_eq, Nat.pow_zero, Nat.mul_one, below, next, own]
  by_cases lies : n % 10 ^ exponent = 0
  · simp only [lies, decide_true, if_true]
  · simp only [lies, decide_false, if_false]

/-- Sooner or later a grid is tried that the number lies on. -/
theorem Interval.Around.shortest {exponent grids : Nat} (enough : exponent < grids) :
    ∃ place : Nat, n % 10 ^ place = 0 ∧ interval.shortest grids exponent = ⟨n / 10 ^ place, place⟩ := by
  induction exponent generalizing grids with
  | zero =>
    obtain ⟨grids, rfl⟩ := Nat.exists_eq_add_one_of_ne_zero (Nat.ne_of_gt enough)
    have found := around.nearest? 0
    rw [Nat.pow_zero, Nat.mod_one, if_pos rfl] at found
    refine ⟨0, Nat.mod_one n, ?_⟩
    rw [Interval.shortest, found]
    rfl
  | succ exponent ih =>
    obtain ⟨grids, rfl⟩ := Nat.exists_eq_add_one_of_ne_zero (by omega : grids ≠ 0)
    have found := around.nearest? (exponent + 1)
    by_cases lies : n % 10 ^ (exponent + 1) = 0
    · rw [if_pos lies] at found
      refine ⟨exponent + 1, lies, ?_⟩
      rw [Interval.shortest, found]
    · rw [if_neg lies] at found
      have finer : ((exponent + 1 : Nat) : Int) - 1 = exponent := by omega
      rw [Interval.shortest, found]
      dsimp only
      rw [finer]
      exact ih (by omega)

end Around

theorem toDigits_mul_pow {n : Nat} (pos : 0 < n) (place : Nat) :
    Nat.toDigits 10 (n * 10 ^ place) = Nat.toDigits 10 n ++ List.replicate place '0' := by
  induction place with
  | zero => simp
  | succ place ih =>
    have positive := Nat.mul_pos pos (Nat.pow_pos (n := place) (by decide : 0 < 10))
    have last : Nat.toDigits 10 0 = ['0'] := rfl
    have next := Nat.toDigits_append_toDigits (b := 10) (by decide) positive (by decide : 0 < 10)
    rw [Nat.add_zero, ih, last, Nat.mul_comm 10, Nat.mul_assoc, ← Nat.pow_succ] at next
    rw [← next, List.replicate_succ', List.append_assoc]

theorem around_ofNat {n : Nat} (pos : 0 < n) (small : n < 2 ^ 53) :
    (Interval.around ⟨n * 2 ^ (52 - n.log2), n.log2 - 52⟩).Around n := by
  have places : n.log2 ≤ 52 := Nat.le_of_lt_succ ((Nat.log2_lt (Nat.ne_of_gt pos)).mpr small)
  have coarse : ¬2 ≤ (n.log2 : Int) - 52 := by omega
  have scale : Nat.pow 2 (2 - ((n.log2 : Int) - 52)).toNat = 4 * 2 ^ (52 - n.log2) := by
    have split : (2 - ((n.log2 : Int) - 52)).toNat = 2 + (52 - n.log2) := by omega
    rw [split, Nat.pow_eq, Nat.pow_add]
  have power := Nat.two_pow_pos (52 - n.log2)
  have some_bits := Nat.mul_pos pos power
  have value : 4 * (n * 2 ^ (52 - n.log2)) = n * (4 * 2 ^ (52 - n.log2)) := Nat.mul_left_comm ..
  constructor <;> simp only [Interval.around, coarse, if_false, scale]
  · exact value
  · omega
  · split <;> omega
  · exact Nat.le_refl _
  · split <;> omega
  · omega

theorem text_ofNat {n : Nat} (small : n < 2 ^ 53) : text (Float.ofNat n) = toString n := by
  rcases Nat.eq_zero_or_pos n with rfl | pos
  · decide +kernel
  have known := Dyadic.ofFloat?_ofNat pos small
  have number : (Float.ofNat n).isNaN = false := Dyadic.isNaN_of_ofFloat? (by rw [known]; rfl)
  have positive : isNegative (Float.ofNat n) = false := FloatModel.isNegative_ofScientific n false 0
  have places : n.log2 ≤ 52 := Nat.le_of_lt_succ ((Nat.log2_lt (Nat.ne_of_gt pos)).mpr small)
  have digits : (n * 2 ^ (52 - n.log2)).log2 = 52 := (FloatModel.normal_whole pos small).log2
  have nonzero : n * 2 ^ (52 - n.log2) ≠ 0 := Nat.ne_of_gt (FloatModel.normal_whole pos small).pos
  obtain ⟨exponent, start, enough⟩ : ∃ exponent : Nat,
      exponentAbove ⟨n * 2 ^ (52 - n.log2), n.log2 - 52⟩ = exponent ∧ exponent < 20 := by
    refine ⟨(n.log2 + 1) * 30103 / 100000 + 1, ?_, by omega⟩
    rw [exponentAbove, digits]
    dsimp only
    omega
  obtain ⟨place, lies, found⟩ := (around_ofNat pos small).shortest enough
  have whole : n / 10 ^ place * 10 ^ place = n := Nat.div_mul_cancel (Nat.dvd_of_mod_eq_zero lies)
  have some_digit : 0 < n / 10 ^ place := by
    refine Nat.pos_of_ne_zero fun none => ?_
    rw [none, Nat.zero_mul] at whole
    omega
  rw [text, number]
  simp only [known, positive, nonzero, Bool.false_eq_true, if_false, String.empty_append]
  rw [shortest, start, found, Scaled.positional, if_pos (Int.natCast_nonneg _)]
  simp only [Int.toNat_natCast]
  rw [← toDigits_mul_pow some_digit, whole, Nat.toString_eq_ofList_toDigits]

/-- The number that digits without a point stand for. -/
theorem ofDigits_whole (digits : List Char) : ofDigits digits [] 0 = Float.ofNat (natOfDigits digits) := by
  rw [ofDigits, List.append_nil, List.length_nil, Int.natCast_zero, Int.sub_zero, ofScientific]
  split
  next zero => rw [zero]; rfl
  · rw [if_neg (by decide), if_neg (by omega)]
    rfl

/-- Whole numbers are read back from their text. -/
theorem read?_text_ofNat {n : Nat} (small : n < 2 ^ 53) : read? (text (Float.ofNat n)).toList = some (Float.ofNat n) := by
  have digits : (toString n).toList = Nat.toDigits 10 n := by rw [Nat.toString_eq_repr, Nat.toList_repr]
  have written : Written (Nat.toDigits 10 n) (Nat.toDigits 10 n) [] :=
    ⟨(List.append_nil _).symm, Nat.toDigits_ne_nil, isDigit_toDigits n, nofun⟩
  rw [text_ofNat small, digits, written.read?, ofDigits_whole, natOfDigits_toDigits]

end Decimal

/-- Every exponent is printed as its digits. -/
theorem PhysicalUnit.plainNumbers (u : PhysicalUnit) : u.PlainNumbers := by
  intro factor member
  obtain ⟨low, high⟩ := u.canonical.fits factor member
  exact Decimal.text_ofNat (by omega)

end StructuralModel
