import Mathlib
import StructuralModel.Decimal.Dyadic
import StructuralModel.Decimal.Reading

/-! What floating-point numbers are made of. A number that is read from digits is not negative, and a whole number of at
most 53 bits is kept exactly: its bits are shifted up to the leading place. -/

namespace StructuralModel

open Float.Model Float.Model.UnpackedFloat

namespace FloatModel

/-! Signs. -/

/-- Neither a negative number nor a negative zero or infinity. -/
def Unsigned : UnpackedFloat → Prop
  | .notANumber => True
  | .infinity sign | .zero sign | .finite sign _ _ _ => sign = .positive

theorem unsigned_roundWithAccuracy (spec : Format) (mantissa : Nat) (exponent : Int) (accuracy : Accuracy) :
    Unsigned (roundWithAccuracy spec .positive mantissa exponent accuracy) := by
  rw [roundWithAccuracy]
  dsimp only
  split <;> exact rfl

theorem unsigned_mul {spec : Format} {a b : UnpackedFloat} (first : Unsigned a) (second : Unsigned b) :
    Unsigned (UnpackedFloat.mul spec a b) := by
  fun_cases UnpackedFloat.mul spec a b <;> simp_all only [Unsigned] <;>
    first | rfl | exact unsigned_roundWithAccuracy ..

theorem unsigned_div {spec : Format} {a b : UnpackedFloat} (first : Unsigned a) (second : Unsigned b) :
    Unsigned (UnpackedFloat.div spec a b) := by
  fun_cases UnpackedFloat.div spec a b <;> simp_all only [Unsigned] <;>
    first | rfl | exact unsigned_roundWithAccuracy ..

theorem unsigned_ofScientific (spec : Format) (mantissa : Nat) (exponent : Int) :
    Unsigned (UnpackedFloat.ofScientific spec mantissa exponent) := by
  rw [UnpackedFloat.ofScientific]
  split
  · rfl
  split
  · rfl
  split
  · rfl
  split
  · exact unsigned_mul rfl rfl
  · exact unsigned_div rfl rfl

theorem unsigned_ofNat (spec : Format) (n : Nat) : Unsigned (UnpackedFloat.ofNat spec n) := by
  rw [UnpackedFloat.ofNat, UnpackedFloat.ofInt, UnpackedFloat.normalize]
  split
  next below =>
    rw [Int.compare_eq_lt] at below
    omega
  next => rfl
  next => exact unsigned_roundWithAccuracy ..

/-! Bits. -/

theorem toNat_append {n k : Nat} (high : BitVec n) (low : BitVec k) :
    (high ++ low).toNat = high.toNat * 2 ^ k + low.toNat := by
  rw [BitVec.toNat_append, ← Nat.shiftLeft_add_eq_or_of_lt low.isLt, Nat.shiftLeft_eq]

theorem toNat_packComponents (sign : Sign) (exponent : BitVec 11) (mantissa : BitVec 52) :
    (packComponents .binary64 sign exponent mantissa).toNat =
      (sign.toBitVec.toNat * 2 ^ 11 + exponent.toNat) * 2 ^ 52 + mantissa.toNat := by
  rw [packComponents, toNat_append, toNat_append]

theorem packComponents_lt (exponent : BitVec 11) (mantissa : BitVec 52) :
    (packComponents .binary64 .positive exponent mantissa).toNat < 2 ^ 63 := by
  rw [toNat_packComponents, Sign.toBitVec, BitVec.toNat_zero, Nat.zero_mul, Nat.zero_add]
  have high := exponent.isLt
  have low := mantissa.isLt
  omega

theorem pack_lt {u : UnpackedFloat} (unsigned : Unsigned u) : (UnpackedFloat.pack .binary64 u).toNat < 2 ^ 63 := by
  fun_cases UnpackedFloat.pack .binary64 u <;> simp only [Unsigned] at unsigned <;> subst_vars <;>
    exact packComponents_lt _ _

theorem ofBitVec_unpackSign {bits : BitVec 64} (low : bits.toNat < 2 ^ 63) :
    Sign.ofBitVec (@unpackSign .binary64 bits) = .positive := by
  have clear : (@unpackSign .binary64 bits).toNat = 0 := by
    simp [unpackSign]
    omega
  rw [Sign.ofBitVec, if_pos (BitVec.eq_of_toNat_eq clear)]

theorem unsigned_unpack {bits : BitVec 64} (low : bits.toNat < 2 ^ 63) :
    Unsigned (UnpackedFloat.unpack .binary64 bits) := by
  rw [UnpackedFloat.unpack]
  simp only [ofBitVec_unpackSign low]
  split
  · split
    · rfl
    · trivial
  · split
    · split <;> exact rfl
    · rfl

end FloatModel

open FloatModel

theorem isNegative_eq_false {x : Float} : isNegative x = false ↔ x.toBits.toNat < 2 ^ 63 := by
  have bound := x.toBits.toNat_lt
  rw [isNegative, decide_eq_false_iff_not, ← UInt64.toNat_inj]
  simp only [UInt64.toNat_shiftRight, Nat.shiftRight_eq_div_pow]
  change ¬x.toBits.toNat / 2 ^ 63 = 1 ↔ _
  omega

namespace FloatModel

theorem unsigned_model {x : Float} (positive : isNegative x = false) : Unsigned x.toModel.unpack :=
  unsigned_unpack (isNegative_eq_false.mp positive)

theorem isNegative_pack {u : UnpackedFloat} (unsigned : Unsigned u) :
    isNegative (.ofModel (Float.Model.pack u)) = false :=
  isNegative_eq_false.mpr (pack_lt unsigned)

theorem isNegative_mul {x y : Float} (first : isNegative x = false) (second : isNegative y = false) :
    isNegative (x * y) = false :=
  isNegative_pack (unsigned_mul (unsigned_model first) (unsigned_model second))

theorem isNegative_div {x y : Float} (first : isNegative x = false) (second : isNegative y = false) :
    isNegative (x / y) = false :=
  isNegative_pack (unsigned_div (unsigned_model first) (unsigned_model second))

theorem isNegative_toFloat (n : UInt64) : isNegative n.toFloat = false :=
  isNegative_pack (unsigned_ofNat _ _)

theorem isNegative_powerOfTen : ∀ power ∈ Float.exactlyRepresentablePowersOfTen, isNegative power = false := by
  decide +kernel

theorem isNegative_ofScientific (mantissa : Nat) (below : Bool) (exponent : Nat) :
    isNegative (Float.ofScientific mantissa below exponent) = false := by
  rw [Float.ofScientific]
  split
  · have listed : exponent < Float.exactlyRepresentablePowersOfTen.size := by
      simp [Float.exactlyRepresentablePowersOfTen]
      omega
    have power := isNegative_powerOfTen _ (Array.getElem_mem listed)
    dsimp only
    split
    · exact isNegative_div (isNegative_toFloat _) power
    · exact isNegative_mul (isNegative_toFloat _) power
  · exact isNegative_pack (unsigned_ofScientific ..)

end FloatModel

/-- A number that is read from digits has no sign. -/
theorem Decimal.isNegative_ofScientific (mantissa : Nat) (exponent : Int) :
    isNegative (Decimal.ofScientific mantissa exponent) = false := by
  rw [Decimal.ofScientific]
  split
  · decide +kernel
  split
  · decide +kernel
  split
  · decide +kernel
  · exact FloatModel.isNegative_ofScientific ..

namespace FloatModel

/-! Whole numbers. -/

theorem log2_mul_two_pow {n : Nat} (nonzero : n ≠ 0) (places : Nat) : (n * 2 ^ places).log2 = n.log2 + places := by
  have least := Nat.log2_self_le nonzero
  have most := Nat.lt_log2_self (n := n)
  have power := Nat.two_pow_pos places
  rw [Nat.log2_eq_iff (Nat.mul_ne_zero nonzero (Nat.ne_of_gt power)), Nat.pow_add, Nat.add_right_comm, Nat.pow_add]
  exact ⟨Nat.mul_le_mul_right _ least, Nat.mul_lt_mul_of_pos_right most power⟩

/-- A mantissa with its leading bit in place, and an exponent for which numbers are stored so. -/
structure Normal (mantissa : Nat) (exponent : Int) : Prop where
  low : 2 ^ 52 ≤ mantissa
  high : mantissa < 2 ^ 53
  least : -1074 ≤ exponent
  most : exponent ≤ 970

variable {mantissa : Nat} {exponent : Int}

theorem Normal.pos (normal : Normal mantissa exponent) : 0 < mantissa :=
  Nat.lt_of_lt_of_le (by decide) normal.low

theorem Normal.log2 (normal : Normal mantissa exponent) : mantissa.log2 = 52 :=
  (Nat.log2_eq_iff (Nat.ne_of_gt normal.pos)).mpr ⟨normal.low, normal.high⟩

theorem Normal.targetExponent (normal : Normal mantissa exponent) (places : Nat) :
    Format.binary64.targetExponent (totalExponent (mantissa * 2 ^ places) (exponent - places)) = exponent := by
  have least := normal.least
  have digits : (mantissa * 2 ^ places).log2 = 52 + places := by
    rw [log2_mul_two_pow (Nat.ne_of_gt normal.pos), normal.log2]
  have bits : Format.binary64.mantissaBits = 53 := rfl
  have lowest : Format.binary64.minExponent = -1074 := by decide
  rw [Format.targetExponent, totalExponent, digits, bits, lowest]
  omega

/-- Zero bits that are shifted out leave no trace. -/
theorem shiftRight_exact (mantissa places : Nat) :
    (⟨mantissa * 2 ^ places, false, false⟩ : ExtendedMantissa) >>> places = ⟨mantissa, false, false⟩ := by
  induction places generalizing mantissa with
  | zero => rw [Nat.pow_zero, Nat.mul_one]; rfl
  | succ places ih =>
    have later := ih (mantissa * 2)
    have split : mantissa * 2 ^ (places + 1) = mantissa * 2 * 2 ^ places := by
      rw [Nat.pow_succ, Nat.mul_assoc, Nat.mul_comm (2 ^ places) 2]
    have last : ExtendedMantissa.shiftRightOne ⟨mantissa * 2, false, false⟩ = ⟨mantissa, false, false⟩ := by
      simp [ExtendedMantissa.shiftRightOne]
    rw [split]
    exact (congrArg ExtendedMantissa.shiftRightOne later).trans last

theorem shiftToTargetExponent_exact (normal : Normal mantissa exponent) (places : Nat) :
    shiftToTargetExponent .binary64 (mantissa * 2 ^ places) (exponent - places) .exact =
      (⟨mantissa, false, false⟩, exponent) := by
  have shift : (exponent - (exponent - places)).toNat = places := by omega
  have last : exponent - places + places = exponent := by omega
  rw [shiftToTargetExponent]
  simp only [normal.targetExponent places, shiftToExponent, shift, last, ExtendedMantissa.ofMantissaAndAccuracy,
    shiftRight_exact]

theorem roundWithAccuracy_exact (normal : Normal mantissa exponent) (sign : Sign) (places : Nat) :
    roundWithAccuracy .binary64 sign (mantissa * 2 ^ places) (exponent - places) .exact =
      .finite sign mantissa exponent normal.pos := by
  have again := shiftToTargetExponent_exact normal 0
  rw [Nat.pow_zero, Nat.mul_one, Int.natCast_zero, Int.sub_zero] at again
  simp only [roundWithAccuracy, shiftToTargetExponent_exact normal places, ExtendedMantissa.roundedMantissa,
    ExtendedMantissa.accuracy, Accuracy.roundToNearestEven, again]
  rw [dif_neg (Nat.ne_of_gt normal.pos)]

theorem pack_normal (normal : Normal mantissa exponent) :
    UnpackedFloat.pack .binary64 (.finite .positive mantissa exponent normal.pos) =
      packComponents .binary64 .positive (BitVec.ofNat 11 (exponent + 1075).toNat) (BitVec.ofNat 52 mantissa) := by
  have least := normal.least
  have most := normal.most
  have bias : (exponent + Format.binary64.exponentBias + Format.binary64.mantissaBitsWithoutImplicit).toNat =
      (exponent + 1075).toNat := by
    change (exponent + (2 ^ 10 - 1 : Nat) + (52 : Nat)).toNat = _
    omega
  have bits : mantissa.log2 + 1 = Format.binary64.mantissaBits := by rw [normal.log2]; rfl
  rw [UnpackedFloat.pack]
  simp only [bias]
  rw [if_neg (by omega), if_pos bits]

theorem unpack_pack_normal (normal : Normal mantissa exponent) :
    UnpackedFloat.unpack .binary64 (UnpackedFloat.pack .binary64 (.finite .positive mantissa exponent normal.pos)) =
      .finite .positive mantissa exponent normal.pos := by
  have least := normal.least
  have most := normal.most
  have low := normal.low
  have high := normal.high
  have field : (BitVec.ofNat 11 (exponent + 1075).toNat).toNat = (exponent + 1075).toNat := by
    rw [BitVec.toNat_ofNat, Nat.mod_eq_of_lt (by omega)]
  have whole : (1#1 ++ BitVec.ofNat 52 mantissa).toNat = mantissa := by
    rw [toNat_append, BitVec.toNat_ofNat, BitVec.toNat_ofNat]
    omega
  have bias : ((Format.binary64.exponentBias : Nat) : Int) = 1023 := rfl
  rw [pack_normal normal, UnpackedFloat.unpack]
  simp only [unpackMantissa_packComponents, unpackExponent_packComponents, ofBitVec_unpackSign (packComponents_lt _ _)]
  rw [if_neg, if_neg]
  · simp only [whole, field, bias, UnpackedFloat.finite.injEq, true_and]
    omega
  · intro same
    have zero := congrArg BitVec.toNat same
    rw [field] at zero
    simp at zero
    omega
  · intro same
    have full := congrArg BitVec.toNat same
    rw [field] at full
    simp at full
    omega

section whole

variable {n : Nat} (pos : 0 < n) (small : n < 2 ^ 53)

include pos small

theorem normal_whole : Normal (n * 2 ^ (52 - n.log2)) (n.log2 - 52) := by
  have nonzero := Nat.ne_of_gt pos
  have places : n.log2 ≤ 52 := Nat.le_of_lt_succ ((Nat.log2_lt nonzero).mpr small)
  have digits : (n * 2 ^ (52 - n.log2)).log2 = 52 := by
    rw [log2_mul_two_pow nonzero, Nat.add_sub_cancel' places]
  obtain ⟨low, high⟩ := (Nat.log2_eq_iff (Nat.ne_of_gt (Nat.mul_pos pos (Nat.two_pow_pos _)))).mp digits
  exact ⟨low, high, by omega, by omega⟩

theorem ofNat_whole :
    UnpackedFloat.ofNat .binary64 n = .finite .positive _ (n.log2 - 52) (normal_whole pos small).pos := by
  have places : n.log2 ≤ 52 := Nat.le_of_lt_succ ((Nat.log2_lt (Nat.ne_of_gt pos)).mpr small)
  have target : Format.binary64.targetExponent (totalExponent n 0) = n.log2 - 52 := by
    have bits : Format.binary64.mantissaBits = 53 := rfl
    have lowest : Format.binary64.minExponent = -1074 := by decide
    rw [Format.targetExponent, totalExponent, bits, lowest]
    omega
  have shift : (0 - ((n.log2 : Int) - 52)).toNat = 52 - n.log2 := by omega
  have last : (0 : Int) - (52 - n.log2 : Nat) = n.log2 - 52 := by omega
  have rounded := roundWithAccuracy_exact (normal_whole pos small) .positive 0
  rw [Nat.pow_zero, Nat.mul_one, Int.natCast_zero, Int.sub_zero] at rounded
  have positive : compare (n : Int) 0 = .gt := Int.compare_eq_gt.mpr (by omega)
  rw [UnpackedFloat.ofNat, UnpackedFloat.ofInt, UnpackedFloat.normalize, positive]
  simp only [UnpackedFloat.round, Int.toNat_natCast, target, decreaseExponent, shift, last, Nat.shiftLeft_eq, rounded]

theorem model_ofNat : (Float.ofNat n).toModel =
    .pack (.finite .positive _ (n.log2 - 52) (normal_whole pos small).pos) := by
  have normal := normal_whole pos small
  have product := roundWithAccuracy_exact normal .positive 52
  have one : (Float.ofBits 0x3FF0000000000000).toModel.unpack = .finite .positive (2 ^ 52) (-52) (by decide) := rfl
  have first : n.toUInt64.toFloat.toModel.unpack = .finite .positive _ (n.log2 - 52) normal.pos := by
    have word : n.toUInt64.toNat = n := Nat.mod_eq_of_lt (by omega)
    have stored : n.toUInt64.toFloat.toModel = .pack (UnpackedFloat.ofNat .binary64 n.toUInt64.toNat) := rfl
    rw [stored, word, ofNat_whole pos small]
    exact unpack_pack_normal normal
  have run : Float.ofNat n = n.toUInt64.toFloat * Float.ofBits 0x3FF0000000000000 := by
    have fast : n < 2 ^ 53 ∧ 0 ≤ 22 := ⟨small, Nat.zero_le _⟩
    rw [Float.ofNat, OfScientific.ofScientific, instOfScientificFloat]
    simp only [Float.ofScientific, fast]
    rfl
  have multiplied : (n.toUInt64.toFloat * Float.ofBits 0x3FF0000000000000).toModel =
      .pack (UnpackedFloat.mul .binary64 n.toUInt64.toFloat.toModel.unpack
        (Float.ofBits 0x3FF0000000000000).toModel.unpack) := rfl
  rw [run, multiplied, first, one, UnpackedFloat.mul]
  exact congrArg Float.Model.pack product

theorem toBits_ofNat : (Float.ofNat n).toBits.toNat = (n.log2 + 1023) * 2 ^ 52 + (n * 2 ^ (52 - n.log2) - 2 ^ 52) := by
  have normal := normal_whole pos small
  have low := normal.low
  have high := normal.high
  have most := normal.most
  have field : ((n.log2 : Int) - 52 + 1075).toNat = n.log2 + 1023 := by omega
  have bits : (Float.ofNat n).toBits.toNat =
      (UnpackedFloat.pack .binary64 (.finite .positive _ (n.log2 - 52) normal.pos)).toNat := by
    rw [Float.toBits, model_ofNat pos small]
    rfl
  rw [bits, pack_normal normal, toNat_packComponents, Sign.toBitVec, BitVec.toNat_ofNat, BitVec.toNat_ofNat,
    BitVec.toNat_ofNat, field]
  omega

end whole

end FloatModel

/-- A whole number is its bits, shifted up to the leading place. -/
theorem Dyadic.ofFloat?_ofNat {n : Nat} (pos : 0 < n) (small : n < 2 ^ 53) :
    Dyadic.ofFloat? (Float.ofNat n) = some ⟨n * 2 ^ (52 - n.log2), n.log2 - 52⟩ := by
  have normal := normal_whole pos small
  have low := normal.low
  have high := normal.high
  have most := normal.most
  have field : (Float.ofNat n).toBits.toNat >>> 52 % 2048 = n.log2 + 1023 := by
    rw [toBits_ofNat pos small, Nat.shiftRight_eq_div_pow]
    omega
  have fraction : (Float.ofNat n).toBits.toNat % leadingBit = n * 2 ^ (52 - n.log2) - leadingBit := by
    rw [toBits_ofNat pos small, leadingBit]
    omega
  have whole : n * 2 ^ (52 - n.log2) - leadingBit + leadingBit = n * 2 ^ (52 - n.log2) :=
    Nat.sub_add_cancel low
  have place : ((n.log2 + 1023 : Nat) : Int) - 1075 = n.log2 - 52 := by omega
  rw [ofFloat?]
  simp only [field, fraction, whole, place]
  rw [if_neg (by omega), if_neg (by omega)]

end StructuralModel
