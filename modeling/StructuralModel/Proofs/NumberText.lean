import StructuralModel.Decimal.Shortest
import StructuralModel.Proofs.FloatModel
import StructuralModel.Proofs.Lexemes
import StructuralModel.Proofs.UnitText

/-! Numbers as they are printed: digits with a point among them, which the lexer reads as one number. A whole number is
printed as its decimal digits. -/

namespace StructuralModel

namespace Dyadic
open Float.Model Float.Model.UnpackedFloat

/-- A number that has a magnitude is one. -/
theorem isNaN_of_ofFloat? {x : Float} (finite : (ofFloat? x).isSome = true) : x.isNaN = false := by
  have field : (@unpackExponent .binary64 x.toBits.toBitVec).toNat = x.toBits.toNat >>> 52 % 2048 := by
    simp [unpackExponent]
  have bounded : x.toBits.toNat >>> 52 % 2048 ≠ 2047 := by
    intro full
    rw [ofFloat?] at finite
    simp [full] at finite
  have other : @unpackExponent .binary64 x.toBits.toBitVec ≠ -1#_ := by
    intro full
    rw [← field, full] at bounded
    exact bounded rfl
  have known : (UnpackedFloat.unpack .binary64 x.toBits.toBitVec).isNaN = false := by
    rw [UnpackedFloat.unpack]
    dsimp only
    rw [if_neg other]
    split
    · split <;> rfl
    · rfl
  exact known

end Dyadic

namespace Decimal

/-! Digits around a point. -/

/-- The point and the digits behind it, if there are any. -/
def pointed (fraction : List Char) : List Char :=
  if fraction = [] then [] else '.' :: fraction

/-- At least one digit, and more behind a point. -/
structure Written (text whole fraction : List Char) : Prop where
  split : text = whole ++ pointed fraction
  nonempty : whole ≠ []
  whole : ∀ c ∈ whole, c.isDigit = true
  fraction : ∀ c ∈ fraction, c.isDigit = true

theorem isDigit_toDigits (n : Nat) : ∀ c ∈ Nat.toDigits 10 n, c.isDigit = true :=
  fun _ => Nat.isDigit_of_mem_toDigits (by decide) (by decide)

theorem isDigit_replicate (count : Nat) : ∀ c ∈ List.replicate count '0', c.isDigit = true := by
  intro c member
  rw [List.eq_of_mem_replicate member]
  rfl

theorem written_point {digits : List Char} (all : ∀ c ∈ digits, c.isDigit = true) {count : Nat} (some_whole : 0 < count)
    (some_fraction : count < digits.length) :
    Written (digits.take count ++ '.' :: digits.drop count) (digits.take count) (digits.drop count) where
  split := by
    rw [pointed, if_neg]
    intro none
    have length := congrArg List.length none
    rw [List.length_drop, List.length_nil] at length
    omega
  nonempty := by
    intro none
    have length := congrArg List.length none
    rw [List.length_take, List.length_nil] at length
    omega
  whole c member := all c (List.mem_of_mem_take member)
  fraction c member := all c (List.mem_of_mem_drop member)

theorem written_positional (s : Scaled) : ∃ whole fraction, Written s.positional whole fraction := by
  have digits := isDigit_toDigits s.digits
  have some_digit : Nat.toDigits 10 s.digits ≠ [] := Nat.toDigits_ne_nil
  rw [Scaled.positional]
  dsimp only
  split
  next above =>
    refine ⟨_, [], (List.append_nil _).symm, ?_, List.forall_mem_append.mpr ⟨digits, isDigit_replicate _⟩, nofun⟩
    exact fun none => some_digit (List.append_eq_nil_iff.mp none).1
  next below =>
    split
    next short =>
      refine ⟨['0'], List.replicate ((-s.exponent).toNat - (Nat.toDigits 10 s.digits).length) '0' ++
        Nat.toDigits 10 s.digits, ?_, by simp, by simp, List.forall_mem_append.mpr ⟨isDigit_replicate _, digits⟩⟩
      rw [pointed, if_neg fun none => some_digit (List.append_eq_nil_iff.mp none).2]
      rfl
    next long =>
      exact ⟨_, _, written_point digits (by omega) (by omega)⟩

theorem written_text {x : Float} (finite : (Dyadic.ofFloat? x).isSome = true) (positive : isNegative x = false) :
    ∃ whole fraction, Written (text x).toList whole fraction := by
  obtain ⟨d, known⟩ := Option.isSome_iff_exists.mp finite
  rw [text, Dyadic.isNaN_of_ofFloat? finite]
  simp only [positive, known, Bool.false_eq_true, if_false, String.empty_append]
  split
  · exact ⟨['0'], [], rfl, by simp, by simp, nofun⟩
  · rw [String.toList_ofList]
    exact written_positional _

section Written

variable {text whole fraction : List Char} (written : Written text whole fraction)

include written

theorem Written.head : ∃ c rest, text = c :: rest ∧ c.isDigit = true := by
  obtain ⟨c, rest, same⟩ := List.exists_cons_of_ne_nil written.nonempty
  exact ⟨c, rest ++ pointed fraction, by rw [written.split, same]; rfl, written.whole c (same ▸ List.mem_cons_self)⟩

theorem Written.spanOf_whole : Text.spanOf Char.isDigit text = (whole, pointed fraction) := by
  have stops : ∀ c ∈ (pointed fraction).head?, c.isDigit = false := by
    rw [pointed]
    split
    · nofun
    · simp
  rw [written.split, Lexer.spanOf_before stops, Lexer.spanOf_all written.whole]
  rfl

/-- What is read from such digits. -/
theorem Written.read? : Decimal.read? text = some (ofDigits whole fraction 0) := by
  obtain ⟨c, rest, same, digit⟩ := written.head
  have sign : ∀ other : Char, other.isDigit = false → ∀ more, text ≠ other :: more := by
    rintro other plain more again
    rw [same] at again
    rw [(List.cons.inj again).1, plain] at digit
    cases digit
  have lower : c.toLower = c := by
    rw [Text.isDigit_iff] at digit
    rw [Char.toLower, dif_neg]
    rintro ⟨upper, _⟩
    simp only [UInt32.le_iff_toNat_le, ge_iff_le] at upper
    change 65 ≤ c.toNat at upper
    omega
  have name : ∀ word : List Char, (∀ other ∈ word.head?, other.isDigit = false) → word ≠ [] →
      text.map Char.toLower ≠ word := by
    rintro word letter nonempty rfl
    rw [same, List.map_cons, lower] at letter
    rw [letter c rfl] at digit
    cases digit
  rw [Decimal.read?]
  · rw [readMagnitude?, if_neg, if_neg]
    · simp only [written.spanOf_whole]
      by_cases none : fraction = []
      · subst none
        simp [pointed, written.nonempty, readExponent?]
      · simp [pointed, none, Lexer.spanOf_all written.fraction, written.nonempty, readExponent?]
    · exact name _ (by simp) (by simp)
    · exact not_or.mpr ⟨name _ (by simp) (by simp), name _ (by simp) (by simp)⟩
  · exact sign '-' (by decide)
  · exact sign '+' (by decide)

theorem Written.scan : Lexer.scanNumber text = ⟨.token (.number (ofDigits whole fraction 0)), text, []⟩ := by
  have fractions : Lexer.fractionOf (pointed fraction) = (pointed fraction, []) := by
    rw [pointed]
    split
    · rfl
    next digits =>
      obtain ⟨c, rest, same⟩ := List.exists_cons_of_ne_nil digits
      rw [Lexer.fractionOf, Lexer.spanOf_all written.fraction, same]
  have value : Lexer.numberOf whole (pointed fraction) [] = ofDigits whole fraction 0 := by
    have digits : (pointed fraction).drop 1 = fraction := by
      rw [pointed]
      split
      next none => rw [none]; rfl
      next => rfl
    rw [Lexer.numberOf, digits]
    rfl
  simp only [Lexer.scanNumber, written.spanOf_whole, fractions, Lexer.exponentOf, List.head?_nil, Option.any_none,
    Bool.false_eq_true, if_false, value, List.append_nil, ← written.split]

theorem Written.cuts : Lexer.Cuts text [.number (ofDigits whole fraction 0)] Lexer.Separate := by
  obtain ⟨c, rest, same, digit⟩ := written.head
  have number := written.scan
  rw [same] at number ⊢
  exact Lexer.cuts_number digit number

end Written

/-- A number is printed as something that is read as one number, if the digits read back to it. -/
theorem cuts_text {x : Float} (finite : (Dyadic.ofFloat? x).isSome = true) (positive : isNegative x = false)
    (readsBack : Decimal.read? (text x).toList = some x) : Lexer.Cuts (text x).toList [.number x] Lexer.Separate := by
  obtain ⟨whole, fraction, written⟩ := written_text finite positive
  have value : x = ofDigits whole fraction 0 := Option.some.inj (readsBack.symm.trans written.read?)
  have cuts := written.cuts
  rwa [← value] at cuts

end Decimal
end StructuralModel
