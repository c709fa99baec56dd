import Mathlib
import StructuralModel.PhysicalUnit.Text

/-! A unit is read back from its text if its symbols are made of the characters that symbols may have, and if the
exponents of its denominator can be written without their sign. -/

namespace StructuralModel

namespace Text

theorem splitAt_of_notMem {separator : Char} {text : List Char} (absent : separator ∉ text) :
    splitAt separator text = [text] := by
  induction text with
  | nil => rfl
  | cons c rest ih =>
    obtain ⟨apart, absent⟩ := not_or.mp (mt List.mem_cons.mpr absent)
    rw [splitAt, if_neg (Ne.symm apart), ih absent]

theorem splitAt_append {separator : Char} {piece : List Char} (absent : separator ∉ piece) (text : List Char) :
    splitAt separator (piece ++ separator :: text) = piece :: splitAt separator text := by
  induction piece with
  | nil => rw [List.nil_append, splitAt, if_pos rfl]
  | cons c rest ih =>
    obtain ⟨apart, absent⟩ := not_or.mp (mt List.mem_cons.mpr absent)
    rw [List.cons_append, splitAt, if_neg (Ne.symm apart), ih absent]

theorem splitAt_intercalate {separator : Char} {pieces : List (List Char)} (nonempty : pieces ≠ [])
    (absent : ∀ piece ∈ pieces, separator ∉ piece) : splitAt separator ([separator].intercalate pieces) = pieces := by
  induction pieces with
  | nil => exact absurd rfl nonempty
  | cons piece rest ih =>
    have first := absent piece List.mem_cons_self
    cases rest with
    | nil => rw [List.intercalate_singleton, splitAt_of_notMem first]
    | cons next rest =>
      have later := ih (by simp) fun other member => absent other (List.mem_cons_of_mem _ member)
      rw [List.intercalate_cons_cons, List.append_assoc, List.singleton_append, splitAt_append first, later]

theorem splitFirst_of_notMem {separator : Char} {text : List Char} (absent : separator ∉ text) :
    splitFirst separator text = none := by
  induction text with
  | nil => rfl
  | cons c rest ih =>
    obtain ⟨apart, absent⟩ := not_or.mp (mt List.mem_cons.mpr absent)
    rw [splitFirst, if_neg (Ne.symm apart), ih absent, Option.map_none]

theorem splitFirst_append {separator : Char} {before : List Char} (absent : separator ∉ before) (after : List Char) :
    splitFirst separator (before ++ separator :: after) = some (before, after) := by
  induction before with
  | nil => rw [List.nil_append, splitFirst, if_pos rfl]
  | cons c rest ih =>
    obtain ⟨apart, absent⟩ := not_or.mp (mt List.mem_cons.mpr absent)
    rw [List.cons_append, splitFirst, if_neg (Ne.symm apart), ih absent, Option.map_some]

theorem dropWhile_isBlank {text : List Char} (solid : ∀ c ∈ text, isBlank c = false) :
    text.dropWhile isBlank = text := by
  cases text with
  | nil => rfl
  | cons c rest => rw [List.dropWhile_cons, solid c List.mem_cons_self, if_neg Bool.false_ne_true]

theorem trim_of_solid {text : List Char} (solid : ∀ c ∈ text, isBlank c = false) : trim text = text := by
  rw [trim, dropWhile_isBlank solid, dropWhile_isBlank fun c member => solid c (List.mem_reverse.mp member),
    List.reverse_reverse]

theorem within_eq_true {ranges : List (Nat × Nat)} {c : Char} :
    within ranges c = true ↔ ∃ range ∈ ranges, range.1 ≤ c.toNat ∧ c.toNat ≤ range.2 := by
  simp only [within, List.any_eq_true, Bool.and_eq_true, decide_eq_true_eq]

theorem blank_letter_apart : ∀ blank ∈ blankRanges, ∀ letter ∈ letterRanges,
    blank.2 < letter.1 ∨ letter.2 < blank.1 := by
  decide +kernel

theorem blank_alpha_apart : ∀ blank ∈ blankRanges,
    blank.2 < 65 ∨ (90 < blank.1 ∧ blank.2 < 97) ∨ 122 < blank.1 := by
  decide

theorem blank_digit_apart : ∀ blank ∈ blankRanges, blank.2 < 48 ∨ 57 < blank.1 := by
  decide

theorem isBlank_of_isLetter {c : Char} (letter : isLetter c = true) : isBlank c = false := by
  refine Bool.eq_false_iff.mpr fun blank => ?_
  obtain ⟨range, member, low, high⟩ := within_eq_true.mp blank
  simp only [isLetter, Bool.or_eq_true, Bool.and_eq_true] at letter
  rcases letter with alpha | ⟨_, other⟩
  · have apart := blank_alpha_apart range member
    rw [isAlpha_iff] at alpha
    omega
  · obtain ⟨letters, among, first, last⟩ := within_eq_true.mp other
    have apart := blank_letter_apart range member letters among
    omega

theorem isBlank_of_isDigit {c : Char} (digit : c.isDigit = true) : isBlank c = false := by
  refine Bool.eq_false_iff.mpr fun blank => ?_
  obtain ⟨range, member, low, high⟩ := within_eq_true.mp blank
  have apart := blank_digit_apart range member
  rw [isDigit_iff] at digit
  omega

end Text

namespace Decimal

theorem natOfDigits_toDigits (n : Nat) : natOfDigits (Nat.toDigits 10 n) = n := by
  have read : Nat.ofDigitChars 10 (Nat.toDigits 10 n) 0 = n := Nat.ofDigitChars_ten_toDigits
  simpa only [natOfDigits, Nat.ofDigitChars, Nat.mul_comm] using read

theorem readInt?_toDigits (n : Nat) : readInt? (Nat.toDigits 10 n) = some (n : Int) := by
  have digits : ∀ c ∈ Nat.toDigits 10 n, c.isDigit = true := fun _ =>
    Nat.isDigit_of_mem_toDigits (by decide) (by decide)
  have natural : readInt?.natural? (Nat.toDigits 10 n) = some n := by
    rw [readInt?.natural?, if_pos ⟨Nat.toDigits_ne_nil, List.all_eq_true.mpr digits⟩, natOfDigits_toDigits]
  rw [readInt?]
  · rw [natural]
    rfl
  · rintro rest same
    have sign := digits '-' (same ▸ List.mem_cons_self)
    exact absurd sign (by decide)
  · rintro rest same
    have sign := digits '+' (same ▸ List.mem_cons_self)
    exact absurd sign (by decide)

end Decimal

namespace PhysicalUnit
open Text

theorem isBlank_of_isSymbolChar {c : Char} (symbol : isSymbolChar c = true) : isBlank c = false := by
  simp only [isSymbolChar, Bool.or_eq_true, decide_eq_true_eq] at symbol
  rcases symbol with ((letter | rfl) | rfl) | rfl
  · exact isBlank_of_isLetter letter
  · decide
  · decide
  · decide

/-! Terms. -/

/-- A symbol that can be written. -/
def Writable (name : String) : Prop :=
  isSymbol name.toList = true

def termChars (factor : Factor) : List Char :=
  factor.1.toList ++ if factor.2.natAbs = 1 then [] else '^' :: Nat.toDigits 10 factor.2.natAbs

theorem toList_termText (factor : Factor) : (termText factor.1 factor.2.natAbs).toList = termChars factor := by
  rw [termText, termChars]
  split
  · rw [List.append_nil]
  · simp [Nat.toString_eq_repr, Nat.toList_repr]

theorem isSymbolChar_of_mem {name : String} (writable : Writable name) {c : Char} (member : c ∈ name.toList) :
    isSymbolChar c = true := by
  rw [Writable, isSymbol, Bool.and_eq_true] at writable
  exact List.all_eq_true.mp writable.2 c member

theorem notMem_of_writable {name : String} (writable : Writable name) {c : Char} (other : isSymbolChar c = false) :
    c ∉ name.toList := by
  intro member
  rw [isSymbolChar_of_mem writable member] at other
  cases other

theorem mem_termChars {factor : Factor} {c : Char} (member : c ∈ termChars factor) :
    c ∈ factor.1.toList ∨ c = '^' ∨ c.isDigit = true := by
  rw [termChars] at member
  split at member
  · exact .inl (by simpa using member)
  · rcases List.mem_append.mp member with name | exponent
    · exact .inl name
    · rcases List.mem_cons.mp exponent with rfl | digit
      · exact .inr (.inl rfl)
      · exact .inr (.inr (Nat.isDigit_of_mem_toDigits (by decide) (by decide) digit))

theorem notMem_termChars {factor : Factor} (writable : Writable factor.1) {c : Char} (other : isSymbolChar c = false)
    (noPower : c ≠ '^') (noDigit : c.isDigit = false) : c ∉ termChars factor := by
  intro member
  rcases mem_termChars member with name | power | digit
  · exact notMem_of_writable writable other name
  · exact noPower power
  · rw [digit] at noDigit
    cases noDigit

theorem isBlank_of_mem_termChars {factor : Factor} (writable : Writable factor.1) :
    ∀ c ∈ termChars factor, isBlank c = false := by
  intro c member
  rcases mem_termChars member with name | rfl | digit
  · exact isBlank_of_isSymbolChar (isSymbolChar_of_mem writable name)
  · decide
  · exact isBlank_of_isDigit digit

/-- The exponent can be written without its sign. -/
def Signless (n : Int) : Prop :=
  FitsExponent n ∧ n ≠ -2147483648

theorem readExponent?_toDigits (n : Nat) :
    readExponent? (trim (Nat.toDigits 10 n)) = (some (n : Int)).filter fun n => decide (FitsExponent n) := by
  have solid : ∀ c ∈ Nat.toDigits 10 n, isBlank c = false := fun c member =>
    isBlank_of_isDigit (Nat.isDigit_of_mem_toDigits (by decide) (by decide) member)
  rw [trim_of_solid solid, readExponent?, Decimal.readInt?_toDigits]

theorem readTerm_termChars {factor : Factor} (writable : Writable factor.1) (signless : Signless factor.2) :
    readTerm (termChars factor) = .ok (factor.1.toList, (factor.2.natAbs : Int)) := by
  have noPower : '^' ∉ factor.1.toList := notMem_of_writable writable (by decide)
  rw [readTerm, termChars]
  by_cases one : factor.2.natAbs = 1
  · rw [if_pos one, List.append_nil, splitFirst_of_notMem noPower, one]
    rfl
  · have fits : FitsExponent (factor.2.natAbs : Int) := by
      obtain ⟨⟨low, high⟩, bound⟩ := signless
      rw [FitsExponent]
      omega
    have exponent : readExponent? (trim (Nat.toDigits 10 factor.2.natAbs)) = some (factor.2.natAbs : Int) := by
      rw [readExponent?_toDigits, Option.filter_some, if_pos (decide_eq_true fits)]
    have name : trim factor.1.toList = factor.1.toList := trim_of_solid fun c member =>
      isBlank_of_isSymbolChar (isSymbolChar_of_mem writable member)
    rw [if_neg one, splitFirst_append noPower]
    simp only [exponent, name]

/-- Which side of the fraction a factor stands on. -/
def Sided (inDenominator : Bool) (factor : Factor) : Prop :=
  if inDenominator then factor.2 < 0 else 0 < factor.2

theorem Sided.signed {inDenominator : Bool} {factor : Factor} (sided : Sided inDenominator factor) :
    (if inDenominator then -|factor.2| else |factor.2|) = factor.2 := by
  rw [Sided] at sided
  split
  next below =>
    rw [if_pos below] at sided
    rw [abs_of_neg sided, neg_neg]
  next above =>
    rw [if_neg above] at sided
    exact abs_of_pos sided

theorem multiplyTerm_termChars {inDenominator : Bool} {u product : PhysicalUnit} {factor : Factor}
    (writable : Writable factor.1) (signless : Signless factor.2) (sided : Sided inDenominator factor)
    (multiplies : u.times? factor.1 factor.2 = some product) :
    multiplyTerm inDenominator u (termChars factor) = .ok product := by
  have noOne : factor.1.toList ≠ ['1'] := by
    intro one
    have digit : '1' ∉ factor.1.toList := notMem_of_writable writable (by decide)
    exact digit (one ▸ List.mem_cons_self)
  have symbol : isSymbol factor.1.toList = true := writable
  have fits : FitsExponent factor.2 := signless.1
  have signed := sided.signed
  simp only [multiplyTerm, trim_of_solid (isBlank_of_mem_termChars writable), readTerm_termChars writable signless]
  simp [noOne, symbol, signed, fits, multiplies, bind, Except.bind, pure, Except.pure]

/-! Groups of terms. -/

theorem mem_addExponent_of_fresh {name : String} {n : Int} {factors : List Factor}
    (fresh : ∀ factor ∈ factors, factor.1 ≠ name) (nonzero : n ≠ 0) (factor : Factor) :
    factor ∈ addExponent name n factors ↔ factor = (name, n) ∨ factor ∈ factors := by
  induction factors with
  | nil => simp [addExponent, nonzero]
  | cons head rest ih =>
    obtain ⟨other, k⟩ := head
    have apart : other ≠ name := fresh _ List.mem_cons_self
    have later := ih fun factor member => fresh factor (List.mem_cons_of_mem _ member)
    rw [addExponent, if_neg apart, if_neg nonzero]
    split
    · rw [List.mem_cons, later, List.mem_cons, or_left_comm]
    · rw [List.mem_cons]

theorem times_of_fresh {u : PhysicalUnit} {factor : Factor} (fresh : ∀ other ∈ u.factors, other.1 ≠ factor.1)
    (nonzero : factor.2 ≠ 0) (fits : FitsExponent factor.2) :
    ∃ product, u.times? factor.1 factor.2 = some product ∧
      ∀ other, other ∈ product.factors ↔ other = factor ∨ other ∈ u.factors := by
  have inRange : FitsExponent (exponentIn factor.1 u.factors + factor.2) := by
    rwa [exponentIn_eq_zero fresh, Int.zero_add]
  exact ⟨_, dif_pos inRange, mem_addExponent_of_fresh fresh nonzero⟩

def groupChars (factors : List Factor) : List Char :=
  ['*'].intercalate (factors.map termChars)

/-- Terms with different symbols are multiplied one after the other. -/
theorem foldlM_multiplyTerm {inDenominator : Bool} {factors : List Factor}
    (writable : ∀ factor ∈ factors, Writable factor.1) (signless : ∀ factor ∈ factors, Signless factor.2)
    (sided : ∀ factor ∈ factors, Sided inDenominator factor)
    (ascending : factors.Pairwise fun a b => a.1 < b.1) {u : PhysicalUnit}
    (fresh : ∀ factor ∈ factors, ∀ other ∈ u.factors, other.1 ≠ factor.1) :
    ∃ product, (factors.map termChars).foldlM (multiplyTerm inDenominator) u = .ok product ∧
      ∀ other, other ∈ product.factors ↔ other ∈ factors ∨ other ∈ u.factors := by
  induction factors generalizing u with
  | nil => exact ⟨u, rfl, by simp⟩
  | cons factor rest ih =>
    rw [List.pairwise_cons] at ascending
    have first := List.mem_cons_self (a := factor) (l := rest)
    have nonzero : factor.2 ≠ 0 := by
      have side := sided factor first
      rw [Sided] at side
      split at side <;> omega
    obtain ⟨product, multiplies, members⟩ := times_of_fresh (fresh factor first) nonzero (signless factor first).1
    have later : ∀ other ∈ rest, ∀ factor ∈ product.factors, factor.1 ≠ other.1 := by
      intro other among factor' inside
      rcases (members factor').mp inside with rfl | old
      · exact (ascending.1 other among).ne
      · exact fresh other (List.mem_cons_of_mem _ among) factor' old
    obtain ⟨last, run, all⟩ := ih (fun other among => writable other (List.mem_cons_of_mem _ among))
      (fun other among => signless other (List.mem_cons_of_mem _ among))
      (fun other among => sided other (List.mem_cons_of_mem _ among)) ascending.2 later
    refine ⟨last, ?_, fun other => ?_⟩
    · rw [List.map_cons, List.foldlM_cons,
        multiplyTerm_termChars (writable factor first) (signless factor first) (sided factor first) multiplies]
      exact run
    · rw [all, members, List.mem_cons, or_assoc, or_left_comm]

theorem splitAt_groupChars {factors : List Factor} (nonempty : factors ≠ [])
    (writable : ∀ factor ∈ factors, Writable factor.1) : splitAt '*' (groupChars factors) = factors.map termChars := by
  refine splitAt_intercalate (by simpa using nonempty) fun piece member => ?_
  obtain ⟨factor, among, rfl⟩ := List.mem_map.mp member
  exact notMem_termChars (writable factor among) (by decide) (by decide) (by decide)

theorem multiplyGroup_groupChars {inDenominator : Bool} {factors : List Factor} (nonempty : factors ≠ [])
    (writable : ∀ factor ∈ factors, Writable factor.1) (signless : ∀ factor ∈ factors, Signless factor.2)
    (sided : ∀ factor ∈ factors, Sided inDenominator factor)
    (ascending : factors.Pairwise fun a b => a.1 < b.1) {u : PhysicalUnit}
    (fresh : ∀ factor ∈ factors, ∀ other ∈ u.factors, other.1 ≠ factor.1) :
    ∃ product, multiplyGroup inDenominator u (groupChars factors) = .ok product ∧
      ∀ other, other ∈ product.factors ↔ other ∈ factors ∨ other ∈ u.factors := by
  rw [multiplyGroup, splitAt_groupChars nonempty writable]
  exact foldlM_multiplyTerm writable signless sided ascending fresh

/-! Whole units. -/

def numerator (u : PhysicalUnit) : List Factor :=
  u.factors.filter fun factor => 0 < factor.2

def denominator (u : PhysicalUnit) : List Factor :=
  u.factors.filter fun factor => factor.2 < 0

def numeratorChars (u : PhysicalUnit) : List Char :=
  if u.numerator.isEmpty then ['1'] else groupChars u.numerator

def denominatorChars (u : PhysicalUnit) : List Char :=
  if u.denominator.isEmpty then [] else '/' :: groupChars u.denominator

theorem toList_text (u : PhysicalUnit) : u.text.toList = u.numeratorChars ++ u.denominatorChars := by
  have group : ∀ factors : List Factor,
      ("*".intercalate (factors.map fun factor => termText factor.1 factor.2.natAbs)).toList = groupChars factors := by
    intro factors
    rw [String.toList_intercalate, groupChars, List.map_map]
    exact congrArg _ (List.map_congr_left fun factor _ => toList_termText factor)
  simp only [text, String.toList_append, apply_ite String.toList, group]
  rfl

/-- The symbols of the unit can be written. -/
def Symbolic (u : PhysicalUnit) : Prop :=
  ∀ factor ∈ u.factors, Writable factor.1

instance (u : PhysicalUnit) : Decidable u.Symbolic :=
  inferInstanceAs (Decidable (∀ factor ∈ u.factors, isSymbol factor.1.toList = true))

/-- Everything that has to be so for the unit to be read back from its text. -/
structure Readable (u : PhysicalUnit) : Prop where
  writable : ∀ factor ∈ u.factors, Writable factor.1
  signless : ∀ factor ∈ u.factors, factor.2 ≠ -2147483648

theorem Readable.signless_mem {u : PhysicalUnit} (readable : u.Readable) : ∀ factor ∈ u.factors, Signless factor.2 :=
  fun factor member => ⟨u.canonical.fits factor member, readable.signless factor member⟩

theorem eq_of_mem_iff {u v : PhysicalUnit} (same : ∀ factor, factor ∈ u.factors ↔ factor ∈ v.factors) : u = v := by
  have irreflexive : Std.Irrefl fun a b : Factor => a.1 < b.1 := ⟨fun a => lt_irrefl a.1⟩
  have antisymmetric : Std.Antisymm fun a b : Factor => a.1 < b.1 :=
    ⟨fun _ _ less greater => absurd less greater.not_gt⟩
  have factors := u.canonical.ascending.eq_of_mem_iff v.canonical.ascending same
  cases u
  cases v
  cases factors
  rfl

theorem eq_of_same_symbol {u : PhysicalUnit} {a b : Factor} (first : a ∈ u.factors) (second : b ∈ u.factors)
    (same : a.1 = b.1) : a = b := by
  have symmetric : Std.Symm fun a b : Factor => a.1 ≠ b.1 := ⟨fun _ _ => Ne.symm⟩
  have apart : u.factors.Pairwise fun a b => a.1 ≠ b.1 := u.canonical.ascending.imp fun less => less.ne
  by_contra other
  exact apart.forall first second other same

theorem mem_intercalate {α : Type} {separator c : α} {pieces : List (List α)}
    (member : c ∈ [separator].intercalate pieces) : c = separator ∨ ∃ piece ∈ pieces, c ∈ piece := by
  induction pieces with
  | nil => simp at member
  | cons piece rest ih =>
    cases rest with
    | nil => exact .inr ⟨piece, List.mem_cons_self, by simpa using member⟩
    | cons next rest =>
      rw [List.intercalate_cons_cons, List.append_assoc, List.mem_append, List.mem_append, List.mem_singleton] at member
      rcases member with inside | here | later
      · exact .inr ⟨piece, List.mem_cons_self, inside⟩
      · exact .inl here
      · exact (ih later).imp_right fun ⟨other, among, inside⟩ => ⟨other, List.mem_cons_of_mem _ among, inside⟩

theorem mem_groupChars {factors : List Factor} {c : Char} (member : c ∈ groupChars factors) :
    c = '*' ∨ ∃ factor ∈ factors, c ∈ termChars factor := by
  refine (mem_intercalate member).imp_right fun ⟨piece, among, inside⟩ => ?_
  obtain ⟨factor, known, rfl⟩ := List.mem_map.mp among
  exact ⟨factor, known, inside⟩

/-- A group has neither blanks nor slashes. -/
theorem plain_groupChars {factors : List Factor} (writable : ∀ factor ∈ factors, Writable factor.1) :
    ∀ c ∈ groupChars factors, isBlank c = false ∧ c ≠ '/' := by
  intro c member
  rcases mem_groupChars member with rfl | ⟨factor, among, inside⟩
  · decide
  · refine ⟨isBlank_of_mem_termChars (writable factor among) c inside, ?_⟩
    rintro rfl
    exact notMem_termChars (writable factor among) (by decide) (by decide) (by decide) inside

theorem plain_numeratorChars {u : PhysicalUnit} (symbolic : u.Symbolic) :
    ∀ c ∈ u.numeratorChars, isBlank c = false ∧ c ≠ '/' := by
  rw [numeratorChars]
  split
  · intro c member
    rw [List.mem_singleton.mp member]
    decide
  · exact plain_groupChars fun factor member => symbolic factor (List.mem_of_mem_filter member)

theorem plain_denominatorChars {u : PhysicalUnit} (symbolic : u.Symbolic) :
    ∀ c ∈ groupChars u.denominator, isBlank c = false ∧ c ≠ '/' :=
  plain_groupChars fun factor member => symbolic factor (List.mem_of_mem_filter member)

/-- The text of a unit has no blanks. -/
theorem isBlank_of_mem_text {u : PhysicalUnit} (symbolic : u.Symbolic) :
    ∀ c ∈ u.numeratorChars ++ u.denominatorChars, isBlank c = false := by
  intro c member
  rcases List.mem_append.mp member with above | below
  · exact (plain_numeratorChars symbolic c above).1
  · rw [denominatorChars] at below
    split at below
    · cases below
    · rcases List.mem_cons.mp below with rfl | inside
      · decide
      · exact (plain_denominatorChars symbolic c inside).1

theorem multiplyGroup_numeratorChars {u : PhysicalUnit} (readable : u.Readable) :
    ∃ product, multiplyGroup false dimensionless u.numeratorChars = .ok product ∧
      ∀ factor, factor ∈ product.factors ↔ factor ∈ u.numerator := by
  rw [numeratorChars]
  split
  next none =>
    refine ⟨dimensionless, rfl, fun factor => ?_⟩
    rw [List.isEmpty_iff.mp none]
    rfl
  next some =>
    have inside : ∀ factor ∈ u.numerator, factor ∈ u.factors := fun _ => List.mem_of_mem_filter
    have sided : ∀ factor ∈ u.numerator, Sided false factor := by
      intro factor member
      rw [Sided, if_neg Bool.false_ne_true]
      exact of_decide_eq_true (List.mem_filter.mp member).2
    obtain ⟨product, run, members⟩ := multiplyGroup_groupChars (u := dimensionless)
      (fun none => some (List.isEmpty_iff.mpr none)) (fun factor member => readable.writable factor (inside factor member))
      (fun factor member => readable.signless_mem factor (inside factor member))
      sided (u.canonical.ascending.filter _)
      (fun _ _ other member => absurd member List.not_mem_nil)
    exact ⟨product, run, fun factor => (members factor).trans (or_iff_left List.not_mem_nil)⟩

theorem splitAt_text {u : PhysicalUnit} (symbolic : u.Symbolic) :
    splitAt '/' (u.numeratorChars ++ u.denominatorChars) =
      u.numeratorChars :: if u.denominator.isEmpty then [] else [groupChars u.denominator] := by
  have above : '/' ∉ u.numeratorChars := fun member => (plain_numeratorChars symbolic '/' member).2 rfl
  have below : '/' ∉ groupChars u.denominator := fun member => (plain_denominatorChars symbolic '/' member).2 rfl
  rw [denominatorChars]
  split
  · rw [List.append_nil, splitAt_of_notMem above]
  · rw [splitAt_append above, splitAt_of_notMem below]

theorem multiplyGroups_denominator {u product : PhysicalUnit} (readable : u.Readable)
    (above : ∀ factor, factor ∈ product.factors ↔ factor ∈ u.numerator) :
    (if u.denominator.isEmpty then [] else [groupChars u.denominator]).foldlM (multiplyGroup true) product = .ok u := by
  have sign : ∀ factor ∈ u.factors, factor ∈ u.numerator ∨ factor ∈ u.denominator := by
    intro factor member
    rw [numerator, denominator, List.mem_filter, List.mem_filter, decide_eq_true_eq, decide_eq_true_eq]
    have nonzero := u.canonical.nonzero factor member
    have order : 0 < factor.2 ∨ factor.2 < 0 := by omega
    exact order.imp (⟨member, ·⟩) (⟨member, ·⟩)
  have inNumerator : ∀ factor ∈ u.numerator, factor ∈ u.factors := fun _ => List.mem_of_mem_filter
  have inDenominator : ∀ factor ∈ u.denominator, factor ∈ u.factors := fun _ => List.mem_of_mem_filter
  split
  next none =>
    have all : product = u := eq_of_mem_iff fun factor => by
      rw [above]
      refine ⟨inNumerator factor, fun member => (sign factor member).resolve_right fun below => ?_⟩
      rw [List.isEmpty_iff.mp none] at below
      cases below
    exact congrArg _ all
  next some =>
    have sided : ∀ factor ∈ u.denominator, Sided true factor := by
      intro factor member
      rw [Sided, if_pos rfl]
      exact of_decide_eq_true (List.mem_filter.mp member).2
    have fresh : ∀ factor ∈ u.denominator, ∀ other ∈ product.factors, other.1 ≠ factor.1 := by
      intro factor member other among same
      have positive := (above other).mp among
      obtain rfl := eq_of_same_symbol (inNumerator other positive) (inDenominator factor member) same
      have positiveExponent : 0 < other.2 := of_decide_eq_true (List.mem_filter.mp positive).2
      have negativeExponent : other.2 < 0 := of_decide_eq_true (List.mem_filter.mp member).2
      omega
    obtain ⟨last, run, members⟩ := multiplyGroup_groupChars (fun none => some (List.isEmpty_iff.mpr none))
      (fun factor member => readable.writable factor (inDenominator factor member))
      (fun factor member => readable.signless_mem factor (inDenominator factor member)) sided
      (u.canonical.ascending.filter _) fresh
    have all : last = u := eq_of_mem_iff fun factor => by
      rw [members, above]
      exact ⟨fun member => member.elim (inDenominator factor) (inNumerator factor), fun member => (sign factor member).symm⟩
    rw [List.foldlM_cons, run, all]
    rfl

theorem read_text {u : PhysicalUnit} (readable : u.Readable) : read u.text = .ok u := by
  obtain ⟨product, run, above⟩ := multiplyGroup_numeratorChars readable
  have denominators := multiplyGroups_denominator readable above
  have nonempty : (u.numeratorChars ++ u.denominatorChars).isEmpty = false := by
    cases none : u.numeratorChars with
    | nil =>
      rw [none] at run
      cases run
    | cons c rest => rfl
  rw [read, toList_text, readChars]
  simp only [trim_of_solid (isBlank_of_mem_text readable.writable), nonempty, splitAt_text readable.writable, run,
    Bool.false_eq_true, if_false]
  exact denominators

end PhysicalUnit
end StructuralModel
