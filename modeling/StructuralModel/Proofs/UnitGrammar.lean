import StructuralModel.Proofs.UnitArithmetic
import StructuralModel.Proofs.UnitReading

/-! The grammar of units, and what a text of it means. Terms stand between `*`, groups of them between `/`, and blanks
around every part. What a text says is the list of its factors, those of the denominator with their exponents negated;
it is a unit if the sums of the exponents stay in range from factor to factor. -/

namespace StructuralModel

namespace Text

/-- The text has only blanks before and after its inner part. -/
def Padded (inner text : List Char) : Prop :=
  ∃ before after, text = before ++ inner ++ after ∧ (∀ c ∈ before, isBlank c = true) ∧ ∀ c ∈ after, isBlank c = true

theorem padded_trim (text : List Char) : Padded (trim text) text :=
  exists_trim text

theorem Padded.before {inner text front : List Char} (padded : Padded inner text) (blank : ∀ c ∈ front, isBlank c = true) :
    Padded inner (front ++ text) := by
  obtain ⟨before, after, rfl, blankBefore, blankAfter⟩ := padded
  exact ⟨front ++ before, after, by simp, List.forall_mem_append.mpr ⟨blank, blankBefore⟩, blankAfter⟩

theorem Padded.after {inner text back : List Char} (padded : Padded inner text) (blank : ∀ c ∈ back, isBlank c = true) :
    Padded inner (text ++ back) := by
  obtain ⟨before, after, rfl, blankBefore, blankAfter⟩ := padded
  exact ⟨before, after ++ back, by simp, blankBefore, List.forall_mem_append.mpr ⟨blankAfter, blank⟩⟩

theorem Padded.mem {inner text : List Char} (padded : Padded inner text) {c : Char} (member : c ∈ text) :
    isBlank c = true ∨ c ∈ inner := by
  obtain ⟨before, after, rfl, blankBefore, blankAfter⟩ := padded
  rcases List.mem_append.mp member with front | back
  · exact (List.mem_append.mp front).imp_left (blankBefore c)
  · exact .inl (blankAfter c back)

theorem dropWhile_blanks {blanks : List Char} (blank : ∀ c ∈ blanks, isBlank c = true) :
    blanks.dropWhile isBlank = [] :=
  List.dropWhile_eq_nil_iff.mpr blank

theorem trim_append_left {before : List Char} (blank : ∀ c ∈ before, isBlank c = true) (text : List Char) :
    trim (before ++ text) = trim text := by
  rw [trim, List.dropWhile_append_of_pos blank, trim]

theorem trim_append_right {after : List Char} (blank : ∀ c ∈ after, isBlank c = true) (text : List Char) :
    trim (text ++ after) = trim text := by
  rw [trim, trim, List.dropWhile_append]
  split
  next empty => rw [List.isEmpty_iff.mp empty, dropWhile_blanks blank]
  next =>
    rw [List.reverse_append, List.dropWhile_append_of_pos fun c member => blank c (List.mem_reverse.mp member)]

theorem Padded.trim_eq {inner text : List Char} (padded : Padded inner text) (solid : ∀ c ∈ inner, isBlank c = false) :
    trim text = inner := by
  obtain ⟨before, after, rfl, blankBefore, blankAfter⟩ := padded
  rw [trim_append_right blankAfter, trim_append_left blankBefore, trim_of_solid solid]

/-- The blanks around a text are blanks before or after the halves that a separator makes of it. -/
theorem exists_splitFirst_trim {separator : Char} {front : List Char} (visible : isBlank separator = false)
    (absent : separator ∉ front) (back : List Char) : ∃ front' back',
      splitFirst separator (trim (front ++ separator :: back)) = some (front', back') ∧ trim front' = trim front ∧
        trim back' = trim back := by
  have cut : ∀ left right : List Char, (left ++ separator :: right).dropWhile isBlank =
      left.dropWhile isBlank ++ separator :: right := by
    intro left right
    rw [List.dropWhile_append]
    split
    next empty => rw [List.isEmpty_iff.mp empty, List.dropWhile_cons_of_neg (by simp [visible]), List.nil_append]
    next => rfl
  have trimmed : trim (front ++ separator :: back) =
      front.dropWhile isBlank ++ separator :: (back.reverse.dropWhile isBlank).reverse := by
    rw [trim, cut, List.reverse_append, List.reverse_cons, List.append_assoc, List.singleton_append, cut]
    simp
  have kept : separator ∉ front.dropWhile isBlank := fun member => absent (List.dropWhile_subset _ member)
  refine ⟨_, _, by rw [trimmed, splitFirst_append kept], ?_, ?_⟩
  · conv_rhs => rw [← List.takeWhile_append_dropWhile (p := isBlank) (l := front)]
    exact (trim_append_left (fun c member => List.mem_takeWhile_imp member) _).symm
  · have whole : back = (back.reverse.dropWhile isBlank).reverse ++ (back.reverse.takeWhile isBlank).reverse := by
      rw [← List.reverse_append, List.takeWhile_append_dropWhile, List.reverse_reverse]
    conv_rhs => rw [whole]
    exact (trim_append_right (fun c member => List.mem_takeWhile_imp (List.mem_reverse.mp member)) _).symm

end Text

namespace Decimal

/-- Digits behind a sign or none, and the number that they stand for. -/
inductive Spelled : List Char → Int → Prop
  | plain {digits : List Char} : digits ≠ [] → (∀ c ∈ digits, c.isDigit = true) → Spelled digits (natOfDigits digits)
  | positive {digits : List Char} : digits ≠ [] → (∀ c ∈ digits, c.isDigit = true) →
      Spelled ('+' :: digits) (natOfDigits digits)
  | negative {digits : List Char} : digits ≠ [] → (∀ c ∈ digits, c.isDigit = true) →
      Spelled ('-' :: digits) (-natOfDigits digits)

theorem readInt?_eq_some_iff {text : List Char} {n : Int} : readInt? text = some n ↔ Spelled text n := by
  constructor
  · intro read
    obtain ⟨sign, digits, rfl, nonempty, all, ⟨rfl, rfl⟩ | ⟨rfl | rfl, rfl⟩⟩ := exists_digits_of_readInt? read
    · exact .negative nonempty all
    · exact .positive nonempty all
    · exact .plain nonempty all
  · have natural : ∀ {digits : List Char}, digits ≠ [] → (∀ c ∈ digits, c.isDigit = true) →
        readInt?.natural? digits = some (natOfDigits digits) := fun nonempty all => by
      rw [readInt?.natural?, if_pos ⟨nonempty, List.all_eq_true.mpr all⟩]
    intro spelled
    cases spelled with
    | plain nonempty all =>
      have sign : ∀ {c : Char} {rest : List Char}, c.isDigit = false → text ≠ c :: rest := by
        rintro c rest other rfl
        rw [all c List.mem_cons_self] at other
        cases other
      rw [readInt?, natural nonempty all]
      · rfl
      · exact fun _ => sign rfl
      · exact fun _ => sign rfl
    | positive nonempty all => rw [readInt?, natural nonempty all]; rfl
    | negative nonempty all => rw [readInt?, natural nonempty all]; rfl

theorem Spelled.mem {text : List Char} {n : Int} (spelled : Spelled text n) {c : Char} (member : c ∈ text) :
    c = '+' ∨ c = '-' ∨ c.isDigit = true := by
  cases spelled with
  | plain _ all => exact .inr (.inr (all c member))
  | positive _ all => exact (List.mem_cons.mp member).imp id fun digit => .inr (all c digit)
  | negative _ all => exact .inr ((List.mem_cons.mp member).imp id (all c))

theorem Spelled.solid {text : List Char} {n : Int} (spelled : Spelled text n) : ∀ c ∈ text, Text.isBlank c = false := by
  intro c member
  rcases spelled.mem member with rfl | rfl | digit
  · decide
  · decide
  · exact Text.isBlank_of_isDigit digit

end Decimal

namespace PhysicalUnit
open Text

/-! The grammar. -/

/-- A name with an exponent that is one where none is written, all with blanks around. -/
inductive Power : List Char → List Char → Int → Prop
  | bare {text name : List Char} : Padded name text → Power text name 1
  | raised {front back name digits : List Char} {n : Int} : Padded name front → Padded digits back →
      Decimal.Spelled digits n → FitsExponent n → Power (front ++ '^' :: back) name n

/-- A term is one, or a symbol with its exponent. -/
inductive Term (inDenominator : Bool) : List Char → List Factor → Prop
  | one {text : List Char} : Power text ['1'] 1 → Term inDenominator text []
  | symbol {text name : List Char} {n : Int} : Power text name n → name ≠ [] →
      (∀ c ∈ name, isLetter c = true ∨ c = '_' ∨ c = '°' ∨ c = '%') →
      Term inDenominator text [(String.ofList name, if inDenominator then -n else n)]

/-- At least one term, on the given side of the fraction. -/
def Group (inDenominator : Bool) (text : List Char) (factors : List Factor) : Prop :=
  ∃ terms meant, terms ≠ [] ∧ text = ['*'].intercalate terms ∧ List.Forall₂ (Term inDenominator) terms meant ∧
    factors = meant.flatten

/-- The first group is the numerator, and every other one belongs to the denominator. -/
def Fraction (text : List Char) (factors : List Factor) : Prop :=
  ∃ numerator denominators above below, text = ['/'].intercalate (numerator :: denominators) ∧
    Group false numerator above ∧ List.Forall₂ (Group true) denominators below ∧ factors = above ++ below.flatten

/-! Reading terms. -/

variable {inDenominator : Bool} {text name : List Char} {n : Int} {factors : List Factor} {u v : PhysicalUnit}

theorem isSymbolChar_iff {c : Char} :
    isSymbolChar c = true ↔ isLetter c = true ∨ c = '_' ∨ c = '°' ∨ c = '%' := by
  simp only [isSymbolChar, Bool.or_eq_true, decide_eq_true_eq, or_assoc]

theorem isSymbol_iff : isSymbol name = true ↔
    name ≠ [] ∧ ∀ c ∈ name, isLetter c = true ∨ c = '_' ∨ c = '°' ∨ c = '%' := by
  simp [isSymbol, isSymbolChar_iff]

theorem power_of_readTerm (read : readTerm (trim text) = .ok (name, n)) : Power text name n := by
  obtain ⟨before, after, whole, blankBefore, blankAfter⟩ := exists_trim text
  rw [readTerm] at read
  split at read
  next =>
    obtain ⟨rfl, rfl⟩ := Prod.mk.inj (Except.ok.inj read)
    exact .bare (padded_trim text)
  next front back found =>
    split at read
    next k known =>
      obtain ⟨rfl, rfl⟩ := Prod.mk.inj (Except.ok.inj read)
      obtain ⟨spelled, fits⟩ := Option.filter_eq_some_iff.mp known
      -- What is cut off the whole term belongs to its name and to its exponent.
      rw [eq_of_splitFirst found, ← List.append_assoc, List.append_assoc, List.cons_append] at whole
      rw [whole]
      exact .raised ((padded_trim front).before blankBefore) ((padded_trim back).after blankAfter)
        (Decimal.readInt?_eq_some_iff.mp spelled) (of_decide_eq_true fits)
    next => cases read

theorem readTerm_of_power (power : Power text name n) (solid : ∀ c ∈ name, isBlank c = false) (single : '^' ∉ name) :
    readTerm (trim text) = .ok (name, n) := by
  rw [readTerm]
  cases power with
  | bare padded => rw [padded.trim_eq solid, splitFirst_of_notMem single]
  | raised padded paddedBack spelled fits =>
    have absent : '^' ∉ _ := fun member => (padded.mem member).elim (by decide) single
    obtain ⟨front', back', found, nameTrimmed, exponentTrimmed⟩ := exists_splitFirst_trim (by decide) absent _
    have known : readExponent? (trim back') = some n := by
      rw [exponentTrimmed, paddedBack.trim_eq spelled.solid, readExponent?, Decimal.readInt?_eq_some_iff.mpr spelled,
        Option.filter_some, if_pos (decide_eq_true fits)]
    rw [padded.trim_eq solid] at nameTrimmed
    simp only [found, known, nameTrimmed]

/-- A reader takes exactly the texts that mean something, and multiplies by the factors that they mean. -/
def Reads (read : PhysicalUnit → List Char → Except UnitError PhysicalUnit)
    (means : List Char → List Factor → Prop) : Prop :=
  ∀ u v text, read u text = .ok v ↔ ∃ factors, means text factors ∧ u.timesAll? factors = some v

theorem reads_term (inDenominator : Bool) : Reads (multiplyTerm inDenominator) (Term inDenominator) := by
  intro u v text
  rw [multiplyTerm_eq_ok]
  constructor
  · rintro ⟨⟨name, n⟩, read, ⟨one, rfl⟩ | ⟨symbol, fits, product⟩⟩
    · obtain ⟨rfl, rfl⟩ := Prod.mk.inj one
      exact ⟨[], .one (power_of_readTerm read), rfl⟩
    · obtain ⟨nonempty, chars⟩ := isSymbol_iff.mp symbol
      refine ⟨_, .symbol (power_of_readTerm read) nonempty chars, ?_⟩
      rw [timesAll_single, if_pos fits]
      exact product
  · rintro ⟨_, term, product⟩
    cases term with
    | one power =>
      have solid : isBlank '1' = false := by decide
      exact ⟨_, readTerm_of_power power (List.forall_mem_singleton.mpr solid) (by decide),
        .inl ⟨rfl, (Option.some.inj product).symm⟩⟩
    | @symbol name n power nonempty chars =>
      have symbol : ∀ c ∈ name, isSymbolChar c = true := fun c member => isSymbolChar_iff.mpr (chars c member)
      have single : '^' ∉ name := fun member => absurd (symbol _ member) (by decide)
      refine ⟨_, readTerm_of_power power (fun c member => isBlank_of_isSymbolChar (symbol c member)) single, .inr ?_⟩
      rw [timesAll_single] at product
      by_cases fits : FitsExponent (if inDenominator then -n else n)
      · rw [if_pos fits] at product
        exact ⟨isSymbol_iff.mpr ⟨nonempty, chars⟩, fits, product⟩
      · rw [if_neg fits] at product
        cases product

/-! Pieces between separators. -/

theorem foldlM_reads {read : PhysicalUnit → List Char → Except UnitError PhysicalUnit}
    {means : List Char → List Factor → Prop} (reads : Reads read means) {pieces : List (List Char)} :
    pieces.foldlM read u = .ok v ↔
      ∃ meant, List.Forall₂ means pieces meant ∧ u.timesAll? meant.flatten = some v := by
  induction pieces generalizing u with
  | nil =>
    constructor
    · intro done
      exact ⟨[], .nil, congrArg some (Except.ok.inj done)⟩
    · rintro ⟨_, ⟨⟩, done⟩
      exact congrArg _ (Option.some.inj done)
  | cons piece pieces ih =>
    rw [foldlM_cons_eq_ok]
    constructor
    · rintro ⟨next, first, later⟩
      obtain ⟨factors, own, product⟩ := (reads u next piece).mp first
      obtain ⟨meant, others, products⟩ := ih.mp later
      refine ⟨factors :: meant, .cons own others, ?_⟩
      rw [List.flatten_cons, timesAll_append, product]
      exact products
    · rintro ⟨_, _ | ⟨own, others⟩, products⟩
      rw [List.flatten_cons, timesAll_append] at products
      obtain ⟨next, product, products⟩ := Option.bind_eq_some_iff.mp products
      exact ⟨next, (reads u next piece).mpr ⟨_, own, product⟩, ih.mpr ⟨_, others, products⟩⟩

theorem forall_left_of_forall₂ {α β : Type} {related : α → β → Prop} {holds : α → Prop} {items : List α} {others : List β}
    (each : List.Forall₂ related items others) (one : ∀ item other, related item other → holds item) :
    ∀ item ∈ items, holds item :=
  ((List.forall₂_and_left ..).mp (each.imp fun item other own => ⟨one item other own, own⟩)).1

/-- A character that no part of a term has. -/
structure Separates (c : Char) : Prop where
  visible : isBlank c = false
  noSymbol : isSymbolChar c = false
  noDigit : c.isDigit = false
  noMark : c ∉ ['^', '+', '-']

theorem separates_star : Separates '*' := ⟨by decide, by decide, by decide, by decide⟩

theorem separates_slash : Separates '/' := ⟨by decide, by decide, by decide, by decide⟩

theorem Power.notMem {c : Char} (separates : Separates c) (power : Power text name n) (absent : c ∉ name) : c ∉ text := by
  have inner : ∀ {part text}, Padded part text → c ∉ part → c ∉ text := fun padded absent member =>
    (padded.mem member).elim (by simp [separates.visible]) absent
  cases power with
  | bare padded => exact inner padded absent
  | raised padded paddedBack spelled =>
    refine List.not_mem_append (inner padded absent) (List.not_mem_cons_of_ne_of_not_mem ?_ (inner paddedBack ?_))
    · rintro rfl
      exact separates.noMark (by decide)
    · intro member
      rcases spelled.mem member with rfl | rfl | digit
      · exact separates.noMark (by decide)
      · exact separates.noMark (by decide)
      · simp [separates.noDigit] at digit

theorem Term.notMem {c : Char} (separates : Separates c) (term : Term inDenominator text factors) : c ∉ text := by
  cases term with
  | one power =>
    refine power.notMem separates fun member => ?_
    have digit := separates.noDigit
    rw [List.mem_singleton.mp member] at digit
    cases digit
  | symbol power nonempty chars =>
    refine power.notMem separates fun member => ?_
    have other := separates.noSymbol
    rw [isSymbolChar_iff.mpr (chars c member)] at other
    cases other

theorem Group.notMem {c : Char} (separates : Separates c) (other : c ≠ '*') (group : Group inDenominator text factors) :
    c ∉ text := by
  obtain ⟨terms, meant, _, rfl, each, _⟩ := group
  intro member
  rcases mem_intercalate member with star | ⟨term, among, inside⟩
  · exact other star
  · exact forall_left_of_forall₂ each (fun _ _ means => means.notMem separates) term among inside

-- The pieces of the grammar are free of the separator, so the text is cut into just these.
theorem reads_group (inDenominator : Bool) : Reads (multiplyGroup inDenominator) (Group inDenominator) := by
  intro u v text
  rw [multiplyGroup, foldlM_reads (reads_term inDenominator)]
  constructor
  · rintro ⟨meant, each, product⟩
    exact ⟨_, ⟨splitAt '*' text, meant, splitAt_ne_nil _ _, (intercalate_splitAt _ _).symm, each, rfl⟩, product⟩
  · rintro ⟨_, ⟨terms, meant, nonempty, rfl, each, rfl⟩, product⟩
    refine ⟨meant, ?_, product⟩
    rwa [splitAt_intercalate nonempty (forall_left_of_forall₂ each fun _ _ means => means.notMem separates_star)]

/-! Whole units. -/

theorem readChars_eq_ok_iff : readChars text = .ok u ↔ trim text ≠ [] ∧
    ∃ factors, Fraction (trim text) factors ∧ dimensionless.timesAll? factors = some u := by
  rw [readChars_eq_ok, List.isEmpty_eq_false_iff]
  refine and_congr_right fun _ => ?_
  constructor
  · rintro ⟨numerator, denominators, product, groups, multiplied, divided⟩
    obtain ⟨above, group, product⟩ := (reads_group false _ _ _).mp multiplied
    obtain ⟨below, each, products⟩ := (foldlM_reads (reads_group true)).mp divided
    refine ⟨above ++ below.flatten, ⟨numerator, denominators, above, below, ?_, group, each, rfl⟩, ?_⟩
    · rw [← groups, intercalate_splitAt]
    · rw [timesAll_append, product]
      exact products
  · rintro ⟨_, ⟨numerator, denominators, above, below, whole, group, each, rfl⟩, products⟩
    rw [timesAll_append] at products
    obtain ⟨product, first, later⟩ := Option.bind_eq_some_iff.mp products
    refine ⟨numerator, denominators, product, ?_, (reads_group false _ _ _).mpr ⟨above, group, first⟩,
      (foldlM_reads (reads_group true)).mpr ⟨below, each, later⟩⟩
    rw [whole]
    refine splitAt_intercalate (List.cons_ne_nil _ _) (List.forall_mem_cons.mpr ⟨?_, ?_⟩)
    · exact group.notMem separates_slash (by decide)
    · exact forall_left_of_forall₂ each fun _ _ means => means.notMem separates_slash (by decide)

/-- A text is a unit exactly if it is a fraction of terms, each with an exponent that fits as it is multiplied, and the
sums of the exponents fit from the left to the right. The unit then has the last of these sums as its exponents. -/
theorem read_eq_ok_iff {text : String} {u : PhysicalUnit} : read text = .ok u ↔ trim text.toList ≠ [] ∧
    ∃ factors, Fraction (trim text.toList) factors ∧ InRange (fun _ => 0) factors ∧
      u.Realizes fun name => total name factors := by
  rw [read, readChars_eq_ok_iff]
  refine and_congr_right fun _ => exists_congr fun factors => and_congr_right fun _ => timesAll_eq_some_iff.trans ?_
  have none : ∀ name, dimensionless.exponent name = 0 := fun _ => rfl
  simp only [show dimensionless.exponent = fun _ => 0 from funext none, zero_add]

/-- The sum leaves the range on the way, and would come back. -/
example : read "m^2147483647 * m / m" = .error (.invalidExponent "m") := by decide +kernel

end PhysicalUnit
end StructuralModel
