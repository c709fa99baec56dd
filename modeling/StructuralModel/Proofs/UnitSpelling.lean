import StructuralModel.Proofs.RebuiltText

/-! The text of a unit and the text that is put together again for its tokens. Where the first is a unit, the second is
the same unit: blanks are gone and the digits of exponents are printed anew, but terms stay terms. -/

namespace StructuralModel
namespace PhysicalUnit
open Text Lexer

/-! Terms. -/

/-- A character of a term without blanks. -/
def TermChar (c : Char) : Prop :=
  isSymbolChar c = true ∨ c.isDigit = true ∨ c = '^' ∨ c = '-'

theorem TermChar.solid {c : Char} (inside : TermChar c) : isBlank c = false ∧ c ≠ '*' ∧ c ≠ '/' := by
  rcases inside with symbol | digit | rfl | rfl
  · refine ⟨isBlank_of_isSymbolChar symbol, ?_, ?_⟩ <;> rintro rfl <;> cases symbol
  · refine ⟨isBlank_of_isDigit digit, ?_, ?_⟩ <;> rintro rfl <;> cases digit
  · decide
  · decide

theorem trim_of_termChar {term : List Char} (inside : ∀ c ∈ term, TermChar c) : trim term = term :=
  trim_of_solid fun c member => (inside c member).solid.1

theorem termChar_toDigits (n : Nat) : ∀ c ∈ Nat.toDigits 10 n, TermChar c :=
  fun c member => .inr (.inl (Decimal.isDigit_toDigits n c member))

theorem natural?_toDigits (n : Nat) : Decimal.readInt?.natural? (Nat.toDigits 10 n) = some n := by
  rw [Decimal.readInt?.natural?, if_pos ⟨Nat.toDigits_ne_nil, List.all_eq_true.mpr (Decimal.isDigit_toDigits n)⟩,
    Decimal.natOfDigits_toDigits]

/-- An exponent is put together again without leading zeros. -/
theorem exists_exponent {exponent : List Char} {n : Int} (read : readExponent? exponent = some n) :
    ∃ built, Rebuilds exponent built Bordered ∧ (∀ c ∈ built, TermChar c) ∧ readExponent? built = some n := by
  rw [readExponent?, Option.filter_eq_some_iff, decide_eq_true_eq] at read
  obtain ⟨read, fits⟩ := read
  obtain ⟨sign, digits, rfl, nonempty, all, signed⟩ := Decimal.exists_digits_of_readInt? read
  have small : Decimal.natOfDigits digits < 2 ^ 53 := by
    obtain ⟨low, high⟩ := fits
    omega
  have printed := (rebuilds_digits nonempty all small).mono fun _ (bordered : Bordered _) => bordered.separate
  rcases signed with ⟨rfl, rfl⟩ | ⟨unsigned, rfl⟩
  · have minus : Rebuilds ['-'] ['-'] fun _ => True := rebuilds_minus
    refine ⟨_, minus.append printed fun _ _ => trivial,
      List.forall_mem_append.mpr ⟨by simp [TermChar], termChar_toDigits _⟩, ?_⟩
    have again : Decimal.readInt? (['-'] ++ Nat.toDigits 10 (Decimal.natOfDigits digits)) =
        some (-(Decimal.natOfDigits digits : Int)) := by
      simp [Decimal.readInt?, natural?_toDigits]
    rw [readExponent?, again, Option.filter_some, if_pos (decide_eq_true fits)]
  · have silent : Rebuilds sign [] fun _ => True := by
      rcases unsigned with rfl | rfl
      · exact rebuilds_of_unknown (fun _ => rfl) rfl []
      · exact rebuilds_nil
    refine ⟨_, silent.append printed fun _ _ => trivial, termChar_toDigits _, ?_⟩
    rw [List.nil_append, readExponent?, Decimal.readInt?_toDigits, Option.filter_some, if_pos (decide_eq_true fits)]

theorem rebuilds_base {name : List Char} (base : name = ['1'] ∨ isSymbol name = true) :
    Rebuilds name name Bordered ∧ (∀ c ∈ name, TermChar c ∧ c ≠ '^') ∧ name ≠ [] := by
  rcases base with rfl | symbol
  · have one : Rebuilds ['1'] ['1'] Separate := rebuilds_digits (by simp) (by simp) (by decide)
    exact ⟨one.mono fun _ bordered => bordered.separate, by simp [TermChar], by simp⟩
  · rw [isSymbol, Bool.and_eq_true, List.all_eq_true] at symbol
    obtain ⟨nonempty, all⟩ := symbol
    refine ⟨(rebuilds_symbol all).mono fun _ bordered => bordered.separate.word, fun c member => ⟨.inl (all c member), ?_⟩,
      by simpa using nonempty⟩
    rintro rfl
    cases all _ member

/-- What is put together for the tokens of a term is a term of the same meaning. -/
theorem exists_term {inDenominator : Bool} {u v : PhysicalUnit} {term : List Char}
    (multiplied : multiplyTerm inDenominator u term = .ok v) :
    ∃ built, Rebuilds term built Bordered ∧ (built ≠ [] ∧ ∀ c ∈ built, TermChar c) ∧
      multiplyTerm inDenominator u built = .ok v := by
  obtain ⟨⟨name, n⟩, read, multiplies⟩ := multiplyTerm_eq_ok.mp multiplied
  have base : name = ['1'] ∨ isSymbol name = true := by
    rcases multiplies with ⟨same, _⟩ | ⟨symbol, _⟩
    · exact .inl (Prod.mk.inj same).1
    · exact .inr symbol
  have again : ∀ built, readTerm (trim built) = .ok (name, n) → multiplyTerm inDenominator u built = .ok v :=
    fun built same => multiplyTerm_eq_ok.mpr ⟨(name, n), same, multiplies⟩
  obtain ⟨rebuilds, inside, nonempty⟩ := rebuilds_base base
  have noCaret : '^' ∉ name := fun member => (inside _ member).2 rfl
  have whole := read
  rw [readTerm] at read
  split at read
  next single =>
    obtain ⟨rfl, rfl⟩ := Prod.mk.inj (Except.ok.inj read)
    refine ⟨trim term, rebuilds.of_trim, ⟨nonempty, fun c member => (inside c member).1⟩, again _ ?_⟩
    rw [trim_of_termChar fun c member => (inside c member).1]
    exact whole
  next before exponent found =>
    split at read
    next k known =>
      obtain ⟨rfl, rfl⟩ := Prod.mk.inj (Except.ok.inj read)
      obtain ⟨built, later, plain, sameExponent⟩ := exists_exponent known
      have cut : trim term = before ++ '^' :: exponent := eq_of_splitFirst found
      have caret : Rebuilds ['^'] ['^'] fun _ => True := rebuilds_caret
      have power : Rebuilds ('^' :: exponent) ('^' :: built) Bordered := caret.append later.of_trim fun _ _ => trivial
      have all : ∀ c ∈ trim before ++ '^' :: built, TermChar c :=
        List.forall_mem_append.mpr ⟨fun c member => (inside c member).1,
          List.forall_mem_cons.mpr ⟨.inr (.inr (.inl rfl)), plain⟩⟩
      refine ⟨trim before ++ '^' :: built, ?_, ⟨by simp, all⟩, again _ ?_⟩
      · refine Rebuilds.of_trim ?_
        rw [cut]
        exact rebuilds.of_trim.append power fun _ _ => bordered_cons (.inl rfl)
      · rw [trim_of_termChar all, readTerm, splitFirst_append noCaret]
        dsimp only
        rw [trim_of_termChar plain, sameExponent, trim_of_termChar fun c member => (inside c member).1]
    next => cases read

/-! Groups of terms, and groups of groups. -/

/-- A fold that succeeds goes on as it did if each item is exchanged for one that the step cannot tell apart. -/
theorem exists_foldlM {ε σ α : Type} {step : σ → α → Except ε σ} {like : α → α → Prop} {plain : α → Prop} {items : List α}
    (each : ∀ item s s', step s item = .ok s' → ∃ other, like item other ∧ plain other ∧ step s other = .ok s')
    {s last : σ} (folded : items.foldlM step s = .ok last) :
    ∃ others, List.Forall₂ like items others ∧ (∀ other ∈ others, plain other) ∧ others.foldlM step s = .ok last := by
  induction items generalizing s with
  | nil => exact ⟨[], .nil, nofun, folded⟩
  | cons item items ih =>
    obtain ⟨next, first, later⟩ := foldlM_cons_eq_ok.mp folded
    obtain ⟨other, alike, own, stepped⟩ := each item s next first
    obtain ⟨others, all, plain, run⟩ := ih later
    exact ⟨other :: others, .cons alike all, List.forall_mem_cons.mpr ⟨own, plain⟩,
      foldlM_cons_eq_ok.mpr ⟨next, stepped, run⟩⟩

/-- Pieces with a separator between them, of which each is put together again. -/
theorem rebuilds_intercalate {separator : Char} {admits : List Char → Prop} (border : separator = '*' ∨ separator = '/')
    (cut : Rebuilds [separator] [separator] admits) {pieces builts : List (List Char)}
    (each : List.Forall₂ (fun piece built => Rebuilds piece built Bordered) pieces builts)
    (admitted : ∀ piece ∈ pieces, ∀ rest, admits (piece ++ rest)) :
    Rebuilds ([separator].intercalate pieces) ([separator].intercalate builts) Bordered := by
  induction each with
  | nil => exact rebuilds_nil
  | @cons piece built pieces builts first others ih =>
    have later := ih fun other member => admitted other (List.mem_cons_of_mem _ member)
    cases others with
    | nil =>
      rw [List.intercalate_singleton, List.intercalate_singleton]
      exact first
    | @cons next other pieces builts =>
      have starts : ∀ rest, admits ([separator].intercalate (next :: pieces) ++ rest) := by
        intro rest
        have own := admitted next (List.mem_cons_of_mem _ List.mem_cons_self)
        cases pieces with
        | nil =>
          rw [List.intercalate_singleton]
          exact own rest
        | cons third pieces =>
          rw [List.intercalate_cons_cons, List.append_assoc, List.append_assoc]
          exact own _
      rw [List.intercalate_cons_cons, List.intercalate_cons_cons]
      refine (first.append cut fun _ _ => bordered_cons (.inr border)).append later fun rest _ => starts rest

theorem intercalate_ne_nil {separator : Char} {pieces : List (List Char)} (nonempty : pieces ≠ [])
    (each : ∀ piece ∈ pieces, piece ≠ []) : [separator].intercalate pieces ≠ [] := by
  obtain ⟨first, others, rfl⟩ := List.exists_cons_of_ne_nil nonempty
  have start := each first List.mem_cons_self
  cases others with
  | nil => rwa [List.intercalate_singleton]
  | cons next others =>
    rw [List.intercalate_cons_cons, List.append_assoc]
    exact fun none => start (List.append_eq_nil_iff.mp none).1

theorem multiplyGroup_ne_nil {inDenominator : Bool} {u v : PhysicalUnit} {group : List Char}
    (multiplied : multiplyGroup inDenominator u group = .ok v) : group ≠ [] := by
  rintro rfl
  cases multiplied

/-- What is put together for the tokens of a group of terms is a group of the same meaning. -/
theorem exists_group {inDenominator : Bool} {u v : PhysicalUnit} {group : List Char}
    (multiplied : multiplyGroup inDenominator u group = .ok v) :
    ∃ built, (group ≠ [] ∧ Rebuilds group built Bordered) ∧ (built ≠ [] ∧ ∀ c ∈ built, isBlank c = false ∧ c ≠ '/') ∧
      multiplyGroup inDenominator u built = .ok v := by
  obtain ⟨builts, each, terms, run⟩ := exists_foldlM (fun _ _ _ => exists_term) multiplied
  have some_term : builts ≠ [] := by
    rintro rfl
    exact splitAt_ne_nil '*' group (List.forall₂_nil_right_iff.mp each)
  have star : Rebuilds ['*'] ['*'] fun _ => True := rebuilds_star
  have rebuilds := rebuilds_intercalate (.inl rfl) star each fun _ _ _ => trivial
  rw [intercalate_splitAt] at rebuilds
  refine ⟨['*'].intercalate builts, ⟨multiplyGroup_ne_nil multiplied, rebuilds⟩,
    ⟨intercalate_ne_nil some_term fun built member => (terms built member).1, ?_⟩, ?_⟩
  · intro c member
    rcases mem_intercalate member with rfl | ⟨built, among, inside⟩
    · decide
    · have solid := ((terms built among).2 c inside).solid
      exact ⟨solid.1, solid.2.2⟩
  · rw [multiplyGroup, splitAt_intercalate some_term]
    · exact run
    · exact fun built member star => ((terms built member).2 _ star).solid.2.1 rfl

/-- What is put together for the tokens of a unit is the same unit. -/
theorem exists_built {text : List Char} {u : PhysicalUnit} (read : readChars text = .ok u) :
    ∃ built, Rebuilds text built Bordered ∧ readChars built = .ok u := by
  obtain ⟨_, numerator, denominators, product, groups, first, others⟩ := readChars_eq_ok.mp read
  obtain ⟨top, ⟨some_top, rebuildsTop⟩, plainTop, sameTop⟩ := exists_group first
  obtain ⟨bottoms, each, plain, sameBottoms⟩ := exists_foldlM (fun _ _ _ => exists_group) others
  obtain ⟨some_bottoms, rebuildsBottoms⟩ := (List.forall₂_and_left ..).mp each
  have solid : ∀ built ∈ top :: bottoms, built ≠ [] ∧ ∀ c ∈ built, isBlank c = false ∧ c ≠ '/' :=
    List.forall_mem_cons.mpr ⟨plainTop, plain⟩
  have nonempties : ∀ group ∈ numerator :: denominators, group ≠ [] :=
    List.forall_mem_cons.mpr ⟨some_top, some_bottoms⟩
  have starts : ∀ group ∈ numerator :: denominators, ∀ rest, (group ++ rest).head? ≠ some '/' := by
    intro group member rest start
    have apart := notMem_splitAt (groups ▸ member)
    obtain ⟨c, others, rfl⟩ := List.exists_cons_of_ne_nil (nonempties group member)
    obtain rfl : c = '/' := by simpa using start
    exact apart List.mem_cons_self
  have rebuilds := rebuilds_intercalate (.inr rfl) rebuilds_slash (.cons rebuildsTop rebuildsBottoms) starts
  rw [← groups, intercalate_splitAt] at rebuilds
  have plainText : ∀ c ∈ ['/'].intercalate (top :: bottoms), isBlank c = false := by
    intro c member
    rcases mem_intercalate member with rfl | ⟨built, among, inside⟩
    · decide
    · exact ((solid built among).2 c inside).1
  have again : splitAt '/' (['/'].intercalate (top :: bottoms)) = top :: bottoms :=
    splitAt_intercalate (by simp) fun built member slash => ((solid built member).2 _ slash).2 rfl
  have nonempty : (['/'].intercalate (top :: bottoms)).isEmpty = false :=
    List.isEmpty_eq_false_iff.mpr (intercalate_ne_nil (by simp) fun built member => (solid built member).1)
  refine ⟨_, rebuilds.of_trim, readChars_eq_ok.mpr ?_⟩
  rw [trim_of_solid plainText]
  exact ⟨nonempty, top, bottoms, product, again, sameTop, sameBottoms⟩

theorem read_respelled {text : String} {found : List Token} {u : PhysicalUnit} (read : PhysicalUnit.read text = .ok u)
    (cut : values? text.toList = some found) (known : ∀ token ∈ found, (Reader.unitPiece? token).isSome = true) :
    PhysicalUnit.read (Reader.respelled found) = .ok u := by
  obtain ⟨built, rebuilds, same⟩ := exists_built read
  have whole := rebuilds [] found bordered_nil
  rw [List.append_nil] at whole
  obtain ⟨front, back, rfl, ended, rfl⟩ := whole cut known
  rw [values?_nil] at ended
  obtain rfl := Option.some.inj ended
  rw [List.append_nil]
  exact same

end PhysicalUnit
end StructuralModel
