import StructuralModel.Proofs.UnitText

/-! What it takes for a text to be a unit. Only the readings of its terms matter, so blanks around the parts of a term
make no difference, and the symbols of what is read are those of terms. A unit with such symbols is read back from its own
text, unless it has the one exponent that cannot be written. -/

namespace StructuralModel

namespace Text

theorem intercalate_splitAt (separator : Char) (text : List Char) :
    [separator].intercalate (splitAt separator text) = text := by
  induction text with
  | nil => rfl
  | cons c rest ih =>
    obtain ⟨piece, pieces, same⟩ := List.exists_cons_of_ne_nil (splitAt_ne_nil separator rest)
    rw [same] at ih
    rw [splitAt, same]
    split
    next own => rw [List.intercalate_cons_cons, ih, own]; rfl
    next =>
      dsimp only
      cases pieces with
      | nil => rw [List.intercalate_singleton] at ih ⊢; rw [ih]
      | cons next pieces =>
        rw [List.intercalate_cons_cons] at ih ⊢
        rw [List.cons_append, List.cons_append, ih]

theorem notMem_splitAt {separator : Char} {text piece : List Char} (member : piece ∈ splitAt separator text) :
    separator ∉ piece := by
  induction text generalizing piece with
  | nil => simp_all [splitAt]
  | cons c rest ih =>
    rw [splitAt] at member
    split at member
    next =>
      rcases List.mem_cons.mp member with rfl | later
      · exact List.not_mem_nil
      · exact ih later
    next other =>
      obtain ⟨first, pieces, same⟩ := List.exists_cons_of_ne_nil (splitAt_ne_nil separator rest)
      rw [same] at member ih
      rcases List.mem_cons.mp member with rfl | later
      · exact List.not_mem_cons_of_ne_of_not_mem (Ne.symm other) (ih List.mem_cons_self)
      · exact ih (List.mem_cons_of_mem _ later)

theorem eq_of_splitFirst {separator : Char} {text before after : List Char}
    (found : splitFirst separator text = some (before, after)) : text = before ++ separator :: after := by
  induction text generalizing before with
  | nil => cases found
  | cons c rest ih =>
    rw [splitFirst] at found
    split at found
    next own =>
      obtain ⟨rfl, rfl⟩ := Prod.mk.inj (Option.some.inj found)
      rw [own, List.nil_append]
    next =>
      obtain ⟨⟨first, last⟩, inner, same⟩ := Option.map_eq_some_iff.mp found
      obtain ⟨rfl, rfl⟩ := Prod.mk.inj same
      rw [List.cons_append, ← ih inner]

theorem exists_trim (text : List Char) : ∃ before after, text = before ++ trim text ++ after ∧
    (∀ c ∈ before, isBlank c = true) ∧ ∀ c ∈ after, isBlank c = true := by
  refine ⟨text.takeWhile isBlank, ((text.dropWhile isBlank).reverse.takeWhile isBlank).reverse, ?_,
    fun c member => List.mem_takeWhile_imp member, fun c member => List.mem_takeWhile_imp (List.mem_reverse.mp member)⟩
  rw [trim, List.append_assoc, ← List.reverse_append, List.takeWhile_append_dropWhile, List.reverse_reverse,
    List.takeWhile_append_dropWhile]

/-- The text without its blanks. -/
def solid (text : List Char) : List Char :=
  text.filter fun c => !isBlank c

theorem solid_cons_of_blank {c : Char} (blank : isBlank c = true) (rest : List Char) : solid (c :: rest) = solid rest :=
  List.filter_cons_of_neg (by simp [blank])

theorem solid_cons_of_visible {c : Char} (visible : isBlank c = false) (rest : List Char) :
    solid (c :: rest) = c :: solid rest :=
  List.filter_cons_of_pos (by simp [visible])

theorem solid_append (front back : List Char) : solid (front ++ back) = solid front ++ solid back :=
  List.filter_append ..

theorem isBlank_of_mem_solid {text : List Char} : ∀ c ∈ solid text, isBlank c = false := by
  intro c member
  simpa using List.of_mem_filter member

theorem trim_solid (text : List Char) : trim (solid text) = solid text :=
  trim_of_solid isBlank_of_mem_solid

theorem solid_of_solid {text : List Char} (plain : ∀ c ∈ text, isBlank c = false) : solid text = text :=
  List.filter_eq_self.mpr fun c member => by rw [plain c member, Bool.not_false]

theorem solid_trim (text : List Char) : solid (trim text) = solid text := by
  obtain ⟨before, after, split, blankBefore, blankAfter⟩ := exists_trim text
  have none : ∀ {blanks : List Char}, (∀ c ∈ blanks, isBlank c = true) → solid blanks = [] := by
    intro blanks blank
    refine List.filter_eq_nil_iff.mpr fun c member => ?_
    rw [blank c member]
    decide
  conv_rhs => rw [split]
  rw [solid_append, solid_append, none blankBefore, none blankAfter, List.nil_append, List.append_nil]

theorem splitAt_solid {separator : Char} (visible : isBlank separator = false) (text : List Char) :
    splitAt separator (solid text) = (splitAt separator text).map solid := by
  induction text with
  | nil => rfl
  | cons c rest ih =>
    obtain ⟨piece, pieces, same⟩ := List.exists_cons_of_ne_nil (splitAt_ne_nil separator rest)
    rw [same] at ih
    by_cases own : c = separator
    · subst own
      rw [solid_cons_of_visible visible, splitAt, splitAt, if_pos rfl, if_pos rfl, ih, same]
      rfl
    cases blank : isBlank c with
    | true =>
      rw [solid_cons_of_blank blank, splitAt, if_neg own, same, ih, List.map_cons, List.map_cons, solid_cons_of_blank blank]
    | false =>
      rw [solid_cons_of_visible blank, splitAt, splitAt, if_neg own, if_neg own, same, ih, List.map_cons, List.map_cons,
        solid_cons_of_visible blank]

theorem splitFirst_solid {separator : Char} (visible : isBlank separator = false) (text : List Char) :
    splitFirst separator (solid text) =
      (splitFirst separator text).map fun (before, after) => (solid before, solid after) := by
  induction text with
  | nil => rfl
  | cons c rest ih =>
    by_cases own : c = separator
    · subst own
      rw [solid_cons_of_visible visible, splitFirst, splitFirst, if_pos rfl, if_pos rfl]
      rfl
    rw [splitFirst, if_neg own, Option.map_map]
    cases blank : isBlank c with
    | true => simp only [solid_cons_of_blank blank, ih, Function.comp_def]
    | false =>
      rw [solid_cons_of_visible blank, splitFirst, if_neg own, ih, Option.map_map]
      simp only [solid_cons_of_visible blank, Function.comp_def]

theorem trim_trim (text : List Char) : trim (trim text) = trim text := by
  have start : (trim text).dropWhile isBlank = trim text := by
    cases trimmed : trim text with
    | nil => rfl
    | cons c rest =>
      have front : trim text <+: text.dropWhile isBlank := by
        rw [← List.reverse_suffix, trim, List.reverse_reverse]
        exact List.dropWhile_suffix isBlank
      rw [trimmed] at front
      obtain ⟨more, whole⟩ := front
      have first : isBlank c = false := by
        have head := List.head?_dropWhile_not isBlank text
        rw [← whole] at head
        exact head
      rw [List.dropWhile_cons_of_neg (by simp [first])]
  rw [trim, start, trim, List.reverse_reverse, List.dropWhile_idempotent]

theorem splitAt_of_splitFirst {separator : Char} {text before after : List Char}
    (found : splitFirst separator text = some (before, after)) :
    splitAt separator text = before :: splitAt separator after := by
  induction text generalizing before with
  | nil => cases found
  | cons c rest ih =>
    rw [splitFirst] at found
    rw [splitAt]
    split at found
    next own =>
      obtain ⟨rfl, rfl⟩ := Prod.mk.inj (Option.some.inj found)
      rw [if_pos own]
    next other =>
      obtain ⟨⟨first, last⟩, inner, same⟩ := Option.map_eq_some_iff.mp found
      obtain ⟨rfl, rfl⟩ := Prod.mk.inj same
      rw [if_neg other, ih inner]

theorem splitAt_of_none {separator : Char} {text : List Char} (none : splitFirst separator text = none) :
    splitAt separator text = [text] := by
  induction text with
  | nil => rfl
  | cons c rest ih =>
    rw [splitFirst] at none
    rw [splitAt]
    split at none
    next => cases none
    next other => rw [if_neg other, ih (Option.map_eq_none_iff.mp none)]

end Text

namespace Decimal

theorem natural?_eq_some {digits : List Char} {n : Int}
    (read : (do let k ← readInt?.natural? digits; pure (k : Int)) = some n) :
    digits ≠ [] ∧ (∀ c ∈ digits, c.isDigit = true) ∧ natOfDigits digits = n := by
  rw [readInt?.natural?] at read
  split at read
  next known => exact ⟨known.1, List.all_eq_true.mp known.2, Option.some.inj read⟩
  next => cases read

/-- A whole number is written in digits behind a sign or none. -/
theorem exists_digits_of_readInt? {text : List Char} {n : Int} (read : readInt? text = some n) :
    ∃ sign digits, text = sign ++ digits ∧ digits ≠ [] ∧ (∀ c ∈ digits, c.isDigit = true) ∧
      (sign = ['-'] ∧ n = -natOfDigits digits ∨ (sign = ['+'] ∨ sign = []) ∧ n = natOfDigits digits) := by
  unfold readInt? at read
  split at read
  next digits =>
    obtain ⟨k, known, rfl⟩ := Option.map_eq_some_iff.mp read
    obtain ⟨nonempty, all, rfl⟩ := natural?_eq_some known
    exact ⟨['-'], digits, rfl, nonempty, all, .inl ⟨rfl, rfl⟩⟩
  next digits =>
    obtain ⟨k, known, rfl⟩ := Option.map_eq_some_iff.mp read
    obtain ⟨nonempty, all, rfl⟩ := natural?_eq_some known
    exact ⟨['+'], digits, rfl, nonempty, all, .inr ⟨.inl rfl, rfl⟩⟩
  next =>
    obtain ⟨k, known, rfl⟩ := Option.map_eq_some_iff.mp read
    obtain ⟨nonempty, all, rfl⟩ := natural?_eq_some known
    exact ⟨[], _, rfl, nonempty, all, .inr ⟨.inr rfl, rfl⟩⟩

end Decimal

namespace PhysicalUnit
open Text

/-- A unit is the product of its first group, divided by the others. -/
theorem readChars_eq_ok {text : List Char} {u : PhysicalUnit} : readChars text = .ok u ↔ (trim text).isEmpty = false ∧
    ∃ numerator denominators product, splitAt '/' (trim text) = numerator :: denominators ∧
      multiplyGroup false dimensionless numerator = .ok product ∧
      denominators.foldlM (multiplyGroup true) product = .ok u := by
  obtain ⟨numerator, denominators, groups⟩ := List.exists_cons_of_ne_nil (splitAt_ne_nil '/' (trim text))
  rw [readChars]
  cases empty : (trim text).isEmpty with
  | true =>
    constructor
    · rintro ⟨⟩
    · rintro ⟨⟨⟩, _⟩
  | false =>
    simp only [groups, Bool.false_eq_true, if_false, bind, Except.bind]
    cases first : multiplyGroup false dimensionless numerator with
    | error error =>
      constructor
      · rintro ⟨⟩
      rintro ⟨_, _, _, _, same, multiplied, _⟩
      obtain ⟨rfl, rfl⟩ := List.cons.inj same
      rw [first] at multiplied
      cases multiplied
    | ok product =>
      refine ⟨fun read => ⟨trivial, numerator, denominators, product, rfl, first, read⟩, ?_⟩
      rintro ⟨_, _, _, product', same, multiplied, read⟩
      obtain ⟨rfl, rfl⟩ := List.cons.inj same
      obtain rfl := Except.ok.inj (first.symm.trans multiplied)
      exact read

theorem foldlM_cons_eq_ok {ε σ α : Type} {step : σ → α → Except ε σ} {item : α} {items : List α} {s last : σ} :
    (item :: items).foldlM step s = .ok last ↔ ∃ next, step s item = .ok next ∧ items.foldlM step next = .ok last := by
  rw [List.foldlM_cons]
  cases step s item with
  | error error => exact ⟨nofun, nofun⟩
  | ok next => exact ⟨fun folded => ⟨next, rfl, folded⟩, fun ⟨_, same, folded⟩ => Except.ok.inj same ▸ folded⟩

/-- What every step of a fold keeps holds at its end. -/
theorem foldlM_keeps {ε σ α : Type} {step : σ → α → Except ε σ} {keeps : σ → Prop}
    (each : ∀ s item s', keeps s → step s item = .ok s' → keeps s') {items : List α} {s last : σ} (start : keeps s)
    (folded : items.foldlM step s = .ok last) : keeps last := by
  induction items generalizing s with
  | nil => exact Except.ok.inj folded ▸ start
  | cons item items ih =>
    obtain ⟨next, first, later⟩ := foldlM_cons_eq_ok.mp folded
    exact ih (each s item next start first) later

/-- Every step of a fold that succeeds has succeeded. -/
theorem exists_step_of_foldlM {ε σ α : Type} {step : σ → α → Except ε σ} {items : List α} {s last : σ}
    (folded : items.foldlM step s = .ok last) : ∀ item ∈ items, ∃ before after, step before item = .ok after := by
  induction items generalizing s with
  | nil => exact List.forall_mem_nil _
  | cons item items ih =>
    obtain ⟨next, first, later⟩ := foldlM_cons_eq_ok.mp folded
    exact List.forall_mem_cons.mpr ⟨⟨s, next, first⟩, ih later⟩

/-- What a term makes of a unit: nothing, or a product with a power of a symbol. -/
def Multiplies (inDenominator : Bool) (u v : PhysicalUnit) (found : List Char × Int) : Prop :=
  found = (['1'], 1) ∧ v = u ∨ isSymbol found.1 = true ∧ FitsExponent (if inDenominator then -found.2 else found.2) ∧
    u.times? (String.ofList found.1) (if inDenominator then -found.2 else found.2) = some v

theorem multiplyTerm_eq_ok {inDenominator : Bool} {u v : PhysicalUnit} {term : List Char} :
    multiplyTerm inDenominator u term = .ok v ↔
      ∃ found, readTerm (trim term) = .ok found ∧ Multiplies inDenominator u v found := by
  rw [multiplyTerm]
  cases read : readTerm (trim term) with
  | error error =>
    constructor
    · rintro ⟨⟩
    · rintro ⟨_, ⟨⟩, _⟩
  | ok found =>
    obtain ⟨name, n⟩ := found
    simp only [bind, Except.bind, Except.ok.injEq, exists_eq_left', Multiplies, Prod.mk.injEq]
    by_cases one : name = ['1'] ∧ n = 1
    · obtain ⟨rfl, rfl⟩ := one
      have digit : isSymbol ['1'] = false := by decide
      simp [digit, pure, Except.pure, eq_comm]
    rw [if_neg one]
    cases symbol : isSymbol name with
    | false => simp [one, throw, throwThe, MonadExceptOf.throw]
    | true =>
      by_cases fits : FitsExponent (if inDenominator = true then -n else n)
      · simp only [Bool.not_true, Bool.false_eq_true, if_false, not_true_eq_false, fits, one, true_and, false_and, false_or]
        cases u.times? (String.ofList name) (if inDenominator = true then -n else n) with
        | none =>
          constructor <;> rintro ⟨⟩
        | some product =>
          exact ⟨fun same => congrArg some (Except.ok.inj same), fun same => congrArg _ (Option.some.inj same)⟩
      · simp [one, fits, throw, throwThe, MonadExceptOf.throw]

theorem Symbolic.times {u v : PhysicalUnit} {name : String} {n : Int} (symbolic : u.Symbolic) (writable : Writable name)
    (product : u.times? name n = some v) : v.Symbolic := by
  rw [times?] at product
  split at product
  next fits =>
    obtain rfl := Option.some.inj product
    intro factor member
    rcases mem_addExponent u.canonical.ascending member with old | ⟨rfl, _⟩
    · exact symbolic factor old
    · exact writable
  next => cases product

theorem Symbolic.multiplyTerm {inDenominator : Bool} {u v : PhysicalUnit} {term : List Char} (symbolic : u.Symbolic)
    (multiplied : multiplyTerm inDenominator u term = .ok v) : v.Symbolic := by
  obtain ⟨found, _, ⟨_, rfl⟩ | ⟨symbol, _, product⟩⟩ := multiplyTerm_eq_ok.mp multiplied
  · exact symbolic
  · refine symbolic.times ?_ product
    rw [Writable, String.toList_ofList]
    exact symbol

/-- No other symbols are read. -/
theorem symbolic_of_read {text : String} {u : PhysicalUnit} (read : PhysicalUnit.read text = .ok u) : u.Symbolic := by
  have group : ∀ {inDenominator u group v}, Symbolic u → multiplyGroup inDenominator u group = .ok v → Symbolic v :=
    fun symbolic => foldlM_keeps (fun _ _ _ symbolic multiplied => symbolic.multiplyTerm multiplied) symbolic
  obtain ⟨_, numerator, denominators, product, _, first, others⟩ := readChars_eq_ok.mp read
  have start : Symbolic dimensionless := by simp [Symbolic, dimensionless]
  exact foldlM_keeps (fun _ _ _ symbolic multiplied => group symbolic multiplied) (group start first) others

/-! Units that are read back. A denominator is written without the signs of its exponents, and the least exponent has no
counterpart in range. -/

theorem readTerm_least {factor : Factor} (writable : Writable factor.1) (least : factor.2 = -2147483648)
    (found : List Char × Int) : readTerm (termChars factor) ≠ .ok found := by
  have noPower : '^' ∉ factor.1.toList := notMem_of_writable writable (by decide)
  have size : factor.2.natAbs = 2147483648 := by rw [least]; rfl
  have overflow : readExponent? (trim (Nat.toDigits 10 2147483648)) = none := by
    rw [readExponent?_toDigits]
    rfl
  rw [readTerm, termChars, size, if_neg (by decide), splitFirst_append noPower]
  simp [overflow]

/-- No unit at all is read from the text of one that has the least exponent. -/
theorem not_read_least {u v : PhysicalUnit} (symbolic : u.Symbolic) {factor : Factor} (member : factor ∈ u.factors)
    (least : factor.2 = -2147483648) : read u.text ≠ .ok v := by
  intro read
  rw [PhysicalUnit.read, toList_text] at read
  obtain ⟨_, numerator, denominators, product, groups, _, divided⟩ := readChars_eq_ok.mp read
  have below : factor ∈ u.denominator :=
    List.mem_filter.mpr ⟨member, decide_eq_true (least ▸ by decide)⟩
  have some : u.denominator ≠ [] := List.ne_nil_of_mem below
  rw [trim_of_solid (isBlank_of_mem_text symbolic), splitAt_text symbolic,
    if_neg (mt List.isEmpty_iff.mp some)] at groups
  obtain ⟨rfl, rfl⟩ := List.cons.inj groups
  obtain ⟨before, after, group⟩ := exists_step_of_foldlM divided _ List.mem_cons_self
  rw [multiplyGroup, splitAt_groupChars some fun factor among => symbolic factor (List.mem_of_mem_filter among)] at group
  obtain ⟨_, _, term⟩ := exists_step_of_foldlM group _ (List.mem_map_of_mem below)
  obtain ⟨found, known, _⟩ := multiplyTerm_eq_ok.mp term
  rw [trim_of_solid (isBlank_of_mem_termChars (symbolic factor member))] at known
  exact readTerm_least (symbolic factor member) least found known

/-- A unit whose symbols can be written is read back from its text exactly if it does not have the least exponent. -/
theorem read_text_iff {u : PhysicalUnit} (symbolic : u.Symbolic) :
    read u.text = .ok u ↔ ∀ factor ∈ u.factors, factor.2 ≠ -2147483648 :=
  ⟨fun read _ member least => not_read_least symbolic member least read, fun signless => read_text ⟨symbolic, signless⟩⟩

/-- The power of the second that is furthest in the denominator. -/
def leastSecond : PhysicalUnit where
  factors := [("s", -2147483648)]
  canonical := ⟨by decide, by decide, by decide⟩

/-- Its neighbour. -/
def nextSecond : PhysicalUnit where
  factors := [("s", -2147483647)]
  canonical := ⟨by decide, by decide, by decide⟩

theorem read_text_iff_second : nextSecond.Symbolic ∧ read nextSecond.text = .ok nextSecond ∧
    leastSecond.Symbolic ∧ read leastSecond.text ≠ .ok leastSecond := by
  have symbolic : nextSecond.Symbolic := by decide
  have symbolic' : leastSecond.Symbolic := by decide
  exact ⟨symbolic, (read_text_iff symbolic).mpr (by decide), symbolic', fun read =>
    absurd ((read_text_iff symbolic').mp read) (by decide)⟩

/-! Blanks. -/

/-- Blanks stand only where terms, symbols and exponents start or end. -/
def Spaced (text : List Char) : Prop :=
  ∀ group ∈ splitAt '/' (trim text), ∀ term ∈ splitAt '*' group, ∀ part ∈ splitAt '^' (trim term),
    ∀ c ∈ trim part, isBlank c = false

instance (text : List Char) : Decidable (Spaced text) :=
  decidable_of_iff
    ((splitAt '/' (trim text)).all fun group => (splitAt '*' group).all fun term => (splitAt '^' (trim term)).all fun part =>
      (trim part).all fun c => !isBlank c)
    (by simp [Spaced])

theorem notMem_of_readExponent? {exponent : List Char} {n : Int} (read : readExponent? exponent = some n) :
    '^' ∉ exponent := by
  rw [readExponent?, Option.filter_eq_some_iff] at read
  obtain ⟨sign, digits, rfl, _, all, signed⟩ := Decimal.exists_digits_of_readInt? read.1
  have unsigned : '^' ∉ digits := fun member => by cases all _ member
  refine List.not_mem_append ?_ unsigned
  rcases signed with ⟨rfl, _⟩ | ⟨rfl | rfl, _⟩ <;> decide

/-- Where a term is read without its blanks, it is read with them. -/
theorem readTerm_of_solid {term : List Char} {found : List Char × Int}
    (spaced : ∀ part ∈ splitAt '^' (trim term), ∀ c ∈ trim part, isBlank c = false)
    (read : readTerm (solid term) = .ok found) : readTerm (trim term) = .ok found := by
  have whole : ∀ part ∈ splitAt '^' (trim term), trim part = solid part := by
    intro part member
    rw [← solid_trim, solid_of_solid (spaced part member)]
  have cut : splitFirst '^' (solid (trim term)) =
      (splitFirst '^' (trim term)).map fun (before, after) => (solid before, solid after) := splitFirst_solid rfl _
  rw [solid_trim] at cut
  rw [readTerm, cut] at read
  rw [readTerm]
  cases first : splitFirst '^' (trim term) with
  | none =>
    rw [first] at read
    rw [splitAt_of_none first] at whole
    have same := whole _ List.mem_cons_self
    rw [trim_trim, solid_trim] at same
    rwa [same]
  | some halves =>
    obtain ⟨name, exponent⟩ := halves
    rw [splitAt_of_splitFirst first] at whole
    simp only [first, Option.map_some, trim_solid] at read
    dsimp only
    split at read
    next n known =>
      have single : '^' ∉ exponent := fun member =>
        notMem_of_readExponent? known (List.mem_filter.mpr ⟨member, rfl⟩)
      rw [splitAt_of_notMem single] at whole
      rw [whole name List.mem_cons_self, whole exponent (List.mem_cons_of_mem _ List.mem_cons_self), known]
      exact read
    next => cases read

/-- A fold over changed items goes on as before if no step that succeeds depends on the change. -/
theorem foldlM_of_map {ε σ α : Type} {step : σ → α → Except ε σ} {change : α → α} {items : List α}
    (each : ∀ item ∈ items, ∀ s s', step s (change item) = .ok s' → step s item = .ok s') {s last : σ}
    (folded : (items.map change).foldlM step s = .ok last) : items.foldlM step s = .ok last := by
  induction items generalizing s with
  | nil => exact folded
  | cons item items ih =>
    obtain ⟨own, others⟩ := List.forall_mem_cons.mp each
    obtain ⟨next, first, later⟩ := foldlM_cons_eq_ok.mp folded
    exact foldlM_cons_eq_ok.mpr ⟨next, own s next first, ih others later⟩

theorem multiplyTerm_of_solid {inDenominator : Bool} {u v : PhysicalUnit} {term : List Char}
    (spaced : ∀ part ∈ splitAt '^' (trim term), ∀ c ∈ trim part, isBlank c = false)
    (multiplied : multiplyTerm inDenominator u (solid term) = .ok v) : multiplyTerm inDenominator u term = .ok v := by
  obtain ⟨found, read, multiplies⟩ := multiplyTerm_eq_ok.mp multiplied
  rw [trim_solid] at read
  exact multiplyTerm_eq_ok.mpr ⟨found, readTerm_of_solid spaced read, multiplies⟩

theorem multiplyGroup_of_solid {inDenominator : Bool} {u v : PhysicalUnit} {group : List Char}
    (spaced : ∀ term ∈ splitAt '*' group, ∀ part ∈ splitAt '^' (trim term), ∀ c ∈ trim part, isBlank c = false)
    (multiplied : multiplyGroup inDenominator u (solid group) = .ok v) : multiplyGroup inDenominator u group = .ok v := by
  rw [multiplyGroup, splitAt_solid rfl] at multiplied
  exact foldlM_of_map (fun term member _ _ => multiplyTerm_of_solid (spaced term member)) multiplied

/-- What is a unit without its blanks is one with them, if these stand apart. -/
theorem readChars_of_solid {text : List Char} {u : PhysicalUnit} (spaced : Spaced text)
    (read : readChars (solid text) = .ok u) : readChars text = .ok u := by
  obtain ⟨some_text, numerator, denominators, product, groups, first, others⟩ := readChars_eq_ok.mp read
  rw [trim_solid] at some_text groups
  rw [← solid_trim, splitAt_solid rfl, List.map_eq_cons_iff] at groups
  obtain ⟨top, bottoms, same, rfl, rfl⟩ := groups
  rw [Spaced, same] at spaced
  obtain ⟨above, below⟩ := List.forall_mem_cons.mp spaced
  refine readChars_eq_ok.mpr ⟨?_, top, bottoms, product, same, multiplyGroup_of_solid above first,
    foldlM_of_map (fun group member _ _ => multiplyGroup_of_solid (below group member)) others⟩
  refine Bool.eq_false_iff.mpr fun none => ?_
  rw [← solid_trim, List.isEmpty_iff.mp none] at some_text
  cases some_text

end PhysicalUnit
end StructuralModel
