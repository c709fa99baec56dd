import StructuralModel.Source.Lexer

/-! Two texts with a line end between them. Apart from white space no piece of the first goes on behind the line end, so
the tokens are those of the first text and then those of the second, which stand that much further on. -/

namespace StructuralModel

namespace Span

/-- The range that many bytes further on. -/
def moved (distance : Nat) (s : Span) : Span :=
  ⟨s.start + distance, s.stop + distance, Nat.add_le_add_right s.start_le_stop distance⟩

theorem moved_between (distance start stop : Nat) :
    (between start stop).moved distance = between (start + distance) (stop + distance) := by
  simp only [moved, between, Nat.add_max_add_right]

theorem moved_union (distance : Nat) (a b : Span) : (a.union b).moved distance = (a.moved distance).union (b.moved distance) := by
  simp only [moved, union, Nat.add_max_add_right, Nat.add_min_add_right]

end Span

def Spanned.moved {α : Type} (distance : Nat) (s : Spanned α) : Spanned α :=
  ⟨s.value, s.span.moved distance⟩

/-- The same piece where more text follows. -/
def Scan.before (s : Scan) (more : List Char) : Scan :=
  { s with rest := s.rest ++ more }

namespace Lexer
open Text (spanOf)

section scans

variable {cs : List Char}

/-- No mark in front of these characters goes on into them, and none starts a comment with them. -/
def Unmarked (rest : List Char) : Prop :=
  ∀ c ∈ rest.head?, c ∉ ['=', '*', '>', ':', '/']

/-- No word or number in front of these characters goes on into them. -/
structure Separate (rest : List Char) : Prop where
  word : ∀ c ∈ rest.head?, isWordChar c = false
  letter : ∀ c ∈ rest.head?, Text.isLetterOrNumeral c = false
  point : fractionOf rest = ([], rest)
  sign : ∀ c ∈ rest.head?, c ≠ '+' ∧ c ≠ '-'

/-- Nothing in front of these characters goes on into them, apart from a line comment. -/
structure Stops (rest : List Char) : Prop extends Separate rest where
  mark : Unmarked rest

theorem separate_cons {c : Char} (word : isWordChar c = false) (letter : Text.isLetterOrNumeral c = false)
    (point : c ≠ '.') (sign : c ≠ '+' ∧ c ≠ '-') (rest : List Char) : Separate (c :: rest) where
  word := by simpa using word
  letter := by simpa using letter
  point := by simp [fractionOf, point]
  sign := by simpa using sign

theorem Separate.stops {c : Char} {rest : List Char} (separate : Separate (c :: rest)) (mark : c ∉ ['=', '*', '>', ':', '/']) :
    Stops (c :: rest) where
  toSeparate := separate
  mark := by simpa [Unmarked] using mark

theorem separate_sign {c : Char} (sign : c ∈ ['\n', ' ', '%', '(', ')', '*', ',', '/', ':', '[', ']', '^'])
    (rest : List Char) : Separate (c :: rest) := by
  simp only [List.mem_cons, List.not_mem_nil, or_false] at sign
  rcases sign with rfl | rfl | rfl | rfl | rfl | rfl | rfl | rfl | rfl | rfl | rfl | rfl
  all_goals exact separate_cons rfl (by decide) (by decide) (by decide) rest

theorem stops_sign {c : Char} (sign : c ∈ ['\n', ' ', ')', ',', ']']) (rest : List Char) : Stops (c :: rest) := by
  simp only [List.mem_cons, List.not_mem_nil, or_false] at sign
  rcases sign with rfl | rfl | rfl | rfl | rfl
  all_goals exact (separate_sign (by decide) rest).stops (by decide)

theorem spanOf_before {p : Char → Bool} {rest : List Char} (stops : ∀ c ∈ rest.head?, p c = false) (cs : List Char) :
    spanOf p (cs ++ rest) = ((spanOf p cs).1, (spanOf p cs).2 ++ rest) := by
  induction cs with
  | nil =>
    cases rest with
    | nil => rfl
    | cons c rest => simp [spanOf, stops c rfl]
  | cons c cs ih =>
    obtain ⟨taken, left⟩ := Prod.mk.inj ih
    cases inside : p c <;> simp_all [spanOf]

theorem textBody_plain {c : Char} (unescaped : c ≠ '\\') (inside : c ≠ '"' ∧ c ≠ '\n') (rest : List Char) :
    textBody (c :: rest) = (textBody rest).cons c [c] := by
  cases rest <;> simp [textBody, unescaped, inside]

/-- Behind the closing quote nothing is looked at. -/
theorem textBody_append_closed {rest : List Char} (closed : (textBody cs).rest = '"' :: rest) (more : List Char) :
    textBody (cs ++ more) = ⟨(textBody cs).value, (textBody cs).taken, '"' :: rest ++ more⟩ := by
  fun_induction textBody cs with
  | case6 c tail single pair inside ih =>
    have unescaped : c ≠ '\\' := by
      rintro rfl
      cases tail with
      | nil => exact single rfl rfl
      | cons next tail => exact pair next tail rfl rfl
    rw [List.cons_append, textBody_plain unescaped (by simpa using inside), ih closed]
    rfl
  | case1 | case2 | case3 | case4 | case5 => simp_all [textBody, TextBody.cons]

theorem splitCommentEnd_append_found {raw rest : List Char} (found : splitCommentEnd cs = some (raw, rest))
    (more : List Char) : splitCommentEnd (cs ++ more) = some (raw, rest ++ more) := by
  fun_induction splitCommentEnd cs generalizing raw with
  | case1 => cases found
  | case2 tail =>
    obtain ⟨rfl, rfl⟩ := Prod.mk.inj (Option.some.inj found)
    rfl
  | case3 c tail open_ ih =>
    obtain ⟨⟨before, after⟩, inner, same⟩ := Option.map_eq_some_iff.mp found
    obtain ⟨rfl, rfl⟩ := Prod.mk.inj same
    cases tail with
    | nil => cases inner
    | cons next tail =>
      rw [List.cons_append, splitCommentEnd, ih inner]
      · rfl
      · rintro again rfl same
        obtain ⟨rfl, _⟩ := List.cons.inj same
        exact open_ tail rfl rfl

theorem spanOf_append_open {p : Char → Bool} (left : (spanOf p cs).2 ≠ []) (more : List Char) :
    spanOf p (cs ++ more) = ((spanOf p cs).1, (spanOf p cs).2 ++ more) := by
  induction cs with
  | nil => exact absurd rfl left
  | cons c cs ih =>
    cases inside : p c with
    | false => simp [spanOf, inside]
    | true =>
      have later : (spanOf p cs).2 ≠ [] := by simpa [spanOf, inside] using left
      obtain ⟨taken, same⟩ := Prod.mk.inj (ih later)
      simp_all [spanOf]

variable (more : List Char)

theorem scanText_before {opening : Char} (clean : ∀ fault, (scanText opening cs).piece ≠ .fault fault) :
    scanText opening (cs ++ more) = (scanText opening cs).before more := by
  rw [scanText] at clean ⊢
  split at clean
  next rest closed =>
    rw [textBody_append_closed closed, scanText, closed]
    rfl
  next => exact absurd rfl (clean _)

theorem scanName_before {opening : Char} (clean : ∀ fault, (scanName opening cs).piece ≠ .fault fault) :
    scanName opening (cs ++ more) = (scanName opening cs).before more := by
  rw [scanName] at clean ⊢
  dsimp only at clean ⊢
  split at clean
  next first name rest taken left =>
    rw [spanOf_append_open (by rw [left]; exact List.cons_ne_nil _ _), scanName]
    dsimp only
    rw [taken, left]
    rfl
  next => exact absurd rfl (clean _)

theorem scanComment_before (clean : ∀ fault, (scanComment cs).piece ≠ .fault fault) :
    scanComment (cs ++ more) = (scanComment cs).before more := by
  rw [scanComment] at clean ⊢
  split at clean
  next raw rest found =>
    rw [splitCommentEnd_append_found found, scanComment, found]
    rfl
  next => exact absurd rfl (clean _)

/-- Both parts of a text cut in two, where more text follows. -/
def cutBefore (more : List Char) (cut : List Char × List Char) : List Char × List Char :=
  (cut.1, cut.2 ++ more)

section separate

variable {more : List Char} (separate : Separate more)

include separate

theorem scanWord_before : scanWord (cs ++ more) = (scanWord cs).before more := by
  rw [scanWord, spanOf_before separate.word, scanWord]
  rfl

theorem Separate.digit : ∀ c ∈ more.head?, c.isDigit = false := by
  intro c next
  have other := separate.word c next
  rw [isWordChar, Bool.or_eq_false_iff] at other
  exact other.2

theorem fractionOf_before : fractionOf (cs ++ more) = cutBefore more (fractionOf cs) := by
  cases cs with
  | nil => exact separate.point
  | cons c cs =>
    by_cases point : c = '.'
    · subst point
      rw [List.cons_append, fractionOf, fractionOf, spanOf_before separate.digit]
      rcases spanOf Char.isDigit cs with ⟨_ | _, _⟩ <;> rfl
    · simp [fractionOf, point, cutBefore]

theorem signedDigitsOf_before : signedDigitsOf (cs ++ more) = (signedDigitsOf cs).map (cutBefore more) := by
  cases cs with
  | nil =>
    cases more with
    | nil => rfl
    | cons c more =>
      have digit := separate.digit c rfl
      have sign := separate.sign c rfl
      simp [signedDigitsOf, sign, spanOf, digit]
  | cons c cs =>
    by_cases plus : c = '+'
    · subst plus
      rw [List.cons_append, signedDigitsOf, signedDigitsOf, spanOf_before separate.digit]
      rcases spanOf Char.isDigit cs with ⟨_ | _, _⟩ <;> rfl
    · by_cases minus : c = '-'
      · subst minus
        rw [List.cons_append, signedDigitsOf, signedDigitsOf, spanOf_before separate.digit]
        rcases spanOf Char.isDigit cs with ⟨_ | _, _⟩ <;> rfl
      · have own : spanOf Char.isDigit (c :: (cs ++ more)) = _ := spanOf_before separate.digit (c :: cs)
        simp [signedDigitsOf, plus, minus, own]
        rcases spanOf Char.isDigit (c :: cs) with ⟨_ | _, _⟩ <;> rfl

theorem exponentOf_before : exponentOf (cs ++ more) = cutBefore more (exponentOf cs) := by
  cases cs with
  | nil =>
    cases more with
    | nil => rfl
    | cons c more =>
      have other := separate.word c rfl
      have noExponent : ¬(c = 'e' ∨ c = 'E') := by
        rintro (rfl | rfl) <;> exact absurd other (by decide)
      simp [exponentOf, noExponent, cutBefore]
  | cons c cs =>
    rw [List.cons_append, exponentOf, exponentOf, signedDigitsOf_before separate]
    split
    · cases signedDigitsOf cs <;> rfl
    · rfl

theorem scanNumber_before (clean : ∀ fault, (scanNumber cs).piece ≠ .fault fault) :
    scanNumber (cs ++ more) = (scanNumber cs).before more := by
  simp only [scanNumber, spanOf_before separate.digit, fractionOf_before separate, exponentOf_before separate, cutBefore] at clean ⊢
  split at clean
  next => exact absurd rfl (clean _)
  next ends =>
    rw [if_neg ends, if_neg]
    · rfl
    · intro follows
      apply ends
      cases left : (exponentOf (fractionOf (spanOf Char.isDigit cs).2).2).2 with
      | nil =>
        rw [left, List.nil_append, Option.any_eq_true] at follows
        obtain ⟨c, next, same⟩ := follows
        have letter := separate.letter c next
        have word := separate.word c next
        rw [letter, Bool.false_or, decide_eq_true_eq] at same
        rw [same] at word
        exact absurd word (by decide)
      | cons next rest =>
        rw [left] at follows
        exact follows

end separate

/-- What is spelled on both sides of a border goes on behind it with one of its characters. -/
theorem prefix_before {inside : Char → Prop} {more : List Char} (stops : ∀ c ∈ more.head?, ¬ inside c) {word : List Char}
    (spelled : ∀ c ∈ word, inside c) (cs : List Char) : word <+: cs ++ more ↔ word <+: cs := by
  induction word generalizing cs with
  | nil => simp
  | cons c word ih =>
    obtain ⟨first, others⟩ := List.forall_mem_cons.mp spelled
    cases cs with
    | nil =>
      cases more with
      | nil => rfl
      | cons next more =>
        have apart : c ≠ next := fun same => stops next rfl (same ▸ first)
        simp [apart]
    | cons next cs => rw [List.cons_append, List.cons_prefix_cons, List.cons_prefix_cons, ih others]

section unmarked

variable {more : List Char} (unmarked : Unmarked more)

include unmarked

theorem ofStart_before (c : Char) (cs : List Char) : Mark.ofStart? (c :: cs ++ more) = Mark.ofStart? (c :: cs) := by
  refine congrArg (List.find? · Mark.all) (funext fun mark => ?_)
  have spelled : ∃ first others, mark.spelling = first :: others ∧ ∀ c ∈ others, c ∈ ['=', '*', '>', ':', '/'] := by
    cases mark <;> exact ⟨_, _, rfl, by simp⟩
  obtain ⟨first, others, same, inside⟩ := spelled
  rw [same, Bool.eq_iff_iff, List.isPrefixOf_iff_prefix, List.isPrefixOf_iff_prefix, List.cons_append,
    List.cons_prefix_cons, List.cons_prefix_cons, prefix_before unmarked inside]

theorem scanMark_before {c : Char} (clean : ∀ fault, (scanMark (c :: cs)).piece ≠ .fault fault) :
    scanMark (c :: cs ++ more) = (scanMark (c :: cs)).before more := by
  rw [scanMark] at clean ⊢
  rw [ofStart_before unmarked, scanMark]
  split at clean
  next mark found =>
    have start := List.find?_some found
    rw [List.drop_append_of_le_length (List.isPrefixOf_iff_prefix.mp start).length_le]
    rfl
  next => exact absurd rfl (clean _)

end unmarked

/-- The character starts no comment before these. -/
def StartsPlain (c : Char) (cs : List Char) : Prop :=
  c = '/' → ∀ next ∈ cs.head?, next ≠ '/' ∧ next ≠ '*'

/-- What starts no word, number, text or comment is a mark. -/
theorem scan_mark {c : Char} (solid : isSpace c = false) (quote : c ≠ '"') (name : c ≠ '\'') (digit : c.isDigit = false)
    (word : isWordStart c = false) (plain : StartsPlain c cs) : scan c cs = scanMark (c :: cs) := by
  simp only [scan, solid, quote, name, digit, word, Bool.false_eq_true, if_false]
  split
  · exact absurd rfl (plain rfl _ rfl).1
  · exact absurd rfl (plain rfl _ rfl).2
  · rfl

theorem startsPlain_before {more : List Char} (unmarked : Unmarked more) {c : Char} (plain : StartsPlain c cs) :
    StartsPlain c (cs ++ more) := by
  cases cs with
  | nil =>
    rintro - next member
    have other := unmarked next member
    simp only [List.mem_cons, not_or] at other
    exact ⟨other.2.2.2.2.1, other.2.1⟩
  | cons next cs => exact plain

/-- A piece of a text ends before what stops it. A line comment is stopped by a line end only. -/
theorem scan_before {c : Char} {more : List Char} (stops : Stops more) (solid : isSpace c = false)
    (clean : ∀ fault, (scan c cs).piece ≠ .fault fault)
    (line : c = '/' → cs.head? = some '/' → ∀ next ∈ more.head?, next = '\n') :
    scan c (cs ++ more) = (scan c cs).before more := by
  by_cases quote : c = '"'
  · subst quote
    exact scanText_before more clean
  by_cases name : c = '\''
  · subst name
    exact scanName_before more clean
  by_cases digit : c.isDigit = true
  · have number : ∀ tail, scan c tail = scanNumber (c :: tail) := by simp [scan, solid, quote, name, digit]
    rw [number] at clean
    rw [number, number, ← List.cons_append]
    exact scanNumber_before stops.toSeparate clean
  by_cases word : isWordStart c = true
  · have start : ∀ tail, scan c tail = scanWord (c :: tail) := by simp [scan, solid, quote, name, digit, word]
    rw [start, start, ← List.cons_append]
    exact scanWord_before stops.toSeparate
  rw [Bool.not_eq_true] at digit word
  by_cases plain : StartsPlain c cs
  · rw [scan_mark solid quote name digit word plain] at clean ⊢
    rw [scan_mark solid quote name digit word (startsPlain_before stops.mark plain), ← List.cons_append]
    exact scanMark_before stops.mark clean
  · simp only [StartsPlain, Classical.not_imp, Classical.not_forall, Classical.not_and_iff_not_or_not,
      Classical.not_not] at plain
    obtain ⟨rfl, next, member, comment⟩ := plain
    obtain ⟨tail, rfl⟩ := List.head?_eq_some_iff.mp member
    rcases comment with rfl | rfl
    · have run : ∀ tail, scan '/' ('/' :: tail) = ⟨.blank, '/' :: '/' :: (spanOf (· != '\n') tail).1,
          (spanOf (· != '\n') tail).2⟩ := fun _ => rfl
      rw [List.cons_append, run, run, spanOf_before fun c next => by simp [line rfl rfl c next]]
      rfl
    · exact scanComment_before more clean

end scans

section pieces

variable {γ : Type} {read : Spanned Piece → Option γ}

theorem byteLength_append (cs more : List Char) : byteLength (cs ++ more) = byteLength cs + byteLength more := by
  induction cs with
  | nil => simp [byteLength]
  | cons c cs ih => rw [List.cons_append, byteLength, byteLength, ih, Nat.add_assoc]

theorem byteLength_toList (text : String) : byteLength text.toList = text.utf8ByteSize := by
  induction text using String.push_induction with
  | empty => rfl
  | push text c ih =>
    rw [String.toList_push, byteLength_append, String.utf8ByteSize_push, ih, byteLength, byteLength, Nat.add_zero]

/-- Only behind a fault something is left out. -/
theorem remaining_clean {c : Char} {cs : List Char} (clean : ∀ fault, (scan c cs).piece ≠ .fault fault) :
    (scan c cs).skipped = [] ∧ (scan c cs).remaining = (scan c cs).rest := by
  have kept : (scan c cs).skipped = [] := by
    rw [Scan.skipped]
    split
    next fault faulty => exact absurd faulty (clean fault)
    next => rfl
  rw [Scan.remaining, kept]
  exact ⟨rfl, rfl⟩

theorem pieces_clean {c : Char} {cs : List Char} (position : Nat) (clean : ∀ fault, (scan c cs).piece ≠ .fault fault) :
    pieces position (c :: cs) = ⟨(scan c cs).piece, .between position (position + byteLength (scan c cs).taken)⟩ ::
      pieces (position + byteLength (scan c cs).taken) (scan c cs).rest := by
  obtain ⟨kept, left⟩ := remaining_clean clean
  rw [pieces, kept, left]
  rfl

/-- Where nothing is faulty, the text goes on behind its first piece, and nothing is faulty there. -/
theorem pieces_solid {c : Char} {cs : List Char} {position : Nat}
    (clean : (pieces position (c :: cs)).filterMap diagnosticOf? = []) :
    (∀ fault, (scan c cs).piece ≠ .fault fault) ∧
      (pieces (position + byteLength (scan c cs).taken) (scan c cs).rest).filterMap diagnosticOf? = [] := by
  have sound : ∀ fault, (scan c cs).piece ≠ .fault fault := by
    intro fault faulty
    rw [pieces, faulty, List.filterMap_cons, diagnosticOf?] at clean
    cases clean
  rw [pieces_clean position sound] at clean
  refine ⟨sound, ?_⟩
  rw [List.filterMap_cons] at clean
  split at clean
  · exact clean
  · cases clean

variable (blank : ∀ span, read ⟨.blank, span⟩ = none)

include blank

/-- White space at the start is passed over. -/
theorem filterMap_pieces_space (position : Nat) {c : Char} (space : isSpace c = true) (cs : List Char) :
    (pieces position (c :: cs)).filterMap read = (pieces (position + c.utf8Size) cs).filterMap read := by
  have run : ∀ {c} (tail : List Char), isSpace c = true →
      scan c tail = ⟨.blank, c :: (spanOf isSpace tail).1, (spanOf isSpace tail).2⟩ := by
    intro c tail space
    simp [scan, space]
  have passed : ∀ {c} (position : Nat) (tail : List Char), isSpace c = true → (pieces position (c :: tail)).filterMap read =
      (pieces (position + c.utf8Size + byteLength (spanOf isSpace tail).1) (spanOf isSpace tail).2).filterMap read := by
    intro c position tail space
    rw [pieces_clean position (by simp [run tail space]), run tail space, List.filterMap_cons, blank, byteLength,
      ← Nat.add_assoc]
  rw [passed position cs space]
  cases cs with
  | nil => rfl
  | cons next cs =>
    cases again : isSpace next with
    | true => simp [passed _ cs again, spanOf, again, byteLength, Nat.add_assoc]
    | false => simp [spanOf, again, byteLength]

/-- A line end behind a text without faults separates it from what follows. -/
theorem filterMap_pieces_line (more : List Char) : ∀ (cs : List Char) (position : Nat),
    (pieces position cs).filterMap diagnosticOf? = [] →
      (pieces position (cs ++ '\n' :: more)).filterMap read =
        (pieces position cs).filterMap read ++ (pieces (position + byteLength cs + 1) more).filterMap read
  | [], position, _ => by
    rw [List.nil_append, filterMap_pieces_space blank position rfl, pieces]
    rfl
  | c :: cs, position, clean => by
    cases space : isSpace c with
    | true =>
      rw [filterMap_pieces_space (fun _ => rfl) position space] at clean
      rw [List.cons_append, filterMap_pieces_space blank position space, filterMap_pieces_space blank position space,
        filterMap_pieces_line more cs _ clean, byteLength, Nat.add_assoc position]
    | false =>
      obtain ⟨sound, later⟩ := pieces_solid clean
      have stops : Stops ('\n' :: more) := stops_sign (by decide) more
      have line := scan_before stops space sound fun _ _ => by simp
      have length : byteLength (scan c cs).taken + byteLength (scan c cs).rest = byteLength (c :: cs) := by
        rw [← byteLength_append, scan_append]
      have shorter : (scan c cs).rest.length < (c :: cs).length := (remaining_clean sound).2 ▸ length_remaining_lt c cs
      rw [List.cons_append, pieces_clean position (by rw [line]; exact sound), pieces_clean position sound, line, ← length]
      simp only [Scan.before, List.filterMap_cons, filterMap_pieces_line more _ _ later, Nat.add_assoc]
      split <;> rfl
termination_by cs => cs.length
decreasing_by
  · exact shorter
  · exact Nat.lt_succ_self cs.length

omit blank

theorem pieces_moved (distance position : Nat) (cs : List Char) :
    pieces (position + distance) cs = (pieces position cs).map (Spanned.moved distance) := by
  fun_induction pieces position cs with
  | case1 => rw [pieces, List.map_nil]
  | case2 position c cs s stop ih =>
    have further : position + distance + byteLength s.taken = stop + distance := Nat.add_right_comm ..
    rw [pieces, List.map_cons, ← ih, Spanned.moved, Span.moved_between, further, Nat.add_right_comm stop]

theorem filterMap_moved (distance : Nat) (found : List (Spanned Piece)) :
    (found.map (Spanned.moved distance)).filterMap tokenOf? = (found.filterMap tokenOf?).map (Spanned.moved distance) := by
  rw [List.filterMap_map, List.map_filterMap]
  refine congrArg (List.filterMap · found) (funext fun piece => ?_)
  simp only [Function.comp, tokenOf?, Spanned.moved]
  split <;> rfl

theorem clean_moved (distance : Nat) (found : List (Spanned Piece)) :
    (found.map (Spanned.moved distance)).filterMap diagnosticOf? = [] ↔ found.filterMap diagnosticOf? = [] := by
  have same : ∀ piece : Spanned Piece, diagnosticOf? (piece.moved distance) = none ↔ diagnosticOf? piece = none := by
    intro piece
    simp only [diagnosticOf?, Spanned.moved]
    split <;> simp
  simp only [List.filterMap_eq_nil_iff, List.forall_mem_map, same]

end pieces

theorem tokens_eq_ok {source : String} {found : List (Spanned Token)} : tokens source = .ok found ↔
    (pieces 0 source.toList).filterMap diagnosticOf? = [] ∧ (pieces 0 source.toList).filterMap tokenOf? = found := by
  rw [tokens]
  cases (pieces 0 source.toList).filterMap diagnosticOf? <;> simp

/-- A text that is one piece is one token. -/
theorem tokens_alone {c : Char} {tail : List Char} {value : Token}
    (alone : scan c tail = ⟨.token value, c :: tail, []⟩) :
    tokens (String.ofList (c :: tail)) = .ok [⟨value, .between 0 (byteLength (c :: tail))⟩] := by
  have pieces : pieces 0 (c :: tail) = [⟨.token value, .between 0 (byteLength (c :: tail))⟩] := by
    rw [pieces_clean 0 (by simp [alone]), alone, pieces, Nat.zero_add]
  rw [tokens_eq_ok, String.toList_ofList, pieces]
  exact ⟨rfl, rfl⟩

/-- The tokens of two texts with a line end between them. -/
theorem tokens_line {first second : String} {before after : List (Spanned Token)} (read : tokens first = .ok before)
    (next : tokens second = .ok after) :
    tokens (first ++ "\n" ++ second) = .ok (before ++ after.map (Spanned.moved (first.utf8ByteSize + 1))) := by
  obtain ⟨clean, rfl⟩ := tokens_eq_ok.mp read
  obtain ⟨clean', rfl⟩ := tokens_eq_ok.mp next
  have whole : (first ++ "\n" ++ second).toList = first.toList ++ '\n' :: second.toList := by simp
  have start : pieces (0 + byteLength first.toList + 1) second.toList =
      (pieces 0 second.toList).map (Spanned.moved (first.utf8ByteSize + 1)) := by
    rw [byteLength_toList, Nat.add_assoc]
    exact pieces_moved _ 0 _
  rw [tokens_eq_ok, whole]
  constructor
  · rw [filterMap_pieces_line (fun _ => rfl) _ _ _ clean, clean, start, List.nil_append, clean_moved]
    exact clean'
  · rw [filterMap_pieces_line (fun _ => rfl) _ _ _ clean, start, filterMap_moved]

end Lexer
end StructuralModel
