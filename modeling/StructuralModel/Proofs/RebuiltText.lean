import StructuralModel.Proofs.UnitReading
import StructuralModel.Proofs.WholeNumbers

/-! The texts of units and the text that is put together again for their tokens. Blanks leave no trace, names and signs are
kept, and digits are printed anew; what the lexer or the reader of units does not admit may be put together as anything. -/

namespace StructuralModel

theorem Reader.respelled_append (front back : List Token) :
    Reader.respelled (front ++ back) = Reader.respelled front ++ Reader.respelled back := by
  rw [respelled, List.filterMap_append, String.join_append]
  rfl

theorem Reader.respelled_singleton {token : Token} {piece : String} (known : Reader.unitPiece? token = some piece) :
    Reader.respelled [token] = piece := by
  rw [respelled, List.filterMap_cons, known]
  simp

namespace Text

theorem blank_numeral_apart : ∀ blank ∈ blankRanges, ∀ numeral ∈ numeralRanges,
    blank.2 < numeral.1 ∨ numeral.2 < blank.1 := by
  decide +kernel

theorem isLetterOrNumeral_of_isBlank {c : Char} (blank : isBlank c = true) : isLetterOrNumeral c = false := by
  have noLetter : isLetter c = false := by
    refine Bool.eq_false_iff.mpr fun letter => ?_
    rw [isBlank_of_isLetter letter] at blank
    cases blank
  have noDigit : c.isDigit = false := by
    refine Bool.eq_false_iff.mpr fun digit => ?_
    rw [isBlank_of_isDigit digit] at blank
    cases blank
  have noNumeral : within numeralRanges c = false := by
    refine Bool.eq_false_iff.mpr fun numeral => ?_
    obtain ⟨range, member, low, high⟩ := within_eq_true.mp blank
    obtain ⟨other, among, first, last⟩ := within_eq_true.mp numeral
    have apart := blank_numeral_apart range member other among
    omega
  simp [isLetterOrNumeral, noLetter, isNumeral, noDigit, noNumeral]

theorem ne_of_isBlank {c visible : Char} (blank : isBlank c = true) (other : isBlank visible = false) : c ≠ visible := by
  rintro rfl
  rw [other] at blank
  cases blank

end Text

namespace Lexer
open Text (isBlank spanOf)

/-- Where the lexer finds nothing but tokens that units are made of, those of the first text spell the second. -/
def Rebuilds (text built : List Char) (admits : List Char → Prop) : Prop :=
  ∀ rest found, admits rest → values? (text ++ rest) = some found →
    (∀ token ∈ found, (Reader.unitPiece? token).isSome = true) →
      ∃ front back, found = front ++ back ∧ values? rest = some back ∧ (Reader.respelled front).toList = built

section Rebuilds

variable {text more built others : List Char} {admits admitted : List Char → Prop}

theorem rebuilds_nil : Rebuilds [] [] admits :=
  fun _ found _ cut _ => ⟨[], found, rfl, cut, rfl⟩

theorem Rebuilds.append (first : Rebuilds text built admits) (second : Rebuilds more others admitted)
    (joins : ∀ rest, admitted rest → admits (more ++ rest)) : Rebuilds (text ++ more) (built ++ others) admitted := by
  intro rest found follows cut known
  rw [List.append_assoc] at cut
  obtain ⟨front, middle, rfl, later, spelled⟩ := first _ _ (joins rest follows) cut known
  obtain ⟨next, back, rfl, last, respelled⟩ := second rest middle follows later fun token member =>
    known token (List.mem_append_right _ member)
  refine ⟨front ++ next, back, (List.append_assoc ..).symm, last, ?_⟩
  rw [Reader.respelled_append, String.toList_append, spelled, respelled]

theorem Rebuilds.mono (rebuilds : Rebuilds text built admits) (implies : ∀ rest, admitted rest → admits rest) :
    Rebuilds text built admitted :=
  fun rest found follows => rebuilds rest found (implies rest follows)

theorem Cuts.rebuilds {found : List Token} (cuts : Cuts text found admits) :
    Rebuilds text (Reader.respelled found).toList admits := by
  intro rest whole follows cut _
  rw [cuts rest follows, Option.map_eq_some_iff] at cut
  obtain ⟨back, later, rfl⟩ := cut
  exact ⟨found, back, rfl, later, rfl⟩

/-- What is no token is no unit either. -/
theorem rebuilds_of_fault {c : Char} (faulty : ∀ cs, ∃ fault, (scan c cs).piece = .fault fault) (built : List Char) :
    Rebuilds [c] built admits := by
  intro rest found _ cut _
  obtain ⟨fault, faulty⟩ := faulty rest
  rw [List.singleton_append, values?_cons, faulty] at cut
  cases cut

/-- Neither is a token that units are not made of. -/
theorem rebuilds_of_unknown {c : Char} {token : Token} (run : ∀ cs, scan c cs = ⟨.token token, [c], cs⟩)
    (unknown : Reader.unitPiece? token = none) (built : List Char) : Rebuilds [c] built admits := by
  intro rest found _ cut known
  rw [List.singleton_append, values?_cons, run, Option.map_eq_some_iff] at cut
  obtain ⟨back, _, rfl⟩ := cut
  have impossible := known token List.mem_cons_self
  rw [unknown] at impossible
  cases impossible

end Rebuilds

/-! Characters that start no token. -/

theorem scan_fault {c : Char} (space : isSpace c = false) (quote : c ≠ '"') (single : c ≠ '\'') (digit : c.isDigit = false)
    (word : isWordStart c = false) (mark : ∀ mark ∈ Mark.all, mark.spelling.head? ≠ some c) (cs : List Char) :
    ∃ fault, (scan c cs).piece = .fault fault := by
  have plain : StartsPlain c cs := by
    rintro rfl
    exact absurd rfl (mark .slash (by decide))
  have none : Mark.ofStart? (c :: cs) = none := by
    refine List.find?_eq_none.mpr fun sign member spelled => ?_
    obtain ⟨rest, same⟩ := List.isPrefixOf_iff_prefix.mp spelled
    have start : ∃ first others, sign.spelling = first :: others := by cases sign <;> exact ⟨_, _, rfl⟩
    obtain ⟨first, others, shape⟩ := start
    rw [shape] at same
    obtain ⟨rfl, _⟩ := List.cons.inj same
    exact mark sign member (by rw [shape]; rfl)
  rw [scan_mark space quote single digit word plain, scanMark, none]
  exact ⟨_, rfl⟩

theorem scan_fault_of_high {c : Char} (high : 128 ≤ c.toNat) (cs : List Char) :
    ∃ fault, (scan c cs).piece = .fault fault := by
  have other : ∀ low : Char, low.toNat < 128 → c ≠ low := by
    rintro low below rfl
    omega
  have space : isSpace c = false := by
    simp [isSpace, other ' ' (by decide), other '\t' (by decide), other '\r' (by decide), other '\n' (by decide)]
  have digit : c.isDigit = false := by
    rw [Bool.eq_false_iff, Ne, Text.isDigit_iff]
    omega
  have alpha : c.isAlpha = false := by
    rw [Bool.eq_false_iff, Ne, Text.isAlpha_iff]
    omega
  have word : isWordStart c = false := by
    rw [isWordStart, alpha, Bool.false_or, decide_eq_false_iff_not]
    exact other '_' (by decide)
  refine scan_fault space (other _ (by decide)) (other _ (by decide)) digit word (fun mark _ start => ?_) cs
  have low : mark.spelling.all fun c => c.toNat < 128 := by cases mark <;> decide
  have below := List.all_eq_true.mp low c (List.mem_of_mem_head? start)
  exact absurd high (Nat.not_le.mpr (of_decide_eq_true below))

/-! The pieces of a term. -/

theorem isWordChar_of_isBlank {c : Char} (blank : isBlank c = true) : isWordChar c = false := by
  have letter := Text.isLetterOrNumeral_of_isBlank blank
  simp only [Text.isLetterOrNumeral, Text.isLetter, Text.isNumeral, Bool.or_eq_false_iff] at letter
  rw [isWordChar, isWordStart, letter.1.1, letter.2.1, Bool.false_or, Bool.or_false, decide_eq_false_iff_not]
  exact Text.ne_of_isBlank blank (by decide)

section pieces

variable {admits : List Char → Prop}

theorem rebuilds_blank {c : Char} (blank : isBlank c = true) : Rebuilds [c] [] admits := by
  by_cases space : isSpace c = true
  · intro rest found _ cut _
    rw [List.singleton_append, values?_space space] at cut
    exact ⟨[], found, rfl, cut, rfl⟩
  · rw [Bool.not_eq_true] at space
    have other : ∀ visible : Char, isBlank visible = false → c ≠ visible := fun _ => Text.ne_of_isBlank blank
    obtain ⟨word, digit⟩ := Bool.or_eq_false_iff.mp (isWordChar_of_isBlank blank)
    refine rebuilds_of_fault (scan_fault space (other _ (by decide)) (other _ (by decide)) digit word ?_) _
    intro mark _ start
    have solid : mark.spelling.all fun c => !isBlank c := by cases mark <;> decide
    have plain := List.all_eq_true.mp solid c (List.mem_of_mem_head? start)
    rw [blank] at plain
    cases plain

theorem rebuilds_blanks {blanks : List Char} (blank : ∀ c ∈ blanks, isBlank c = true) : Rebuilds blanks [] admits := by
  induction blanks with
  | nil => exact rebuilds_nil
  | cons c blanks ih =>
    obtain ⟨first, others⟩ := List.forall_mem_cons.mp blank
    have head : Rebuilds [c] [] fun _ => True := rebuilds_blank first
    exact head.append (ih others) fun _ _ => trivial

theorem rebuilds_percent : Rebuilds ['%'] ['%'] admits := by
  have cuts : Cuts ['%'] [.mark .percent] admits := cuts_single fun _ => rfl
  exact cuts.rebuilds

theorem rebuilds_caret : Rebuilds ['^'] ['^'] admits := by
  have cuts : Cuts ['^'] [.mark .caret] admits := cuts_single fun _ => rfl
  exact cuts.rebuilds

theorem rebuilds_minus : Rebuilds ['-'] ['-'] admits := by
  have cuts : Cuts ['-'] [.mark .minus] admits := cuts_single fun _ => rfl
  exact cuts.rebuilds

/-- A second star would make it another token, which units are not made of. -/
theorem rebuilds_star : Rebuilds ['*'] ['*'] admits := by
  intro rest found _ cut known
  by_cases again : rest.head? = some '*'
  · obtain ⟨tail, rfl⟩ := List.head?_eq_some_iff.mp again
    have run : scan '*' ('*' :: tail) = ⟨.token (.mark .power), ['*', '*'], tail⟩ := rfl
    rw [List.singleton_append, values?_cons, run, Option.map_eq_some_iff] at cut
    obtain ⟨back, _, rfl⟩ := cut
    cases known _ List.mem_cons_self
  · have run : scan '*' rest = ⟨.token (.mark .star), ['*'], rest⟩ := by
      cases rest with
      | nil => rfl
      | cons c rest =>
        have other : '*' ≠ c := fun same => again (same ▸ rfl)
        simp [scan, isSpace, isWordStart, scanMark, Mark.ofStart?, Mark.all, Mark.spelling, List.isPrefixOf, other]
    rw [List.singleton_append, values?_cons, run, Option.map_eq_some_iff] at cut
    obtain ⟨back, later, rfl⟩ := cut
    exact ⟨[.mark .star], back, rfl, later, rfl⟩

/-- A second slash would start a comment, which leaves no trace. -/
theorem rebuilds_slash : Rebuilds ['/'] ['/'] fun rest => rest.head? ≠ some '/' := by
  intro rest found single cut known
  by_cases comment : rest.head? = some '*'
  · obtain ⟨tail, rfl⟩ := List.head?_eq_some_iff.mp comment
    have run : scan '/' ('*' :: tail) = scanComment tail := rfl
    rw [List.singleton_append, values?_cons, run, scanComment] at cut
    cases closed : splitCommentEnd tail with
    | none =>
      rw [closed] at cut
      cases cut
    | some comment =>
      rw [closed] at cut
      dsimp only at cut
      rw [Option.map_eq_some_iff] at cut
      obtain ⟨back, _, rfl⟩ := cut
      cases known _ List.mem_cons_self
  · have plain : StartsPlain '/' rest := by
      rintro - next start
      refine ⟨?_, ?_⟩
      · rintro rfl
        exact single start
      · rintro rfl
        exact comment start
    have run : scan '/' rest = ⟨.token (.mark .slash), ['/'], rest⟩ := by
      rw [scan_mark rfl (by decide) (by decide) rfl rfl plain]
      rfl
    rw [List.singleton_append, values?_cons, run, Option.map_eq_some_iff] at cut
    obtain ⟨back, later, rfl⟩ := cut
    exact ⟨[.mark .slash], back, rfl, later, rfl⟩

/-- A symbol is put together again from its words. -/
theorem rebuilds_symbol {name : List Char} (symbol : ∀ c ∈ name, PhysicalUnit.isSymbolChar c = true) :
    Rebuilds name name fun rest => ∀ c ∈ rest.head?, isWordChar c = false := by
  induction length : name.length using Nat.strong_induction_on generalizing name with
  | _ length ih =>
    cases name with
    | nil => exact rebuilds_nil
    | cons c cs =>
      subst length
      obtain ⟨first, others⟩ := List.forall_mem_cons.mp symbol
      by_cases percent : c = '%'
      · subst percent
        have head : Rebuilds ['%'] ['%'] fun _ => True := rebuilds_percent
        exact head.append (ih cs.length (Nat.lt_succ_self _) others rfl) fun _ _ => trivial
      by_cases start : isWordStart c = true
      · have whole := Text.spanOf_append isWordChar (c :: cs)
        have shorter : (spanOf isWordChar (c :: cs)).2.length < (c :: cs).length := by
          have inside : isWordChar c = true := by rw [isWordChar, start, Bool.true_or]
          rw [spanOf, List.dropWhile_cons_of_pos inside]
          exact Nat.lt_succ_of_le (List.length_dropWhile_le ..)
        have tail := ih _ shorter (fun other member => symbol other (whole ▸ List.mem_append_right _ member)) rfl
        intro rest found follows cut known
        have run : scan c (cs ++ rest) = scanWord (c :: cs ++ rest) := scan_word start _
        rw [List.cons_append, values?_cons, run, scanWord, spanOf_before follows, Option.map_eq_some_iff] at cut
        obtain ⟨more, later, rfl⟩ := cut
        have word := known _ List.mem_cons_self
        cases keyword : Keyword.ofSpelling? (String.ofList (spanOf isWordChar (c :: cs)).1) with
        | some other =>
          rw [keyword] at word
          cases word
        | none =>
          obtain ⟨front, back, rfl, last, spelled⟩ := tail rest more follows later fun token member =>
            known token (List.mem_cons_of_mem _ member)
          refine ⟨.identifier (String.ofList (spanOf isWordChar (c :: cs)).1) :: front, back, rfl, last, ?_⟩
          have named : Reader.respelled [.identifier (String.ofList (spanOf isWordChar (c :: cs)).1)] =
              String.ofList (spanOf isWordChar (c :: cs)).1 := Reader.respelled_singleton rfl
          rw [← List.singleton_append, Reader.respelled_append, named, String.toList_append, String.toList_ofList, spelled,
            whole]
      · have high : 128 ≤ c.toNat := by
          simp only [PhysicalUnit.isSymbolChar, Text.isLetter, isWordStart, Bool.or_eq_true, decide_eq_true_eq, not_or,
            Bool.and_eq_true] at first start
          rcases first with (((alpha | letter) | line) | rfl) | same
          · exact absurd alpha start.1
          · exact letter.1
          · exact absurd line start.2
          · decide
          · exact absurd same percent
        have head : Rebuilds [c] [c] fun _ => True := rebuilds_of_fault (scan_fault_of_high high) [c]
        exact head.append (ih cs.length (Nat.lt_succ_self _) others rfl) fun _ _ => trivial

theorem rebuilds_digits {digits : List Char} (nonempty : digits ≠ []) (all : ∀ c ∈ digits, c.isDigit = true)
    (small : Decimal.natOfDigits digits < 2 ^ 53) :
    Rebuilds digits (Nat.toDigits 10 (Decimal.natOfDigits digits)) Separate := by
  have written : Decimal.Written digits digits [] := ⟨(List.append_nil _).symm, nonempty, all, nofun⟩
  have rebuilds := written.cuts.rebuilds
  have known : Reader.unitPiece? (.number (Decimal.ofDigits digits [] 0)) =
      some (toString (Decimal.natOfDigits digits)) := by
    rw [Decimal.ofDigits_whole, Reader.unitPiece?, Decimal.text_ofNat small]
  rwa [Reader.respelled_singleton known, Nat.toString_eq_repr, Nat.toList_repr] at rebuilds

/-- What stands behind a piece of a term, a term or a group of terms. -/
def Bordered (rest : List Char) : Prop :=
  ∀ c ∈ rest.head?, isBlank c = true ∨ c = '^' ∨ c = '*' ∨ c = '/'

variable {rest : List Char}

theorem Bordered.separate (bordered : Bordered rest) : Separate rest := by
  have class_ : ∀ c ∈ rest.head?, isWordChar c = false ∧ Text.isLetterOrNumeral c = false ∧
      c ≠ '.' ∧ c ≠ '+' ∧ c ≠ '-' := by
    intro c next
    rcases bordered c next with blank | rfl | rfl | rfl
    · have other : ∀ visible : Char, isBlank visible = false → c ≠ visible := fun _ => Text.ne_of_isBlank blank
      exact ⟨isWordChar_of_isBlank blank, Text.isLetterOrNumeral_of_isBlank blank, other _ (by decide),
        other _ (by decide), other _ (by decide)⟩
    all_goals decide
  refine ⟨fun c next => (class_ c next).1, fun c next => (class_ c next).2.1, ?_, fun c next => (class_ c next).2.2.2⟩
  cases rest with
  | nil => rfl
  | cons c rest =>
    have point : c ≠ '.' := (class_ c rfl).2.2.1
    simp [fractionOf, point]

theorem bordered_nil : Bordered [] := by
  simp [Bordered]

theorem bordered_blanks {blanks : List Char} (blank : ∀ c ∈ blanks, isBlank c = true) (bordered : Bordered rest) :
    Bordered (blanks ++ rest) := by
  cases blanks with
  | nil => exact bordered
  | cons c blanks =>
    intro other next
    obtain rfl : c = other := by simpa using next
    exact .inl (blank c List.mem_cons_self)

theorem bordered_cons {c : Char} (operator : c = '^' ∨ c = '*' ∨ c = '/') : Bordered (c :: rest) := by
  intro other next
  obtain rfl : c = other := by simpa using next
  exact .inr operator

/-- Blanks around a piece leave no trace. -/
theorem Rebuilds.of_trim {text built : List Char} (rebuilds : Rebuilds (Text.trim text) built Bordered) :
    Rebuilds text built Bordered := by
  obtain ⟨before, after, split, blankBefore, blankAfter⟩ := Text.exists_trim text
  have front : Rebuilds before [] fun _ => True := rebuilds_blanks blankBefore
  have back : Rebuilds after [] Bordered := rebuilds_blanks blankAfter
  have whole := (front.append rebuilds fun _ _ => trivial).append back fun _ bordered => bordered_blanks blankAfter bordered
  rw [← split, List.nil_append, List.append_nil] at whole
  exact whole

end pieces

end Lexer
end StructuralModel
