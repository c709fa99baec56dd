import Mathlib
import StructuralModel.Proofs.EscapedText
import StructuralModel.Text.Quoted

/-! Texts that are cut into known tokens wherever they stand, as long as what follows does not go on with the last of
them. The text of a construct is put together from such pieces. -/

namespace StructuralModel
namespace Lexer
open Text (spanOf)

theorem stops_nil : Stops [] :=
  ⟨⟨nofun, nofun, rfl, nofun⟩, nofun⟩

/-- The tokens of a text without their places; none if something in it is no token. -/
def values? (text : List Char) : Option (List Token) :=
  match (pieces 0 text).filterMap diagnosticOf? with
  | [] => some (((pieces 0 text).filterMap tokenOf?).map (·.value))
  | _ => none

theorem values?_of_tokens {source : String} {found : List (Spanned Token)} (lexed : tokens source = .ok found) :
    values? source.toList = some (found.map (·.value)) := by
  obtain ⟨clean, rfl⟩ := tokens_eq_ok.mp lexed
  rw [values?, clean]

theorem tokens_of_values? {source : String} {written : List Token} (cut : values? source.toList = some written) :
    ∃ found, tokens source = .ok found ∧ found.map (·.value) = written := by
  rw [values?] at cut
  split at cut
  next clean => exact ⟨_, tokens_eq_ok.mpr ⟨clean, rfl⟩, Option.some.inj cut⟩
  next => cases cut

/-- Where a text starts does not matter for its tokens. -/
theorem values?_pieces (position : Nat) (text : List Char) : values? text =
    match (pieces position text).filterMap diagnosticOf? with
    | [] => some (((pieces position text).filterMap tokenOf?).map (·.value))
    | _ => none := by
  have further : pieces position text = (pieces 0 text).map (Spanned.moved position) := by
    rw [← pieces_moved, Nat.zero_add]
  have values : ((pieces position text).filterMap tokenOf?).map (·.value) =
      ((pieces 0 text).filterMap tokenOf?).map (·.value) := by
    rw [further, filterMap_moved, List.map_map]
    rfl
  have clean : (pieces position text).filterMap diagnosticOf? = [] ↔ (pieces 0 text).filterMap diagnosticOf? = [] := by
    rw [further, clean_moved]
  rw [values?, values]
  cases start : (pieces 0 text).filterMap diagnosticOf? with
  | nil => rw [clean.mpr start]
  | cons diagnostic more =>
    cases later : (pieces position text).filterMap diagnosticOf? with
    | nil =>
      rw [clean.mp later] at start
      cases start
    | cons => rfl

theorem values?_nil : values? [] = some [] := by
  rw [values?, pieces]
  rfl

/-- The tokens of a text are those of its first piece and of what follows. -/
theorem values?_cons (c : Char) (cs : List Char) : values? (c :: cs) =
    match (scan c cs).piece with
    | .blank => values? (scan c cs).rest
    | .token token => (values? (scan c cs).rest).map (token :: ·)
    | .fault _ => none := by
  cases first : (scan c cs).piece with
  | fault fault =>
    have faulty : (pieces 0 (c :: cs)).filterMap diagnosticOf? ≠ [] := by
      rw [pieces, first, List.filterMap_cons, diagnosticOf?]
      exact List.cons_ne_nil _ _
    rw [values?]
    split
    next clean => exact absurd clean faulty
    next => rfl
  | blank =>
    rw [values?, pieces_clean 0 (by simp [first]), first, values?_pieces]
    rfl
  | token token =>
    rw [values?, pieces_clean 0 (by simp [first]), first, values?_pieces]
    simp only [List.filterMap_cons, diagnosticOf?, tokenOf?, List.map_cons]
    split
    next clean =>
      rw [clean]
      rfl
    next faulty =>
      split
      next clean => exact absurd clean faulty
      next => rfl

theorem values?_space {c : Char} (space : isSpace c = true) (cs : List Char) : values? (c :: cs) = values? cs := by
  rw [values?_pieces (0 + c.utf8Size) cs, values?, filterMap_pieces_space (fun _ => rfl) 0 space,
    filterMap_pieces_space (fun _ => rfl) 0 space]

/-- In front of anything that the condition admits, the text is cut into these tokens. -/
def Cuts (text : List Char) (found : List Token) (admits : List Char → Prop) : Prop :=
  ∀ rest, admits rest → values? (text ++ rest) = (values? rest).map (found ++ ·)

section Cuts

variable {text more : List Char} {found others : List Token} {admits admitted : List Char → Prop}

theorem cuts_nil : Cuts [] [] admits := by
  intro rest _
  simp

theorem Cuts.append (first : Cuts text found admits) (second : Cuts more others admitted)
    (joins : ∀ rest, admitted rest → admits (more ++ rest)) : Cuts (text ++ more) (found ++ others) admitted := by
  intro rest follows
  rw [List.append_assoc, first _ (joins rest follows), second rest follows, Option.map_map]
  simp [Function.comp_def]

theorem Cuts.mono (cuts : Cuts text found admits) (implies : ∀ rest, admitted rest → admits rest) :
    Cuts text found admitted :=
  fun rest follows => cuts rest (implies rest follows)

/-- A whole text in such pieces. -/
theorem Cuts.values? (cuts : Cuts text found admits) (ends : admits []) : values? text = some found := by
  have whole := cuts [] ends
  rw [List.append_nil, values?_nil] at whole
  simpa using whole

theorem cuts_space (admits : List Char → Prop) : Cuts [' '] [] admits := by
  intro rest _
  rw [List.singleton_append, values?_space rfl]
  simp

/-- A piece that is one token on its own. -/
theorem cuts_of_scan {c : Char} {cs : List Char} {token : Token} (alone : scan c cs = ⟨.token token, c :: cs, []⟩)
    (stays : ∀ rest, admits rest → scan c (cs ++ rest) = (scan c cs).before rest) : Cuts (c :: cs) [token] admits := by
  intro rest follows
  rw [List.cons_append, values?_cons, stays rest follows, alone]
  rfl

/-- A character that is a token whatever follows. -/
theorem cuts_single {c : Char} {token : Token} (alone : ∀ rest, scan c rest = ⟨.token token, [c], rest⟩) :
    Cuts [c] [token] admits := by
  refine cuts_of_scan (alone []) fun rest _ => ?_
  rw [List.nil_append, alone, alone]
  rfl

end Cuts

/-! The pieces. -/

/-- What a turn of the lexer comes to, by the characters that it starts with. -/
inductive Scanned (c : Char) (cs : List Char) : Scan → Prop
  | space (space : isSpace c = true) : Scanned c cs ⟨.blank, c :: (spanOf isSpace cs).1, (spanOf isSpace cs).2⟩
  | text (quote : c = '"') : Scanned c cs (scanText c cs)
  | name (quote : c = '\'') : Scanned c cs (scanName c cs)
  | number (digit : c.isDigit = true) : Scanned c cs (scanNumber (c :: cs))
  | word (start : isWordStart c = true) : Scanned c cs (scanWord (c :: cs))
  | line {tail} (slash : c = '/') (follows : cs = '/' :: tail) :
    Scanned c cs ⟨.blank, '/' :: '/' :: (spanOf (· != '\n') tail).1, (spanOf (· != '\n') tail).2⟩
  | comment {tail} (slash : c = '/') (follows : cs = '*' :: tail) : Scanned c cs (scanComment tail)
  | mark : Scanned c cs (scanMark (c :: cs))

theorem scanned_scan (c : Char) (cs : List Char) : Scanned c cs (scan c cs) := by
  unfold scan
  split
  next space => exact .space space
  split
  next quote => exact .text quote
  split
  next quote => exact .name quote
  split
  next digit => exact .number digit
  split
  next start => exact .word start
  split
  · exact .line rfl rfl
  · exact .comment rfl rfl
  · exact .mark

theorem spanOf_all {p : Char → Bool} {text : List Char} (all : ∀ c ∈ text, p c = true) : spanOf p text = (text, []) := by
  induction text with
  | nil => rfl
  | cons c rest ih =>
    obtain ⟨first, others⟩ := List.forall_mem_cons.mp all
    obtain ⟨taken, left⟩ := Prod.mk.inj (ih others)
    simp [spanOf, first, taken, left]

theorem isDigit_of_isWordStart {c : Char} (start : isWordStart c = true) : c.isDigit = false := by
  refine Bool.eq_false_iff.mpr fun digit => ?_
  rw [isWordStart, Bool.or_eq_true, decide_eq_true_eq, Text.isAlpha_iff] at start
  rw [Text.isDigit_iff] at digit
  rcases start with alpha | rfl
  · omega
  · exact absurd digit (by decide)

theorem scan_digit {c : Char} (digit : c.isDigit = true) (cs : List Char) : scan c cs = scanNumber (c :: cs) := by
  have solid : isSpace c = false := by
    refine Bool.eq_false_iff.mpr fun space => ?_
    simp only [isSpace, Bool.or_eq_true, decide_eq_true_eq] at space
    rcases space with ((rfl | rfl) | rfl) | rfl <;> cases digit
  have quote : c ≠ '"' := by
    rintro rfl
    cases digit
  have single : c ≠ '\'' := by
    rintro rfl
    cases digit
  simp [scan, solid, quote, single, digit]

theorem scan_word {c : Char} (start : isWordStart c = true) (cs : List Char) : scan c cs = scanWord (c :: cs) := by
  have solid : isSpace c = false := by
    refine Bool.eq_false_iff.mpr fun space => ?_
    simp only [isSpace, Bool.or_eq_true, decide_eq_true_eq] at space
    rcases space with ((rfl | rfl) | rfl) | rfl <;> cases start
  have quote : c ≠ '"' := by
    rintro rfl
    cases start
  have single : c ≠ '\'' := by
    rintro rfl
    cases start
  simp [scan, solid, quote, single, isDigit_of_isWordStart start, start]

theorem cuts_word {c : Char} {cs : List Char} {token : Token} (start : isWordStart c = true)
    (alone : scanWord (c :: cs) = ⟨.token token, c :: cs, []⟩) : Cuts (c :: cs) [token] Separate := by
  refine cuts_of_scan ((scan_word start cs).trans alone) fun rest separate => ?_
  rw [scan_word start, scan_word start, ← List.cons_append, scanWord_before separate]

theorem cuts_number {c : Char} {cs : List Char} {token : Token} (digit : c.isDigit = true)
    (alone : scanNumber (c :: cs) = ⟨.token token, c :: cs, []⟩) : Cuts (c :: cs) [token] Separate := by
  refine cuts_of_scan ((scan_digit digit cs).trans alone) fun rest separate => ?_
  rw [scan_digit digit, scan_digit digit, ← List.cons_append, scanNumber_before separate (by simp [alone])]

theorem cuts_keyword (word : Keyword) : Cuts word.spelling.toList [.keyword word] Separate := by
  cases word <;> exact cuts_word rfl rfl

theorem scanMark_spelling {mark : Mark} {rest : List Char} (unmarked : Unmarked rest) :
    scanMark (mark.spelling ++ rest) = ⟨.token (.mark mark), mark.spelling, rest⟩ := by
  have alone : ∀ mark : Mark, ∃ c cs, mark.spelling = c :: cs ∧
      scanMark (c :: cs) = ⟨.token (.mark mark), c :: cs, []⟩ := by
    intro mark
    cases mark <;> exact ⟨_, _, rfl, rfl⟩
  obtain ⟨c, cs, same, run⟩ := alone mark
  rw [same, scanMark_before unmarked (by simp [run]), run]
  rfl

theorem cuts_mark (mark : Mark) : Cuts mark.spelling [.mark mark] Unmarked := by
  intro rest unmarked
  have start : ∃ c cs, mark.spelling = c :: cs ∧ isSpace c = false ∧ c ≠ '"' ∧ c ≠ '\'' ∧ c.isDigit = false ∧
      isWordStart c = false ∧ StartsPlain c cs := by
    cases mark <;> exact ⟨_, _, rfl, rfl, by decide, by decide, rfl, rfl, by simp [StartsPlain]⟩
  obtain ⟨c, cs, same, solid, quote, name, digit, word, plain⟩ := start
  have run : scan c (cs ++ rest) = ⟨.token (.mark mark), mark.spelling, rest⟩ := by
    rw [scan_mark solid quote name digit word (startsPlain_before unmarked plain), ← List.cons_append, ← same,
      scanMark_spelling unmarked]
  rw [same, List.cons_append, values?_cons, run]
  rfl

/-- A name that is written without quotes. -/
def PlainName (name : String) : Prop :=
  (∃ c cs, name.toList = c :: cs ∧ isWordStart c = true ∧ ∀ c ∈ cs, isWordChar c = true) ∧
    Keyword.ofSpelling? name = none

theorem cuts_name {name : String} (plain : PlainName name) : Cuts name.toList [.identifier name] Separate := by
  obtain ⟨⟨c, cs, same, start, inside⟩, other⟩ := plain
  have whole : spanOf isWordChar (c :: cs) = (c :: cs, []) :=
    spanOf_all (List.forall_mem_cons.mpr ⟨by simp [isWordChar, start], inside⟩)
  have named : String.ofList (c :: cs) = name := by rw [← same, String.ofList_toList]
  rw [same]
  refine cuts_word start ?_
  simp only [scanWord, whole, named, other]

/-- A text of printable characters, all of which have one byte. -/
def PrintableText (text : String) : Prop :=
  ∀ c ∈ text.toList, 32 ≤ c.toNat ∧ c.toNat ≤ 126

/-- A printable text needs no escapes but those of a literal. -/
theorem quoted_eq_literal {value : String} (printable : PrintableText value) : Text.quoted value = literal value := by
  refine congrArg (fun inside => String.ofList ('"' :: inside ++ ['"'])) (List.flatMap_congr fun c member => ?_)
  have between := printable c member
  have visible : Text.isHidden c = false := by
    simp only [Text.isHidden, Bool.or_eq_false_iff, Bool.and_eq_false_iff, decide_eq_false_iff_not]
    omega
  have printed : ∀ other : Char, other.toNat < 32 → c ≠ other := by
    rintro other below rfl
    omega
  unfold Text.escaped
  split
  next => exact absurd rfl (printed _ (by decide))
  next => rfl
  next => rfl
  next => exact absurd rfl (printed _ (by decide))
  next => rfl
  next => rfl
  next tab line _ quote slash =>
    rw [visible, if_neg Bool.false_ne_true, escape]
    all_goals assumption

theorem cuts_literal (value : String) (admits : List Char → Prop) : Cuts (literal value).toList [.text value] admits := by
  intro rest _
  have written : (literal value).toList ++ rest = '"' :: (value.toList.flatMap escape ++ '"' :: rest) := by simp [literal]
  rw [written, values?_cons, scan_literal]
  rfl

theorem cuts_text {value : String} (printable : PrintableText value) (admits : List Char → Prop) :
    Cuts (Text.quoted value).toList [.text value] admits :=
  quoted_eq_literal printable ▸ cuts_literal value admits

end Lexer
end StructuralModel
