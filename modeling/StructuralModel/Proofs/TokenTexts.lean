import StructuralModel.Proofs.Lexemes
import StructuralModel.Proofs.TextPlaces

/-! What the tokens of a text leave of it. Every token stands for the characters under it, which are the same token where
they stand alone; what stands between tokens is white space and line comments. -/

namespace StructuralModel
namespace Lexer
open Text (spanOf spanOf_append)

/-! The characters that are taken for a token are that token on their own: what follows decides only where a token ends. -/

section alone

variable {c : Char} {cs : List Char} {token : Token}

theorem textBody_closed (cs more : List Char) : textBody ((textBody cs).taken ++ '"' :: more) =
    ⟨(textBody cs).value, (textBody cs).taken, '"' :: more⟩ := by
  fun_induction textBody cs with
  | case3 c rest value known ih => simp [TextBody.cons, textBody, known, ih]
  | case6 c rest single pair inside ih =>
    have unescaped : c ≠ '\\' := by
      rintro rfl
      cases rest with
      | nil => exact single rfl rfl
      | cons next rest => exact pair next rest rfl rfl
    rw [TextBody.cons, List.append_assoc, List.singleton_append, textBody_plain unescaped (by simpa using inside), ih]
    rfl
  | case1 | case2 | case4 | case5 => simp [textBody]

theorem scanText_alone (piece : (scanText c cs).piece = .token token) :
    ∃ tail, (scanText c cs).taken = c :: tail ∧ scanText c tail = ⟨.token token, c :: tail, []⟩ := by
  rw [scanText] at piece ⊢
  split at piece
  next rest closed =>
    obtain rfl := Piece.token.inj piece
    refine ⟨(textBody cs).taken ++ ['"'], rfl, ?_⟩
    rw [scanText, textBody_closed]
    rfl
  next => cases piece

theorem all_spanOf (p : Char → Bool) (cs : List Char) : ∀ c ∈ (spanOf p cs).1, p c = true :=
  fun _ member => List.all_eq_true.mp (List.all_takeWhile) _ member

theorem scanName_alone (piece : (scanName c cs).piece = .token token) :
    ∃ tail, (scanName c cs).taken = c :: tail ∧ scanName c tail = ⟨.token token, c :: tail, []⟩ := by
  have inside := all_spanOf (fun c => c != '\'' && c != '\n') cs
  rw [scanName] at piece ⊢
  dsimp only at piece ⊢
  split at piece
  next first name rest taken left =>
    obtain rfl := Piece.token.inj piece
    rw [taken] at inside
    have again : spanOf (fun c => c != '\'' && c != '\n') (first :: name ++ ['\'']) = (first :: name, ['\'']) := by
      rw [spanOf_before (by simp), spanOf_all inside]
      rfl
    rw [taken]
    refine ⟨first :: name ++ ['\''], rfl, ?_⟩
    rw [scanName, again]
    rfl
  next => cases piece

theorem splitCommentEnd_alone {raw rest : List Char} (found : splitCommentEnd cs = some (raw, rest)) :
    splitCommentEnd (raw ++ ['*', '/']) = some (raw, []) := by
  fun_induction splitCommentEnd cs generalizing raw with
  | case1 => cases found
  | case2 tail =>
    obtain ⟨rfl, rfl⟩ := Prod.mk.inj (Option.some.inj found)
    rfl
  | case3 c tail open_ ih =>
    obtain ⟨⟨before, after⟩, inner, same⟩ := Option.map_eq_some_iff.mp found
    obtain ⟨rfl, rfl⟩ := Prod.mk.inj same
    rw [List.cons_append, splitCommentEnd, ih inner]
    · rfl
    · -- An end that starts at the first character would have ended the longer text too.
      rintro again rfl same
      have whole := splitCommentEnd_append inner
      cases before with
      | nil => cases same
      | cons next before =>
        obtain ⟨rfl, _⟩ := List.cons.inj same
        exact open_ _ rfl whole.symm

theorem scanComment_alone (piece : (scanComment cs).piece = .token token) :
    ∃ tail, (scanComment cs).taken = '/' :: '*' :: tail ∧
      scanComment tail = ⟨.token token, '/' :: '*' :: tail, []⟩ := by
  rw [scanComment] at piece ⊢
  split at piece
  next raw rest found =>
    obtain rfl := Piece.token.inj piece
    refine ⟨raw ++ ['*', '/'], rfl, ?_⟩
    rw [scanComment, splitCommentEnd_alone found]
    rfl
  next => cases piece

theorem scanWord_alone (piece : (scanWord cs).piece = .token token) :
    scanWord (scanWord cs).taken = ⟨.token token, (scanWord cs).taken, []⟩ := by
  have whole : spanOf isWordChar (spanOf isWordChar cs).1 = ((spanOf isWordChar cs).1, []) :=
    spanOf_all (all_spanOf isWordChar cs)
  rw [scanWord] at piece ⊢
  dsimp only at piece ⊢
  rw [scanWord, whole]
  dsimp only
  rw [piece]

/-! A number is cut into the same three parts again. -/

theorem signedDigitsOf_alone {digits rest : List Char} (found : signedDigitsOf cs = some (digits, rest)) :
    signedDigitsOf digits = some (digits, []) := by
  unfold signedDigitsOf at found
  split at found
  next sign unsigned eq =>
    have inside := all_spanOf Char.isDigit unsigned
    split at found
    · cases found
    next own left nonempty taken =>
      rw [taken] at inside
      have again : spanOf Char.isDigit own = (own, []) := spanOf_all inside
      obtain ⟨rfl, rfl⟩ := Prod.mk.inj (Option.some.inj found)
      obtain ⟨first, more, rfl⟩ := List.exists_cons_of_ne_nil nonempty
      split at eq <;> obtain ⟨rfl, rfl⟩ := Prod.mk.inj eq
      · rw [List.singleton_append, signedDigitsOf, again]
        rfl
      · rw [List.singleton_append, signedDigitsOf, again]
        rfl
      · have digit := inside first List.mem_cons_self
        rw [List.nil_append, signedDigitsOf, again]
        · rfl
        all_goals
          rintro rest same
          obtain ⟨rfl, _⟩ := List.cons.inj same
          cases digit

theorem exponentOf_cases (cs : List Char) : (exponentOf cs).1 = [] ∨ ∃ c digits, (c = 'e' ∨ c = 'E') ∧
    (exponentOf cs).1 = c :: digits ∧ signedDigitsOf digits = some (digits, []) := by
  unfold exponentOf
  split
  · exact .inl rfl
  next c rest =>
    split
    next letter =>
      split
      next digits left found => exact .inr ⟨c, digits, by simpa using letter, rfl, signedDigitsOf_alone found⟩
      next => exact .inl rfl
    next => exact .inl rfl

theorem exponentOf_alone (cs : List Char) : exponentOf (exponentOf cs).1 = ((exponentOf cs).1, []) := by
  rcases exponentOf_cases cs with none | ⟨c, digits, letter, same, alone⟩
  · rw [none]
    rfl
  · rw [same, exponentOf, if_pos (by simpa using letter), alone]

/-- An exponent starts with its letter, which is neither a digit nor a point. -/
theorem head_exponentOf (cs : List Char) : ∀ c ∈ (exponentOf cs).1.head?, c.isDigit = false ∧ c ≠ '.' := by
  rcases exponentOf_cases cs with none | ⟨first, digits, letter, same, _⟩
  · rw [none]
    nofun
  · rw [same]
    rintro c next
    obtain rfl := Option.some.inj next
    rcases letter with rfl | rfl <;> exact ⟨rfl, by decide⟩

theorem fractionOf_cases (cs : List Char) : (fractionOf cs).1 = [] ∨ ∃ digits, digits ≠ [] ∧
    (fractionOf cs).1 = '.' :: digits ∧ ∀ c ∈ digits, c.isDigit = true := by
  unfold fractionOf
  split
  next rest =>
    have inside := all_spanOf Char.isDigit rest
    split
    next => exact .inl rfl
    next digits left nonempty taken =>
      rw [taken] at inside
      exact .inr ⟨digits, nonempty, rfl, inside⟩
  next => exact .inl rfl

theorem fractionOf_alone (cs : List Char) {more : List Char} (ends : ∀ c ∈ more.head?, c.isDigit = false ∧ c ≠ '.') :
    fractionOf ((fractionOf cs).1 ++ more) = ((fractionOf cs).1, more) := by
  rcases fractionOf_cases cs with none | ⟨digits, nonempty, same, inside⟩
  · rw [none]
    cases more with
    | nil => rfl
    | cons c more => simp [fractionOf, (ends c rfl).2]
  · have again : spanOf Char.isDigit (digits ++ more) = (digits, more) := by
      rw [spanOf_before fun c next => (ends c next).1, spanOf_all inside]
      rfl
    obtain ⟨first, others, rfl⟩ := List.exists_cons_of_ne_nil nonempty
    rw [same, List.cons_append, fractionOf, again]

theorem head_fractionOf (cs : List Char) {more : List Char} (ends : ∀ c ∈ more.head?, c.isDigit = false ∧ c ≠ '.') :
    ∀ c ∈ ((fractionOf cs).1 ++ more).head?, c.isDigit = false := by
  rcases fractionOf_cases cs with none | ⟨digits, _, same, _⟩
  · rw [none]
    exact fun c next => (ends c next).1
  · rw [same]
    rintro c next
    obtain rfl := Option.some.inj next
    rfl

theorem scanNumber_cases (piece : (scanNumber cs).piece = .token token) : ∃ afterWhole afterFraction,
    token = .number (numberOf (spanOf Char.isDigit cs).1 (fractionOf afterWhole).1 (exponentOf afterFraction).1) ∧
      (scanNumber cs).taken =
        (spanOf Char.isDigit cs).1 ++ ((fractionOf afterWhole).1 ++ (exponentOf afterFraction).1) := by
  rw [scanNumber] at piece ⊢
  dsimp only at piece ⊢
  split at piece
  next => cases piece
  next ends =>
    rw [if_neg ends, List.append_assoc]
    exact ⟨_, _, (Piece.token.inj piece).symm, rfl⟩

theorem scanNumber_alone (piece : (scanNumber cs).piece = .token token) :
    scanNumber (scanNumber cs).taken = ⟨.token token, (scanNumber cs).taken, []⟩ := by
  obtain ⟨afterWhole, afterFraction, rfl, taken⟩ := scanNumber_cases piece
  have ends := head_exponentOf afterFraction
  have whole : spanOf Char.isDigit (scanNumber cs).taken =
      ((spanOf Char.isDigit cs).1, (fractionOf afterWhole).1 ++ (exponentOf afterFraction).1) := by
    rw [taken, spanOf_before (head_fractionOf afterWhole ends), spanOf_all (all_spanOf Char.isDigit cs)]
    rfl
  rw [scanNumber, whole]
  dsimp only
  rw [fractionOf_alone afterWhole ends]
  dsimp only
  rw [exponentOf_alone, List.append_assoc, ← taken]
  rfl

theorem scanMark_spelled (piece : (scanMark cs).piece = .token token) :
    ∃ mark, token = .mark mark ∧ (scanMark cs).taken = mark.spelling := by
  rw [scanMark] at piece ⊢
  split at piece
  next mark _ => exact ⟨mark, (Piece.token.inj piece).symm, rfl⟩
  next => cases piece

theorem scan_spelling {mark : Mark} {tail : List Char} (spelled : mark.spelling = c :: tail) :
    scan c tail = ⟨.token (.mark mark), c :: tail, []⟩ := by
  cases mark <;> cases spelled <;> rfl

/-- What is taken for a token starts with the first character, and is that token on its own. -/
theorem scan_alone (piece : (scan c cs).piece = .token token) :
    ∃ tail, (scan c cs).taken = c :: tail ∧ scan c tail = ⟨.token token, c :: tail, []⟩ := by
  have first : ∃ tail, (scan c cs).taken = c :: tail := by
    rcases scan_taken c cs with fault | taken
    · rw [fault] at piece
      cases piece
    · have whole := scan_append c cs
      obtain ⟨first, tail, same⟩ := List.exists_cons_of_ne_nil taken
      rw [same] at whole
      obtain ⟨rfl, _⟩ := List.cons.inj whole
      exact ⟨tail, same⟩
  obtain ⟨tail, taken⟩ := first
  have scanned := scanned_scan c cs
  generalize scan c cs = turn at piece taken scanned ⊢
  cases scanned with
  | space | line => cases piece
  | text quote =>
    subst quote
    exact scanText_alone piece
  | name quote =>
    subst quote
    exact scanName_alone piece
  | number digit =>
    refine ⟨tail, taken, ?_⟩
    rw [scan_digit digit, ← taken]
    exact scanNumber_alone piece
  | word start =>
    refine ⟨tail, taken, ?_⟩
    rw [scan_word start, ← taken]
    exact scanWord_alone piece
  | comment slash follows =>
    subst slash
    obtain ⟨inside, same, alone⟩ := scanComment_alone piece
    exact ⟨'*' :: inside, same, alone⟩
  | mark =>
    obtain ⟨mark, rfl, spelled⟩ := scanMark_spelled piece
    exact ⟨tail, taken, scan_spelling (spelled.symm.trans taken)⟩

end alone

/-! What stands between tokens. -/

/-- White space and line comments in front of some characters. A comment runs to the end of its line. -/
inductive Blank (following : List Char) : List Char → Prop
  | nil : Blank following []
  | space {c rest} (space : c ∈ [' ', '\t', '\r', '\n']) (others : Blank following rest) : Blank following (c :: rest)
  | comment {line rest} (inside : '\n' ∉ line) (ends : ∀ c ∈ (rest ++ following).head?, c = '\n')
      (others : Blank following rest) : Blank following ('/' :: '/' :: line ++ rest)

theorem Blank.append {first second following : List Char} (blank : Blank (second ++ following) first)
    (others : Blank following second) : Blank following (first ++ second) := by
  induction blank with
  | nil => exact others
  | space space _ ih => exact .space space ih
  | comment inside ends _ ih =>
    rw [List.append_assoc]
    exact .comment inside (by rwa [List.append_assoc]) ih

theorem blank_spaces (following : List Char) : ∀ {spaces : List Char}, (∀ c ∈ spaces, isSpace c = true) →
    Blank following spaces
  | [], _ => .nil
  | c :: spaces, all => by
    obtain ⟨first, others⟩ := List.forall_mem_cons.mp all
    exact .space (by simpa [isSpace, or_assoc] using first) (blank_spaces following others)

theorem head_spanOf (p : Char → Bool) (cs : List Char) : ∀ c ∈ (spanOf p cs).2.head?, p c = false := by
  intro c next
  have stops := List.head?_dropWhile_not p cs
  have same : (spanOf p cs).2 = cs.dropWhile p := rfl
  rw [← same, Option.mem_def.mp next] at stops
  simpa using stops

section solid

variable (cs : List Char)

theorem scanText_solid (opening : Char) : (scanText opening cs).piece ≠ .blank := by
  rw [scanText]
  split <;> rintro ⟨⟩

theorem scanName_solid (opening : Char) : (scanName opening cs).piece ≠ .blank := by
  rw [scanName]
  dsimp only
  split <;> rintro ⟨⟩

theorem scanNumber_solid : (scanNumber cs).piece ≠ .blank := by
  rw [scanNumber]
  dsimp only
  split <;> rintro ⟨⟩

theorem scanComment_solid : (scanComment cs).piece ≠ .blank := by
  rw [scanComment]
  split <;> rintro ⟨⟩

theorem scanMark_solid : (scanMark cs).piece ≠ .blank := by
  rw [scanMark]
  split <;> rintro ⟨⟩

end solid

/-- What the lexer passes over is blank. -/
theorem blank_scan {c : Char} {cs : List Char} (piece : (scan c cs).piece = .blank) :
    Blank (scan c cs).rest (scan c cs).taken := by
  have scanned := scanned_scan c cs
  generalize scan c cs = turn at piece scanned ⊢
  cases scanned with
  | space space => exact blank_spaces _ (List.forall_mem_cons.mpr ⟨space, all_spanOf isSpace cs⟩)
  | @line tail =>
    have inside := all_spanOf (· != '\n') tail
    have ends := head_spanOf (· != '\n') tail
    have comment : Blank (spanOf (· != '\n') tail).2 ('/' :: '/' :: (spanOf (· != '\n') tail).1 ++ []) :=
      .comment (fun line => by simpa using inside _ line) (by simpa using ends) .nil
    rwa [List.append_nil] at comment
  | text => exact absurd piece (scanText_solid cs c)
  | name => exact absurd piece (scanName_solid cs c)
  | number => exact absurd piece (scanNumber_solid (c :: cs))
  | word => cases piece
  | comment => exact absurd piece (scanComment_solid _)
  | mark => exact absurd piece (scanMark_solid (c :: cs))

/-- From a byte position on, only blanks stand in front of the tokens, between them and behind them. -/
def Separated (source : String) (position : Nat) : List (Spanned Token) → Prop
  | [] => Blank [] ((Span.between position source.utf8ByteSize).text source).toList
  | token :: rest =>
    Blank ((Span.between token.span.start source.utf8ByteSize).text source).toList
        ((Span.between position token.span.start).text source).toList ∧
      Separated source token.span.stop rest

/-- Behind a blank the tokens of the rest of the text stand apart. -/
theorem separated_pieces {source : String} : ∀ {cs before gap : List Char},
    source.toList = before ++ gap ++ cs → Blank cs gap →
      (pieces (byteLength before + byteLength gap) cs).filterMap diagnosticOf? = [] →
        Separated source (byteLength before)
          ((pieces (byteLength before + byteLength gap) cs).filterMap tokenOf?)
  | [], before, gap, split, blank, _ => by
    have size : source.utf8ByteSize = byteLength before + byteLength gap := by
      rw [← byteLength_append]
      simpa [byteLength] using byteLength_of_split split
    rw [pieces, List.filterMap_nil, Separated, size, Span.text_of_split split, String.toList_ofList]
    exact blank
  | c :: cs, before, gap, split, blank, clean => by
    obtain ⟨sound, later⟩ := pieces_solid clean
    have shorter : (scan c cs).rest.length < (c :: cs).length := (remaining_clean sound).2 ▸ length_remaining_lt c cs
    have whole := scan_append c cs
    rw [pieces_clean _ sound]
    cases piece : (scan c cs).piece with
    | fault fault => exact absurd piece (sound fault)
    | blank =>
      have further : byteLength before + byteLength gap + byteLength (scan c cs).taken =
          byteLength before + byteLength (gap ++ (scan c cs).taken) := by
        rw [byteLength_append, Nat.add_assoc]
      rw [further] at later ⊢
      refine separated_pieces ?_ (Blank.append (whole.symm ▸ blank) (blank_scan piece)) later
      rw [split, ← whole]
      simp only [List.append_assoc]
    | token token =>
      have start : byteLength before + byteLength gap = byteLength (before ++ gap) := (byteLength_append ..).symm
      constructor
      · have follows : source.toList = before ++ gap ++ (c :: cs) ++ [] := by rw [List.append_nil, split]
        have size : source.utf8ByteSize = byteLength (before ++ gap) + byteLength (c :: cs) := byteLength_of_split split
        change Blank ((Span.between (byteLength before + byteLength gap) source.utf8ByteSize).text source).toList
          ((Span.between (byteLength before) (byteLength before + byteLength gap)).text source).toList
        rw [Span.text_of_split split, size, start, Span.text_of_split follows, String.toList_ofList, String.toList_ofList]
        exact blank
      · have further : source.toList = before ++ gap ++ (scan c cs).taken ++ [] ++ (scan c cs).rest := by
          rw [split, ← whole]
          simp only [List.append_assoc, List.nil_append]
        have stop := Span.stop_between_add (byteLength before + byteLength gap) (byteLength (scan c cs).taken)
        rw [start, ← byteLength_append] at later stop ⊢
        dsimp only
        rw [stop]
        exact separated_pieces further .nil later
termination_by cs => cs.length
decreasing_by all_goals exact shorter

section tokens

variable {source : String} {found : List (Spanned Token)} {token : Spanned Token}

/-- Every token is read somewhere in the text, and stands for what is taken there. -/
theorem exists_of_mem_tokens (lexed : tokens source = .ok found) (member : token ∈ found) : ∃ before c rest,
    source.toList = before ++ (scan c rest).taken ++ (scan c rest).rest ∧
      (scan c rest).piece = .token token.value ∧
        token.span = .between (byteLength before) (byteLength before + byteLength (scan c rest).taken) := by
  obtain ⟨_, rfl⟩ := tokens_eq_ok.mp lexed
  obtain ⟨piece, among, shown⟩ := List.mem_filterMap.mp member
  obtain ⟨before, c, rest, _, split, rfl⟩ := split_of_mem_pieces among
  obtain ⟨value, span⟩ := tokenOf?_eq_some.mp shown
  exact ⟨before, c, rest, split, value, span.symm⟩

/-- The tokens of a text leave nothing of it but blanks. -/
structure Covers (source : String) (found : List (Spanned Token)) : Prop where
  nonempty : ∀ token ∈ found, token.span.start < token.span.stop
  ordered : found.Pairwise fun first second =>
    first.span.start < second.span.start ∧ first.span.stop ≤ second.span.start
  within : ∀ token ∈ found, token.span.Within source ∧ token.span.stop ≤ source.utf8ByteSize
  separated : Separated source 0 found
  alone : ∀ token ∈ found, tokens (token.span.text source) =
    .ok [⟨token.value, .between 0 token.span.length⟩]

/-- Nothing of a text is lost: what is under a token is that token, and blank what is not under one. -/
theorem tokens_cover (lexed : tokens source = .ok found) : Covers source found where
  nonempty := by
    intro token member
    obtain ⟨before, c, rest, _, piece, span⟩ := exists_of_mem_tokens lexed member
    obtain ⟨tail, taken, _⟩ := scan_alone piece
    have positive := byteLength_pos (List.cons_ne_nil c tail)
    rw [span, Span.stop_between_add, taken]
    exact Nat.lt_add_of_pos_right positive
  ordered := by
    obtain ⟨_, rfl⟩ := tokens_eq_ok.mp lexed
    rw [List.pairwise_filterMap]
    refine (pieces_ordered 0 source.toList).imp fun ordered first here second there => ?_
    rw [← (tokenOf?_eq_some.mp here).2, ← (tokenOf?_eq_some.mp there).2]
    exact ordered
  within := by
    intro token member
    obtain ⟨before, c, rest, split, _, span⟩ := exists_of_mem_tokens lexed member
    have within := Span.within_of_split split
    rw [← span] at within
    exact ⟨within, within.stop_le⟩
  separated := by
    obtain ⟨clean, rfl⟩ := tokens_eq_ok.mp lexed
    exact separated_pieces (by rfl : source.toList = [] ++ [] ++ source.toList) .nil clean
  alone := by
    intro token member
    obtain ⟨before, c, rest, split, piece, span⟩ := exists_of_mem_tokens lexed member
    obtain ⟨tail, taken, alone⟩ := scan_alone piece
    have length : token.span.length = byteLength (c :: tail) := by
      rw [Span.length, span, Span.stop_between_add, taken]
      exact Nat.add_sub_cancel_left ..
    rw [length, span, Span.text_of_split split, taken]
    exact tokens_alone alone

/-- Marks, words, a text and a comment next to each other, with characters of several bytes. -/
theorem tokens_cover_neighbours : ∃ found, tokens "'é':>>x.y//ü\r\n/* ñ */\"\\\"ö\"" = .ok found ∧
    found.map (fun token => (token.span.start, token.span.stop)) =
      [(0, 4), (4, 7), (7, 8), (8, 9), (9, 10), (16, 24), (24, 30)] ∧
    Covers "'é':>>x.y//ü\r\n/* ñ */\"\\\"ö\"" found := by
  have spans : (tokens "'é':>>x.y//ü\r\n/* ñ */\"\\\"ö\"").map
      (List.map fun token => (token.span.start, token.span.stop)) =
        .ok [(0, 4), (4, 7), (7, 8), (8, 9), (9, 10), (16, 24), (24, 30)] := by cbv
  cases lexed : tokens "'é':>>x.y//ü\r\n/* ñ */\"\\\"ö\"" with
  | error diagnostics =>
    rw [lexed] at spans
    cases spans
  | ok found =>
    rw [lexed] at spans
    exact ⟨found, rfl, Except.ok.inj spans, tokens_cover lexed⟩

end tokens

end Lexer
end StructuralModel
