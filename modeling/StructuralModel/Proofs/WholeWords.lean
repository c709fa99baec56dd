import StructuralModel.Proofs.TokenTexts

/-! Words as a whole. A word is a keyword if it is spelled like one up to its end, and a name otherwise. Trying the keywords
one after the other comes to the same, because none of them begins another. -/

namespace StructuralModel

namespace Keyword

theorem mem_all (keyword : Keyword) : keyword ∈ all := by
  cases keyword <;> decide

theorem eq_of_begins {first second : Keyword} (begins : first.spelling.toList <+: second.spelling.toList) :
    first = second := by
  have apart : ∀ first ∈ all, ∀ second ∈ all, first.spelling.toList.isPrefixOf second.spelling.toList = true →
      first = second := by decide
  exact apart first (mem_all first) second (mem_all second) (List.isPrefixOf_iff_prefix.mpr begins)

theorem spelling_of_ofSpelling? {word : String} {keyword : Keyword} (found : ofSpelling? word = some keyword) :
    keyword.spelling = word := by
  unfold ofSpelling? at found
  have same := List.find?_some found
  exact beq_iff_eq.mp same

/-- A spelling that is looked up is found. -/
theorem ofSpelling?_ne_none (keyword : Keyword) : ofSpelling? keyword.spelling ≠ none := by
  intro missing
  have unmatched := List.find?_eq_none.mp missing keyword (mem_all keyword)
  exact unmatched (beq_self_eq_true _)

/-- The first keyword, in the order in which they are tried, that a text begins with. -/
def ofStart? (text : List Char) : Option Keyword :=
  all.find? fun keyword => keyword.spelling.toList.isPrefixOf text

theorem prefix_of_ofStart? {text : List Char} {keyword : Keyword} (found : ofStart? text = some keyword) :
    keyword.spelling.toList <+: text := by
  unfold ofStart? at found
  have begins := List.find?_some found
  exact List.isPrefixOf_iff_prefix.mp begins

theorem ofStart?_spelling (keyword : Keyword) : ofStart? keyword.spelling.toList = some keyword := by
  cases found : ofStart? keyword.spelling.toList with
  | none =>
    have unmatched := List.find?_eq_none.mp found keyword (mem_all keyword)
    exact absurd (List.isPrefixOf_iff_prefix.mpr (List.prefix_refl _)) unmatched
  | some first => rw [eq_of_begins (prefix_of_ofStart? found)]

end Keyword

namespace Lexer
open Text (spanOf spanOf_append)

/-- A character that words are made of. -/
def InWord (c : Char) : Prop :=
  c.isAlphanum = true ∨ c = '_'

/-- Letters, digits and underscores of ASCII, the first of which is no digit. -/
structure PlainWord (word : List Char) : Prop where
  nonempty : word ≠ []
  inside : ∀ c ∈ word, InWord c
  start : ∀ c ∈ word.head?, c.isDigit = false

/-- What a word is: the keyword that is spelled so, or a name. -/
inductive TokenOf (word : List Char) : Token → Prop
  | keyword (keyword : Keyword) (spelled : keyword.spelling.toList = word) : TokenOf word (.keyword keyword)
  | name (other : ∀ keyword : Keyword, keyword.spelling.toList ≠ word) : TokenOf word (.identifier (String.ofList word))

theorem isWordChar_iff {c : Char} : isWordChar c = true ↔ InWord c := by
  simp only [isWordChar, isWordStart, InWord, Char.isAlphanum, Bool.or_eq_true, decide_eq_true_eq]
  tauto

theorem utf8Size_of_inWord {c : Char} (inside : InWord c) : c.utf8Size = 1 := by
  rw [Char.utf8Size_eq_one_iff, UInt32.le_iff_toNat_le]
  change c.toNat ≤ 127
  rcases inside with letter | rfl
  · rw [Char.isAlphanum, Bool.or_eq_true, Text.isAlpha_iff, Text.isDigit_iff] at letter
    omega
  · decide

/-- A word has as many bytes as characters. -/
theorem byteLength_word {word : List Char} (inside : ∀ c ∈ word, InWord c) : byteLength word = word.length := by
  induction word with
  | nil => rfl
  | cons c word ih =>
    obtain ⟨first, others⟩ := List.forall_mem_cons.mp inside
    rw [byteLength, utf8Size_of_inWord first, ih others, List.length_cons, Nat.add_comm]

/-- A name without quotes. -/
def scanIdentifier (cs : List Char) : Scan :=
  let (word, rest) := spanOf isWordChar cs
  ⟨.token (.identifier (String.ofList word)), word, rest⟩

/-- A word read by trying the keywords: the first that the text begins with decides, and the word is a name if it goes on
behind this keyword. -/
def scanTrying (cs : List Char) : Scan :=
  match Keyword.ofStart? cs with
  | none => scanIdentifier cs
  | some keyword =>
    let rest := cs.drop keyword.spelling.length
    if rest.head?.any isWordChar then scanIdentifier cs
    else ⟨.token (.keyword keyword), keyword.spelling.toList, rest⟩

section word

variable {word rest : List Char} {token : Token} (ends : ∀ c ∈ rest.head?, isWordChar c = false)

theorem tokenOf_word (word : List Char) : TokenOf word
    (match Keyword.ofSpelling? (String.ofList word) with
      | some keyword => .keyword keyword
      | none => .identifier (String.ofList word)) := by
  split
  next keyword found => exact .keyword keyword (by rw [Keyword.spelling_of_ofSpelling? found, String.toList_ofList])
  next missing =>
    refine .name fun keyword spelled => Keyword.ofSpelling?_ne_none keyword ?_
    rw [← missing, ← spelled, String.ofList_toList]

include ends

/-- Keywords have nothing but word characters, so only the word itself can begin with one. -/
theorem ofStart?_before (word : List Char) : Keyword.ofStart? (word ++ rest) = Keyword.ofStart? word := by
  refine congrArg (List.find? · Keyword.all) (funext fun keyword => ?_)
  have spelled : keyword.spelling.toList.all isWordChar = true := by
    cases keyword <;> rfl
  rw [Bool.eq_iff_iff, List.isPrefixOf_iff_prefix, List.isPrefixOf_iff_prefix]
  exact prefix_before (fun c next => by simp [ends c next]) (List.all_eq_true.mp spelled) word

/-- A keyword that is tried is the whole word, or the word goes on behind it. -/
theorem scanTrying_word (inside : ∀ c ∈ word, isWordChar c = true) (said : TokenOf word token) :
    scanTrying (word ++ rest) = ⟨.token token, word, rest⟩ := by
  have name : scanIdentifier (word ++ rest) = ⟨.token (.identifier (String.ofList word)), word, rest⟩ := by
    rw [scanIdentifier, spanOf_before ends, spanOf_all inside]
    rfl
  rw [scanTrying, ofStart?_before ends]
  cases said with
  | keyword keyword spelled =>
    subst spelled
    have left : (keyword.spelling.toList ++ rest).drop keyword.spelling.length = rest :=
      List.drop_left' String.length_toList
    have stops : rest.head?.any isWordChar = false := by
      cases next : rest.head? with
      | none => rfl
      | some c => exact ends c next
    simp only [Keyword.ofStart?_spelling, left, stops, Bool.false_eq_true, if_false]
  | name other =>
    cases found : Keyword.ofStart? word with
    | none => exact name
    | some keyword =>
      obtain ⟨more, split⟩ := Keyword.prefix_of_ofStart? found
      cases more with
      | nil => exact absurd (by rw [← split, List.append_nil]) (other keyword)
      | cons c more =>
        have goesOn : isWordChar c = true := inside c (by simp [← split])
        have left : (word ++ rest).drop keyword.spelling.length = c :: more ++ rest := by
          rw [← split, List.append_assoc]
          exact List.drop_left' String.length_toList
        simp only [left, List.cons_append, List.head?_cons, Option.any_some, goesOn, if_true]
        exact name

end word

/-- The longest word in front of a text is what trying the keywords finds there. -/
theorem scanWord_eq_scanTrying (cs : List Char) : scanWord cs = scanTrying cs := by
  have tried := scanTrying_word (head_spanOf isWordChar cs) (all_spanOf isWordChar cs) (tokenOf_word _)
  rw [spanOf_append] at tried
  exact tried.symm

/-- A word that the text does not go on with is cut off as one token: the keyword that is spelled so, a name otherwise. A
keyword that only begins the word plays no part. -/
theorem pieces_word {word rest : List Char} (whole : PlainWord word) (ends : ∀ c ∈ rest.head?, ¬ InWord c) (position : Nat) :
    (∃ token, TokenOf word token) ∧ ∀ token, TokenOf word token →
      pieces position (word ++ rest) =
        ⟨.token token, .between position (position + word.length)⟩ :: pieces (position + word.length) rest := by
  refine ⟨⟨_, tokenOf_word word⟩, fun token said => ?_⟩
  have stops : ∀ c ∈ rest.head?, isWordChar c = false := fun c next =>
    Bool.eq_false_iff.mpr fun inside => ends c next (isWordChar_iff.mp inside)
  have tried := scanTrying_word stops (fun c member => isWordChar_iff.mpr (whole.inside c member)) said
  obtain ⟨c, cs, rfl⟩ := List.exists_cons_of_ne_nil whole.nonempty
  have start : isWordStart c = true := by
    have inside := isWordChar_iff.mpr (whole.inside c List.mem_cons_self)
    rwa [isWordChar, whole.start c rfl, Bool.or_false] at inside
  have run : scan c (cs ++ rest) = ⟨.token token, c :: cs, rest⟩ := by
    rw [scan_word start, scanWord_eq_scanTrying, ← tried]
    rfl
  rw [List.cons_append, pieces_clean position (by simp [run]), run, byteLength_word whole.inside]

/-- A name that begins with a keyword, in front of a letter that no word has. -/
theorem pieces_documentation : PlainWord "documentation".toList ∧ (∀ c ∈ ['é'].head?, ¬ InWord c) ∧
    Keyword.ofStart? "documentation".toList = some .documentation ∧ pieces 0 "documentationé".toList =
      ⟨.token (.identifier "documentation"), .between 0 13⟩ :: pieces 13 ['é'] := by
  have whole : PlainWord "documentation".toList := ⟨by decide, by simp [InWord], by simp⟩
  have ends : ∀ c ∈ ['é'].head?, ¬ InWord c := by simp [InWord]
  have name : TokenOf "documentation".toList (.identifier "documentation") := .name fun keyword => by
    cases keyword <;> decide
  exact ⟨whole, ends, by decide, (pieces_word whole ends 0).2 _ name⟩

end Lexer
end StructuralModel
