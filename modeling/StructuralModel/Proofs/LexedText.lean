import StructuralModel.Proofs.Lexemes
import StructuralModel.Proofs.FloatModel

/-! What is known of the tokens that a text is cut into: marks are spelled in it, and numbers have no sign. -/

namespace StructuralModel
namespace Lexer

/-- A text without faults and its tokens, piece by piece. -/
inductive Lexed : List Char → List Token → Prop
  | nil : Lexed [] []
  | blank {c cs found} (piece : (scan c cs).piece = .blank) (rest : Lexed (scan c cs).rest found) : Lexed (c :: cs) found
  | token {c cs token found} (piece : (scan c cs).piece = .token token) (rest : Lexed (scan c cs).rest found) :
      Lexed (c :: cs) (token :: found)

theorem Lexed.values? {text : List Char} {found : List Token} (lexed : Lexed text found) : values? text = some found := by
  induction lexed with
  | nil => exact values?_nil
  | blank piece _ ih => rw [values?_cons, piece, ih]
  | token piece _ ih =>
    rw [values?_cons, piece, ih]
    rfl

theorem lexed_of_values? : ∀ {text : List Char} {found : List Token}, values? text = some found → Lexed text found
  | [], found, cut => by
    rw [values?_nil] at cut
    exact Option.some.inj cut ▸ .nil
  | c :: cs, found, cut => by
    have shorter : (∀ fault, (scan c cs).piece ≠ .fault fault) → (scan c cs).rest.length < cs.length + 1 :=
      fun clean => (remaining_clean clean).2 ▸ length_remaining_lt c cs
    rw [values?_cons] at cut
    split at cut
    next piece =>
      have lower := shorter (by simp [piece])
      exact .blank piece (lexed_of_values? cut)
    next token piece =>
      have lower := shorter (by simp [piece])
      obtain ⟨more, later, rfl⟩ := Option.map_eq_some_iff.mp cut
      exact .token piece (lexed_of_values? later)
    next => cases cut
termination_by text => text.length
decreasing_by all_goals exact lower

/-- What the taken text has to do with a token: it is the spelling of a mark, and the digits of a number. -/
def Shows (taken : List Char) : Token → Prop
  | .mark mark => taken = mark.spelling
  | .number value => ∃ whole fraction exponent, value = numberOf whole fraction exponent
  | _ => True

section Shows

variable {c : Char} {cs : List Char} {token : Token}

theorem shows_scanText (piece : (scanText c cs).piece = .token token) : Shows (scanText c cs).taken token := by
  rw [scanText] at piece
  split at piece <;> cases piece
  trivial

theorem shows_scanName (piece : (scanName c cs).piece = .token token) : Shows (scanName c cs).taken token := by
  rw [scanName] at piece
  dsimp only at piece
  split at piece <;> cases piece
  trivial

theorem shows_scanNumber (piece : (scanNumber cs).piece = .token token) : Shows (scanNumber cs).taken token := by
  rw [scanNumber] at piece
  dsimp only at piece
  split at piece <;> cases piece
  exact ⟨_, _, _, rfl⟩

theorem shows_scanWord (piece : (scanWord cs).piece = .token token) : Shows (scanWord cs).taken token := by
  rw [scanWord] at piece
  dsimp only at piece
  split at piece <;> cases piece <;> trivial

theorem shows_scanComment (piece : (scanComment cs).piece = .token token) : Shows (scanComment cs).taken token := by
  rw [scanComment] at piece
  split at piece <;> cases piece
  trivial

theorem shows_scanMark (piece : (scanMark cs).piece = .token token) : Shows (scanMark cs).taken token := by
  rw [scanMark] at piece ⊢
  split at piece <;> cases piece
  rfl

theorem shows_scan (piece : (scan c cs).piece = .token token) : Shows (scan c cs).taken token := by
  have scanned := scanned_scan c cs
  generalize scan c cs = turn at piece scanned ⊢
  cases scanned with
  | space | line => cases piece
  | text => exact shows_scanText piece
  | name => exact shows_scanName piece
  | number => exact shows_scanNumber piece
  | word => exact shows_scanWord piece
  | comment => exact shows_scanComment piece
  | mark => exact shows_scanMark piece

end Shows

/-- A mark among the tokens of a text is spelled in it. -/
theorem Lexed.spelled {text : List Char} {found : List Token} (lexed : Lexed text found) {mark : Mark}
    (member : .mark mark ∈ found) : mark.spelling ⊆ text := by
  induction lexed with
  | nil => cases member
  | @blank c cs found piece rest ih =>
    rw [← scan_append c cs]
    exact List.subset_append_of_subset_right _ (ih member)
  | @token c cs token found piece rest ih =>
    rw [← scan_append c cs]
    rcases List.mem_cons.mp member with rfl | later
    · have same : (scan c cs).taken = mark.spelling := shows_scan piece
      rw [← same]
      exact List.subset_append_left ..
    · exact List.subset_append_of_subset_right _ (ih later)

/-- A sign in front of a number is a token of its own. -/
theorem Lexed.unsigned {text : List Char} {found : List Token} (lexed : Lexed text found) {value : Float}
    (member : .number value ∈ found) : isNegative value = false := by
  induction lexed with
  | nil => cases member
  | blank _ _ ih => exact ih member
  | token piece _ ih =>
    rcases List.mem_cons.mp member with rfl | later
    · obtain ⟨whole, fraction, exponent, rfl⟩ := shows_scan piece
      exact Decimal.isNegative_ofScientific _ _
    · exact ih later

end Lexer
end StructuralModel
