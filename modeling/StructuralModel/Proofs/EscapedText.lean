import StructuralModel.Proofs.JoinedText

/-! Texts as literals. What would end a literal or has no place in it is written as an escape, so every text can be
written, and the lexer undoes the escapes one by one. -/

namespace StructuralModel
namespace Lexer

/-- What is written for a character inside a literal. -/
def escape : Char → List Char
  | '\\' => ['\\', '\\']
  | '"' => ['\\', '"']
  | '\n' => ['\\', 'n']
  | '\t' => ['\\', 't']
  | c => [c]

def literal (value : String) : String :=
  String.ofList ('"' :: value.toList.flatMap escape ++ ['"'])

/-- An escape stands for one character, and what is not escaped stands for itself. -/
theorem escape_cases (c : Char) : (∃ mark, escape c = ['\\', mark] ∧ unescape? mark = some c) ∨
    escape c = [c] ∧ c ≠ '\\' ∧ c ≠ '"' ∧ c ≠ '\n' := by
  unfold escape
  split
  · exact .inl ⟨'\\', rfl, rfl⟩
  · exact .inl ⟨'"', rfl, rfl⟩
  · exact .inl ⟨'n', rfl, rfl⟩
  · exact .inl ⟨'t', rfl, rfl⟩
  next slash quote line _ => exact .inr ⟨rfl, slash, quote, line⟩

/-- A written character is read as one, whatever stands behind it. -/
theorem textBody_escape (c : Char) (rest : List Char) :
    textBody (escape c ++ rest) = (textBody rest).cons c (escape c) := by
  rcases escape_cases c with ⟨mark, written, known⟩ | ⟨written, slash, ends⟩
  · rw [written]
    simp only [List.cons_append, List.nil_append, textBody, known]
  · rw [written, List.singleton_append, textBody_plain slash ends]

theorem textBody_literal (value rest : List Char) :
    textBody (value.flatMap escape ++ '"' :: rest) = ⟨value, value.flatMap escape, '"' :: rest⟩ := by
  induction value with
  | nil => simp [textBody]
  | cons c value ih =>
    rw [List.flatMap_cons, List.append_assoc, textBody_escape, ih]
    rfl

/-- The quote that ends a literal is the first that is not escaped; nothing behind it is looked at. -/
theorem scan_literal (value : String) (rest : List Char) :
    scan '"' (value.toList.flatMap escape ++ '"' :: rest) = ⟨.token (.text value), (literal value).toList, rest⟩ := by
  simp [scan, isSpace, scanText, textBody_literal, literal]

/-- A literal is a single token, which has the text that was written and covers all of it. -/
theorem tokens_literal (value : String) :
    tokens (literal value) = .ok [⟨.text value, .between 0 (literal value).utf8ByteSize⟩] := by
  have alone := scan_literal value []
  rw [literal, String.toList_ofList] at alone
  rw [← byteLength_toList, literal, String.toList_ofList]
  exact tokens_alone alone

example : literal "a\t\"\\n\"\n" = "\"a\\t\\\"\\\\n\\\"\\n\"" := by decide

end Lexer
end StructuralModel
