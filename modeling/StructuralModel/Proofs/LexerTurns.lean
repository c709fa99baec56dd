import Mathlib.Logic.Function.Iterate
import StructuralModel.Proofs.TextPlaces

/-! The lexer as a loop. Each turn takes characters from what is left of the text, whatever stands there, and what is
reported in a turn is marked where that turn started. -/

namespace StructuralModel
namespace Lexer

/-- What is left of a text and where that starts, with all that was found in front of it. -/
structure Progress where
  position : Nat
  left : List Char
  tokens : List (Spanned Token)
  diagnostics : List Diagnostic

namespace Progress

def start (source : String) : Progress :=
  ⟨0, source.toList, [], []⟩

/-- One turn of the loop passes over white space or a comment, finds a token, or reports a fault and skips a character. -/
def turn (progress : Progress) : Progress :=
  match progress.left with
  | [] => progress
  | c :: cs =>
    let s := scan c cs
    let stop := progress.position + byteLength s.taken
    let piece := ⟨s.piece, .between progress.position stop⟩
    { position := stop + byteLength s.skipped
      left := s.remaining
      tokens := progress.tokens ++ (tokenOf? piece).toList
      diagnostics := progress.diagnostics ++ (diagnosticOf? piece).toList }

/-- What will have been found when nothing is left. -/
def outcome (progress : Progress) : List (Spanned Token) × List Diagnostic :=
  let found := pieces progress.position progress.left
  (progress.tokens ++ found.filterMap tokenOf?, progress.diagnostics ++ found.filterMap diagnosticOf?)

end Progress

end Lexer
end StructuralModel
