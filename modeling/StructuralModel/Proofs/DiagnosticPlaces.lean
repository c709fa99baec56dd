import StructuralModel.Proofs.PlacedDeclarations

/-! Where a text is said to be wrong. All that loading tells is marked in the text, from a character on and up to the end
of one; only an unexpected character is marked by its first byte, even if it has more. -/

namespace StructuralModel

variable {source : String}

namespace Diagnostic

/-- An unexpected character of several bytes, of which the first is marked. -/
structure CutsCharacter (diagnostic : Diagnostic) (label : Label) (source : String) : Prop where
  code : diagnostic.code? = some .unexpectedCharacter
  stop : label.span.stop = label.span.start + 1
  character : ∃ before c after, source.toList = before ++ c :: after ∧
    Lexer.byteLength before = label.span.start ∧ 1 < c.utf8Size

/-- What is marked starts at a character of the text, and ends with one unless it cuts one. -/
structure Marks (diagnostic : Diagnostic) (label : Label) (source : String) : Prop where
  start_le_stop : label.span.start ≤ label.span.stop
  stop_le : label.span.stop ≤ source.utf8ByteSize
  start : String.Pos.Raw.IsValid source ⟨label.span.start⟩
  stop : String.Pos.Raw.IsValid source ⟨label.span.stop⟩ ↔ ¬ diagnostic.CutsCharacter label source

variable {diagnostic : Diagnostic} {label : Label}

theorem CutsCharacter.not_isValid (cuts : diagnostic.CutsCharacter label source) :
    ¬ String.Pos.Raw.IsValid source ⟨label.span.stop⟩ := by
  obtain ⟨before, c, after, split, start, several⟩ := cuts.character
  rw [cuts.stop, ← start]
  exact Lexer.not_isValid_inside split Nat.one_pos several

/-- The first byte of a character is marked. -/
theorem marks_first {before after : List Char} {c : Char} (split : source.toList = before ++ c :: after)
    (code : diagnostic.code? = some .unexpectedCharacter) (start : label.span.start = Lexer.byteLength before)
    (stop : label.span.stop = label.span.start + 1) : diagnostic.Marks label source where
  start_le_stop := label.span.start_le_stop
  stop_le := by
    have size := Lexer.byteLength_of_split split
    have first := c.utf8Size_pos
    rw [Lexer.byteLength] at size
    omega
  start := start ▸ Lexer.isValid_of_split split
  stop := by
    refine ⟨fun valid cuts => cuts.not_isValid valid, fun whole => ?_⟩
    have single : c.utf8Size = 1 := by
      by_contra several
      have first := c.utf8Size_pos
      exact whole ⟨code, stop, before, c, after, split, start.symm, by omega⟩
    have behind : source.toList = before ++ [c] ++ after := by rw [split, List.append_assoc, List.singleton_append]
    have valid := Lexer.isValid_of_split behind
    rwa [Lexer.byteLength_append, Lexer.byteLength, Lexer.byteLength, single, ← start, ← stop] at valid

theorem marks_of_within (within : label.span.Within source) (other : diagnostic.code? ≠ some .unexpectedCharacter) :
    diagnostic.Marks label source where
  start_le_stop := label.span.start_le_stop
  stop_le := within.stop_le
  start := within.start
  stop := iff_of_true within.stop fun cuts => other cuts.code

end Diagnostic

namespace Lexer

theorem marks_of_diagnosticOf? {piece : Spanned Piece} {diagnostic : Diagnostic}
    (member : piece ∈ pieces 0 source.toList) (shown : diagnosticOf? piece = some diagnostic) :
    ∀ label ∈ diagnostic.labels, diagnostic.Marks label source := by
  obtain ⟨before, c, rest, split, _, rfl⟩ := split_of_mem_pieces member
  have within := within_of_mem_pieces member
  obtain ⟨fault, _, rfl⟩ := diagnosticOf?_eq_some.mp shown
  refine List.forall_mem_singleton.mpr ?_
  cases fault with
  | unexpectedCharacter => exact Diagnostic.marks_first split rfl rfl (Span.stop_between_add _ 1)
  | _ => exact Diagnostic.marks_of_within within nofun

theorem tokens_eq_error {faults : List Diagnostic} (failed : tokens source = .error faults) :
    faults = (pieces 0 source.toList).filterMap diagnosticOf? := by
  rw [tokens] at failed
  split at failed
  · cases failed
  · exact (Except.error.inj failed).symm

end Lexer

namespace LoadedModel

/-- All that is told of a text, whether it loads or not. -/
def told : Except (List Diagnostic) LoadedModel → List Diagnostic
  | .ok loaded => loaded.warnings
  | .error diagnostics => diagnostics

theorem told_ofDeclarations (declarations : List Declaration) : told (ofDeclarations declarations) =
    ((Draft.ofDeclarations declarations).problems ++ (Draft.ofDeclarations declarations).linked.2 ++
      (Draft.ofDeclarations declarations).edgeProblems (Draft.ofDeclarations declarations).linked.1).map
        (·.diagnostic) := by
  simp only [ofDeclarations]
  split <;> rfl

theorem marks_ofDeclarations {declarations : List Declaration}
    (placed : ∀ declaration ∈ declarations, declaration.Within source) :
    ∀ diagnostic ∈ told (ofDeclarations declarations), ∀ label ∈ diagnostic.labels, diagnostic.Marks label source := by
  have draft := Draft.Within.ofDeclarations placed
  rw [told_ofDeclarations, List.forall_mem_map]
  intro problem member label marked
  have within : problem.Within source := by
    simp only [List.mem_append] at member
    rcases member with (declared | linked) | edge
    · exact draft.problems problem declared
    · exact Draft.within_linked draft problem linked
    · exact Draft.within_edgeProblems draft _ problem edge
  have other : problem.diagnostic.code? ≠ some .unexpectedCharacter := by
    cases problem <;> simp [DeclarationProblem.diagnostic, DeclarationProblem.code]
  exact Diagnostic.marks_of_within (within label marked) other

/-- Every label is in the text and starts at a character. It ends with one too, except that an unexpected character of
several bytes is marked by the first of them. -/
theorem labels_in_text (source : String) : ∀ diagnostic ∈ told (ofSource source), ∀ label ∈ diagnostic.labels,
    diagnostic.Marks label source := by
  rw [ofSource, Declaration.ofSource]
  cases lexed : Lexer.tokens source with
  | error faults =>
    intro diagnostic member
    have reported : diagnostic ∈ (Lexer.pieces 0 source.toList).filterMap Lexer.diagnosticOf? :=
      Lexer.tokens_eq_error lexed ▸ member
    obtain ⟨piece, among, shown⟩ := List.mem_filterMap.mp reported
    exact Lexer.marks_of_diagnosticOf? among shown
  | ok tokens =>
    have placed : ∀ token ∈ tokens, token.span.Within source := by
      obtain ⟨_, rfl⟩ := Lexer.tokens_eq_ok.mp lexed
      intro token member
      obtain ⟨piece, among, shown⟩ := List.mem_filterMap.mp member
      exact (Lexer.tokenOf?_eq_some.mp shown).2 ▸ Lexer.within_of_mem_pieces among
    obtain ⟨declared, failed⟩ := Declaration.within_ofTokens placed
    change ∀ diagnostic ∈ told ((Declaration.ofTokens tokens).mapError ([·]) >>= ofDeclarations), _
    cases read : Declaration.ofTokens tokens with
    | error diagnostic =>
      obtain ⟨code, labels⟩ := failed diagnostic read
      refine List.forall_mem_singleton.mpr fun label marked => ?_
      exact Diagnostic.marks_of_within (labels label marked) (by simp [code])
    | ok declarations => exact marks_ofDeclarations (declared declarations read)

/-- The type is missing in front of the semicolon, behind a name with a character of two bytes. -/
theorem labels_in_text_missing : ∃ diagnostic ∈ told (ofSource "part 'é' : ;"),
    diagnostic.labels.map (·.span) = [.between 10 11, .between 5 9] ∧
      ∀ label ∈ diagnostic.labels, diagnostic.Marks label "part 'é' : ;" := by
  have shown : (told (ofSource "part 'é' : ;")).map (·.labels.map (·.span)) = [[.between 10 11, .between 5 9]] := by
    cbv
  obtain ⟨diagnostic, only, labels⟩ := List.map_eq_singleton_iff.mp shown
  have member : diagnostic ∈ told (ofSource "part 'é' : ;") := only ▸ List.mem_singleton_self diagnostic
  exact ⟨diagnostic, member, labels, labels_in_text _ diagnostic member⟩

/-- The second byte of the character is not marked with the first. -/
theorem not_in_text_accented : ¬ ∀ diagnostic ∈ told (ofSource "é"), ∀ label ∈ diagnostic.labels,
    label.span.Within "é" := by
  intro within
  have shown : (told (ofSource "é")).map (·.labels.map (·.span)) = [[.between 0 1]] := by cbv
  obtain ⟨diagnostic, only, labels⟩ := List.map_eq_singleton_iff.mp shown
  obtain ⟨label, single, place⟩ := List.map_eq_singleton_iff.mp labels
  have inside := within diagnostic (only ▸ List.mem_singleton_self diagnostic) label
    (single ▸ List.mem_singleton_self label)
  rw [place] at inside
  exact Lexer.not_isValid_inside (by rfl : "é".toList = [] ++ 'é' :: []) Nat.one_pos (by decide) inside.stop

end LoadedModel
end StructuralModel
