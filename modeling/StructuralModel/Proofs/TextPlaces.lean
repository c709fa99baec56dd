import Mathlib.Data.String.Basic
import StructuralModel.Proofs.JoinedText

/-! Places in a text, counted in bytes. What the lexer finds stands between characters of the text, and every piece
stands behind the one before it. -/

namespace StructuralModel

namespace Lexer

theorem byteLength_eq (cs : List Char) : byteLength cs = String.utf8Len cs := by
  induction cs with
  | nil => rfl
  | cons c cs ih => rw [byteLength, ih, String.utf8Len_cons, Nat.add_comm]

theorem byteLength_pos {cs : List Char} (nonempty : cs ≠ []) : 0 < byteLength cs := by
  obtain ⟨c, rest, rfl⟩ := List.exists_cons_of_ne_nil nonempty
  exact Nat.add_pos_left c.utf8Size_pos _

/-- The places between the characters of a text are those behind some of its first characters. -/
theorem isValid_iff {source : String} {position : Nat} : String.Pos.Raw.IsValid source ⟨position⟩ ↔
    ∃ before after, source.toList = before ++ after ∧ byteLength before = position := by
  rw [String.Pos.Raw.isValid_iff_exists_append]
  constructor
  · rintro ⟨before, after, rfl, same⟩
    refine ⟨before.toList, after.toList, String.toList_append, ?_⟩
    rw [byteLength_toList]
    exact (congrArg String.Pos.Raw.byteIdx same).symm
  · rintro ⟨before, after, split, rfl⟩
    refine ⟨String.ofList before, String.ofList after, ?_, ?_⟩
    · rw [← String.ofList_append, ← split, String.ofList_toList]
    · rw [String.Pos.Raw.ext_iff, String.byteIdx_rawEndPos, ← byteLength_toList, String.toList_ofList]

section split

variable {source : String} {before inside after : List Char}

theorem byteLength_of_split (split : source.toList = before ++ after) :
    source.utf8ByteSize = byteLength before + byteLength after := by
  rw [← byteLength_toList, split, byteLength_append]

theorem isValid_of_split (split : source.toList = before ++ after) : String.Pos.Raw.IsValid source ⟨byteLength before⟩ :=
  isValid_iff.mpr ⟨before, after, split, rfl⟩

/-- No place between characters lies inside one of them. -/
theorem not_isValid_inside {c : Char} (split : source.toList = before ++ c :: after) {bytes : Nat} (first : 0 < bytes)
    (last : bytes < c.utf8Size) : ¬ String.Pos.Raw.IsValid source ⟨byteLength before + bytes⟩ := by
  intro valid
  obtain ⟨front, back, same, length⟩ := isValid_iff.mp valid
  rw [split, List.append_eq_append_iff] at same
  rcases same with ⟨more, rfl, rest⟩ | ⟨more, rfl, _⟩
  · rw [byteLength_append] at length
    cases more with
    | nil =>
      rw [byteLength] at length
      omega
    | cons next more =>
      obtain ⟨rfl, _⟩ := List.cons.inj rest
      rw [byteLength] at length
      omega
  · rw [byteLength_append] at length
    omega

end split

end Lexer

namespace Span
open Lexer (byteLength)

/-- Both ends lie between characters of the text, the last possibly behind all of them. -/
structure Within (span : Span) (source : String) : Prop where
  start : String.Pos.Raw.IsValid source ⟨span.start⟩
  stop : String.Pos.Raw.IsValid source ⟨span.stop⟩

/-- The part of a text that stands in a range. -/
def text (span : Span) (source : String) : String :=
  String.Pos.Raw.extract source ⟨span.start⟩ ⟨span.stop⟩

variable {source : String}

theorem Within.stop_le {span : Span} (within : span.Within source) : span.stop ≤ source.utf8ByteSize :=
  within.stop.le_utf8ByteSize

theorem within_atStart : atStart.Within source :=
  ⟨String.Pos.Raw.isValid_zero, String.Pos.Raw.isValid_zero⟩

theorem Within.union {a b : Span} (first : a.Within source) (second : b.Within source) : (a.union b).Within source := by
  constructor
  · rcases Nat.le_total a.start b.start with le | le
    · simpa [Span.union, Nat.min_eq_left le] using first.start
    · simpa [Span.union, Nat.min_eq_right le] using second.start
  · rcases Nat.le_total a.stop b.stop with le | le
    · simpa [Span.union, Nat.max_eq_right le] using second.stop
    · simpa [Span.union, Nat.max_eq_left le] using first.stop

section split

variable {before inside after : List Char}

theorem stop_between_add (start length : Nat) : (between start (start + length)).stop = start + length :=
  Nat.max_eq_right (Nat.le_add_right ..)

theorem within_of_split (split : source.toList = before ++ inside ++ after) :
    (between (byteLength before) (byteLength before + byteLength inside)).Within source := by
  constructor
  · rw [List.append_assoc] at split
    exact Lexer.isValid_of_split split
  · rw [stop_between_add, ← Lexer.byteLength_append]
    exact Lexer.isValid_of_split split

/-- The characters behind some of a text and in front of the others. -/
theorem text_of_split (split : source.toList = before ++ inside ++ after) :
    (between (byteLength before) (byteLength before + byteLength inside)).text source = String.ofList inside := by
  have whole : source = String.ofList (before ++ inside ++ after) := by rw [← split, String.ofList_toList]
  rw [text, stop_between_add, Lexer.byteLength_eq, Lexer.byteLength_eq, whole]
  exact String.extract_of_valid before inside after

end split

end Span

namespace Lexer

/-- A turn of the lexer takes characters from the text, and skips one more behind a fault. -/
theorem scan_consumed (c : Char) (cs : List Char) :
    (scan c cs).taken ++ (scan c cs).skipped ++ (scan c cs).remaining = c :: cs := by
  have skips : (scan c cs).skipped ++ (scan c cs).remaining = (scan c cs).rest := by
    rw [Scan.remaining, Scan.skipped]
    split
    · rw [List.length_take]
      cases (scan c cs).rest <;> simp
    · simp
  rw [List.append_assoc, skips, scan_append]

theorem consumed_ne_nil (c : Char) (cs : List Char) : (scan c cs).taken ++ (scan c cs).skipped ≠ [] := by
  intro none
  have whole := scan_consumed c cs
  have shorter := length_remaining_lt c cs
  rw [none, List.nil_append] at whole
  rw [whole] at shorter
  exact Nat.lt_irrefl _ shorter

section pieces

variable {cs : List Char} {position : Nat} {piece : Spanned Piece}

/-- Every piece is what is read at some place of the text. -/
theorem exists_of_mem_pieces (member : piece ∈ pieces position cs) : ∃ before c rest, cs = before ++ c :: rest ∧
    piece = ⟨(scan c rest).piece, .between (position + byteLength before)
      (position + byteLength before + byteLength (scan c rest).taken)⟩ := by
  fun_induction pieces position cs with
  | case1 => cases member
  | case2 position c cs s stop ih =>
    rcases List.mem_cons.mp member with rfl | later
    · exact ⟨[], c, cs, rfl, rfl⟩
    · obtain ⟨before, next, rest, split, same⟩ := ih later
      refine ⟨s.taken ++ s.skipped ++ before, next, rest, ?_, ?_⟩
      · rw [List.append_assoc, ← split, scan_consumed]
      · have place : position + byteLength (s.taken ++ s.skipped ++ before) =
            stop + byteLength s.skipped + byteLength before := by
          rw [byteLength_append, byteLength_append]
          omega
        rw [place]
        exact same

theorem le_start_of_mem_pieces (member : piece ∈ pieces position cs) : position ≤ piece.span.start := by
  obtain ⟨before, c, rest, _, rfl⟩ := exists_of_mem_pieces member
  exact Nat.le_add_right ..

/-- A piece starts behind the start of the one before it, and not before its end. -/
theorem pieces_ordered (position : Nat) (cs : List Char) : (pieces position cs).Pairwise fun first second =>
    first.span.start < second.span.start ∧ first.span.stop ≤ second.span.start := by
  fun_induction pieces position cs with
  | case1 => exact .nil
  | case2 position c cs s stop ih =>
    refine List.pairwise_cons.mpr ⟨fun next member => ?_, ih⟩
    have later := le_start_of_mem_pieces member
    have progress : 0 < byteLength s.taken + byteLength s.skipped := by
      rw [← byteLength_append]
      exact byteLength_pos (consumed_ne_nil c cs)
    rw [Span.stop_between_add]
    constructor
    · simp only [Span.between]
      omega
    · omega

theorem tokenOf?_eq_some {token : Spanned Token} : tokenOf? piece = some token ↔
    piece.value = .token token.value ∧ piece.span = token.span := by
  obtain ⟨value, span⟩ := piece
  obtain ⟨found, place⟩ := token
  cases value <;> simp [tokenOf?]

theorem diagnosticOf?_eq_some {diagnostic : Diagnostic} : diagnosticOf? piece = some diagnostic ↔
    ∃ fault, piece.value = .fault fault ∧ fault.diagnostic piece.span = diagnostic := by
  obtain ⟨value, span⟩ := piece
  cases value <;> simp [diagnosticOf?]

end pieces

section text

variable {source : String} {piece : Spanned Piece}

/-- The pieces of a text cut it in front of a character and behind what is taken from there. -/
theorem split_of_mem_pieces (member : piece ∈ pieces 0 source.toList) : ∃ before c rest,
    source.toList = before ++ c :: rest ∧ source.toList = before ++ (scan c rest).taken ++ (scan c rest).rest ∧
      piece = ⟨(scan c rest).piece, .between (byteLength before) (byteLength before + byteLength (scan c rest).taken)⟩ := by
  obtain ⟨before, c, rest, split, same⟩ := exists_of_mem_pieces member
  rw [Nat.zero_add] at same
  refine ⟨before, c, rest, split, ?_, same⟩
  rw [List.append_assoc, scan_append, split]

theorem within_of_mem_pieces (member : piece ∈ pieces 0 source.toList) : piece.span.Within source := by
  obtain ⟨before, c, rest, _, split, rfl⟩ := split_of_mem_pieces member
  exact Span.within_of_split split

end text

end Lexer
end StructuralModel
