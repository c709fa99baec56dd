import StructuralModel.Proofs.UnitSpelling

/-! The text of a unit in a source text. If its symbols are made of names and percent signs, it is cut into tokens that
units are made of, and the unit is read back from these. -/

namespace StructuralModel
namespace Lexer

section separators

variable {α : Type} {admits next : List Char → Prop} {separator : List Char} {between : List Token}
  {text : α → List Char} {written : α → List Token} {items : List α}

/-- Pieces with a separator between them. -/
theorem cuts_intercalate (cut : Cuts separator between next) (each : ∀ item ∈ items, Cuts (text item) (written item) admits)
    (ends : ∀ rest, admits (separator ++ rest)) (starts : ∀ item ∈ items, ∀ rest, next (text item ++ rest)) :
    Cuts (separator.intercalate (items.map text)) (between.intercalate (items.map written)) admits := by
  induction items with
  | nil => exact cuts_nil
  | cons item items ih =>
    obtain ⟨first, others⟩ := List.forall_mem_cons.mp each
    obtain ⟨_, begins⟩ := List.forall_mem_cons.mp starts
    have later := ih others begins
    cases items with
    | nil => simpa using first
    | cons other items =>
      have start : ∀ rest, next (separator.intercalate ((other :: items).map text) ++ rest) := by
        intro rest
        have own := begins other List.mem_cons_self
        cases items with
        | nil => simpa using own rest
        | cons third items =>
          rw [List.map_cons, List.map_cons, List.intercalate_cons_cons, List.append_assoc, List.append_assoc]
          exact own _
      rw [List.map_cons, List.map_cons, List.intercalate_cons_cons, List.map_cons, List.map_cons,
        List.intercalate_cons_cons]
      exact (first.append cut fun rest _ => ends rest).append later fun rest _ => start rest

end separators

end Lexer

namespace PhysicalUnit
open Lexer

/-- A symbol of names and percent signs. -/
def PlainSymbol (name : String) : Prop :=
  ∀ word ∈ Text.splitAt '%' name.toList, word = [] ∨ PlainName (String.ofList word)

/-- The text is cut into tokens that units are made of. -/
def Measured (text : List Char) (tokens : List Token) : Prop :=
  Cuts text tokens Separate ∧ ∀ token ∈ tokens, (Reader.unitPiece? token).isSome = true

theorem Measured.append {text more : List Char} {tokens others : List Token} (first : Measured text tokens)
    (second : Measured more others) (joins : ∀ rest, Separate rest → Separate (more ++ rest)) :
    Measured (text ++ more) (tokens ++ others) :=
  ⟨first.1.append second.1 joins, List.forall_mem_append.mpr ⟨first.2, second.2⟩⟩

/-- Pieces of a unit with a sign between them. -/
theorem exists_intercalate {α : Type} {c : Char} {token : Token} {items : List α} {text : α → List Char}
    {next : List Char → Prop} (sign : Cuts [c] [token] next) (known : (Reader.unitPiece? token).isSome = true) (ends : ∀ rest, Separate (c :: rest))
    (starts : ∀ item ∈ items, ∀ rest, next (text item ++ rest))
    (each : ∀ item ∈ items, ∃ tokens, Measured (text item) tokens) :
    ∃ tokens, Measured ([c].intercalate (items.map text)) tokens := by
  choose! written measured using each
  refine ⟨[token].intercalate (items.map written),
    cuts_intercalate sign (fun item member => (measured item member).1) ends starts, ?_⟩
  intro other member
  rcases mem_intercalate member with rfl | ⟨piece, among, inside⟩
  · exact known
  · obtain ⟨item, listed, rfl⟩ := List.mem_map.mp among
    exact (measured item listed).2 other inside

theorem exists_symbol {name : String} (plain : PlainSymbol name) : ∃ tokens, Measured name.toList tokens := by
  have ends : ∀ rest, Separate ('%' :: rest) := separate_sign (by decide)
  have word : ∀ word ∈ Text.splitAt '%' name.toList, ∃ tokens, Measured word tokens := by
    intro word member
    rcases plain word member with rfl | named
    · exact ⟨[], cuts_nil, nofun⟩
    · have cuts := cuts_name named
      rw [String.toList_ofList] at cuts
      exact ⟨_, cuts, by simp [Reader.unitPiece?]⟩
  have percent : Cuts ['%'] [.mark .percent] fun _ => True := cuts_single fun _ => rfl
  have whole := exists_intercalate percent rfl ends (fun _ _ _ => trivial) word
  rwa [List.map_id', Text.intercalate_splitAt] at whole

theorem measured_digits {digits : List Char} (nonempty : digits ≠ []) (all : ∀ c ∈ digits, c.isDigit = true) :
    ∃ tokens, Measured digits tokens := by
  have written : Decimal.Written digits digits [] := ⟨(List.append_nil _).symm, nonempty, all, nofun⟩
  exact ⟨_, written.cuts, by simp [Reader.unitPiece?]⟩

theorem exists_term_tokens {factor : Factor} (plain : PlainSymbol factor.1) :
    ∃ tokens, Measured (termChars factor) tokens := by
  obtain ⟨tokens, symbol⟩ := exists_symbol plain
  rw [termChars]
  split
  · rw [List.append_nil]
    exact ⟨tokens, symbol⟩
  · obtain ⟨digits, measured⟩ := measured_digits Nat.toDigits_ne_nil (Decimal.isDigit_toDigits factor.2.natAbs)
    have caret : Cuts ['^'] [.mark .caret] fun _ => True := cuts_single fun _ => rfl
    have power : Measured ('^' :: Nat.toDigits 10 factor.2.natAbs) (.mark .caret :: digits) :=
      ⟨caret.append measured.1 fun _ _ => trivial, List.forall_mem_cons.mpr ⟨rfl, measured.2⟩⟩
    exact ⟨_, symbol.append power fun _ _ => separate_sign (by decide) _⟩

/-- No mark goes on with a symbol. -/
theorem unmarked_termChars {factor : Factor} (writable : Writable factor.1) (rest : List Char) :
    Unmarked (termChars factor ++ rest) := by
  have symbol : ∀ c ∈ factor.1.toList, isSymbolChar c = true := fun _ => isSymbolChar_of_mem writable
  rw [Writable, isSymbol, Bool.and_eq_true, Bool.not_eq_true', List.isEmpty_eq_false_iff] at writable
  obtain ⟨c, cs, same⟩ := List.exists_cons_of_ne_nil writable.1
  intro other next marked
  rw [termChars, same, List.cons_append, List.cons_append, List.head?_cons] at next
  obtain rfl := Option.some.inj next
  have inside : isSymbolChar c = true := symbol c (same ▸ List.mem_cons_self)
  simp only [List.mem_cons, List.not_mem_nil, or_false] at marked
  rcases marked with rfl | rfl | rfl | rfl | rfl <;> cases inside

theorem unmarked_groupChars {factors : List Factor} (nonempty : factors ≠ [])
    (writable : ∀ factor ∈ factors, Writable factor.1) (rest : List Char) : Unmarked (groupChars factors ++ rest) := by
  obtain ⟨first, others, rfl⟩ := List.exists_cons_of_ne_nil nonempty
  have own := writable first List.mem_cons_self
  rw [groupChars]
  cases others with
  | nil => simpa using unmarked_termChars own rest
  | cons next others =>
    rw [List.map_cons, List.map_cons, List.intercalate_cons_cons, List.append_assoc, List.append_assoc]
    exact unmarked_termChars own _

theorem exists_group_tokens {factors : List Factor} (plain : ∀ factor ∈ factors, PlainSymbol factor.1)
    (writable : ∀ factor ∈ factors, Writable factor.1) : ∃ tokens, Measured (groupChars factors) tokens := by
  have ends : ∀ rest, Separate ('*' :: rest) := separate_sign (by decide)
  exact exists_intercalate (cuts_mark .star) rfl ends (fun factor member => unmarked_termChars (writable factor member))
    fun factor member => exists_term_tokens (plain factor member)

/-- A unit is read back from the tokens of its text, wherever that stands in a source text. -/
theorem exists_tokens {u : PhysicalUnit} (readable : u.Readable) (plain : ∀ factor ∈ u.factors, PlainSymbol factor.1) :
    ∃ tokens, Measured u.text.toList tokens ∧ PhysicalUnit.read (Reader.respelled tokens) = .ok u := by
  have group : ∀ side : Factor → Bool, ∃ tokens, Measured (groupChars (u.factors.filter side)) tokens := fun side =>
    exists_group_tokens (fun factor member => plain factor (List.mem_of_mem_filter member))
      fun factor member => readable.writable factor (List.mem_of_mem_filter member)
  have top : ∃ tokens, Measured u.numeratorChars tokens := by
    rw [numeratorChars]
    split
    · exact measured_digits (by simp) (by simp)
    · exact group _
  have bottom : ∃ tokens, Measured u.denominatorChars tokens := by
    rw [denominatorChars]
    split
    · exact ⟨[], cuts_nil, List.forall_mem_nil _⟩
    next some_factor =>
      obtain ⟨tokens, measured⟩ := group fun factor => factor.2 < 0
      have nonempty : u.denominator ≠ [] := by simpa using some_factor
      have follows := unmarked_groupChars nonempty fun factor member =>
        readable.writable factor (List.mem_of_mem_filter member)
      exact ⟨.mark .slash :: tokens, (cuts_mark .slash).append measured.1 fun rest _ => follows rest,
        List.forall_mem_cons.mpr ⟨rfl, measured.2⟩⟩
  obtain ⟨above, numerator⟩ := top
  obtain ⟨below, denominator⟩ := bottom
  have joins : ∀ rest, Separate rest → Separate (u.denominatorChars ++ rest) := by
    intro rest separate
    rw [denominatorChars]
    split
    · exact separate
    · exact separate_sign (by decide) _
  have measured := numerator.append denominator joins
  rw [← toList_text] at measured
  exact ⟨_, measured, read_respelled (read_text readable) (measured.1.values? stops_nil.toSeparate) measured.2⟩

end PhysicalUnit
end StructuralModel
