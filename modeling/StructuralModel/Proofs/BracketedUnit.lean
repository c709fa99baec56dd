import StructuralModel.Proofs.ExpressionSource
import StructuralModel.Proofs.UnitSpelling

/-! A number with a unit in brackets. The reader of units sees tokens and puts their text together again, so it is more
tolerant than the reader of unit texts: blanks between names or digits are lost, and numbers are printed anew. Where the
text in the brackets is a unit, though, it is the unit that is read. -/

namespace StructuralModel
namespace Reader

variable {α β : Type} {tokens left : Tokens}

/-! Where quantities come from. -/

/-- Unless it starts with a parenthesis, every quantity of this reader is a number with a unit. -/
def Measures (reader : Reader Expr) : Prop :=
  ∀ tokens value u left, reader tokens = .ok (.quantity value u, left) →
    (∀ first ∈ tokens.head?, first.value ≠ .mark .leftParen) → numberOrQuantity tokens = .ok (.quantity value u, left)

variable {expression operand : Reader Expr}

theorem measures_primary (expression : Reader Expr) : Measures (primary expression) := by
  intro tokens value u left found open_
  obtain ⟨position, reader, listed, read⟩ := exists_of_firstOf_ok found
  rcases position with _ | _ | _ | _ | _ | _ | _ | position
  · obtain rfl := Option.some.inj listed
    exact read
  · obtain rfl := Option.some.inj listed
    obtain ⟨_, _, same⟩ := map_eq_ok read
    cases same
  · obtain rfl := Option.some.inj listed
    obtain ⟨_, _, same⟩ := map_eq_ok read
    cases same
  · obtain rfl := Option.some.inj listed
    obtain ⟨_, _, same⟩ := map_eq_ok read
    cases same
  · obtain rfl := Option.some.inj listed
    obtain ⟨_, _, opened, _⟩ := seqRight_eq_ok read
    obtain ⟨first, rfl, opening⟩ := mark_eq_ok opened
    exact absurd opening (open_ first rfl)
  · obtain rfl := Option.some.inj listed
    obtain ⟨_, _, _, rest⟩ := bind_eq_ok read
    obtain ⟨_, _, _, made⟩ := bind_eq_ok (committed_eq_ok.mp rest)
    cases made
  · obtain rfl := Option.some.inj listed
    obtain ⟨_, _, same⟩ := map_eq_ok read
    cases same
  · cases listed

theorem upTo_eq_nil {item : Reader α} {count : Nat} (found : upTo count item tokens = .ok ([], left)) : left = tokens := by
  cases count with
  | zero =>
    obtain ⟨_, rfl⟩ := Prod.mk.inj (Except.ok.inj found)
    rfl
  | succ count =>
    cases first : item tokens with
    | ok value =>
      rw [upTo_ok first] at found
      obtain ⟨_, _, same⟩ := map_eq_ok found
      cases same
    | error error =>
      rw [upTo_error first] at found
      split at found
      · cases found
      · obtain ⟨_, rfl⟩ := Prod.mk.inj (Except.ok.inj found)
        rfl

/-- What is built from a first value and items is no quantity if there are items. -/
theorem Measures.folding {item : Reader β} {combine : Expr → β → Expr} (measures : Measures operand)
    (built : ∀ e change value u, combine e change ≠ .quantity value u) : Measures (folding operand item combine) := by
  intro tokens value u left found open_
  obtain ⟨first, between, readFirst, readMore⟩ := bind_eq_ok found
  obtain ⟨items, rest, readItems, made⟩ := bind_eq_ok readMore
  obtain ⟨same, rfl⟩ := Prod.mk.inj (Except.ok.inj made)
  rcases List.eq_nil_or_concat items with rfl | ⟨front, last, rfl⟩
  · obtain rfl := upTo_eq_nil readItems
    obtain rfl : first = .quantity value u := same
    exact measures tokens value u _ readFirst open_
  · rw [List.concat_eq_append, List.foldl_append] at same
    exact absurd same (built _ _ _ _)

theorem measures_members (expression : Reader Expr) : Measures (members expression) :=
  (measures_primary expression).folding nofun

theorem measures_power (expression operand : Reader Expr) : Measures (power expression operand) := by
  intro tokens value u left found open_
  obtain ⟨base, between, readBase, readMore⟩ := bind_eq_ok found
  obtain ⟨sign?, rest, readSign, readExponent⟩ := bind_eq_ok readMore
  cases sign? with
  | some sign =>
    obtain ⟨_, _, same⟩ := map_eq_ok readExponent
    cases same
  | none =>
    obtain ⟨rfl, rfl⟩ := Prod.mk.inj (Except.ok.inj readExponent)
    rcases either_eq_ok readSign with here | ⟨_, none⟩
    · obtain ⟨_, _, same⟩ := map_eq_ok here
      cases same
    · obtain ⟨_, rfl⟩ := Prod.mk.inj (Except.ok.inj none)
      exact measures_members expression tokens value u _ readBase open_

theorem measures_operandWithin : (depth : Nat) → Measures (operandWithin depth)
  | 0 => nofun
  | depth + 1 => by
    intro tokens value u left found open_
    rcases either_eq_ok found with here | ⟨_, there⟩
    · obtain ⟨_, _, _, rest⟩ := bind_eq_ok here
      obtain ⟨_, _, same⟩ := map_eq_ok rest
      cases same
    · exact measures_power _ _ tokens value u left there open_

theorem Measures.chain (measures : Measures operand) (level : OperatorLevel) : Measures (chain level operand) :=
  measures.folding nofun

theorem Measures.operation (measures : Measures operand) : Measures (operation operand) := by
  rw [Reader.operation]
  generalize OperatorLevel.all = levels
  induction levels generalizing operand with
  | nil => exact measures
  | cons level levels ih => exact ih (measures.chain level)

theorem measures_expressionWithin : (depth : Nat) → Measures (expressionWithin depth)
  | 0 => nofun
  | depth + 1 => by
    intro tokens value u left found open_
    rcases either_eq_ok (expecting_eq_ok.mp found) with here | ⟨_, there⟩
    · obtain ⟨_, _, _, rest⟩ := bind_eq_ok here
      obtain ⟨_, _, _, rest⟩ := bind_eq_ok (committed_eq_ok.mp rest)
      obtain ⟨_, _, _, rest⟩ := bind_eq_ok rest
      obtain ⟨_, _, _, made⟩ := bind_eq_ok rest
      cases made
    · exact (measures_operandWithin depth).operation tokens value u left there open_

end Reader

namespace Lexer
open Text (spanOf)

/-! A text in brackets. -/

/-- A closing bracket belongs to what stands before it only in a line comment. -/
theorem scan_rightBracket (c : Char) (cs : List Char) (clean : ∀ fault, (scan c cs).piece ≠ .fault fault) :
    scan c (cs ++ [']']) = (scan c cs).before [']'] ∨
      ((scan c cs).piece = .blank ∧ (scan c cs).rest = []) ∧
        (scan c (cs ++ [']'])).piece = .blank ∧ (scan c (cs ++ [']'])).rest = [] := by
  cases space : isSpace c with
  | true =>
    have run : ∀ tail, scan c tail = ⟨.blank, c :: (spanOf isSpace tail).1, (spanOf isSpace tail).2⟩ := by
      intro tail
      simp [scan, space]
    rw [run, run, spanOf_before (by simp [isSpace])]
    exact .inl rfl
  | false =>
    by_cases line : c = '/' ∧ cs.head? = some '/'
    · obtain ⟨rfl, start⟩ := line
      obtain ⟨tail, rfl⟩ := List.head?_eq_some_iff.mp start
      have run : ∀ tail, scan '/' ('/' :: tail) = ⟨.blank, '/' :: '/' :: (spanOf (· != '\n') tail).1,
          (spanOf (· != '\n') tail).2⟩ := fun _ => rfl
      rw [List.cons_append, run, run]
      by_cases ends : (spanOf (· != '\n') tail).2 = []
      · refine .inr ⟨⟨rfl, ends⟩, rfl, ?_⟩
        have inside : ∀ c ∈ tail ++ [']'], (c != '\n') = true :=
          List.forall_mem_append.mpr ⟨List.dropWhile_eq_nil_iff.mp ends, by simp⟩
        exact List.dropWhile_eq_nil_iff.mpr inside
      · rw [spanOf_append_open ends]
        exact .inl rfl
    · have stops : Stops [']'] := stops_sign (by decide) []
      exact .inl (scan_before stops space clean fun slash start => absurd ⟨slash, start⟩ line)

/-- Behind a text a closing bracket is a token of its own, or the end of a line comment. -/
theorem Lexed.rightBracket {text : List Char} {found : List Token} (lexed : Lexed text found) :
    Lexed (text ++ [']']) (found ++ [.mark .rightBracket]) ∨ Lexed (text ++ [']']) found := by
  have bracket : Lexed [']'] [.mark .rightBracket] := .token rfl .nil
  induction lexed with
  | nil => exact .inl bracket
  | @blank c cs found piece rest ih =>
    rcases scan_rightBracket c cs (by simp [piece]) with same | ⟨⟨_, ends⟩, blank, ends'⟩
    · have goesOn : ∀ {others}, Lexed ((scan c cs).rest ++ [']']) others → Lexed (c :: cs ++ [']']) others := by
        intro others more
        rw [List.cons_append]
        refine .blank (same ▸ piece) ?_
        rw [same]
        exact more
      exact ih.imp goesOn goesOn
    · rw [ends] at rest
      cases rest
      rw [List.cons_append]
      refine .inr (.blank blank ?_)
      rw [ends']
      exact .nil
  | @token c cs token found piece rest ih =>
    rcases scan_rightBracket c cs (by simp [piece]) with same | ⟨⟨blank, _⟩, _⟩
    · have goesOn : ∀ {others}, Lexed ((scan c cs).rest ++ [']']) others → Lexed (c :: cs ++ [']']) (token :: others) := by
        intro others more
        rw [List.cons_append]
        refine .token (same ▸ piece) ?_
        rw [same]
        exact more
      exact ih.imp goesOn goesOn
    · rw [piece] at blank
      cases blank

/-- A number as it is written in a source text. -/
def Numeral (numeral : String) (value : Float) : Prop :=
  ∃ c cs, numeral.toList = c :: cs ∧ c.isDigit = true ∧ scanNumber (c :: cs) = ⟨.token (.number value), c :: cs, []⟩

theorem cuts_bracket {numeral : String} {value : Float} (number : Numeral numeral value) :
    Cuts (numeral.toList ++ [' ', '[']) [.number value, .mark .leftBracket] fun _ => True := by
  obtain ⟨c, cs, same, digit, alone⟩ := number
  have opening : Cuts [' ', '['] [.mark .leftBracket] fun _ => True :=
    (cuts_space fun _ => True).append (cuts_single fun _ => rfl) fun _ _ => trivial
  rw [same]
  exact (cuts_number digit alone).append opening fun _ _ => separate_sign (by decide) _

theorem values?_bracketed {numeral text : String} {value : Float} {written : List Token} (number : Numeral numeral value)
    (lexed : Lexed (text.toList ++ [']']) written) :
    values? (numeral ++ " [" ++ text ++ "]").toList = some (.number value :: .mark .leftBracket :: written) := by
  have whole : (numeral ++ " [" ++ text ++ "]").toList = numeral.toList ++ [' ', '['] ++ (text.toList ++ [']']) := by simp
  rw [whole, cuts_bracket number _ trivial, lexed.values?]
  rfl

end Lexer

namespace PhysicalUnit
open Lexer Reader

/-- The tokens in the brackets of a quantity are those of its unit. -/
theorem inside_of_readFrom {numeral text : String} {value value' : Float} {inside : List Token} {u : PhysicalUnit}
    (number : Numeral numeral value) (open_ : ']' ∉ text.toList) (lexed : Lexed text.toList inside)
    (read : Expr.ReadFrom (numeral ++ " [" ++ text ++ "]") (.quantity value' u)) :
    (∀ token ∈ inside, (unitPiece? token).isSome = true) ∧ PhysicalUnit.read (respelled inside) = .ok u := by
  obtain ⟨tokens, found, parsed⟩ := read
  obtain ⟨ending, closed, ends⟩ : ∃ ending, Lexed (text.toList ++ [']']) (inside ++ ending) ∧
      (ending = [.mark .rightBracket] ∨ ending = []) := by
    rcases lexed.rightBracket with own | hidden
    · exact ⟨_, own, .inl rfl⟩
    · exact ⟨[], (List.append_nil inside).symm ▸ hidden, .inr rfl⟩
  have written := Option.some.inj ((values?_of_tokens found).symm.trans (values?_bracketed number closed))
  have first : ∀ first ∈ tokens.head?, first.value ≠ .mark .leftParen := by
    intro first next opening
    obtain ⟨rest, rfl⟩ := List.head?_eq_some_iff.mp next
    rw [List.map_cons, opening] at written
    cases written
  obtain ⟨taken, spelled, known, unit⟩ := quantity_eq_ok (measures_expressionWithin _ tokens value' u [] parsed first)
  have same : inside ++ ending = taken ++ [.mark .rightBracket] := by
    have whole := written.symm.trans spelled
    exact (List.cons.inj (List.cons.inj whole).2).2
  rcases ends with rfl | rfl
  · obtain rfl := List.append_cancel_right same
    exact ⟨known, unit⟩
  · rw [List.append_nil] at same
    have bracket : .mark .rightBracket ∈ inside := same ▸ List.mem_append_right _ List.mem_cons_self
    exact absurd (lexed.spelled bracket List.mem_cons_self) open_

/-- A quantity has the unit that is put together for the tokens in its brackets. If the text in the brackets is a unit, it
is that one; and it is a unit if it is spelled like its tokens and has no blanks within the parts of its terms. -/
theorem read_bracketed {numeral text : String} {value value' : Float} {inside : Tokens} {u : PhysicalUnit}
    (number : Numeral numeral value) (open_ : ']' ∉ text.toList) (lexed : Lexer.tokens text = .ok inside)
    (read : Expr.ReadFrom (numeral ++ " [" ++ text ++ "]") (.quantity value' u)) :
    PhysicalUnit.read (respelled (inside.map (·.value))) = .ok u ∧
      (∀ other, PhysicalUnit.read text = .ok other → other = u) ∧
      (Spaced text.toList → respelled (inside.map (·.value)) = String.ofList (Text.solid text.toList) →
        PhysicalUnit.read text = .ok u) := by
  have cut := values?_of_tokens lexed
  obtain ⟨known, unit⟩ := inside_of_readFrom number open_ (lexed_of_values? cut) read
  refine ⟨unit, fun other own => ?_, fun spaced spelled => ?_⟩
  · exact Except.ok.inj ((read_respelled own cut known).symm.trans unit)
  · refine readChars_of_solid spaced ?_
    rwa [spelled, PhysicalUnit.read, String.toList_ofList] at unit

/-- What is put together for the tokens in the brackets of a quantity decides its unit. -/
theorem readFrom_bracketed {numeral text : String} {value : Float} {inside : List Token} {u : PhysicalUnit}
    (number : Numeral numeral value) (lexed : Lexed (text.toList ++ [']']) (inside ++ [.mark .rightBracket]))
    (known : ∀ token ∈ inside, (unitPiece? token).isSome = true) (read : PhysicalUnit.read (respelled inside) = .ok u) :
    Expr.ReadFrom (numeral ++ " [" ++ text ++ "]") (.quantity value u) := by
  have whole := lexed_of_values? (values?_bracketed number lexed)
  exact Expr.readFrom_of_lexed whole ((reads_quantity value (.respelled known) read).fits (Nat.zero_le _))

theorem numeral_five : Numeral "5" 5 := by
  have value : numberOf ['5'] [] [] = 5 := Decimal.ofDigits_whole ['5']
  exact ⟨'5', [], rfl, rfl, value ▸ rfl⟩

/-- The unit `kg*m/s^2`. -/
def newton : PhysicalUnit where
  factors := [("kg", 1), ("m", 1), ("s", -2)]
  canonical := ⟨by decide, by decide, by decide⟩

theorem read_bracketed_newton : ∃ inside u, (Numeral "5" 5 ∧ ']' ∉ "kg * m / s^2".toList ∧
    Lexer.tokens "kg * m / s^2" = .ok inside ∧ Expr.ReadFrom "5 [kg * m / s^2]" (.quantity 5 u) ∧
    Spaced "kg * m / s^2".toList ∧
    respelled (inside.map (·.value)) = String.ofList (Text.solid "kg * m / s^2".toList)) ∧
    PhysicalUnit.read "kg * m / s^2" = .ok u := by
  have two : numberOf ['2'] [] [] = 2 := Decimal.ofDigits_whole ['2']
  have lexed : Lexed "kg * m / s^2".toList
      [.identifier "kg", .mark .star, .identifier "m", .mark .slash, .identifier "s", .mark .caret, .number 2] := by
    rw [← two]
    exact .token rfl (.blank rfl (.token rfl (.blank rfl (.token rfl (.blank rfl (.token rfl (.blank rfl
      (.token rfl (.token rfl (.token rfl .nil))))))))))
  have closed : Lexed ("kg * m / s^2".toList ++ [']'])
      ([.identifier "kg", .mark .star, .identifier "m", .mark .slash, .identifier "s", .mark .caret, .number 2] ++
        [.mark .rightBracket]) := by
    rw [← two]
    exact .token rfl (.blank rfl (.token rfl (.blank rfl (.token rfl (.blank rfl (.token rfl (.blank rfl
      (.token rfl (.token rfl (.token rfl (.token rfl .nil)))))))))))
  have spelled : respelled [.identifier "kg", .mark .star, .identifier "m", .mark .slash, .identifier "s", .mark .caret,
      .number 2] = "kg*m/s^2" := by
    have two : Decimal.text 2 = "2" := Decimal.text_ofNat (by decide)
    simp [respelled, unitPiece?, two]
  have unit : PhysicalUnit.read "kg*m/s^2" = .ok newton := by decide +kernel
  have read := readFrom_bracketed numeral_five closed (by simp [unitPiece?]) (spelled ▸ unit)
  obtain ⟨inside, found, same⟩ := tokens_of_values? lexed.values?
  have plain : respelled (inside.map (·.value)) = String.ofList (Text.solid "kg * m / s^2".toList) := by
    rw [same, spelled]
    decide
  exact ⟨inside, newton, ⟨numeral_five, by decide, found, read, by decide, plain⟩,
    (read_bracketed numeral_five (by decide) found read).2.2 (by decide) plain⟩

/-- Two names in the brackets make one symbol, but no unit on their own. -/
theorem not_read_splitSymbol : ¬ ∀ (numeral text : String) (value value' : Float) (inside : Tokens) (u : PhysicalUnit),
    Numeral numeral value → '[' ∉ text.toList → ']' ∉ text.toList → Lexer.tokens text = .ok inside →
      Expr.ReadFrom (numeral ++ " [" ++ text ++ "]") (.quantity value' u) → PhysicalUnit.read text = .ok u := by
  intro reads
  have lexed : Lexed "k g".toList [.identifier "k", .identifier "g"] := .token rfl (.blank rfl (.token rfl .nil))
  have closed : Lexed ("k g".toList ++ [']']) ([.identifier "k", .identifier "g"] ++ [.mark .rightBracket]) :=
    .token rfl (.blank rfl (.token rfl (.token rfl .nil)))
  have unit : PhysicalUnit.read (respelled [.identifier "k", .identifier "g"]) = .ok (.symbol "kg") := by decide +kernel
  have read := readFrom_bracketed numeral_five closed (by simp [unitPiece?]) unit
  obtain ⟨inside, found, _⟩ := tokens_of_values? lexed.values?
  have own := reads "5" "k g" 5 5 inside (.symbol "kg") numeral_five (by decide) (by decide) found read
  have refused : PhysicalUnit.read "k g" = .error (.invalidSymbol "k g") := by decide +kernel
  rw [refused] at own
  cases own

end PhysicalUnit
end StructuralModel
