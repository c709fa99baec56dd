import StructuralModel.Proofs.ExpressionTokens
import StructuralModel.Proofs.UnitText

/-! The tightest expressions as tokens: literals, quantities, names, calls, and anything in parentheses. -/

namespace StructuralModel

/-- The text that is put together for the tokens of a unit. -/
def Reader.respelled (tokens : List Token) : String :=
  String.join (tokens.filterMap Reader.unitPiece?)

/-- The pieces of a unit that the tokens stand for make up the text. -/
inductive Spells : List Token → String → Prop
  | nil : Spells [] ""
  | cons {token tokens piece text} (first : Reader.unitPiece? token = some piece) (rest : Spells tokens text) :
      Spells (token :: tokens) (piece ++ text)

namespace Spells

theorem append {first second : List Token} {before after : String} (start : Spells first before)
    (rest : Spells second after) : Spells (first ++ second) (before ++ after) := by
  induction start with
  | nil => rwa [List.nil_append, String.empty_append]
  | cons known _ ih => rw [List.cons_append, String.append_assoc]; exact .cons known ih

theorem single {token : Token} {piece : String} (known : Reader.unitPiece? token = some piece) :
    Spells [token] piece := by
  have one : Spells [token] (piece ++ "") := .cons known .nil
  rwa [String.append_empty] at one

/-- The tokens up to the end of a unit, as the pieces that are read for them. -/
theorem join {tokens : List Token} {text : String} (spells : Spells tokens text) {pieces : List (Spanned String)}
    (read : List.Forall₂ (fun token piece => Reader.unitPiece? token = some piece.value) tokens pieces) :
    String.join (pieces.map (·.value)) = text := by
  induction spells generalizing pieces with
  | nil =>
    cases read
    rfl
  | cons known _ ih =>
    cases read with
    | cons found others =>
      rw [List.map_cons, String.join_cons, ih others, Option.some.inj (known.symm.trans found)]

theorem known {tokens : List Token} {text : String} (spells : Spells tokens text) :
    ∀ token ∈ tokens, ∃ piece, Reader.unitPiece? token = some piece := by
  induction spells with
  | nil => simp
  | cons first _ ih =>
    intro token member
    rcases List.mem_cons.mp member with rfl | later
    · exact ⟨_, first⟩
    · exact ih token later

theorem respelled {tokens : List Token} (known : ∀ token ∈ tokens, (Reader.unitPiece? token).isSome = true) :
    Spells tokens (Reader.respelled tokens) := by
  induction tokens with
  | nil => exact .nil
  | cons token tokens ih =>
    obtain ⟨first, others⟩ := List.forall_mem_cons.mp known
    obtain ⟨piece, found⟩ := Option.isSome_iff_exists.mp first
    rw [Reader.respelled, List.filterMap_cons, found, String.join_cons]
    exact .cons found (ih others)

end Spells

namespace PhysicalUnit

/-- The numbers in the text of the unit are printed as their decimal digits. -/
def PlainNumbers (u : PhysicalUnit) : Prop :=
  ∀ factor ∈ u.factors, Decimal.text (Float.ofNat factor.2.natAbs) = toString factor.2.natAbs

theorem text_one : Decimal.text (Float.ofNat 1) = "1" := by
  decide +kernel

theorem spells_term {factor : Factor} (plain : Decimal.text (Float.ofNat factor.2.natAbs) = toString factor.2.natAbs) :
    Spells (termTokens factor) (termText factor.1 factor.2.natAbs) := by
  rw [termTokens, termText]
  split
  · exact .single rfl
  · have exponent : Reader.unitPiece? (.number (Float.ofNat factor.2.natAbs)) = some (toString factor.2.natAbs) := by
      rw [Reader.unitPiece?, plain]
    have power : Spells [.mark .caret, .number (Float.ofNat factor.2.natAbs)] ("^" ++ toString factor.2.natAbs) :=
      .cons rfl (.single exponent)
    rw [String.append_assoc]
    exact .cons rfl power

theorem spells_terms {factors : List Factor}
    (plain : ∀ factor ∈ factors, Decimal.text (Float.ofNat factor.2.natAbs) = toString factor.2.natAbs) :
    Spells (termsTokens factors) ("*".intercalate (factors.map fun factor => termText factor.1 factor.2.natAbs)) := by
  rw [termsTokens]
  induction factors with
  | nil => exact .nil
  | cons factor rest ih =>
    have first := spells_term (plain factor List.mem_cons_self)
    cases rest with
    | nil => simpa using first
    | cons next rest =>
      have later := ih fun other member => plain other (List.mem_cons_of_mem _ member)
      have star : Spells [.mark .star] "*" := .single rfl
      rw [List.map_cons, List.map_cons, List.intercalate_cons_cons, List.map_cons, List.map_cons,
        String.intercalate_cons_cons]
      exact (first.append star).append later

theorem spells_tokens {u : PhysicalUnit} (plain : u.PlainNumbers) : Spells u.tokens u.text := by
  have terms : ∀ side : Factor → Bool, Spells (termsTokens (u.factors.filter side))
      ("*".intercalate ((u.factors.filter side).map fun factor => termText factor.1 factor.2.natAbs)) :=
    fun _ => spells_terms fun factor member => plain factor (List.mem_of_mem_filter member)
  refine Spells.append ?_ ?_
  · split
    · refine .single ?_
      rw [Reader.unitPiece?, text_one]
    · exact terms _
  · split
    · exact .nil
    · exact .cons rfl (terms _)

end PhysicalUnit

namespace Reader

variable {rest : List Token}

theorem takes_unit {tokens : List Token} {text : String} {u : PhysicalUnit} (spells : Spells tokens text)
    (readsBack : PhysicalUnit.read text = .ok u) (stops : ∀ token ∈ rest.head?, unitPiece? token = none) :
    Takes unit tokens rest (· = u) := by
  have pieces : Takes (oneOrMore (token unitPiece?)) tokens rest
      (List.Forall₂ (fun token piece => unitPiece? token = some piece.value) tokens) := by
    cases tokens with
    | nil =>
      cases spells
      cases readsBack
    | cons first more =>
      have taken : Takes (oneOrMore (token unitPiece?)) ((first :: more).flatMap fun token => [token]) rest
          (List.Forall₂ (fun token piece => unitPiece? token = some piece.value) (first :: more)) := by
        refine takes_oneOrMore (fun before current after same => ?_) (by simp) (refuses_token stops)
        obtain ⟨piece, known⟩ := spells.known current (by simp [same])
        exact (takes_token known).mono fun _ same => same ▸ known
      rwa [List.flatMap_singleton'] at taken
  refine Takes.expecting ?_ _
  intro written left same follows
  obtain ⟨found, read, areFound⟩ := pieces written left same follows
  refine ⟨u, ?_, rfl⟩
  simp only [read, spells.join areFound, readsBack, bind, Except.bind]

theorem takes_number_alone {value : Float} (alone : rest.head? ≠ some (.mark .leftBracket)) :
    Takes numberOrQuantity [.number value] rest (· = .literal (.number value)) := by
  refine Takes.bind_nil (takes_number value) fun found same => ?_
  refine Takes.nil_bind (refuses_mark alone).optional ?_
  rintro _ rfl
  exact takes_pure (by rw [same])

theorem takes_quantity {value : Float} {tokens : List Token} {u : PhysicalUnit}
    (measured : Takes unit tokens (.mark .rightBracket :: rest) (· = u)) :
    Takes numberOrQuantity (.number value :: .mark .leftBracket :: (tokens ++ [.mark .rightBracket])) rest
      (· = .quantity value u) := by
  refine Takes.bind (takes_number value) fun found same => ?_
  refine Takes.bind (takes_mark .leftBracket).optional ?_
  rintro _ ⟨opening, rfl, _⟩
  refine Takes.map (Takes.committed (Takes.seqLeft measured (takes_mark .rightBracket))) ?_
  rintro _ rfl
  rw [same]

theorem takes_parenthesized {expression : Reader Expr} {tokens : List Token} {e : Expr}
    (inside : Takes expression tokens (.mark .rightParen :: rest) (· = e)) :
    Takes (parenthesized expression) (Expr.parenthesized tokens) rest (· = e) :=
  (takes_mark .leftParen).seqRight (Takes.committed (Takes.seqLeft inside (takes_mark .rightParen)))

/-- All but the first piece have the separator in front of them. -/
theorem intercalate_eq_flatMap (separator : Token) (first : List Token) (pieces : List (List Token)) :
    [separator].intercalate (first :: pieces) = first ++ pieces.flatMap fun next => [separator] ++ next := by
  induction pieces generalizing first with
  | nil => simp
  | cons next pieces ih =>
    rw [List.intercalate_cons_cons, ih, List.flatMap_cons]
    simp

/-- A call is taken with its arguments, each of which is given with its tokens. -/
theorem takes_call {expression : Reader Expr} {function : String} {arguments : List (List Token × Expr)}
    (each : ∀ before argument after, arguments = before ++ argument :: after →
      Takes expression argument.1
        (after.flatMap (fun next => [.mark .comma] ++ next.1) ++ .mark .rightParen :: rest) (· = argument.2))
    (none : Refuses expression (.mark .rightParen :: rest)) :
    Takes (call expression)
      (.identifier function :: .mark .leftParen ::
        ([.mark .comma].intercalate (arguments.map (·.1)) ++ [.mark .rightParen])) rest
      (· = .call function (arguments.map (·.2))) := by
  have named : Takes (identifier <* mark .leftParen) [.identifier function, .mark .leftParen]
      ([.mark .comma].intercalate (arguments.map (·.1)) ++ [.mark .rightParen] ++ rest) (·.value = function) :=
    (takes_identifier function).seqLeft (takes_mark .leftParen)
  refine Takes.bind named fun name same => Takes.committed ?_
  have listed : Takes (optional (separated (mark .comma) expression))
      ([.mark .comma].intercalate (arguments.map (·.1))) (.mark .rightParen :: rest)
      (fun found => found.getD [] = arguments.map (·.2)) := by
    cases arguments with
    | nil =>
      have absent : Refuses (separated (mark .comma) expression) (.mark .rightParen :: rest) := none.bind
      exact absent.optional.mono fun _ same => by rw [same]; rfl
    | cons argument more =>
      have commas : Takes (separated (mark .comma) expression)
          (argument.1 ++ more.flatMap fun next => [.mark .comma] ++ next.1) (.mark .rightParen :: rest)
          (List.Forall₂ (fun argument value => value = argument.2) (argument :: more)) :=
        takes_separated _ (fun _ => takes_mark .comma) (by simp) each (refuses_mark (by simp))
      rw [List.map_cons, intercalate_eq_flatMap, List.flatMap_map]
      refine commas.optional.mono ?_
      rintro _ ⟨found, rfl, areArguments⟩
      have flipped : List.Forall₂ (fun value argument => value = argument) found ((argument :: more).map (·.2)) :=
        List.forall₂_map_right_iff.mpr areArguments.flip
      rw [List.forall₂_eq_eq_eq] at flipped
      exact flipped
  refine Takes.bind_nil (listed.seqLeft (takes_mark .rightParen)) fun found areArguments => takes_pure ?_
  rw [same, areArguments]

/-! The alternatives of a primary expression, by the token that they start with. -/

section Primary

variable {expression : Reader Expr} {first : Token} {more : List Token} {e : Expr}

/-- A token that starts neither a literal nor anything in parentheses. -/
structure Named (first : Token) : Prop where
  number : ∀ value, first ≠ .number value
  text : ∀ value, first ≠ .text value
  yes : first ≠ .keyword .yes
  no : first ≠ .keyword .no

theorem primary_of_number (takes : Takes numberOrQuantity more rest (· = e)) :
    Takes (primary expression) more rest (· = e) :=
  takes.firstOf _

theorem primary_of_text (value : String) :
    Takes (primary expression) [.text value] rest (· = .literal (.text value)) := by
  have noNumber : Refuses numberOrQuantity ([.text value] ++ rest) := Refuses.bind (refuses_number (by simp))
  exact noNumber.firstOf (Takes.firstOf ((takes_text value).map fun _ same => by rw [same]) _)

theorem primary_of_later (named : Named first)
    (takes : Takes (firstOf [parenthesized expression, call expression,
      (fun name => .reference name.value) <$> qualifiedName]) (first :: more) rest (· = e)) :
    Takes (primary expression) (first :: more) rest (· = e) := by
  refine Refuses.firstOf (Refuses.bind (refuses_number ?_)) ?_
  · simpa using named.number
  refine Refuses.firstOf (Refuses.map (refuses_text ?_)) ?_
  · simpa using named.text
  refine Refuses.firstOf (Refuses.map (refuses_keyword ?_)) ?_
  · simpa using named.yes
  refine Refuses.firstOf (Refuses.map (refuses_keyword ?_)) takes
  simpa using named.no

theorem primary_of_boolean (value : Bool) :
    Takes (primary expression) [(Literal.boolean value).token] rest (· = .literal (.boolean value)) := by
  cases value with
  | true =>
    refine Refuses.firstOf (Refuses.bind (refuses_number (by simp [Literal.token]))) ?_
    refine Refuses.firstOf (Refuses.map (refuses_text (by simp [Literal.token]))) ?_
    refine Takes.firstOf (Takes.map (takes_keyword .yes) fun _ _ => ?_) _
    rfl
  | false =>
    refine Refuses.firstOf (Refuses.bind (refuses_number (by simp [Literal.token]))) ?_
    refine Refuses.firstOf (Refuses.map (refuses_text (by simp [Literal.token]))) ?_
    refine Refuses.firstOf (Refuses.map (refuses_keyword (by simp [Literal.token]))) ?_
    refine Takes.firstOf (Takes.map (takes_keyword .no) fun _ _ => ?_) _
    rfl

theorem primary_of_parenthesized {tokens : List Token} (inside : Takes expression tokens (.mark .rightParen :: rest) (· = e)) :
    Takes (primary expression) (Expr.parenthesized tokens) rest (· = e) :=
  primary_of_later ⟨by simp, by simp, by simp, by simp⟩ ((takes_parenthesized inside).firstOf _)

theorem primary_of_call {function : String} {tokens : List Token}
    (takes : Takes (call expression) (.identifier function :: tokens) rest (· = e)) :
    Takes (primary expression) (.identifier function :: tokens) rest (· = e) := by
  refine primary_of_later ⟨by simp, by simp, by simp, by simp⟩ ?_
  exact Refuses.firstOf (refuses_mark (by simp)).seqRight (takes.firstOf _)

theorem primary_of_reference {path : Path} (noCall : rest.head? ≠ some (.mark .leftParen))
    (ended : rest.head? ≠ some (.mark .doubleColon)) :
    Takes (primary expression) path.tokens rest (· = .reference path) := by
  refine primary_of_later ⟨by simp, by simp, by simp, by simp⟩ ?_
  refine Refuses.firstOf (refuses_mark (by simp)).seqRight ?_
  refine Refuses.firstOf ?_ ?_
  · have noArguments : Refuses (mark .leftParen)
        ((path.rest.flatMap fun name => [.mark .doubleColon, .identifier name]) ++ rest) := by
      refine refuses_mark ?_
      cases path.rest with
      | nil => exact noCall
      | cons name names => simp
    exact Refuses.bind ((takes_identifier path.first).seqLeft_refuses noArguments)
  · exact (takes_qualifiedName (refuses_mark ended).seqRight).map fun _ same => by rw [same]

end Primary

end Reader
end StructuralModel
