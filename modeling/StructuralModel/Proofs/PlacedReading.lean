import StructuralModel.Proofs.TextPlaces
import StructuralModel.Proofs.TokenReading
import StructuralModel.Source.DeclarationGrammar

/-! Where readers find things. Tokens that stand in a text are put together to names, values and headers that stand in
the text, and a failure tells of such tokens only. -/

namespace StructuralModel

variable {source : String}

namespace SyntaxError

/-- The tokens that a failure tells of stand in the text. -/
structure Within (error : SyntaxError) (source : String) : Prop where
  rest : ∀ token ∈ error.rest, token.span.Within source
  inside : ∀ start, .inside start ∈ error.trail → ∀ token ∈ start, token.span.Within source

variable {error : SyntaxError} {tokens : Tokens}

theorem within_stopped (placed : ∀ token ∈ tokens, token.span.Within source) : (stopped tokens).Within source :=
  ⟨placed, nofun⟩

theorem Within.expected (within : error.Within source) (what : Expected) : (error.add (.expected what)).Within source where
  rest := within.rest
  inside start member := within.inside start (by simpa [add] using member)

theorem Within.commit (within : error.Within source) (placed : ∀ token ∈ tokens, token.span.Within source) :
    (error.commit tokens).Within source where
  rest := within.rest
  inside start member := by
    have either : .inside start ∈ error.trail ∨ start = tokens := by simpa [SyntaxError.commit, add] using member
    rcases either with earlier | rfl
    · exact within.inside start earlier
    · exact placed

theorem within_spanOf (placed : ∀ token ∈ tokens, token.span.Within source) : (spanOf tokens).Within source := by
  cases tokens with
  | nil => exact Span.within_atStart
  | cons first more =>
    obtain ⟨start, others⟩ := List.forall_mem_cons.mp placed
    rw [spanOf]
    cases last : more.getLast? with
    | none => exact start.union start
    | some token => exact start.union (others token (List.mem_of_getLast? last))

/-- What a failure is reported with stands in the text. -/
theorem within_diagnostic (within : error.Within source) (placed : ∀ token ∈ tokens, token.span.Within source) :
    ∀ label ∈ (error.diagnostic tokens).labels, label.span.Within source := by
  have place : (error.place tokens).Within source := by
    rw [place.eq_def]
    split
    next token _ same => exact within.rest token (same ▸ List.mem_cons_self)
    next token _ last => exact placed token (List.mem_of_getLast? last)
    next => exact Span.within_atStart
  have passed : ∀ token ∈ error.passed, token.span.Within source := by
    rw [passed]
    split
    next start found =>
      obtain ⟨note, member, same⟩ := List.exists_of_findSome?_eq_some found
      cases note with
      | expected => cases same
      | inside first =>
        obtain rfl := Option.some.inj same
        exact fun token taken => within.inside first member token (List.mem_of_mem_take taken)
    next => nofun
  rw [diagnostic]
  refine List.forall_mem_cons.mpr ⟨place, ?_⟩
  split
  · nofun
  next => exact List.forall_mem_singleton.mpr (within_spanOf passed)

end SyntaxError

namespace Reader

variable {α β : Type} {found : α → Prop} {further : β → Prop}

/-- What was read holds, and the tokens that are left or told of stand in the text. -/
inductive Finds (source : String) (found : α → Prop) : Except SyntaxError (α × Tokens) → Prop
  | ok {value left} (holds : found value) (rest : ∀ token ∈ left, token.span.Within source) :
    Finds source found (.ok (value, left))
  | error {error} (within : error.Within source) : Finds source found (.error error)

theorem Finds.mapError {result : Except SyntaxError (α × Tokens)} {f : SyntaxError → SyntaxError}
    (finds : Finds source found result) (keeps : ∀ error : SyntaxError, error.Within source → (f error).Within source) :
    Finds source found (result.mapError f) := by
  cases finds with
  | ok holds rest => exact .ok holds rest
  | error within => exact .error (keeps _ within)

/-- From tokens that stand in the text the reader makes what this holds of. -/
def Makes (source : String) (found : α → Prop) (reader : Reader α) : Prop :=
  ∀ tokens : Tokens, (∀ token ∈ tokens, token.span.Within source) → Finds source found (reader tokens)

namespace Makes

variable {reader : Reader α}

theorem fail : Makes source found fail :=
  fun _ placed => .error (SyntaxError.within_stopped placed)

theorem token {read : Token → Option α} : Makes source (·.span.Within source) (token read) := by
  intro tokens placed
  cases tokens with
  | nil => exact .error (SyntaxError.within_stopped placed)
  | cons first rest =>
    obtain ⟨here, others⟩ := List.forall_mem_cons.mp placed
    rw [Reader.token]
    split
    · exact .ok here others
    · exact .error (SyntaxError.within_stopped placed)

theorem pure {value : α} (holds : found value) : Makes source found (Pure.pure value) :=
  fun _ placed => .ok holds placed

theorem bind {next : α → Reader β} (makes : Makes source found reader)
    (later : ∀ value, found value → Makes source further (next value)) : Makes source further (reader >>= next) := by
  intro tokens placed
  have first := makes tokens placed
  cases read : reader tokens with
  | ok result =>
    rw [read] at first
    cases first with
    | ok holds rest =>
      rw [bind_ok read]
      exact later _ holds _ rest
  | error error =>
    rw [read] at first
    cases first with
    | error within =>
      rw [bind_error read]
      exact .error within

theorem map {f : α → β} (makes : Makes source found reader) (implies : ∀ value, found value → further (f value)) :
    Makes source further (f <$> reader) := by
  have run : Makes source further (reader >>= fun value => Pure.pure (f value)) :=
    makes.bind fun value holds => .pure (implies value holds)
  exact run

theorem seqRight {next : Reader β} (makes : Makes source found reader) (later : Makes source further next) :
    Makes source further (reader *> next) := by
  have run : Makes source further (reader >>= fun _ => next) := makes.bind fun _ _ => later
  exact run

theorem seqLeft {next : Reader β} (makes : Makes source found reader) (later : Makes source further next) :
    Makes source found (reader <* next) := by
  have run : Makes source found (reader >>= fun value => next >>= fun _ => Pure.pure value) :=
    makes.bind fun value holds => later.bind fun _ _ => .pure holds
  exact run

theorem expecting (makes : Makes source found reader) (what : Expected) : Makes source found (expecting what reader) :=
  fun tokens placed => (makes tokens placed).mapError fun _ within => within.expected what

theorem committed (makes : Makes source found reader) : Makes source found (committed reader) :=
  fun tokens placed => (makes tokens placed).mapError fun _ within => within.commit placed

theorem either {other : Reader α} (makes : Makes source found reader) (otherwise : Makes source found other) :
    Makes source found (either reader other) := by
  intro tokens placed
  have read := makes tokens placed
  rw [Reader.either]
  generalize reader tokens = result at read
  cases read with
  | ok holds rest => exact .ok holds rest
  | error within =>
    dsimp only
    split
    · exact .error within
    · exact otherwise tokens placed

theorem optional (makes : Makes source found reader) :
    Makes source (fun value? => ∀ value ∈ value?, found value) (optional reader) := by
  refine either (makes.map fun value holds => ?_) (.pure nofun)
  rintro _ ⟨⟩
  exact holds

theorem upTo (makes : Makes source found reader) (count : Nat) :
    Makes source (fun values => ∀ value ∈ values, found value) (upTo count reader) := by
  induction count with
  | zero => exact .pure nofun
  | succ count ih =>
    refine makes.optional.bind fun value? holds => ?_
    cases value? with
    | none => exact .pure nofun
    | some value => exact ih.map fun values others => List.forall_mem_cons.mpr ⟨holds value rfl, others⟩

theorem many (makes : Makes source found reader) :
    Makes source (fun values => ∀ value ∈ values, found value) (many reader) :=
  fun tokens placed => makes.upTo tokens.length tokens placed

theorem oneOrMore (makes : Makes source found reader) :
    Makes source (fun values => ∀ value ∈ values, found value) (oneOrMore reader) :=
  makes.bind fun _ holds => makes.many.map fun _ others => List.forall_mem_cons.mpr ⟨holds, others⟩

theorem separated {separator : Reader β} (marks : Makes source further separator) (makes : Makes source found reader) :
    Makes source (fun values => ∀ value ∈ values, found value) (separated separator reader) :=
  makes.bind fun _ holds => (marks.seqRight makes).many.map fun _ others => List.forall_mem_cons.mpr ⟨holds, others⟩

theorem spanned (makes : Makes source found reader) : Makes source (·.span.Within source) (spanned reader) := by
  intro tokens placed
  have read := makes tokens placed
  have run : Reader.spanned reader tokens = (reader tokens).bind fun found =>
      .ok (⟨found.1, SyntaxError.spanOf (tokens.take (tokens.length - found.2.length))⟩, found.2) := rfl
  rw [run]
  generalize reader tokens = result at read
  cases read with
  | ok holds rest =>
    exact .ok (SyntaxError.within_spanOf fun token taken => placed token (List.mem_of_mem_take taken)) rest
  | error within => exact .error within

theorem ahead (makes : Makes source found reader) : Makes source found (ahead reader) := by
  intro tokens placed
  have read := makes tokens placed
  rw [Reader.ahead]
  generalize reader tokens = result at read
  cases read with
  | ok holds _ => exact .ok holds placed
  | error within => exact .error ⟨placed, within.inside⟩

end Makes

/-! Single tokens and names. -/

theorem makes_keyword (word : Keyword) : Makes source (·.Within source) (keyword word) :=
  (Makes.token.map fun _ within => within).expecting _

theorem makes_mark (sign : Mark) : Makes source (·.Within source) (mark sign) :=
  (Makes.token.map fun _ within => within).expecting _

theorem makes_identifier : Makes source (·.span.Within source) identifier :=
  Makes.token.expecting _

theorem makes_number : Makes source (·.span.Within source) number :=
  Makes.token.expecting _

theorem makes_text : Makes source (·.span.Within source) text :=
  Makes.token.expecting _

theorem makes_qualifiedName : Makes source (·.span.Within source) qualifiedName := by
  refine makes_identifier.bind fun first start => ?_
  refine ((makes_mark .doubleColon).seqRight makes_identifier).many.bind fun names placed => .pure ?_
  cases last : names.getLast? with
  | none => exact start.union start
  | some name => exact start.union (placed name (List.mem_of_getLast? last))

theorem makes_qualifiedNames : Makes source (fun names => ∀ name ∈ names, name.span.Within source) qualifiedNames :=
  (makes_mark .comma).separated makes_qualifiedName

/-! Expressions have no places of their own. -/

/-- The reader tells of nothing outside the text. -/
abbrev Stays (source : String) (reader : Reader α) : Prop :=
  Makes source (fun _ => True) reader

section expressions

variable {expression operand : Reader Expr}

theorem stays_unit : Stays source unit := by
  refine Makes.expecting (fun tokens placed => ?_) _
  have pieces : Makes source _ (oneOrMore (token unitPiece?)) := Makes.token.oneOrMore
  have read := pieces tokens placed
  generalize oneOrMore (token unitPiece?) tokens = result at read ⊢
  cases read with
  | ok _ rest =>
    simp only [bind, Except.bind]
    split
    · exact .ok trivial rest
    · exact .error (SyntaxError.within_stopped placed)
  | error within => exact .error within

theorem stays_numberOrQuantity : Stays source numberOrQuantity := by
  refine makes_number.bind fun value _ => (makes_mark .leftBracket).optional.bind fun bracket? _ => ?_
  cases bracket? with
  | none => exact .pure trivial
  | some bracket => exact (stays_unit.seqLeft (makes_mark .rightBracket)).committed.map fun _ _ => trivial

theorem stays_parenthesized (inner : Stays source expression) : Stays source (parenthesized expression) :=
  (makes_mark .leftParen).seqRight (inner.seqLeft (makes_mark .rightParen)).committed

theorem stays_call (inner : Stays source expression) : Stays source (call expression) := by
  refine (makes_identifier.seqLeft (makes_mark .leftParen)).bind fun function _ => Makes.committed ?_
  exact (((makes_mark .comma).separated inner).optional.seqLeft (makes_mark .rightParen)).bind fun _ _ => .pure trivial

theorem stays_primary (inner : Stays source expression) : Stays source (primary expression) :=
  stays_numberOrQuantity.either <| (makes_text.map fun _ _ => trivial).either <|
    ((makes_keyword .yes).map fun _ _ => trivial).either <| ((makes_keyword .no).map fun _ _ => trivial).either <|
      (stays_parenthesized inner).either <| (stays_call inner).either (makes_qualifiedName.map fun _ _ => trivial)

theorem stays_members (inner : Stays source expression) : Stays source (members expression) :=
  (stays_primary inner).bind fun _ _ =>
    ((makes_mark .dot).seqRight makes_identifier.committed).many.bind fun _ _ => .pure trivial

theorem stays_power (inner : Stays source expression) (exponent : Stays source operand) :
    Stays source (power expression operand) := by
  refine (stays_members inner).bind fun base _ => ?_
  refine ((makes_mark .power).either (makes_mark .caret)).optional.bind fun sign? _ => ?_
  cases sign? with
  | none => exact .pure trivial
  | some sign => exact exponent.committed.map fun _ _ => trivial

theorem stays_negated (inner : Stays source operand) : Stays source (negated operand) :=
  Makes.token.bind fun _ _ => inner.committed.map fun _ _ => trivial

theorem stays_chain (level : OperatorLevel) (tighter : Stays source operand) : Stays source (chain level operand) := by
  refine tighter.bind fun first _ => ?_
  have next : Stays source (token level.operator? >>= fun op => (op.value, ·) <$> committed operand) :=
    Makes.token.bind fun _ _ => tighter.committed.map fun _ _ => trivial
  exact next.many.bind fun _ _ => .pure trivial

theorem stays_operation (tightest : Stays source operand) : Stays source (operation operand) := by
  rw [operation]
  induction OperatorLevel.all generalizing operand with
  | nil => exact tightest
  | cons level levels ih => exact ih (stays_chain level tightest)

theorem stays_conditional (inner : Stays source expression) (tighter : Stays source operand) :
    Stays source (conditional expression operand) := by
  refine (makes_keyword .ifThen).bind fun _ _ => Makes.committed ?_
  refine ((stays_operation tighter).seqLeft (makes_mark .question)).bind fun _ _ => ?_
  exact (inner.seqLeft (makes_keyword .otherwise)).bind fun _ _ => inner.bind fun _ _ => .pure trivial

theorem stays_within (depth : Nat) : Stays source (operandWithin depth) ∧ Stays source (expressionWithin depth) := by
  induction depth with
  | zero =>
    rw [operandWithin, expressionWithin]
    exact ⟨.fail, .fail⟩
  | succ depth ih =>
    obtain ⟨operand, expression⟩ := ih
    rw [operandWithin, expressionWithin]
    exact ⟨(stays_negated operand).either (stays_power expression operand),
      ((stays_conditional expression operand).either (stays_operation operand)).expecting _⟩

theorem stays_expression : Stays source Reader.expression :=
  fun tokens placed => (stays_within _).2 tokens placed

end expressions

end Reader

/-- All that is named in the header stands in the text. -/
structure UsageHeader.Within (header : UsageHeader) (source : String) : Prop where
  name? : ∀ name ∈ header.name?, name.span.Within source
  redefines? : ∀ name ∈ header.redefines?, name.span.Within source
  types : ∀ name ∈ header.types, name.span.Within source
  multiplicity? : ∀ count ∈ header.multiplicity?, count.span.Within source
  subsets : ∀ name ∈ header.subsets, name.span.Within source
  value? : ∀ value ∈ header.value?, value.span.Within source

namespace Reader

theorem stays_redefinition : Stays source redefinition :=
  (Makes.token.map fun _ _ => trivial).expecting _

theorem all_getD {α : Type} {found : α → Prop} {values? : Option (List α)}
    (all : ∀ values ∈ values?, ∀ value ∈ values, found value) : ∀ value ∈ values?.getD [], found value := by
  cases values? with
  | none => nofun
  | some values => exact all values rfl

theorem makes_specializations :
    Makes source (fun names => ∀ name ∈ names, name.span.Within source) specializations :=
  ((makes_mark .specializes).seqRight makes_qualifiedNames).optional.map fun _ => all_getD

theorem makes_usageNames : Makes source (fun names => (∀ name ∈ names.1, name.span.Within source) ∧
    ∀ name ∈ names.2, name.span.Within source) usageNames := by
  refine stays_redefinition.optional.bind fun sign? _ => ?_
  cases sign? with
  | some sign =>
    refine makes_identifier.bind fun target within => .pure ⟨nofun, ?_⟩
    rintro _ ⟨⟩
    exact within
  | none =>
    refine makes_identifier.bind fun name within => ?_
    refine (stays_redefinition.seqRight makes_identifier).optional.bind fun target? placed => .pure ⟨?_, placed⟩
    rintro _ ⟨⟩
    exact within

theorem makes_usageHeader : Makes source (·.Within source) usageHeader := by
  refine makes_usageNames.bind fun names placed => ?_
  refine ((makes_mark .colon).seqRight makes_qualifiedNames).optional.bind fun types? types => ?_
  refine (((makes_mark .leftBracket).seqRight makes_number).seqLeft (makes_mark .rightBracket)).optional.bind
    fun count? count => ?_
  refine makes_specializations.bind fun subsets general => ?_
  refine ((makes_mark .assign).seqRight stays_expression.spanned).optional.bind fun value? value => .pure ?_
  exact ⟨placed.1, placed.2, all_getD types, count, general, value⟩

end Reader
end StructuralModel
