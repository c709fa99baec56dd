import StructuralModel.Proofs.ExpressionSource
import StructuralModel.Proofs.PrintedUnit
import StructuralModel.Expr.Printer

/-! The text of an expression as a source text. It is cut into tokens wherever something stops it, and these are read as
the expression itself if every part binds as tight, where it is printed, as its place asks for. -/

namespace StructuralModel

/-- What printing can keep: finite numbers, texts of printable characters, names that need no quotes, and units whose
symbols are made of such names and whose exponents can do without their sign. -/
def Leaf.Plain : Leaf → Prop
  | number value => (Dyadic.ofFloat? value).isSome = true
  | text value => Lexer.PrintableText value
  | name written => Lexer.PlainName written
  | unit u => ∀ factor ∈ u.factors, PhysicalUnit.PlainSymbol factor.1 ∧ factor.2 ≠ -2147483648

namespace Expr

/-- How an expression binds where it is printed; binary operations stand in parentheses. -/
def printedBinding : Expr → Binding
  | literal _ | quantity _ _ | reference _ | call _ _ | binary _ _ _ => .primary
  | member _ _ => .member
  | unary _ _ => .prefixed
  | conditional _ _ _ => .conditional

mutual

/-- No part is printed as something looser than its place asks for. -/
def Legible : Expr → Prop
  | literal _ | quantity _ _ | reference _ => True
  | member target _ => Binding.member.rank ≤ target.printedBinding.rank ∧ target.Legible
  | unary _ operand => Binding.prefixed.rank ≤ operand.printedBinding.rank ∧ operand.Legible
  | binary op lhs rhs => (op.leftPlace.rank ≤ lhs.printedBinding.rank ∧ lhs.Legible) ∧
      op.rightPlace.rank ≤ rhs.printedBinding.rank ∧ rhs.Legible
  | conditional condition whenTrue whenFalse =>
    ((Binding.chained .disjunction).rank ≤ condition.printedBinding.rank ∧ condition.Legible) ∧
      whenTrue.Legible ∧ whenFalse.Legible
  | call _ arguments => ListLegible arguments

def ListLegible : List Expr → Prop
  | [] => True
  | expr :: rest => expr.Legible ∧ ListLegible rest

end

end Expr

namespace Lexer

/-- A point that a name follows does not go on with a number. -/
theorem stops_point {name : String} (plain : PlainName name) (rest : List Char) : Stops ('.' :: (name.toList ++ rest)) := by
  obtain ⟨⟨c, cs, same, start, _⟩, _⟩ := plain
  have digit := isDigit_of_isWordStart start
  refine Separate.stops ⟨?_, ?_, ?_, ?_⟩ (by decide)
  · simp only [List.head?_cons, Option.mem_some, forall_eq']
    decide
  · simp only [List.head?_cons, Option.mem_some, forall_eq']
    decide
  · rw [same]
    simp [fractionOf, Text.spanOf, digit]
  · simp

theorem unmarked_name {name : String} (plain : PlainName name) (rest : List Char) : Unmarked (name.toList ++ rest) := by
  obtain ⟨⟨c, cs, same, start, _⟩, _⟩ := plain
  intro other next marked
  rw [same, List.cons_append, List.head?_cons] at next
  obtain rfl := Option.some.inj next
  simp only [List.mem_cons, List.not_mem_nil, or_false] at marked
  rcases marked with rfl | rfl | rfl | rfl | rfl <;> cases start

/-! Marks and keywords in front of a blank. -/

theorem cuts_mark_blank (mark : Mark) : Cuts (mark.spelling ++ [' ']) [.mark mark] fun _ => True :=
  (cuts_mark mark).append (cuts_space _) fun rest _ => (stops_sign (by decide) rest).mark

theorem cuts_keyword_blank (word : Keyword) : Cuts (word.spelling.toList ++ [' ']) [.keyword word] fun _ => True :=
  (cuts_keyword word).append (cuts_space _) fun rest _ => separate_sign (by decide) rest

end Lexer

namespace Reader
open Lexer

/-- Where something stops the text, it is cut into tokens that are read as the expression. -/
def Prints (text : List Char) (binding : Binding) (e : Expr) : Prop :=
  ∃ written, Cuts text written Stops ∧ Reads written binding e

variable {text more : List Char} {binding : Binding}

theorem prints_number {value : Float} (cuts : Cuts (Decimal.text value).toList [.number value] Separate) :
    Prints (Decimal.text value).toList .primary (.literal (.number value)) :=
  ⟨_, cuts.mono fun _ stops => stops.toSeparate, reads_literal (.number value)⟩

theorem prints_boolean (value : Bool) :
    Prints (Literal.boolean value).printed.toList .primary (.literal (.boolean value)) := by
  refine ⟨_, ?_, reads_literal (.boolean value)⟩
  cases value
  · exact (cuts_keyword .no).mono fun _ stops => stops.toSeparate
  · exact (cuts_keyword .yes).mono fun _ stops => stops.toSeparate

theorem prints_text {value : String} (printable : PrintableText value) :
    Prints (Text.quoted value).toList .primary (.literal (.text value)) :=
  ⟨_, cuts_text printable _, reads_literal (.text value)⟩

theorem prints_quantity {value : Float} {u : PhysicalUnit} (cuts : Cuts (Decimal.text value).toList [.number value] Separate)
    (readable : u.Readable) (plain : ∀ factor ∈ u.factors, PhysicalUnit.PlainSymbol factor.1) :
    Prints (Decimal.text value ++ " [" ++ u.text ++ "]").toList .primary (.quantity value u) := by
  obtain ⟨tokens, ⟨measured, known⟩, read⟩ := PhysicalUnit.exists_tokens readable plain
  have opening : Cuts [' ', '['] [.mark .leftBracket] fun _ => True :=
    (cuts_space fun _ => True).append (cuts_single fun _ => rfl) fun _ _ => trivial
  have closing : Cuts [']'] [.mark .rightBracket] Stops := cuts_single fun _ => rfl
  have inside := measured.append closing fun rest _ => separate_sign (by decide) rest
  have bracketed := opening.append inside fun _ _ => trivial
  have whole := cuts.append bracketed fun rest _ => separate_sign (by decide) _
  refine ⟨_, ?_, reads_quantity value (.respelled known) read⟩
  simpa using whole

theorem prints_reference {path : Path} (plain : ∀ name ∈ path.segments, PlainName name) :
    Prints path.text.toList .primary (.reference path) := by
  have names : Cuts ([':', ':'].intercalate (path.segments.map String.toList))
      ([.mark .doubleColon].intercalate (path.segments.map fun name => [.identifier name])) Separate :=
    cuts_intercalate (cuts_mark .doubleColon) (fun name member => cuts_name (plain name member))
      (fun _ => separate_sign (by decide) _) fun name member => unmarked_name (plain name member)
  have written : [.mark .doubleColon].intercalate (path.segments.map fun name => [.identifier name]) = path.tokens := by
    rw [Path.segments, List.map_cons, intercalate_eq_flatMap, List.flatMap_map]
    rfl
  rw [written] at names
  refine ⟨path.tokens, ?_, reads_reference path⟩
  rw [Path.text, QualifiedName.joinAll, String.toList_intercalate]
  exact names.mono fun _ stops => stops.toSeparate

theorem prints_member {target : Expr} {name : String} (plain : PlainName name) (prints : Prints text binding target)
    (tight : Binding.member.rank ≤ binding.rank) : Prints (text ++ '.' :: name.toList) .member (.member target name) := by
  obtain ⟨written, cuts, reads⟩ := prints
  have point : Cuts ['.'] [.mark .dot] fun _ => True := cuts_single fun _ => rfl
  have named := point.append (cuts_name plain) fun _ _ => trivial
  refine ⟨_, ?_, reads_member (reads.fits tight) name⟩
  exact (cuts.append named fun rest _ => stops_point plain rest).mono fun _ stops => stops.toSeparate

theorem prints_unary (op : UnaryOp) {operand : Expr} (prints : Prints text binding operand)
    (tight : Binding.prefixed.rank ≤ binding.rank) : Prints (op.leading.toList ++ text) .prefixed (.unary op operand) := by
  obtain ⟨written, cuts, reads⟩ := prints
  have leading : Cuts op.leading.toList [op.token] fun _ => True := by
    cases op with
    | neg => exact cuts_single fun _ => rfl
    | not => exact cuts_keyword_blank .not
  exact ⟨_, leading.append cuts fun _ _ => trivial, reads_unary op (reads.fits tight)⟩

/-- Operators stand between blanks. -/
theorem cuts_operator (op : BinaryOp) : Cuts (' ' :: op.symbol.toList ++ [' ']) [op.token] fun _ => True := by
  have spelled : Cuts (op.symbol.toList ++ [' ']) [op.token] fun _ => True := by
    cases op with
    | and => exact cuts_keyword_blank .and
    | or => exact cuts_keyword_blank .or
    | xor => exact cuts_keyword_blank .xor
    | add => exact cuts_mark_blank .plus
    | sub => exact cuts_mark_blank .minus
    | mul => exact cuts_mark_blank .star
    | div => exact cuts_mark_blank .slash
    | rem => exact cuts_mark_blank .percent
    | pow => exact cuts_mark_blank .power
    | eq => exact cuts_mark_blank .equal
    | ne => exact cuts_mark_blank .notEqual
    | lt => exact cuts_mark_blank .less
    | le => exact cuts_mark_blank .lessEqual
    | gt => exact cuts_mark_blank .greater
    | ge => exact cuts_mark_blank .greaterEqual
  exact (cuts_space fun _ => True).append spelled fun _ _ => trivial

theorem prints_binary {op : BinaryOp} {lhs rhs : Expr} {other : Binding} (left : Prints text binding lhs)
    (leftTight : op.leftPlace.rank ≤ binding.rank) (right : Prints more other rhs)
    (rightTight : op.rightPlace.rank ≤ other.rank) :
    Prints ('(' :: text ++ (' ' :: op.symbol.toList ++ [' ']) ++ more ++ [')']) .primary (.binary op lhs rhs) := by
  obtain ⟨written, cuts, reads⟩ := left
  obtain ⟨others, cuts', reads'⟩ := right
  have opening : Cuts ['('] [.mark .leftParen] fun _ => True := cuts_single fun _ => rfl
  have closing : Cuts [')'] [.mark .rightParen] fun _ => True := cuts_single fun _ => rfl
  have first := opening.append cuts fun _ _ => trivial
  have operated := first.append (cuts_operator op) fun rest _ => stops_sign (by decide) _
  have second := operated.append cuts' fun _ _ => trivial
  have whole := second.append closing fun rest _ => stops_sign (by decide) rest
  have inside : Fits .conditional (written ++ op.token :: others) (.binary op lhs rhs) :=
    (reads_binary (reads.fits leftTight) (reads'.fits rightTight)).fits (Nat.zero_le _)
  refine ⟨_, ?_, reads_parenthesized inside⟩
  have same : Expr.parenthesized (written ++ op.token :: others) =
      [.mark .leftParen] ++ written ++ [op.token] ++ others ++ [.mark .rightParen] := by simp [Expr.parenthesized]
  rw [same]
  exact whole.mono fun _ _ => trivial

theorem prints_conditional {condition whenTrue whenFalse : Expr} {asked chosen other : List Char}
    {first second third : Binding} (printsCondition : Prints asked first condition) (tight : (Binding.chained .disjunction).rank ≤ first.rank)
    (printsTrue : Prints chosen second whenTrue) (printsFalse : Prints other third whenFalse) :
    Prints ("if ".toList ++ asked ++ " ? ".toList ++ chosen ++ " else ".toList ++ other) .conditional
      (.conditional condition whenTrue whenFalse) := by
  obtain ⟨ask, cutsCondition, readsCondition⟩ := printsCondition
  obtain ⟨choose, cutsTrue, readsTrue⟩ := printsTrue
  obtain ⟨decline, cutsFalse, readsFalse⟩ := printsFalse
  have opening : Cuts "if ".toList [.keyword .ifThen] fun _ => True := cuts_keyword_blank .ifThen
  have question : Cuts " ? ".toList [.mark .question] fun _ => True :=
    (cuts_space fun _ => True).append (cuts_mark_blank .question) fun _ _ => trivial
  have otherwise : Cuts " else ".toList [.keyword .otherwise] fun _ => True :=
    (cuts_space fun _ => True).append (cuts_keyword_blank .otherwise) fun _ _ => trivial
  have one := opening.append cutsCondition fun _ _ => trivial
  have two := one.append question fun rest _ => stops_sign (by decide) _
  have three := two.append cutsTrue fun _ _ => trivial
  have four := three.append otherwise fun rest _ => stops_sign (by decide) _
  have whole := four.append cutsFalse fun _ _ => trivial
  refine ⟨_, ?_, reads_conditional (readsCondition.fits tight) (readsTrue.fits (Nat.zero_le _))
    (readsFalse.fits (Nat.zero_le _))⟩
  simpa using whole

theorem texts_eq_map (arguments : List Expr) : Expr.texts arguments = arguments.map Expr.text := by
  induction arguments with
  | nil => rfl
  | cons argument rest ih => rw [Expr.texts, ih, List.map_cons]

theorem prints_call {function : String} (plain : PlainName function) {arguments : List Expr}
    (each : ∀ argument ∈ arguments, ∃ binding, Prints argument.text.toList binding argument) :
    Prints (function ++ "(" ++ ", ".intercalate (Expr.texts arguments) ++ ")").toList .primary
      (.call function arguments) := by
  have taken : ∀ argument ∈ arguments, ∃ written, Cuts argument.text.toList written Stops ∧
      Fits .conditional written argument := by
    intro argument member
    obtain ⟨binding, written, cuts, reads⟩ := each argument member
    exact ⟨written, cuts, reads.fits (Nat.zero_le _)⟩
  choose! written taken using taken
  have comma : Cuts [',', ' '] [.mark .comma] fun _ => True := by
    have mark : Cuts [','] [.mark .comma] fun _ => True := cuts_single fun _ => rfl
    exact mark.append (cuts_space fun _ => True) fun _ _ => trivial
  have listed : Cuts ([',', ' '].intercalate (arguments.map fun argument => argument.text.toList))
      ([.mark .comma].intercalate (arguments.map written)) Stops :=
    cuts_intercalate comma (fun argument member => (taken argument member).1) (fun rest => stops_sign (by decide) _)
      fun _ _ _ => trivial
  have opening : Cuts ['('] [.mark .leftParen] fun _ => True := cuts_single fun _ => rfl
  have closing : Cuts [')'] [.mark .rightParen] fun _ => True := cuts_single fun _ => rfl
  have inside := listed.append closing fun rest _ => stops_sign (by decide) rest
  have bracketed := opening.append inside fun _ _ => trivial
  have whole := (cuts_name plain).append bracketed fun rest _ => separate_sign (by decide) _
  have call := reads_call function (List.forall_mem_map.mpr fun argument member => (taken argument member).2 :
    ∀ argument ∈ arguments.map fun e => (written e, e), Fits .conditional argument.1 argument.2)
  rw [List.map_map, List.map_map] at call
  have same : arguments.map ((fun argument => argument.2) ∘ fun e => (written e, e)) = arguments := List.map_id _
  have texts : (", ".intercalate (Expr.texts arguments)).toList =
      [',', ' '].intercalate (arguments.map fun argument => argument.text.toList) := by
    rw [String.toList_intercalate, texts_eq_map, List.map_map]
    rfl
  rw [same] at call
  refine ⟨_, ?_, call⟩
  rw [String.toList_append, String.toList_append, String.toList_append, texts, List.append_assoc, List.append_assoc]
  exact whole.mono fun _ _ => trivial

/-- What a leaf needs in order to be read back from its text. -/
def Restorable : Leaf → Prop
  | .number value => Cuts (Decimal.text value).toList [.number value] Separate
  | .text value => PrintableText value
  | .name written => PlainName written
  | .unit u => u.Readable ∧ ∀ factor ∈ u.factors, PhysicalUnit.PlainSymbol factor.1

mutual

/-- An expression is read back from its text if no part of it is printed too loose. -/
theorem prints : (e : Expr) → (∀ leaf ∈ e.leaves, Restorable leaf) → e.Legible → Prints e.text.toList e.printedBinding e
  | .literal (.number value), leaves, _ => prints_number (leaves (.number value) List.mem_cons_self)
  | .literal (.boolean value), _, _ => prints_boolean value
  | .literal (.text value), leaves, _ => prints_text (leaves (.text value) List.mem_cons_self)
  | .quantity value u, leaves, _ => by
    have number : Cuts (Decimal.text value).toList [.number value] Separate := leaves (.number value) List.mem_cons_self
    have unit : u.Readable ∧ ∀ factor ∈ u.factors, PhysicalUnit.PlainSymbol factor.1 :=
      leaves (.unit u) (List.mem_cons_of_mem _ List.mem_cons_self)
    exact prints_quantity number unit.1 unit.2
  | .reference path, leaves, _ => prints_reference fun name member => leaves (.name name) (List.mem_map_of_mem member)
  | .member target name, leaves, legible => by
    obtain ⟨inside, named⟩ := List.forall_mem_append.mp leaves
    have plain : PlainName name := named (.name name) List.mem_cons_self
    have printed := prints_member plain (prints target inside legible.2) legible.1
    simpa [Expr.text, Expr.printedBinding] using printed
  | .unary op operand, leaves, legible => by
    have printed := prints_unary op (prints operand leaves legible.2) legible.1
    simpa [Expr.text, Expr.printedBinding] using printed
  | .binary op lhs rhs, leaves, legible => by
    obtain ⟨left, right⟩ := List.forall_mem_append.mp leaves
    have printed := prints_binary (prints lhs left legible.1.2) legible.1.1 (prints rhs right legible.2.2) legible.2.1
    simpa [Expr.text, Expr.printedBinding] using printed
  | .conditional condition whenTrue whenFalse, leaves, legible => by
    obtain ⟨others, declined⟩ := List.forall_mem_append.mp leaves
    obtain ⟨asked, chosen⟩ := List.forall_mem_append.mp others
    have printed := prints_conditional (prints condition asked legible.1.2) legible.1.1 (prints whenTrue chosen legible.2.1)
      (prints whenFalse declined legible.2.2)
    simpa [Expr.text, Expr.printedBinding] using printed
  | .call function arguments, leaves, legible => by
    obtain ⟨named, others⟩ := List.forall_mem_cons.mp leaves
    exact prints_call named (prints_all arguments others legible)

theorem prints_all : (arguments : List Expr) → (∀ leaf ∈ Expr.listLeaves arguments, Restorable leaf) →
    Expr.ListLegible arguments → ∀ argument ∈ arguments, ∃ binding, Prints argument.text.toList binding argument
  | [], _, _ => nofun
  | argument :: rest, leaves, legible => by
    obtain ⟨first, others⟩ := List.forall_mem_append.mp leaves
    exact List.forall_mem_cons.mpr ⟨⟨_, prints argument first legible.1⟩, prints_all rest others legible.2⟩

end

/-- The leaves of what is read from a source text can be read back, if they are plain. -/
theorem restorable {source : String} {e : Expr} (read : e.ReadFrom source) (plain : ∀ leaf ∈ e.leaves, leaf.Plain)
    (exact_ : ∀ value, .number value ∈ e.leaves → Decimal.read? (Decimal.text value).toList = some value) :
    ∀ leaf ∈ e.leaves, Restorable leaf := by
  obtain ⟨tokens, lexed, parsed⟩ := read
  have pieces := lexed_of_values? (values?_of_tokens lexed)
  intro leaf member
  have own := plain leaf member
  have stands := standsIn_of_expression parsed leaf member
  cases leaf with
  | number value => exact Decimal.cuts_text own (pieces.unsigned stands) (exact_ value member)
  | text value => exact own
  | name written => exact own
  | unit u =>
    obtain ⟨part, _, read⟩ := stands
    exact ⟨⟨PhysicalUnit.symbolic_of_read read, fun factor inside => (own factor inside).2⟩,
      fun factor inside => (own factor inside).1⟩

end Reader

namespace Expr
open Lexer Reader

/-- An expression that is read from a source text is read again from its own text. -/
theorem readFrom_text {source : String} {e : Expr} (read : e.ReadFrom source) (plain : ∀ leaf ∈ e.leaves, leaf.Plain)
    (exact_ : ∀ value, .number value ∈ e.leaves → Decimal.read? (Decimal.text value).toList = some value)
    (legible : e.Legible) : e.ReadFrom e.text := by
  obtain ⟨written, cuts, reads⟩ := prints e (restorable read plain exact_) legible
  have lexed := lexed_of_values? (cuts.values? Lexer.stops_nil)
  exact readFrom_of_lexed lexed (reads.fits (Nat.zero_le _))

theorem numberOf_two : numberOf ['2'] [] [] = 2 :=
  Decimal.ofDigits_whole ['2']

theorem plain_two : (Leaf.number 2).Plain := by
  have known := Dyadic.ofFloat?_ofNat (by decide : 0 < 2) (by decide)
  rw [Leaf.Plain]
  exact Option.isSome_of_eq_some known

theorem exact_two : Decimal.read? (Decimal.text 2).toList = some 2 :=
  Decimal.read?_text_ofNat (by decide)

/-- The expression `-(f(a.b, "x") + 2 [m/s^2]) ** 2`. -/
def squaredSum : Expr :=
  .unary .neg (.binary .pow
    (.binary .add (.call "f" [.member (.reference (.simple "a")) "b", .literal (.text "x")]) (.quantity 2 acceleration))
    (.literal (.number 2)))

theorem lexed_squaredSum : Lexed "-(f(a.b, \"x\") + 2 [m/s^2]) ** 2".toList squaredSum.tokens := by
  have same : squaredSum.tokens = [.mark .minus, .mark .leftParen, .identifier "f", .mark .leftParen, .identifier "a",
      .mark .dot, .identifier "b", .mark .comma, .text "x", .mark .rightParen, .mark .plus, .number 2, .mark .leftBracket,
      .identifier "m", .mark .slash, .identifier "s", .mark .caret, .number 2, .mark .rightBracket, .mark .rightParen,
      .mark .power, .number 2] := rfl
  rw [same, ← numberOf_two]
  exact .token rfl (.token rfl (.token rfl (.token rfl (.token rfl (.token rfl (.token rfl (.token rfl (.blank rfl
    (.token rfl (.token rfl (.blank rfl (.token rfl (.blank rfl (.token rfl (.blank rfl (.token rfl (.token rfl (.token rfl
    (.token rfl (.token rfl (.token rfl (.token rfl (.token rfl (.blank rfl (.token rfl (.blank rfl
    (.token rfl .nil)))))))))))))))))))))))))))

theorem plain_squaredSum : ∀ leaf ∈ squaredSum.leaves, leaf.Plain := by
  have letter : ∀ {name : String} {c : Char}, name.toList = [c] → isWordStart c = true → Keyword.ofSpelling? name = none →
      PlainName name := fun same start other => ⟨⟨_, [], same, start, nofun⟩, other⟩
  have symbol : ∀ {name : String} {c : Char}, name.toList = [c] → c ≠ '%' → isWordStart c = true →
      Keyword.ofSpelling? name = none → PhysicalUnit.PlainSymbol name := by
    intro name c same apart start other word member
    rw [same, Text.splitAt_of_notMem (by simpa using apart.symm), List.mem_singleton, ← same] at member
    rw [member, String.ofList_toList]
    exact .inr (letter same start other)
  have unit : (Leaf.unit acceleration).Plain := by
    intro factor member
    rcases List.mem_cons.mp member with rfl | member
    · exact ⟨symbol rfl (by decide) rfl (by decide), by decide⟩
    · obtain rfl := List.mem_singleton.mp member
      exact ⟨symbol rfl (by decide) rfl (by decide), by decide⟩
  have text : PrintableText "x" := by simp [PrintableText]
  simp only [squaredSum, leaves, listLeaves, Path.simple, Path.segments, List.map_cons, List.map_nil, List.cons_append,
    List.nil_append, List.append_nil, List.forall_mem_cons]
  exact ⟨letter rfl rfl (by decide), letter rfl rfl (by decide), letter rfl rfl (by decide), text, plain_two, unit,
    plain_two, List.forall_mem_nil _⟩

theorem readFrom_text_squaredSum : (squaredSum.ReadFrom "-(f(a.b, \"x\") + 2 [m/s^2]) ** 2" ∧
    (∀ leaf ∈ squaredSum.leaves, leaf.Plain) ∧
    (∀ value, .number value ∈ squaredSum.leaves → Decimal.read? (Decimal.text value).toList = some value) ∧
    squaredSum.Legible) ∧ squaredSum.ReadFrom squaredSum.text := by
  have units : ∀ unit ∈ squaredSum.units, unit.Readable ∧ unit.PlainNumbers := by
    intro unit member
    obtain rfl : unit = acceleration := by simpa [squaredSum, Expr.units, Expr.listUnits] using member
    refine ⟨⟨?_, by decide⟩, PhysicalUnit.plainNumbers _⟩
    simp only [PhysicalUnit.Writable]
    decide
  have read := readFrom_of_lexed lexed_squaredSum ((reads_tokens squaredSum units).fits (Nat.zero_le _))
  have exact_ : ∀ value, .number value ∈ squaredSum.leaves → Decimal.read? (Decimal.text value).toList = some value := by
    intro value member
    obtain rfl : value = 2 := by simpa [squaredSum, leaves, listLeaves, Path.simple, Path.segments] using member
    exact exact_two
  have legible : squaredSum.Legible := by
    simp only [squaredSum, Legible, ListLegible]
    decide
  exact ⟨⟨read, plain_squaredSum, exact_, legible⟩, readFrom_text read plain_squaredSum exact_ legible⟩

/-- The expression `(-2) ** 2`. -/
def negativeBase : Expr :=
  .binary .pow (.unary .neg (.literal (.number 2))) (.literal (.number 2))

/-- A negative base loses its parentheses, and is read as the negative of a power. -/
theorem not_readFrom_negativeBase : ¬ ∀ (source : String) (e : Expr), e.ReadFrom source → (∀ leaf ∈ e.leaves, leaf.Plain) →
    (∀ value, .number value ∈ e.leaves → Decimal.read? (Decimal.text value).toList = some value) → e.ReadFrom e.text := by
  intro readsBack
  have two : Reads [.number 2] .primary (.literal (.number 2)) := reads_literal (.number 2)
  have negative : Reads [.mark .minus, .number 2] .prefixed (.unary .neg (.literal (.number 2))) :=
    reads_unary .neg (two.fits (by decide))
  have lexed : Lexed "(-2) ** 2".toList
      [.mark .leftParen, .mark .minus, .number 2, .mark .rightParen, .mark .power, .number 2] := by
    rw [← numberOf_two]
    exact .token rfl (.token rfl (.token rfl (.token rfl (.blank rfl (.token rfl (.blank rfl (.token rfl .nil)))))))
  have base := reads_parenthesized (negative.fits (Nat.zero_le _))
  have whole : Reads _ .power negativeBase := reads_power (base.fits (by decide)) (two.fits (by decide))
  have read : negativeBase.ReadFrom "(-2) ** 2" := readFrom_of_lexed lexed (whole.fits (Nat.zero_le _))
  have printed : negativeBase.text = "(-2 ** 2)" := by
    have two : Decimal.text 2 = "2" := Decimal.text_ofNat (by decide)
    simp [negativeBase, Expr.text, Literal.printed, two, UnaryOp.leading, BinaryOp.symbol]
  have numbers : ∀ leaf ∈ negativeBase.leaves, leaf = .number 2 := by simp [negativeBase, leaves]
  have again := readsBack "(-2) ** 2" negativeBase read (fun leaf member => numbers leaf member ▸ plain_two)
    fun value member => Leaf.number.inj (numbers _ member) ▸ exact_two
  have relexed : Lexed "(-2 ** 2)".toList
      [.mark .leftParen, .mark .minus, .number 2, .mark .power, .number 2, .mark .rightParen] := by
    rw [← numberOf_two]
    exact .token rfl (.token rfl (.token rfl (.blank rfl (.token rfl (.blank rfl (.token rfl (.token rfl .nil)))))))
  have power := reads_power (two.fits (by decide)) (two.fits (by decide))
  have negated := reads_unary .neg (power.fits (by decide))
  have other := readFrom_of_lexed relexed ((reads_parenthesized (negated.fits (Nat.zero_le _))).fits (Nat.zero_le _))
  rw [printed] at again
  cases again.unique other

end Expr
end StructuralModel
