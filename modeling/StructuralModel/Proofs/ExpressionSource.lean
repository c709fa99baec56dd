import StructuralModel.Proofs.ExpressionReading
import StructuralModel.Proofs.ContinuedReading
import StructuralModel.Proofs.LexedText

/-! What an expression is read from. Everything that it is made of stands in its tokens: a reader gathers from the tokens
it takes the numbers, texts, names and units of what it gives, apart from those that are known before. -/

namespace StructuralModel

/-- What an expression is made of. -/
inductive Leaf
  | number (value : Float)
  | text (value : String)
  | name (name : String)
  | unit (unit : PhysicalUnit)

namespace Expr

mutual

def leaves : Expr → List Leaf
  | literal (.number value) => [.number value]
  | literal (.boolean _) => []
  | literal (.text value) => [.text value]
  | quantity value unit => [.number value, .unit unit]
  | reference path => path.segments.map .name
  | member target name => target.leaves ++ [.name name]
  | unary _ operand => operand.leaves
  | binary _ lhs rhs => lhs.leaves ++ rhs.leaves
  | conditional condition whenTrue whenFalse => condition.leaves ++ whenTrue.leaves ++ whenFalse.leaves
  | call function arguments => .name function :: listLeaves arguments

def listLeaves : List Expr → List Leaf
  | [] => []
  | expr :: rest => expr.leaves ++ listLeaves rest

end

theorem listLeaves_eq_flatMap (arguments : List Expr) : listLeaves arguments = arguments.flatMap leaves := by
  induction arguments with
  | nil => rfl
  | cons argument rest ih => rw [listLeaves, ih, List.flatMap_cons]

end Expr

/-- The leaf is written with some of these tokens. -/
def Leaf.StandsIn (tokens : List Token) : Leaf → Prop
  | number value => .number value ∈ tokens
  | text value => .text value ∈ tokens
  | name written => .identifier written ∈ tokens
  | unit u => ∃ part ⊆ tokens, PhysicalUnit.read (Reader.respelled part) = .ok u

theorem Leaf.StandsIn.mono {leaf : Leaf} {tokens more : List Token} (stands : leaf.StandsIn tokens)
    (inside : tokens ⊆ more) : leaf.StandsIn more := by
  cases leaf with
  | number value => exact inside stands
  | text value => exact inside stands
  | name written => exact inside stands
  | unit u =>
    obtain ⟨part, within, read⟩ := stands
    exact ⟨part, List.Subset.trans within inside, read⟩

namespace Reader

variable {α β : Type} {tokens left : Tokens}

/-! The tokens of a quantity. -/

theorem upTo_token_eq_ok {read : Token → Option α} {count : Nat} {pieces : List (Spanned α)}
    (found : upTo count (token read) tokens = .ok (pieces, left)) :
    ∃ taken, tokens = taken ++ left ∧
      List.Forall₂ (fun token piece => read token.value = some piece.value) taken pieces := by
  induction count generalizing tokens pieces with
  | zero =>
    obtain ⟨rfl, rfl⟩ := Prod.mk.inj (Except.ok.inj found)
    exact ⟨[], rfl, .nil⟩
  | succ count ih =>
    cases first : token read tokens with
    | ok value =>
      obtain ⟨piece, between⟩ := value
      rw [upTo_ok first] at found
      obtain ⟨more, later, rfl⟩ := map_eq_ok found
      obtain ⟨next, rfl, known⟩ := token_eq_ok first
      obtain ⟨taken, rfl, all⟩ := ih later
      exact ⟨next :: taken, rfl, .cons known all⟩
    | error error =>
      rw [upTo_error first] at found
      split at found
      · cases found
      · obtain ⟨rfl, rfl⟩ := Prod.mk.inj (Except.ok.inj found)
        exact ⟨[], rfl, .nil⟩

theorem filterMap_of_forall₂ {read : Token → Option α} {taken : Tokens} {pieces : List (Spanned α)}
    (all : List.Forall₂ (fun token piece => read token.value = some piece.value) taken pieces) :
    (taken.map (·.value)).filterMap read = pieces.map (·.value) ∧
      ∀ token ∈ taken.map (·.value), (read token).isSome = true := by
  induction all with
  | nil => exact ⟨rfl, nofun⟩
  | @cons token piece _ _ known _ ih =>
    refine ⟨?_, List.forall_mem_cons.mpr ⟨by rw [known, Option.isSome_some], ih.2⟩⟩
    rw [List.map_cons, List.filterMap_cons, known, ih.1, List.map_cons]

/-- A unit takes tokens that units are made of, and is what is put together for them. -/
theorem unit_eq_ok {u : PhysicalUnit} (found : unit tokens = .ok (u, left)) :
    ∃ taken, tokens = taken ++ left ∧ (∀ token ∈ taken.map (·.value), (unitPiece? token).isSome = true) ∧
      PhysicalUnit.read (respelled (taken.map (·.value))) = .ok u := by
  have run := expecting_eq_ok.mp found
  cases pieces : oneOrMore (token unitPiece?) tokens with
  | error error =>
    rw [pieces] at run
    cases run
  | ok result =>
    obtain ⟨pieces', rest⟩ := result
    rw [pieces] at run
    simp only [bind, Except.bind] at run
    split at run
    next known =>
      obtain ⟨rfl, rfl⟩ := Prod.mk.inj (Except.ok.inj run)
      obtain ⟨first, between, readFirst, readMore⟩ := bind_eq_ok pieces
      obtain ⟨more, many, rfl⟩ := map_eq_ok readMore
      obtain ⟨next, rfl, piece⟩ := token_eq_ok readFirst
      obtain ⟨taken, rfl, all⟩ := upTo_token_eq_ok many
      obtain ⟨spelled, own⟩ := filterMap_of_forall₂ (List.Forall₂.cons piece all)
      refine ⟨next :: taken, rfl, own, ?_⟩
      rw [respelled, spelled]
      exact known
    next => cases run

/-- A quantity is a number and a unit in brackets. -/
theorem quantity_eq_ok {value : Float} {u : PhysicalUnit} (found : numberOrQuantity tokens = .ok (.quantity value u, left)) :
    ∃ taken : List Token, tokens.map (·.value) =
        .number value :: .mark .leftBracket :: (taken ++ .mark .rightBracket :: left.map (·.value)) ∧
      (∀ token ∈ taken, (unitPiece? token).isSome = true) ∧ PhysicalUnit.read (respelled taken) = .ok u := by
  obtain ⟨number, between, readNumber, readMore⟩ := bind_eq_ok found
  obtain ⟨first, rfl, known⟩ := token_eq_ok (expecting_eq_ok.mp readNumber)
  obtain ⟨bracket?, inside, readBracket, readUnit⟩ := bind_eq_ok readMore
  cases bracket? with
  | none => cases readUnit
  | some bracket =>
    obtain ⟨u', whole, same⟩ := map_eq_ok readUnit
    obtain ⟨rfl, rfl⟩ := Expr.quantity.inj same
    rcases either_eq_ok readBracket with opened | ⟨_, none⟩
    · obtain ⟨_, opened, _⟩ := map_eq_ok opened
      obtain ⟨second, rfl, opening⟩ := mark_eq_ok opened
      obtain ⟨ended, _, readUnit, closed⟩ := seqLeft_eq_ok (committed_eq_ok.mp whole)
      obtain ⟨last, rfl, closing⟩ := mark_eq_ok closed
      obtain ⟨taken, rfl, own, read⟩ := unit_eq_ok readUnit
      have numbered : first.value = .number number.value := by
        split at known
        next other same => rw [same, Option.some.inj known]
        next => cases known
      refine ⟨_, ?_, own, read⟩
      rw [List.map_cons, List.map_cons, List.map_append, List.map_cons, numbered, opening, closing]
    · cases none

/-! Readers that gather leaves. -/

/-- The leaves of what is read are known, or stand in the tokens that are taken for it. -/
def Gathers (known : List Leaf) (reader : Reader α) (leaves : α → List Leaf) : Prop :=
  ∀ tokens value left, reader tokens = .ok (value, left) → ∃ taken, tokens = taken ++ left ∧
    ∀ leaf ∈ leaves value, leaf ∈ known ∨ leaf.StandsIn (taken.map (·.value))

namespace Gathers

variable {known : List Leaf} {reader : Reader α} {leaves : α → List Leaf} {others : β → List Leaf}

theorem pure {value : α} (all : ∀ leaf ∈ leaves value, leaf ∈ known) : Gathers known (pure value) leaves := by
  intro tokens _ left read
  obtain ⟨rfl, rfl⟩ := Prod.mk.inj (Except.ok.inj read)
  exact ⟨[], rfl, fun leaf member => .inl (all leaf member)⟩

theorem fail : Gathers known fail leaves :=
  nofun

theorem token {read : Token → Option α} {leaves : Spanned α → List Leaf}
    (each : ∀ token value, read token = some value.value → ∀ leaf ∈ leaves value, leaf.StandsIn [token]) :
    Gathers known (token read) leaves := by
  intro tokens value left found
  obtain ⟨first, rfl, known⟩ := token_eq_ok found
  exact ⟨[first], rfl, fun leaf member => .inr (each first.value value known leaf member)⟩

theorem bind {next : α → Reader β} (gathers : Gathers known reader leaves)
    (later : ∀ value, Gathers (known ++ leaves value) (next value) others) : Gathers known (reader >>= next) others := by
  intro tokens value left read
  obtain ⟨first, between, readFirst, readNext⟩ := bind_eq_ok read
  obtain ⟨taken, rfl, own⟩ := gathers tokens first between readFirst
  obtain ⟨more, rfl, rest⟩ := later first between value left readNext
  refine ⟨taken ++ more, (List.append_assoc ..).symm, fun leaf member => ?_⟩
  rw [List.map_append]
  rcases rest leaf member with here | there
  · rcases List.mem_append.mp here with before | first
    · exact .inl before
    · exact (own leaf first).imp_right fun stands => stands.mono (List.subset_append_left ..)
  · exact .inr (there.mono (List.subset_append_right ..))

theorem map {f : α → β} (gathers : Gathers known reader leaves)
    (all : ∀ value, ∀ leaf ∈ others (f value), leaf ∈ known ∨ leaf ∈ leaves value) :
    Gathers known (f <$> reader) others := by
  have run : Gathers known (reader >>= fun value => Pure.pure (f value)) others :=
    gathers.bind fun value => .pure fun leaf member => List.mem_append.mpr (all value leaf member)
  exact run

theorem seqRight {next : Reader β} (gathers : Gathers known reader leaves) (later : ∀ known, Gathers known next others) :
    Gathers known (reader *> next) others := by
  intro tokens value left read
  obtain ⟨first, between, readFirst, readNext⟩ := seqRight_eq_ok read
  obtain ⟨taken, rfl, _⟩ := gathers tokens first between readFirst
  obtain ⟨more, rfl, rest⟩ := later known between value left readNext
  refine ⟨taken ++ more, (List.append_assoc ..).symm, fun leaf member => ?_⟩
  rw [List.map_append]
  exact (rest leaf member).imp_right fun stands => stands.mono (List.subset_append_right ..)

theorem seqLeft {next : Reader β} (gathers : Gathers known reader leaves)
    (later : ∀ known, Gathers known next fun _ => []) : Gathers known (reader <* next) leaves := by
  have kept : ∀ value, Gathers (known ++ leaves value) (next >>= fun _ => (Pure.pure value : Reader α)) leaves :=
    fun value => (later _).bind fun _ => .pure fun leaf member => by simp [member]
  have run : Gathers known (reader >>= fun value => next >>= fun _ => (Pure.pure value : Reader α)) leaves :=
    gathers.bind kept
  exact run

theorem expecting (gathers : Gathers known reader leaves) (what : Expected) : Gathers known (expecting what reader) leaves :=
  fun tokens value left read => gathers tokens value left (expecting_eq_ok.mp read)

theorem committed (gathers : Gathers known reader leaves) : Gathers known (committed reader) leaves :=
  fun tokens value left read => gathers tokens value left (committed_eq_ok.mp read)

theorem either {second : Reader α} (gathers : Gathers known reader leaves) (also : Gathers known second leaves) :
    Gathers known (either reader second) leaves := by
  intro tokens value left read
  rcases either_eq_ok read with here | ⟨_, there⟩
  · exact gathers tokens value left here
  · exact also tokens value left there

theorem firstOf {readers : List (Reader α)} (each : ∀ reader ∈ readers, Gathers known reader leaves) :
    Gathers known (firstOf readers) leaves := by
  intro tokens value left read
  obtain ⟨position, reader, listed, found⟩ := exists_of_firstOf_ok read
  exact each reader (List.mem_of_getElem? listed) tokens value left found

theorem optional (gathers : Gathers known reader leaves) :
    Gathers known (optional reader) fun found => found.elim [] leaves :=
  Gathers.either (gathers.map fun _ _ member => .inr member) (.pure fun _ member => by cases member)

theorem upTo (gathers : ∀ known, Gathers known reader leaves) :
    ∀ (count : Nat) (known : List Leaf), Gathers known (upTo count reader) fun values => values.flatMap leaves
  | 0, _ => .pure fun _ member => by cases member
  | count + 1, known => by
    refine (gathers known).optional.bind fun found => ?_
    cases found with
    | none => exact .pure fun _ member => by cases member
    | some value =>
      refine (upTo gathers count _).map fun values leaf member => ?_
      rw [List.flatMap_cons, List.mem_append] at member
      exact member.imp_left fun own => List.mem_append_right _ own

theorem many (gathers : ∀ known, Gathers known reader leaves) (known : List Leaf) :
    Gathers known (many reader) fun values => values.flatMap leaves :=
  fun tokens => upTo gathers tokens.length known tokens

theorem separated {separator : Reader β} (gathers : ∀ known, Gathers known reader leaves)
    (silent : ∀ known, Gathers known separator fun _ => []) (known : List Leaf) :
    Gathers known (separated separator reader) fun values => values.flatMap leaves := by
  have item : ∀ known, Gathers known (separator *> reader) leaves := fun known => (silent known).seqRight gathers
  refine (gathers known).bind fun first => (many item _).map fun values leaf member => ?_
  rw [List.flatMap_cons, List.mem_append] at member
  exact member.imp_left fun own => List.mem_append_right _ own

/-- A token without leaves. -/
theorem silent {read : Token → Option α} : Gathers known (Reader.token read) fun _ => [] :=
  token fun _ _ _ _ member => by cases member

theorem mark (sign : Mark) : Gathers known (mark sign) fun _ => [] :=
  (silent.map fun _ _ member => .inr member).expecting _

theorem keyword (word : Keyword) : Gathers known (keyword word) fun _ => [] :=
  (silent.map fun _ _ member => .inr member).expecting _

/-- A token that is a leaf. -/
theorem carried {read : Token → Option α} {leaf : α → Leaf}
    (each : ∀ token value, read token = some value → (leaf value).StandsIn [token]) :
    Gathers known (Reader.token read) fun found => [leaf found.value] :=
  token fun next found known _ member => List.mem_singleton.mp member ▸ each next found.value known

theorem identifier : Gathers known identifier fun found => [.name found.value] := by
  refine Gathers.expecting (carried fun token name known => ?_) _
  split at known
  next => exact Option.some.inj known ▸ List.mem_singleton_self _
  next => cases known

theorem number : Gathers known number fun found => [.number found.value] := by
  refine Gathers.expecting (carried fun token value known => ?_) _
  split at known
  next => exact Option.some.inj known ▸ List.mem_singleton_self _
  next => cases known

theorem text : Gathers known text fun found => [.text found.value] := by
  refine Gathers.expecting (carried fun token value known => ?_) _
  split at known
  next => exact Option.some.inj known ▸ List.mem_singleton_self _
  next => cases known

theorem unit : Gathers known unit fun found => [.unit found] := by
  intro tokens found left read
  obtain ⟨taken, rfl, _, spelled⟩ := unit_eq_ok read
  refine ⟨taken, rfl, fun leaf member => .inr ?_⟩
  obtain rfl := List.mem_singleton.mp member
  exact ⟨_, List.Subset.refl _, spelled⟩

theorem qualifiedName : Gathers known qualifiedName fun found => found.value.segments.map .name := by
  have later : ∀ known, Gathers known (Reader.mark .doubleColon *> Reader.identifier) fun found => [.name found.value] :=
    fun _ => (mark .doubleColon).seqRight fun _ => identifier
  refine identifier.bind fun first => (many later _).bind fun rest => .pure fun leaf member => ?_
  rw [Path.segments, List.map_cons, List.map_map] at member
  rw [List.append_assoc, ← List.map_eq_flatMap]
  exact List.mem_append_right _ member

/-! Expressions. -/

theorem numberOrQuantity : Gathers known numberOrQuantity Expr.leaves := by
  refine number.bind fun value => ((mark .leftBracket).optional).bind fun bracket? => ?_
  cases bracket? with
  | none =>
    refine .pure fun leaf member => ?_
    rw [Expr.leaves] at member
    simp [member]
  | some bracket =>
    refine (unit.seqLeft fun _ => mark .rightBracket).committed.map fun u leaf member => ?_
    rw [Expr.leaves, List.mem_cons] at member
    refine member.imp_left ?_
    rintro rfl
    simp

variable {expression operand : Reader Expr} (nested : ∀ known, Gathers known expression Expr.leaves)

include nested

theorem parenthesized : Gathers known (parenthesized expression) Expr.leaves :=
  (mark .leftParen).seqRight fun known => ((nested known).seqLeft fun _ => mark .rightParen).committed

theorem call : Gathers known (call expression) Expr.leaves := by
  have listed : ∀ known, Gathers known (Reader.optional (Reader.separated (Reader.mark .comma) expression))
      fun found => found.elim [] fun values => values.flatMap Expr.leaves :=
    fun known => (separated nested (fun _ => mark .comma) known).optional
  refine (identifier.seqLeft fun _ => mark .leftParen).bind fun function => Gathers.committed ?_
  refine ((listed _).seqLeft fun _ => mark .rightParen).bind fun arguments => .pure fun leaf member => ?_
  rw [Expr.leaves, Expr.listLeaves_eq_flatMap] at member
  cases arguments <;> simp_all

theorem primary : Gathers known (primary expression) Expr.leaves := by
  refine firstOf ?_
  simp only [List.forall_mem_cons]
  refine ⟨numberOrQuantity, text.map ?_, (keyword .yes).map ?_, (keyword .no).map ?_, parenthesized nested, call nested,
    qualifiedName.map ?_, by simp⟩
  · exact fun _ _ member => .inr member
  · exact fun _ _ member => .inr member
  · exact fun _ _ member => .inr member
  · exact fun _ _ member => .inr member

omit nested in
/-- The leaves of a first value and of the items that change it. -/
theorem folding {first : Reader Expr} {item : Reader α} {combine : Expr → α → Expr}
    (gathers : ∀ known, Gathers known first Expr.leaves) (items : ∀ known, Gathers known item leaves)
    (combined : ∀ e change, (combine e change).leaves = e.leaves ++ leaves change) :
    Gathers known (folding first item combine) Expr.leaves := by
  have folded : ∀ (changes : List α) (e : Expr), (changes.foldl combine e).leaves = e.leaves ++ changes.flatMap leaves := by
    intro changes
    induction changes with
    | nil => simp
    | cons change changes ih =>
      intro e
      rw [List.foldl_cons, ih, combined, List.append_assoc, List.flatMap_cons]
  refine (gathers known).bind fun e => (many items _).bind fun changes => .pure fun leaf member => ?_
  rw [folded] at member
  rw [List.append_assoc]
  exact List.mem_append_right _ member

theorem members (known : List Leaf) : Gathers known (members expression) Expr.leaves := by
  have item : ∀ known, Gathers known (Reader.mark .dot *> Reader.committed Reader.identifier)
      fun found => [.name found.value] := fun known => (mark .dot).seqRight fun _ => identifier.committed
  rw [Reader.members]
  exact folding (fun _ => primary nested) item fun _ _ => rfl

theorem power (nestedOperand : ∀ known, Gathers known operand Expr.leaves) (known : List Leaf) :
    Gathers known (power expression operand) Expr.leaves := by
  refine (members nested known).bind fun base => (((mark .power).either (mark .caret)).optional).bind fun sign? => ?_
  cases sign? with
  | none => exact .pure fun leaf member => by simp [member]
  | some sign =>
    refine (nestedOperand _).committed.map fun exponent leaf member => ?_
    rw [Expr.leaves, List.mem_append] at member
    exact member.imp_left fun own => by simp [own]

omit nested

theorem negated (nestedOperand : ∀ known, Gathers known operand Expr.leaves) :
    Gathers known (negated operand) Expr.leaves :=
  silent.bind fun _ => (nestedOperand _).committed.map fun _ _ member => .inr member

theorem chain (nestedOperand : ∀ known, Gathers known operand Expr.leaves) (level : OperatorLevel) (known : List Leaf) :
    Gathers known (chain level operand) Expr.leaves := by
  have item : ∀ known, Gathers known (operatorItem level operand) fun found => found.2.leaves :=
    fun known => silent.bind fun _ => (nestedOperand _).committed.map fun _ _ member => .inr member
  rw [Reader.chain]
  exact folding nestedOperand item fun _ _ => rfl

theorem operation (nestedOperand : ∀ known, Gathers known operand Expr.leaves) (known : List Leaf) :
    Gathers known (operation operand) Expr.leaves := by
  rw [Reader.operation]
  generalize OperatorLevel.all = levels
  induction levels generalizing operand with
  | nil => exact nestedOperand known
  | cons level levels ih => exact ih (chain nestedOperand level)

theorem conditional (nested : ∀ known, Gathers known expression Expr.leaves)
    (nestedOperand : ∀ known, Gathers known operand Expr.leaves) :
    Gathers known (conditional expression operand) Expr.leaves := by
  refine (keyword .ifThen).bind fun _ => Gathers.committed ?_
  refine ((operation nestedOperand _).seqLeft fun _ => mark .question).bind fun condition => ?_
  refine ((nested _).seqLeft fun _ => keyword .otherwise).bind fun whenTrue => ?_
  refine (nested _).bind fun whenFalse => .pure fun leaf member => ?_
  rw [Expr.leaves, List.mem_append, List.mem_append] at member
  simp only [List.mem_append]
  tauto

theorem within (depth : Nat) : (∀ known, Gathers known (operandWithin depth) Expr.leaves) ∧
    ∀ known, Gathers known (expressionWithin depth) Expr.leaves := by
  induction depth with
  | zero => exact ⟨fun _ => fail, fun _ => fail⟩
  | succ depth ih =>
    obtain ⟨nestedOperand, nested⟩ := ih
    constructor
    · exact fun known => (negated nestedOperand).either (power nested nestedOperand known)
    · exact fun known => ((conditional nested nestedOperand).either (operation nestedOperand known)).expecting _

end Gathers

/-- Whatever an expression is made of stands in the tokens that it is read from. -/
theorem standsIn_of_expression {tokens left : Tokens} {e : Expr} (read : expression tokens = .ok (e, left)) :
    ∀ leaf ∈ e.leaves, leaf.StandsIn (tokens.map (·.value)) := by
  obtain ⟨taken, rfl, all⟩ := (Gathers.within _).2 [] tokens e left read
  intro leaf member
  rw [List.map_append]
  refine Leaf.StandsIn.mono ?_ (List.subset_append_left ..)
  exact (all leaf member).resolve_left List.not_mem_nil

end Reader

namespace Expr
open Lexer Reader

/-- The whole source text is read as this expression. -/
def ReadFrom (source : String) (e : Expr) : Prop :=
  ∃ tokens, Lexer.tokens source = .ok tokens ∧ Reader.expression tokens = .ok (e, [])

theorem ReadFrom.unique {source : String} {e other : Expr} (read : e.ReadFrom source) (again : other.ReadFrom source) :
    e = other := by
  obtain ⟨tokens, lexed, parsed⟩ := read
  obtain ⟨tokens', lexed', parsed'⟩ := again
  obtain rfl := Except.ok.inj (lexed.symm.trans lexed')
  exact (Prod.mk.inj (Except.ok.inj (parsed.symm.trans parsed'))).1

theorem readFrom_of_lexed {source : String} {written : List Token} {e : Expr} (lexed : Lexed source.toList written)
    (fits : Fits .conditional written e) : e.ReadFrom source := by
  obtain ⟨tokens, found, same⟩ := tokens_of_values? lexed.values?
  exact ⟨tokens, found, fits.expression_whole same⟩

end Expr
end StructuralModel
