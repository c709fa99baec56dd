import StructuralModel.Proofs.PrimaryReading

/-! An expression is read back from its tokens. Each binding has a reader for what binds at least as tight. A reader
for a looser binding takes the same tokens, as long as they do not start a looser construct and nothing that follows
continues one; chains and members are read piece by piece, with the value so far in hand. -/

namespace StructuralModel

namespace Binding

theorem rank_le (binding : Binding) : binding.rank ≤ 11 := by
  rcases binding with _ | level | _ | _ | _ | _
  · decide
  · cases level <;> decide
  all_goals decide

theorem rank_injective {first second : Binding} (same : first.rank = second.rank) : first = second := by
  rcases first with _ | level | _ | _ | _ | _ <;> try cases level
  all_goals
    rcases second with _ | other | _ | _ | _ | _ <;> try cases other
    all_goals first | rfl | cases same

/-- What binds next tighter. -/
def tighter : Binding → Binding
  | conditional => .chained .disjunction
  | chained level => level.tighter
  | prefixed => .power
  | power => .member
  | member => .primary
  | primary => .primary

theorem rank_tighter {binding : Binding} (looser : binding.rank < 11) : binding.tighter.rank = binding.rank + 1 := by
  rcases binding with _ | level | _ | _ | _ | _
  · rfl
  · cases level <;> rfl
  · rfl
  · rfl
  · rfl
  · exact absurd looser (by decide)

/-- The construct that a token after an expression continues. -/
def continued? : Token → Option Binding
  | .mark .leftParen | .mark .leftBracket | .mark .doubleColon => some .primary
  | .mark .dot => some .member
  | .mark .power | .mark .caret => some .power
  | .mark .star | .mark .slash | .mark .percent => some (.chained .product)
  | .mark .plus | .mark .minus => some (.chained .sum)
  | .mark .less | .mark .lessEqual | .mark .greater | .mark .greaterEqual => some (.chained .order)
  | .mark .equal | .mark .notEqual => some (.chained .equality)
  | .keyword .and => some (.chained .conjunction)
  | .keyword .xor => some (.chained .exclusion)
  | .keyword .or => some (.chained .disjunction)
  | _ => none

/-- The construct that a token starts. -/
def started : Token → Binding
  | .keyword .ifThen => .conditional
  | .mark .minus | .keyword .not => .prefixed
  | _ => .primary

/-- An expression at the place ends before these tokens. -/
def Ends (place : Binding) (rest : List Token) : Prop :=
  ∀ token ∈ rest.head?, ∀ binding, continued? token = some binding → binding.rank < place.rank

/-- The first token starts nothing looser. -/
def Starts (binding : Binding) (written : List Token) : Prop :=
  ∃ first more, written = first :: more ∧ binding.rank ≤ (started first).rank

variable {place binding : Binding} {written rest : List Token}

theorem Ends.tighter (ends : Ends place rest) (looser : place.rank ≤ binding.rank) : Ends binding rest :=
  fun token next other continues => Nat.lt_of_lt_of_le (ends token next other continues) looser

theorem ends_of_none {token : Token} (closing : continued? token = none) (place : Binding) (more : List Token) :
    Ends place (token :: more) := by
  intro other next binding continues
  obtain rfl : token = other := by simpa using next
  rw [closing] at continues
  cases continues

/-- A token that continues a looser construct ends what stands before it. -/
theorem ends_of_some {token : Token} (continues : continued? token = some binding) (looser : binding.rank < place.rank)
    (more : List Token) : Ends place (token :: more) := by
  intro other next found same
  obtain rfl : token = other := by simpa using next
  obtain rfl : binding = found := Option.some.inj (continues.symm.trans same)
  exact looser

theorem ends_nil (place : Binding) : Ends place [] := by
  intro token next
  cases next

/-- Nothing continues a prefix operator, so what ends a power ends its exponent. -/
theorem Ends.exponent (ends : Ends .power rest) : Ends .prefixed rest := by
  intro token next binding continues
  have below : binding.rank < 9 := ends token next binding continues
  have other : binding ≠ .prefixed := by
    rintro rfl
    unfold continued? at continues
    split at continues <;> cases continues
  have apart : binding.rank ≠ 8 := fun same => other (rank_injective same)
  exact Nat.lt_of_le_of_ne (Nat.le_of_lt_succ below) apart

theorem Ends.head_ne (ends : Ends place rest) {token : Token} (continues : continued? token = some binding)
    (tight : place.rank ≤ binding.rank) : rest.head? ≠ some token := by
  intro next
  exact absurd (ends token next binding continues) (Nat.not_lt.mpr tight)

theorem Starts.looser (starts : Starts binding written) (looser : place.rank ≤ binding.rank) : Starts place written := by
  obtain ⟨first, more, same, tight⟩ := starts
  exact ⟨first, more, same, Nat.le_trans looser tight⟩

theorem Starts.append (starts : Starts binding written) (more : List Token) : Starts binding (written ++ more) := by
  obtain ⟨first, others, rfl, tight⟩ := starts
  exact ⟨first, others ++ more, rfl, tight⟩

end Binding

open Binding

namespace BinaryOp

theorem operator?_eq_some {level : OperatorLevel} {token : Token} {op : BinaryOp} (found : level.operator? token = some op) :
    continued? token = some (.chained level) := by
  unfold OperatorLevel.operator? at found
  split at found <;> first | rfl | cases found

theorem operator?_token {op : BinaryOp} {level : OperatorLevel} (leveled : op.level? = some level) :
    level.operator? op.token = some op := by
  cases op <;> cases leveled <;> rfl

end BinaryOp

namespace Reader

variable {α β : Type} {rest written : List Token} {depth : Nat}

/-- The reader of operands that are joined by operators of the level or of tighter ones. -/
def chains (level : OperatorLevel) (operand : Reader Expr) : Reader Expr :=
  (OperatorLevel.all.take (8 - level.rank)).foldl (fun tighter level => chain level tighter) operand

/-- The reader of what binds at least as tight as a place asks for. -/
def atPlace (depth : Nat) : Binding → Reader Expr
  | .conditional => expressionWithin (depth + 2)
  | .chained level => chains level (operandWithin (depth + 1))
  | .prefixed => operandWithin (depth + 1)
  | .power => power (expressionWithin depth) (operandWithin depth)
  | .member => members (expressionWithin depth)
  | .primary => primary (expressionWithin depth)

theorem atPlace_chained (depth : Nat) (level : OperatorLevel) :
    atPlace depth (.chained level) = chain level (atPlace depth level.tighter) := by
  cases level <;> rfl

/-! Items that follow a first value. -/

/-- A first value that is changed by every item after it. -/
def folding (first : Reader α) (item : Reader β) (combine : α → β → α) : Reader α := do
  let value ← first
  let items ← many item
  return items.foldl combine value

/-- After the tokens the value is in hand, whatever items come next. -/
def Leads (first : Reader α) (item : Reader β) (combine : α → β → α) (ends : List Token → Prop) (written : List Token)
    (value : α) : Prop :=
  ∀ more rest last, TakesMany item more rest (fun items => items.foldl combine value = last) → ends (more ++ rest) →
    Takes (folding first item combine) (written ++ more) rest (· = last)

section Leads

variable {first : Reader α} {item : Reader β} {combine : α → β → α} {ends : List Token → Prop} {value : α}

theorem takes_folding (takes : Takes first written rest (· = value)) (refuses : Refuses item rest) :
    Takes (folding first item combine) written rest (· = value) := by
  refine takes.bind_nil ?_
  rintro _ rfl
  have none : TakesMany item [] rest (· = []) := refuses.takesMany rfl
  refine none.many.bind_nil ?_
  rintro _ rfl
  exact takes_pure rfl

theorem leads_first (takes : ∀ rest, ends rest → Takes first written rest (· = value)) :
    Leads first item combine ends written value := by
  intro more rest last later ended
  refine Takes.bind (takes _ ended) ?_
  rintro _ rfl
  exact later.many.bind_nil fun items same => takes_pure same

theorem Leads.step (leads : Leads first item combine ends written value) {piece : List Token} {next : α}
    (takes : ∀ rest, ends rest → Takes item piece rest fun change => combine value change = next) (nonempty : piece ≠ [])
    (ended : ∀ rest, ends (piece ++ rest)) : Leads first item combine ends (written ++ piece) next := by
  intro more rest last later endsLater
  have items : TakesMany item (piece ++ more) rest fun items => items.foldl combine value = last :=
    (takes _ endsLater).cons nonempty later fun change items changes same => by
      rw [List.foldl_cons, changes]
      exact same
  have run := leads (piece ++ more) rest last items (by rw [List.append_assoc]; exact ended _)
  rwa [← List.append_assoc] at run

theorem Leads.takes (leads : Leads first item combine ends written value) (refuses : Refuses item rest)
    (ended : ends rest) : Takes (folding first item combine) written rest (· = value) := by
  have run := leads [] rest value (refuses.takesMany rfl) ended
  rwa [List.append_nil] at run

end Leads

/-- An operator of a level with its right operand. -/
def operatorItem (level : OperatorLevel) (operand : Reader Expr) : Reader (BinaryOp × Expr) := do
  let op ← token level.operator?
  (op.value, ·) <$> committed operand

theorem chain_eq (level : OperatorLevel) (operand : Reader Expr) : chain level operand =
    folding operand (operatorItem level operand) fun lhs (op, rhs) => .binary op lhs rhs :=
  rfl

theorem refuses_operatorItem {level : OperatorLevel} (ends : Ends (.chained level) rest) (operand : Reader Expr) :
    Refuses (operatorItem level operand) rest := by
  refine Refuses.bind (refuses_token fun token next => ?_)
  cases found : level.operator? token with
  | none => rfl
  | some op => exact absurd (ends token next _ (BinaryOp.operator?_eq_some found)) (Nat.lt_irrefl _)

theorem refuses_memberItem (ends : Ends .member rest) : Refuses (mark .dot *> committed identifier) rest :=
  (refuses_mark (ends.head_ne rfl (Nat.le_refl _))).seqRight

theorem unaryOp?_eq_none {token : Token} (tight : Binding.prefixed.rank < (started token).rank) :
    unaryOp? token = none := by
  unfold unaryOp?
  split
  · exact absurd tight (by decide)
  · exact absurd tight (by decide)
  · rfl

/-! Looser readers. -/

variable {place tight : Binding} {e : Expr}

theorem takes_next (takes : Takes (atPlace depth place.tighter) written rest (· = e))
    (starts : Starts place.tighter written) (ends : Ends place rest) :
    Takes (atPlace depth place) written rest (· = e) := by
  cases place with
  | conditional =>
    have noCondition : Refuses (conditional (expressionWithin (depth + 1)) (operandWithin (depth + 1)))
        (written ++ rest) := by
      obtain ⟨first, more, rfl, later⟩ := starts
      refine Refuses.bind (refuses_keyword fun same => ?_)
      obtain rfl : first = .keyword .ifThen := by simpa using same
      exact absurd later (by decide)
    exact (noCondition.either takes).expecting _
  | chained level =>
    rw [atPlace_chained, chain_eq]
    exact takes_folding takes (refuses_operatorItem ends _)
  | prefixed =>
    have noOperator : Refuses (negated (operandWithin depth)) (written ++ rest) := by
      obtain ⟨first, more, rfl, later⟩ := starts
      refine Refuses.bind (refuses_token fun token same => ?_)
      obtain rfl : first = token := by simpa using same
      exact unaryOp?_eq_none (Nat.lt_of_lt_of_le (by decide) later)
    exact noOperator.either takes
  | power =>
    refine Takes.bind_nil takes ?_
    rintro _ rfl
    have noPower : Refuses (either (mark .power) (mark .caret)) rest :=
      (refuses_mark (ends.head_ne rfl (Nat.le_refl _))).either_refuses
        (refuses_mark (ends.head_ne rfl (Nat.le_refl _)))
    refine Takes.nil_bind noPower.optional ?_
    rintro _ rfl
    exact takes_pure rfl
  | member => exact takes_folding takes (refuses_memberItem ends)
  | primary => exact takes

/-- What takes the tokens as something tight takes them at a looser place too. -/
theorem takes_looser (takes : Takes (atPlace depth tight) written rest (· = e)) (starts : Starts tight written)
    (ends : Ends place rest) (looser : place.rank ≤ tight.rank) : Takes (atPlace depth place) written rest (· = e) := by
  obtain ⟨gap, same⟩ := Nat.exists_eq_add_of_le looser
  induction gap generalizing place with
  | zero =>
    obtain rfl := rank_injective same
    exact takes
  | succ gap ih =>
    have bound := tight.rank_le
    have next : place.tighter.rank = place.rank + 1 := rank_tighter (by omega)
    have ended : Ends place.tighter rest := ends.tighter (by omega)
    have inside := ih ended (by omega) (by omega)
    exact takes_next inside (starts.looser (by omega)) ends

/-! Tokens that are read as expressions. -/

/-- The tokens are taken for the expression by the reader of a binding; where that is a chain or a member, more may be
added to it. A level of nesting needs two steps of depth, and takes at least one token. -/
structure Reads (written : List Token) (binding : Binding) (e : Expr) : Prop where
  starts : Starts binding written
  alone {depth : Nat} {rest : List Token} (deep : 2 * written.length ≤ depth + 1) (ends : Ends binding rest) :
    Takes (atPlace depth binding) written rest (· = e)
  chained {depth : Nat} {level : OperatorLevel} (own : binding = .chained level) (deep : 2 * written.length ≤ depth + 1) :
    Leads (atPlace depth level.tighter) (operatorItem level (atPlace depth level.tighter))
      (fun lhs (op, rhs) => .binary op lhs rhs) (Ends level.tighter) written e
  selected {depth : Nat} (own : binding = .member) (deep : 2 * written.length ≤ depth + 1) :
    Leads (primary (expressionWithin depth)) (mark .dot *> committed identifier)
      (fun target name => .member target name.value) (Ends .primary) written e

/-- The tokens are read as the expression by something that binds as tight as the place asks for. -/
def Fits (place : Binding) (written : List Token) (e : Expr) : Prop :=
  ∃ binding, place.rank ≤ binding.rank ∧ Reads written binding e

variable {binding : Binding} {more : List Token}

namespace Fits

theorem starts (fits : Fits place written e) : Starts place written := by
  obtain ⟨binding, tight, reads⟩ := fits
  exact reads.starts.looser tight

theorem length_pos (fits : Fits place written e) : 0 < written.length := by
  obtain ⟨first, more, rfl, _⟩ := fits.starts
  exact Nat.succ_pos _

theorem takes_place (fits : Fits place written e) (deep : 2 * written.length ≤ depth + 1) (ends : Ends place rest) :
    Takes (atPlace depth place) written rest (· = e) := by
  obtain ⟨binding, tight, reads⟩ := fits
  exact takes_looser (reads.alone deep (ends.tighter tight)) reads.starts ends tight

theorem takes_expression (fits : Fits .conditional written e) (deep : 2 * written.length + 1 ≤ depth)
    (ends : Ends .conditional rest) : Takes (expressionWithin depth) written rest (· = e) := by
  have some_token := fits.length_pos
  obtain ⟨depth, rfl⟩ := Nat.exists_eq_add_of_le' (by omega : 2 ≤ depth)
  exact fits.takes_place (by omega) ends

theorem takes_operand (fits : Fits .prefixed written e) (deep : 2 * written.length ≤ depth) (ends : Ends .prefixed rest) :
    Takes (operandWithin depth) written rest (· = e) := by
  have some_token := fits.length_pos
  obtain ⟨depth, rfl⟩ := Nat.exists_eq_add_one_of_ne_zero (by omega : depth ≠ 0)
  exact fits.takes_place deep ends

/-- What binds tighter than the place fits in one place further in. -/
theorem tighter (reads : Reads written binding e) (tight : place.rank ≤ binding.rank) (other : binding ≠ place)
    (inside : place.rank < 11) : Fits place.tighter written e := by
  have apart : binding.rank ≠ place.rank := fun same => other (rank_injective same)
  have next := rank_tighter inside
  exact ⟨binding, by omega, reads⟩

theorem leads_chain {level : OperatorLevel} (fits : Fits (.chained level) written e)
    (deep : 2 * written.length ≤ depth + 1) :
    Leads (atPlace depth level.tighter) (operatorItem level (atPlace depth level.tighter))
      (fun lhs (op, rhs) => .binary op lhs rhs) (Ends level.tighter) written e := by
  obtain ⟨binding, tight, reads⟩ := fits
  by_cases own : binding = .chained level
  · exact reads.chained own deep
  · have inside : (Binding.chained level).rank < 11 := by cases level <;> decide
    have operand : Fits level.tighter written e := tighter reads tight own inside
    exact leads_first fun _ ends => operand.takes_place deep ends

theorem leads_member (fits : Fits .member written e) (deep : 2 * written.length ≤ depth + 1) :
    Leads (primary (expressionWithin depth)) (mark .dot *> committed identifier)
      (fun target name => .member target name.value) (Ends .primary) written e := by
  obtain ⟨binding, tight, reads⟩ := fits
  by_cases own : binding = .member
  · exact reads.selected own deep
  · have target : Fits .primary written e := tighter reads tight own (by decide)
    exact leads_first fun _ ends => target.takes_place deep ends

end Fits

namespace Reads

theorem fits (reads : Reads written binding e) (tight : place.rank ≤ binding.rank) : Fits place written e :=
  ⟨binding, tight, reads⟩

theorem of_alone (starts : Starts binding written) (unchained : ∀ level, binding ≠ .chained level)
    (unselected : binding ≠ .member)
    (alone : ∀ {depth : Nat} {rest : List Token}, 2 * written.length ≤ depth + 1 → Ends binding rest →
      Takes (atPlace depth binding) written rest (· = e)) : Reads written binding e where
  starts := starts
  alone := alone
  chained own := absurd own (unchained _)
  selected own := absurd own unselected

end Reads

theorem reads_literal (value : Literal) : Reads [value.token] .primary (.literal value) := by
  refine .of_alone ?_ nofun nofun fun {depth rest} _ ends => ?_
  · rcases value with value | (_ | _) | value <;> exact ⟨_, [], rfl, Nat.le_refl _⟩
  rcases value with value | value | value
  · exact primary_of_number (takes_number_alone (ends.head_ne rfl (Nat.le_refl _)))
  · exact primary_of_boolean value
  · exact primary_of_text value

theorem reads_quantity (value : Float) {u : PhysicalUnit} {text : String} (spells : Spells written text)
    (readsBack : PhysicalUnit.read text = .ok u) :
    Reads (.number value :: .mark .leftBracket :: (written ++ [.mark .rightBracket])) .primary (.quantity value u) := by
  refine .of_alone ⟨_, _, rfl, Nat.le_refl _⟩ nofun nofun fun {depth rest} _ ends => ?_
  have measured : Takes unit written (.mark .rightBracket :: rest) (· = u) :=
    takes_unit spells readsBack (by simp [unitPiece?])
  exact primary_of_number (takes_quantity measured)

theorem reads_reference (path : Path) : Reads path.tokens .primary (.reference path) := by
  refine .of_alone ⟨.identifier path.first, _, rfl, Nat.le_refl _⟩ nofun nofun fun {depth rest} _ ends => ?_
  exact primary_of_reference (ends.head_ne rfl (Nat.le_refl _)) (ends.head_ne rfl (Nat.le_refl _))

theorem reads_parenthesized (inside : Fits .conditional written e) : Reads (Expr.parenthesized written) .primary e := by
  refine .of_alone ⟨.mark .leftParen, _, rfl, Nat.le_refl _⟩ nofun nofun fun {depth rest} deep _ => ?_
  rw [Expr.parenthesized, List.length_append, List.length_cons, List.length_singleton] at deep
  exact primary_of_parenthesized (inside.takes_expression (by omega) (ends_of_none rfl _ _))

theorem reads_member {target : Expr} (fits : Fits .member written target) (name : String) :
    Reads (written ++ [.mark .dot, .identifier name]) .member (.member target name) := by
  have leads : ∀ {depth : Nat}, 2 * (written ++ [Token.mark .dot, .identifier name]).length ≤ depth + 1 →
      Leads (primary (expressionWithin depth)) (mark .dot *> committed identifier)
        (fun target name => .member target name.value) (Ends .primary) (written ++ [.mark .dot, .identifier name])
        (.member target name) := by
    intro depth deep
    rw [List.length_append] at deep
    refine (fits.leads_member (by omega)).step (fun rest _ => ?_) (by simp)
      fun rest => ends_of_some rfl (by decide) _
    refine (takes_mark .dot).seqRight ((takes_identifier name).committed.mono fun found same => ?_)
    rw [same]
  refine ⟨fits.starts.append _, fun {depth rest} deep ends => ?_, nofun, fun _ deep => leads deep⟩
  have ended : Ends .primary rest := ends.tighter (Nat.le_succ 10)
  exact (leads deep).takes (refuses_memberItem ends) ended

theorem reads_unary (op : UnaryOp) {operand : Expr} (fits : Fits .prefixed written operand) :
    Reads (op.token :: written) .prefixed (.unary op operand) := by
  refine .of_alone ⟨op.token, _, rfl, by cases op <;> exact Nat.le_refl _⟩ nofun nofun fun {depth rest} deep ends => ?_
  rw [List.length_cons] at deep
  have known : unaryOp? op.token = some op := by cases op <;> rfl
  have taken : Takes (negated (operandWithin depth)) (op.token :: written) rest (· = .unary op operand) := by
    refine Takes.bind (takes_token known) fun found same => ?_
    refine (fits.takes_operand (by omega) ends).committed.map ?_
    rintro _ rfl
    rw [same]
  exact taken.either _

theorem reads_chained {op : BinaryOp} {level : OperatorLevel} (leveled : op.level? = some level) {lhs rhs : Expr}
    (left : Fits (.chained level) written lhs) (right : Fits level.tighter more rhs) :
    Reads (written ++ op.token :: more) (.chained level) (.binary op lhs rhs) := by
  have operator := BinaryOp.operator?_token leveled
  have looser : (Binding.chained level).rank < level.tighter.rank := by cases level <;> decide
  have leads : ∀ {depth : Nat}, 2 * (written ++ op.token :: more).length ≤ depth + 1 →
      Leads (atPlace depth level.tighter) (operatorItem level (atPlace depth level.tighter))
        (fun lhs (op, rhs) => .binary op lhs rhs) (Ends level.tighter) (written ++ op.token :: more)
        (.binary op lhs rhs) := by
    intro depth deep
    rw [List.length_append, List.length_cons] at deep
    refine (left.leads_chain (by omega)).step (fun rest ends => ?_) (by simp)
      fun rest => ends_of_some (BinaryOp.operator?_eq_some operator) looser _
    refine Takes.bind (takes_token operator) fun found same => ?_
    refine (right.takes_place (by omega) ends).committed.map ?_
    rintro _ rfl
    rw [same]
  refine ⟨left.starts.append _, fun {depth rest} deep ends => ?_, fun {depth other} same deep => ?_, nofun⟩
  · rw [atPlace_chained, chain_eq]
    exact (leads deep).takes (refuses_operatorItem ends _) (ends.tighter (Nat.le_of_lt looser))
  · obtain rfl : level = other := Binding.chained.inj same
    exact leads deep

theorem reads_power {base exponent : Expr} (left : Fits .member written base) (right : Fits .prefixed more exponent) :
    Reads (written ++ .mark .power :: more) .power (.binary .pow base exponent) := by
  refine .of_alone ((left.starts.append _).looser (by decide)) nofun nofun fun {depth rest} deep ends => ?_
  rw [List.length_append, List.length_cons] at deep
  have ended : Ends .member (.mark .power :: more ++ rest) := ends_of_some rfl (by decide) _
  refine Takes.bind (left.takes_place (by omega) ended) ?_
  rintro _ rfl
  have operator : Takes (either (mark .power) (mark .caret)) [.mark .power] (more ++ rest) fun _ => True :=
    (takes_mark .power).either _
  refine Takes.bind operator.optional ?_
  rintro _ ⟨found, rfl, _⟩
  have some_token := right.length_pos
  refine (right.takes_operand (by omega) (Ends.exponent ends)).committed.map ?_
  rintro _ rfl
  rfl

/-- Two operands with their operator between them, each of which fits in its place. -/
theorem reads_binary {op : BinaryOp} {lhs rhs : Expr} (left : Fits op.leftPlace written lhs)
    (right : Fits op.rightPlace more rhs) : Reads (written ++ op.token :: more) op.binding (.binary op lhs rhs) := by
  rw [BinaryOp.binding]
  rw [BinaryOp.leftPlace] at left
  rw [BinaryOp.rightPlace] at right
  cases leveled : op.level? with
  | some level =>
    rw [leveled] at left right
    exact reads_chained leveled left right
  | none =>
    rw [leveled] at left right
    obtain rfl : op = .pow := by cases op <;> first | rfl | cases leveled
    exact reads_power left right

theorem reads_conditional {condition whenTrue whenFalse : Expr} {first second third : List Token}
    (asked : Fits (.chained .disjunction) first condition) (chosen : Fits .conditional second whenTrue)
    (other : Fits .conditional third whenFalse) :
    Reads (.keyword .ifThen :: (first ++ .mark .question :: (second ++ .keyword .otherwise :: third))) .conditional
      (.conditional condition whenTrue whenFalse) := by
  refine .of_alone ⟨.keyword .ifThen, _, rfl, Nat.zero_le _⟩ nofun nofun fun {depth rest} deep ends => ?_
  simp only [List.length_append, List.length_cons] at deep
  have taken : Takes (conditional (expressionWithin (depth + 1)) (operandWithin (depth + 1)))
      (.keyword .ifThen :: (first ++ .mark .question :: (second ++ .keyword .otherwise :: third))) rest
      (· = .conditional condition whenTrue whenFalse) := by
    have condition_taken : Takes (operation (operandWithin (depth + 1)) <* mark .question) (first ++ [.mark .question])
        (((second ++ [.keyword .otherwise]) ++ third) ++ rest) (· = condition) := by
      refine Takes.seqLeft ?_ (takes_mark .question)
      exact asked.takes_place (by omega) (ends_of_none rfl _ _)
    have choice_taken : Takes (expressionWithin (depth + 1) <* keyword .otherwise) (second ++ [.keyword .otherwise])
        (third ++ rest) (· = whenTrue) := by
      refine Takes.seqLeft ?_ (takes_keyword .otherwise)
      exact chosen.takes_expression (by omega) (ends_of_none rfl _ _)
    have grouped : first ++ .mark .question :: (second ++ .keyword .otherwise :: third) =
        (first ++ [.mark .question]) ++ ((second ++ [.keyword .otherwise]) ++ third) := by simp
    rw [grouped]
    refine Takes.bind (takes_keyword .ifThen) fun _ _ => Takes.committed ?_
    refine Takes.bind condition_taken ?_
    rintro _ rfl
    refine Takes.bind choice_taken ?_
    rintro _ rfl
    refine (other.takes_expression (by omega) ends).bind_nil ?_
    rintro _ rfl
    exact takes_pure rfl
  exact (taken.either _).expecting _

theorem refuses_operation {operand : Reader Expr} (refuses : Refuses operand rest) : Refuses (operation operand) rest := by
  have chained : ∀ levels : List OperatorLevel, ∀ operand : Reader Expr, Refuses operand rest →
      Refuses (levels.foldl (fun tighter level => chain level tighter) operand) rest := by
    intro levels
    induction levels with
    | nil => exact fun _ refuses => refuses
    | cons level levels ih => exact fun _ refuses => ih _ refuses.bind
  exact chained _ operand refuses

/-- No expression starts with a closing parenthesis. -/
theorem refuses_rightParen (depth : Nat) :
    Refuses (operandWithin depth) (.mark .rightParen :: rest) ∧
      Refuses (expressionWithin depth) (.mark .rightParen :: rest) := by
  induction depth with
  | zero => exact ⟨fun tokens _ => ⟨.stopped tokens, rfl, rfl⟩, fun tokens _ => ⟨.stopped tokens, rfl, rfl⟩⟩
  | succ depth ih =>
    constructor
    · have noPrimary : Refuses (primary (expressionWithin depth)) (.mark .rightParen :: rest) := by
        refine refuses_firstOf ?_
        simp only [List.forall_mem_cons]
        refine ⟨.bind (refuses_number (by simp)), .map (refuses_text (by simp)), .map (refuses_keyword (by simp)),
          .map (refuses_keyword (by simp)), .seqRight (refuses_mark (by simp)),
          .bind (.seqLeft (refuses_identifier (by simp))), .map (.bind (refuses_identifier (by simp))), by simp⟩
      have noOperator : Refuses (negated (operandWithin depth)) (.mark .rightParen :: rest) :=
        .bind (refuses_token (by simp [unaryOp?]))
      exact noOperator.either_refuses (.bind (.bind noPrimary))
    · have noCondition : Refuses (conditional (expressionWithin depth) (operandWithin depth))
          (.mark .rightParen :: rest) := .bind (refuses_keyword (by simp))
      exact (noCondition.either_refuses (refuses_operation ih.1)).expecting _

theorem length_le_intercalate {argument : List Token} {pieces : List (List Token)} (member : argument ∈ pieces) :
    argument.length ≤ ([.mark .comma].intercalate pieces).length := by
  cases pieces with
  | nil => cases member
  | cons first others =>
    rw [intercalate_eq_flatMap, List.length_append]
    rcases List.mem_cons.mp member with rfl | later
    · exact Nat.le_add_right ..
    · obtain ⟨before, after, rfl⟩ := List.append_of_mem later
      rw [List.flatMap_append, List.flatMap_cons, List.length_append, List.length_append, List.length_append]
      omega

theorem reads_call (function : String) {arguments : List (List Token × Expr)}
    (each : ∀ argument ∈ arguments, Fits .conditional argument.1 argument.2) :
    Reads (.identifier function :: .mark .leftParen ::
      ([.mark .comma].intercalate (arguments.map (·.1)) ++ [.mark .rightParen])) .primary
      (.call function (arguments.map (·.2))) := by
  refine .of_alone ⟨.identifier function, _, rfl, Nat.le_refl _⟩ nofun nofun fun {depth rest} deep _ => ?_
  refine primary_of_call (takes_call (fun before argument after same => ?_) (refuses_rightParen depth).2)
  have listed : argument ∈ arguments := same ▸ List.mem_append_right before List.mem_cons_self
  have short : argument.1.length ≤ ([.mark .comma].intercalate (arguments.map (·.1))).length :=
    length_le_intercalate (List.mem_map_of_mem listed)
  rw [List.length_cons, List.length_cons, List.length_append, List.length_singleton] at deep
  have ends : Ends .conditional (after.flatMap (fun next => [.mark .comma] ++ next.1) ++ .mark .rightParen :: rest) := by
    cases after with
    | nil => exact ends_of_none rfl _ _
    | cons next after => exact ends_of_none rfl _ _
  exact (each argument listed).takes_expression (by omega) ends

/-- The whole text of an expression is read as that expression. -/
theorem Fits.expression_whole {tokens : Tokens} (fits : Fits .conditional written e) (same : tokens.map (·.value) = written) :
    expression tokens = .ok (e, []) := by
  have short : 2 * written.length + 1 ≤ 2 * tokens.length + 2 := by
    rw [← same, List.length_map]
    omega
  obtain ⟨value, read, rfl⟩ := fits.takes_expression short (ends_nil _) tokens [] same rfl
  rwa [List.append_nil] at read

/-! Every expression is read back. -/

theorem fits_tokensAt (reads : Reads e.tokens e.binding e) : Fits place (e.tokensAt place) e := by
  rw [Expr.tokensAt, Expr.placed]
  split
  next tight => exact reads.fits tight
  next => exact (reads_parenthesized (reads.fits (Nat.zero_le _))).fits place.rank_le

theorem listTokens_eq_map (arguments : List Expr) : Expr.listTokens arguments = arguments.map Expr.tokens := by
  induction arguments with
  | nil => rfl
  | cons argument rest ih => rw [Expr.listTokens, ih, List.map_cons]

mutual

/-- Every expression whose units can be written is read back. -/
theorem reads_tokens : (e : Expr) → (∀ unit ∈ e.units, unit.Readable ∧ unit.PlainNumbers) → Reads e.tokens e.binding e
  | .literal value, _ => reads_literal value
  | .quantity value unit, written =>
    have known := written unit (List.mem_singleton_self unit)
    reads_quantity value (PhysicalUnit.spells_tokens known.2) (PhysicalUnit.read_text known.1)
  | .reference path, _ => reads_reference path
  | .member target name, written => reads_member (fits_tokensAt (reads_tokens target written)) name
  | .unary op operand, written => reads_unary op (fits_tokensAt (reads_tokens operand written))
  | .binary op lhs rhs, written =>
    reads_binary (fits_tokensAt (reads_tokens lhs fun unit member => written unit (List.mem_append_left _ member)))
      (fits_tokensAt (reads_tokens rhs fun unit member => written unit (List.mem_append_right _ member)))
  | .conditional condition whenTrue whenFalse, written =>
    have asked := reads_tokens condition fun unit member =>
      written unit (List.mem_append_left _ (List.mem_append_left _ member))
    have chosen := reads_tokens whenTrue fun unit member =>
      written unit (List.mem_append_left _ (List.mem_append_right _ member))
    have other := reads_tokens whenFalse fun unit member => written unit (List.mem_append_right _ member)
    reads_conditional (fits_tokensAt asked) (chosen.fits (Nat.zero_le _)) (other.fits (Nat.zero_le _))
  | .call function arguments, written => by
    have each := reads_all arguments written
    have call := reads_call function (List.forall_mem_map.mpr each : ∀ argument ∈ arguments.map fun e => (e.tokens, e),
      Fits .conditional argument.1 argument.2)
    rw [List.map_map, List.map_map] at call
    have same : arguments.map ((fun argument => argument.2) ∘ fun e => (e.tokens, e)) = arguments := List.map_id _
    rw [same] at call
    rw [Expr.tokens, listTokens_eq_map]
    exact call

theorem reads_all : (arguments : List Expr) →
    (∀ unit ∈ Expr.listUnits arguments, unit.Readable ∧ unit.PlainNumbers) →
      ∀ argument ∈ arguments, Fits .conditional argument.tokens argument
  | [], _ => nofun
  | argument :: rest, written => by
    have first := reads_tokens argument fun unit member => written unit (List.mem_append_left _ member)
    have others := reads_all rest fun unit member => written unit (List.mem_append_right _ member)
    exact List.forall_mem_cons.mpr ⟨first.fits (Nat.zero_le _), others⟩

end

/-- An expression is read back in front of anything that does not continue it. -/
theorem takes_expression {e : Expr} (written : ∀ unit ∈ e.units, unit.Readable ∧ unit.PlainNumbers)
    (ends : Ends .conditional rest) : Takes expression e.tokens rest (· = e) := by
  intro tokens left same follows
  have short : e.tokens.length ≤ (tokens ++ left).length := by
    rw [← same, List.length_map, List.length_append]
    exact Nat.le_add_right ..
  have taken : Takes (expressionWithin (2 * (tokens ++ left).length + 2)) e.tokens rest (· = e) :=
    ((reads_tokens e written).fits (Nat.zero_le _)).takes_expression (by omega) ends
  exact taken tokens left same follows

/-- The grammar groups every expression as its tokens show it. -/
theorem expression_eq_ok {e : Expr} {tokens : Tokens} (printed : tokens.map (·.value) = e.tokens)
    (written : ∀ unit ∈ e.units, unit.Readable ∧ unit.PlainNumbers) : expression tokens = .ok (e, []) := by
  obtain ⟨value, read, rfl⟩ := takes_expression written (ends_nil _) tokens [] printed rfl
  rwa [List.append_nil] at read

/-- Metres over seconds squared. -/
def acceleration : PhysicalUnit where
  factors := [("m", 1), ("s", -2)]
  canonical := ⟨by decide, by decide, by decide⟩

/-- The expression `if a or not b ? -2 ** 3 ** 2 else f(5 [m/s^2], x.y - (1 - 2))`. -/
def nested : Expr :=
  .conditional (.binary .or (.reference (.simple "a")) (.unary .not (.reference (.simple "b"))))
    (.unary .neg (.binary .pow (.literal (.number 2)) (.binary .pow (.literal (.number 3)) (.literal (.number 2)))))
    (.call "f" [.quantity 5 acceleration,
      .binary .sub (.member (.reference (.simple "x")) "y")
        (.binary .sub (.literal (.number 1)) (.literal (.number 2)))])

theorem expression_nested : (∀ unit ∈ nested.units, unit.Readable ∧ unit.PlainNumbers) ∧
    expression (nested.tokens.map (⟨·, .atStart⟩)) = .ok (nested, []) := by
  have written : ∀ unit ∈ nested.units, unit.Readable ∧ unit.PlainNumbers := by
    intro unit member
    obtain rfl : unit = acceleration := by simpa [nested, Expr.units, Expr.listUnits] using member
    refine ⟨⟨?_, by decide⟩, ?_⟩
    · simp only [PhysicalUnit.Writable]
      decide
    · simp only [PhysicalUnit.PlainNumbers]
      decide +kernel
  have printed : (nested.tokens.map fun token => (⟨token, .atStart⟩ : Spanned Token)).map (·.value) = nested.tokens := by
    rw [List.map_map]
    exact List.map_id _
  exact ⟨written, expression_eq_ok printed written⟩

/-- A symbol with a digit is not one that can be written. -/
theorem not_read_digitSymbol : ¬ ∀ (e : Expr) (tokens : Tokens), tokens.map (·.value) = e.tokens →
    (∀ unit ∈ e.units, (∀ factor ∈ unit.factors, factor.2 ≠ -2147483648) ∧ unit.PlainNumbers) →
      expression tokens = .ok (e, []) := by
  intro reads
  have units : ∀ unit ∈ (Expr.quantity 5 (.symbol "m2")).units,
      (∀ factor ∈ unit.factors, factor.2 ≠ -2147483648) ∧ unit.PlainNumbers := by
    intro unit member
    obtain rfl := List.mem_singleton.mp member
    exact ⟨by decide, by simp only [PhysicalUnit.PlainNumbers]; decide +kernel⟩
  have read := reads (.quantity 5 (.symbol "m2"))
    [⟨.number 5, .atStart⟩, ⟨.mark .leftBracket, .atStart⟩, ⟨.identifier "m2", .atStart⟩, ⟨.mark .rightBracket, .atStart⟩]
    rfl units
  have refused : (expression [⟨.number 5, .atStart⟩, ⟨.mark .leftBracket, .atStart⟩, ⟨.identifier "m2", .atStart⟩,
    ⟨.mark .rightBracket, .atStart⟩]).toOption.isNone = true := by decide +kernel
  rw [read] at refused
  cases refused

end Reader
end StructuralModel
