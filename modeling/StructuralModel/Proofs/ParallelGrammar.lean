import StructuralModel.Proofs.ParallelReading
import StructuralModel.Source.DeclarationGrammar

/-! Expressions and the headers of usages, read at two places. A token that closes a header, or starts a body, stops all
of these readers; so nothing behind it matters for them. -/

namespace StructuralModel

/-- The marks around the bodies of declarations, and comments, which are bodies of their own. -/
inductive Token.Closes : Token → Prop
  | semicolon : Closes (.mark .semicolon)
  | leftBrace : Closes (.mark .leftBrace)
  | rightBrace : Closes (.mark .rightBrace)
  | comment (raw : String) : Closes (.comment raw)

namespace Reader

variable {α : Type} {stops : Token → Prop} {distance room : Nat} (halting : ∀ token, stops token → token.Closes)

include halting

theorem passes {token : Token} (inside : ¬ token.Closes) : ¬ stops token :=
  fun stop => inside (halting token stop)

/-- No closing token is one of those that the reader knows. -/
theorem mimics_inside {read : Token → Option α} (outside : ∀ token, token.Closes → read token = none) :
    Mimics stops distance room 1 (Spanned.moved distance) (token read) (token read) :=
  mimics_token fun token stop => outside token (halting token stop)

theorem mimics_sign (sign : Mark) (inside : ¬ (Token.mark sign).Closes) :
    Mimics stops distance room 1 (Span.moved distance) (mark sign) (mark sign) :=
  mimics_mark (passes halting inside)

theorem mimics_word (word : Keyword) : Mimics stops distance room 1 (Span.moved distance) (keyword word) (keyword word) :=
  mimics_keyword (passes halting nofun)

theorem mimics_name : Mimics stops distance room 1 (Spanned.moved distance) identifier identifier :=
  mimics_identifier fun _ => passes halting nofun

theorem mimics_names : Mimics stops distance room 1 (List.map (Spanned.moved distance)) qualifiedNames qualifiedNames :=
  mimics_qualifiedNames (fun _ => passes halting nofun) (passes halting nofun) (passes halting nofun)

section expressions

theorem mimics_unit : Mimics stops distance room 1 id unit unit := by
  have unknown : ∀ token : Token, token.Closes → unitPiece? token = none := by rintro _ ⟨⟩ <;> rfl
  have pieces : Mimics stops distance room 1 (List.map (Spanned.moved distance)) (oneOrMore (token unitPiece?))
      (oneOrMore (token unitPiece?)) := (mimics_inside halting unknown).oneOrMore
  refine Mimics.expecting (fun front left left' inside halts => ?_) _
  have same := pieces front left left' inside halts
  generalize oneOrMore (token unitPiece?) _ = here at same ⊢
  generalize oneOrMore (token unitPiece?) _ = there at same ⊢
  cases same with
  | ok taken rest found split enough =>
    have written : (found.map (Spanned.moved distance)).map (·.value) = found.map (·.value) := by
      rw [List.map_map]
      rfl
    simp only [bind, Except.bind, written]
    split
    · exact .ok taken rest _ split enough
    · exact .error rfl
  | error same => exact .error same

theorem mimics_numberOrQuantity : Mimics stops distance room 1 id numberOrQuantity numberOrQuantity := by
  refine (mimics_number fun _ => passes halting nofun).bind fun value _ => ?_
  refine (mimics_sign halting .leftBracket nofun).optional.bind fun bracket? _ => ?_
  cases bracket? with
  | none => exact .pure rfl
  | some bracket =>
    have inside : Mimics stops distance (room - 1 - 0) 1 id (committed (unit <* mark .rightBracket))
        (committed (unit <* mark .rightBracket)) :=
      ((mimics_unit halting).seqLeft fun _ => (mimics_sign halting .rightBracket nofun).any).committed
    exact inside.any.map fun _ => rfl

variable {expression expression' operand operand' : Reader Expr}

theorem mimics_parenthesized (inner : 1 ≤ room → Mimics stops distance (room - 1) 1 id expression expression') :
    Mimics stops distance room 1 id (parenthesized expression) (parenthesized expression') :=
  (mimics_sign halting .leftParen nofun).seqRight fun inside =>
    ((inner inside).seqLeft fun _ => (mimics_sign halting .rightParen nofun).any).committed.any

theorem mimics_call (inner : 1 ≤ room → Mimics stops distance (room - 1) 1 id expression expression') :
    Mimics stops distance room 1 id (call expression) (call expression') := by
  have function : Mimics stops distance room 1 (Spanned.moved distance) (identifier <* mark .leftParen)
      (identifier <* mark .leftParen) := (mimics_name halting).seqLeft fun _ => (mimics_sign halting .leftParen nofun).any
  refine function.bind fun name inside => Mimics.committed ?_
  have arguments := ((mimics_sign halting .comma nofun).separated (inner inside)).optional.seqLeft fun _ =>
    (mimics_sign halting .rightParen nofun).any
  exact arguments.bind fun found _ => .pure (by cases found <;> simp [Spanned.moved])

theorem mimics_primary (inner : 1 ≤ room → Mimics stops distance (room - 1) 1 id expression expression') :
    Mimics stops distance room 1 id (primary expression) (primary expression') := by
  have text : Mimics stops distance room 1 id ((fun value => Expr.literal (.text value.value)) <$> text)
      ((fun value => Expr.literal (.text value.value)) <$> text) :=
    (mimics_text fun _ => passes halting nofun).map fun _ => rfl
  have yes : Mimics stops distance room 1 id ((fun _ => Expr.literal (.boolean true)) <$> keyword .yes)
      ((fun _ => Expr.literal (.boolean true)) <$> keyword .yes) := (mimics_word halting .yes).map fun _ => rfl
  have no : Mimics stops distance room 1 id ((fun _ => Expr.literal (.boolean false)) <$> keyword .no)
      ((fun _ => Expr.literal (.boolean false)) <$> keyword .no) := (mimics_word halting .no).map fun _ => rfl
  have name : Mimics stops distance room 1 id ((fun name => Expr.reference name.value) <$> qualifiedName)
      ((fun name => Expr.reference name.value) <$> qualifiedName) :=
    (mimics_qualifiedName (fun _ => passes halting nofun) (passes halting nofun)).map fun _ => rfl
  exact (mimics_numberOrQuantity halting).either (text.either (yes.either (no.either
    ((mimics_parenthesized halting inner).either ((mimics_call halting inner).either name)))))

theorem mimics_members (inner : 1 ≤ room → Mimics stops distance (room - 1) 1 id expression expression') :
    Mimics stops distance room 1 id (members expression) (members expression') := by
  have next : Mimics stops distance (room - 1) 1 (Spanned.moved distance) (mark .dot *> committed identifier)
      (mark .dot *> committed identifier) :=
    (mimics_sign halting .dot nofun).seqRight fun _ => (mimics_name halting).committed.any
  refine (mimics_primary halting inner).bind fun target _ => next.many.bind fun names _ => .pure ?_
  rw [List.foldl_map]
  rfl

theorem mimics_power (inner : 1 ≤ room → Mimics stops distance (room - 1) 1 id expression expression')
    (exponent : 1 ≤ room → Mimics stops distance (room - 1) 1 id operand operand') :
    Mimics stops distance room 1 id (power expression operand) (power expression' operand') := by
  refine (mimics_members halting inner).bind fun base inside => ?_
  refine ((mimics_sign halting .power nofun).either (mimics_sign halting .caret nofun)).optional.bind fun sign? _ => ?_
  cases sign? with
  | none => exact .pure rfl
  | some sign => exact (exponent inside).committed.any.map fun _ => rfl

theorem mimics_negated (inner : 1 ≤ room → Mimics stops distance (room - 1) 1 id operand operand') :
    Mimics stops distance room 1 id (negated operand) (negated operand') := by
  have unknown : ∀ token : Token, token.Closes → unaryOp? token = none := by rintro _ ⟨⟩ <;> rfl
  refine (mimics_inside halting unknown).bind fun op inside => ?_
  exact (inner inside).committed.any.map fun _ => rfl

theorem mimics_chain (level : OperatorLevel) (tighter : Mimics stops distance room 1 id operand operand') :
    Mimics stops distance room 1 id (chain level operand) (chain level operand') := by
  have unknown : ∀ token : Token, token.Closes → level.operator? token = none := by rintro _ ⟨⟩ <;> cases level <;> rfl
  have next : Mimics stops distance room 1 id (token level.operator? >>= fun op => (op.value, ·) <$> committed operand)
      (token level.operator? >>= fun op => (op.value, ·) <$> committed operand') :=
    (mimics_inside halting unknown).bind fun op _ => (tighter.narrow (Nat.sub_le room 1)).committed.any.map fun _ => rfl
  refine tighter.bind fun first _ => (next.narrow (Nat.sub_le room 1)).many.bind fun more _ => .pure ?_
  rw [List.map_id]
  rfl

theorem mimics_operation (tightest : Mimics stops distance room 1 id operand operand') :
    Mimics stops distance room 1 id (operation operand) (operation operand') := by
  rw [operation, operation]
  induction OperatorLevel.all generalizing operand operand' with
  | nil => exact tightest
  | cons level levels ih => exact ih (mimics_chain halting level tightest)

theorem mimics_conditional (inner : 1 ≤ room → Mimics stops distance (room - 1) 1 id expression expression')
    (tighter : 1 ≤ room → Mimics stops distance (room - 1) 1 id operand operand') :
    Mimics stops distance room 1 id (conditional expression operand) (conditional expression' operand') := by
  refine (mimics_word halting .ifThen).bind fun _ inside => Mimics.committed ?_
  have test := (mimics_operation halting (tighter inside)).seqLeft fun _ => (mimics_sign halting .question nofun).any
  refine test.any.bind fun condition _ => ?_
  have positive := (inner inside).seqLeft fun _ => (mimics_word halting .otherwise).any
  refine positive.any.bind fun whenTrue _ => ?_
  exact (inner inside).any.bind fun whenFalse _ => .pure rfl

/-- A level of nesting that is reached behind a token has room for one token less. -/
theorem mimics_within (depth depth' room : Nat) :
    (Ample (2 * room + 1) depth depth' → Mimics stops distance room 1 id (operandWithin depth) (operandWithin depth')) ∧
      (Ample (2 * room + 2) depth depth' →
        Mimics stops distance room 1 id (expressionWithin depth) (expressionWithin depth')) := by
  induction depth generalizing depth' room with
  | zero =>
    refine ⟨fun ample => ?_, fun ample => ?_⟩
    · obtain rfl := ample.spent
      rw [operandWithin]
      exact .fail id
    · obtain rfl := ample.spent
      rw [expressionWithin]
      exact .fail id
  | succ depth ih =>
    have expression : ∀ {rest}, Ample (2 * room) depth rest → 1 ≤ room →
        Mimics stops distance (room - 1) 1 id (expressionWithin depth) (expressionWithin rest) :=
      fun ample inside => (ih _ (room - 1)).2 (ample.mono (by omega))
    constructor
    · intro ample
      obtain ⟨rest, rfl, spare⟩ := ample.spend
      rw [operandWithin, operandWithin]
      have operand : 1 ≤ room → Mimics stops distance (room - 1) 1 id (operandWithin depth) (operandWithin rest) :=
        fun inside => (ih rest (room - 1)).1 (spare.mono (by omega))
      exact (mimics_negated halting operand).either (mimics_power halting (expression spare) operand)
    · intro ample
      obtain ⟨rest, rfl, spare⟩ := ample.spend
      rw [expressionWithin, expressionWithin]
      have operand := (ih rest room).1 spare
      have test := mimics_conditional halting (expression (spare.mono (Nat.le_succ _))) fun _ =>
        operand.narrow (Nat.sub_le room 1)
      exact (test.either (mimics_operation halting operand)).expecting _

end expressions

theorem mimics_expression : Mimics stops distance room 1 id expression expression := by
  intro front left left' inside halts
  rw [expression, expression]
  refine (mimics_within halting _ _ front.length).2 ?_ front left left' (Nat.le_refl _) halts
  rw [Ample, List.length_append, List.length_append, List.length_map]
  cases halts with
  | ended => exact .inl rfl
  | stopped =>
    simp only [List.length_cons]
    omega


end Reader

/-- The same header that many bytes further on. -/
def UsageHeader.moved (distance : Nat) (header : UsageHeader) : UsageHeader where
  name? := header.name?.map (Spanned.moved distance)
  redefines? := header.redefines?.map (Spanned.moved distance)
  types := header.types.map (Spanned.moved distance)
  multiplicity? := header.multiplicity?.map (Spanned.moved distance)
  subsets := header.subsets.map (Spanned.moved distance)
  value? := header.value?.map (Spanned.moved distance)

namespace Reader

section headers

variable {stops : Token → Prop} {distance room : Nat} (halting : ∀ token, stops token → token.Closes)

include halting

theorem mimics_redefinition : Mimics stops distance room 1 id redefinition redefinition := by
  refine Mimics.expecting (Mimics.map (mimics_inside halting ?_) fun _ => by rfl) _
  rintro _ ⟨⟩ <;> rfl

theorem mimics_specializations :
    Mimics stops distance room 0 (List.map (Spanned.moved distance)) specializations specializations := by
  have listed : Mimics stops distance room 1 (List.map (Spanned.moved distance)) (mark .specializes *> qualifiedNames)
      (mark .specializes *> qualifiedNames) :=
    (mimics_sign halting .specializes nofun).seqRight fun _ => (mimics_names halting).any
  exact listed.optional.map fun names? => by cases names? <;> rfl

theorem mimics_usageNames : Mimics stops distance room 1
    (Prod.map (Option.map (Spanned.moved distance)) (Option.map (Spanned.moved distance))) usageNames usageNames := by
  refine (mimics_redefinition halting).optional.after fun sign? => ?_
  cases sign? with
  | some sign => exact (mimics_name halting).bind fun target _ => .pure rfl
  | none =>
    have target : Mimics stops distance (room - 1) 1 (Spanned.moved distance) (redefinition *> identifier)
        (redefinition *> identifier) := (mimics_redefinition halting).seqRight fun _ => (mimics_name halting).any
    exact (mimics_name halting).bind fun name _ => target.optional.bind fun target? _ => .pure rfl

theorem mimics_usageHeader : Mimics stops distance room 1 (UsageHeader.moved distance) usageHeader usageHeader := by
  have types : ∀ {room}, Mimics stops distance room 1 (List.map (Spanned.moved distance)) (mark .colon *> qualifiedNames)
      (mark .colon *> qualifiedNames) :=
    (mimics_sign halting .colon nofun).seqRight fun _ => (mimics_names halting).any
  have count : ∀ {room}, Mimics stops distance room 1 (Spanned.moved distance)
      (mark .leftBracket *> number <* mark .rightBracket) (mark .leftBracket *> number <* mark .rightBracket) :=
    ((mimics_sign halting .leftBracket nofun).seqRight fun _ => (mimics_number fun _ => passes halting nofun).any).seqLeft
      fun _ => (mimics_sign halting .rightBracket nofun).any
  have value : ∀ {room}, Mimics stops distance room 1 (Spanned.moved distance) (mark .assign *> spanned expression)
      (mark .assign *> spanned expression) :=
    (mimics_sign halting .assign nofun).seqRight fun _ => (mimics_expression halting).spanned.any
  refine (mimics_usageNames halting).bind fun names _ => types.optional.bind fun types? _ => count.optional.bind fun count? _ =>
    (mimics_specializations halting).bind fun subsets _ => value.optional.bind fun value? _ => .pure ?_
  cases types? <;> rfl

end headers

end Reader
end StructuralModel
