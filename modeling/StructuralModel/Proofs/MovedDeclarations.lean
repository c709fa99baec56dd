import StructuralModel.Proofs.ParallelGrammar

/-! Declarations whose tokens stand elsewhere in a text. They are the same declarations, that much further on. -/

namespace StructuralModel

namespace Declaration

mutual

/-- The same declaration that many bytes further on. -/
def moved (distance : Nat) : Declaration → Declaration
  | .package name members => .package (name.moved distance) (movedAll distance members)
  | .definition kind name generals members =>
    .definition kind (name.moved distance) (generals.map (Spanned.moved distance)) (movedAll distance members)
  | .usage kind header members => .usage kind (header.moved distance) (movedAll distance members)
  | .enumerationLiteral name => .enumerationLiteral (name.moved distance)
  | .comment name? about body =>
    .comment (name?.map (Spanned.moved distance)) (about.map (Spanned.moved distance)) (body.moved distance)
  | .documentation locale? body => .documentation (locale?.map (Spanned.moved distance)) (body.moved distance)
  | .importing name => .importing (name.moved distance)

def movedAll (distance : Nat) : List Declaration → List Declaration
  | [] => []
  | declaration :: rest => declaration.moved distance :: movedAll distance rest

end

theorem movedAll_eq_map (distance : Nat) (declarations : List Declaration) :
    movedAll distance declarations = declarations.map (moved distance) := by
  induction declarations with
  | nil => rfl
  | cons declaration rest ih => rw [movedAll, ih, List.map_cons]

end Declaration

namespace Reader

variable {α β : Type} {distance : Nat}

/-- The reader finds the same with all tokens further on, and takes one of them at least. -/
def Moves (distance : Nat) (f : α → β) (p : Reader α) (q : Reader β) : Prop :=
  ∀ room, Mimics (fun _ => False) distance room 1 f p q

theorem never {token : Token} (stop : False) : token.Closes :=
  stop.elim

variable {member : Reader Declaration}

section declarations

variable (moves : Moves distance (Declaration.moved distance) member member)

include moves

theorem moves_body : Moves distance (Declaration.movedAll distance) (body member) (body member) := by
  intro room
  have none : Mimics (fun _ => False) distance room 1 (Declaration.movedAll distance)
      ((fun _ => []) <$> mark .semicolon) ((fun _ => []) <$> mark .semicolon) :=
    (mimics_mark not_false).map fun _ => rfl
  have some : Mimics (fun _ => False) distance room 1 (List.map (Declaration.moved distance))
      (mark .leftBrace *> many member <* mark .rightBrace) (mark .leftBrace *> many member <* mark .rightBrace) :=
    ((mimics_mark not_false).seqRight fun _ => (moves _).many).seqLeft fun _ => (mimics_mark not_false).any
  have same : Declaration.movedAll distance = List.map (Declaration.moved distance) :=
    funext (Declaration.movedAll_eq_map distance)
  rw [same] at none ⊢
  exact (none.either some).expecting _

theorem moves_package : Moves distance (Declaration.moved distance) (package member) (package member) := by
  intro room
  refine (mimics_keyword not_false).bind fun _ _ => Mimics.committed ?_
  refine (mimics_identifier fun _ => not_false).any.bind fun name _ => ?_
  exact (moves_body moves _).any.map fun members => by rw [Declaration.moved]

theorem moves_element (kind : DefinitionKind) : Moves distance (Declaration.moved distance)
    (match kind with
      | .enumeration => either enumerationLiteral member
      | .part | .attribute => member)
    (match kind with
      | .enumeration => either enumerationLiteral member
      | .part | .attribute => member) := by
  match kind with
  | .part | .attribute => exact moves
  | .enumeration =>
    intro room
    have literal : Mimics (fun _ => False) distance room 1 (Declaration.moved distance) enumerationLiteral
        enumerationLiteral := by
      refine (mimics_keyword not_false).optional.after fun _ => ?_
      have name : Mimics (fun _ => False) distance room 1 (Spanned.moved distance) (identifier <* mark .semicolon)
          (identifier <* mark .semicolon) :=
        (mimics_identifier fun _ => not_false).seqLeft fun _ => (mimics_mark not_false).any
      exact name.map fun _ => by rw [Declaration.moved]
    exact literal.either (moves room)

theorem moves_definition (kind : DefinitionKind) :
    Moves distance (Declaration.moved distance) (definition member kind) (definition member kind) := by
  intro room
  refine (mimics_identifier fun _ => not_false).bind fun name _ => ?_
  refine (mimics_specializations fun _ => never).bind fun generals _ => ?_
  exact (moves_body (moves_element moves kind) _).any.map fun _ => by rw [Declaration.moved]

theorem moves_usage (kind : UsageKind) :
    Moves distance (Declaration.moved distance) (usage member kind) (usage member kind) := by
  intro room
  refine (mimics_usageHeader fun _ => never).bind fun header _ => ?_
  exact (moves_body moves _).any.map fun _ => by rw [Declaration.moved]

theorem moves_definitionOrUsage :
    Moves distance (Declaration.moved distance) (definitionOrUsage member) (definitionOrUsage member) := by
  intro room
  refine (mimics_token fun _ => False.elim).bind fun leading _ => Mimics.committed ?_
  obtain ⟨⟨kind, usageKind?⟩, span⟩ := leading
  cases usageKind? with
  | none => exact (mimics_keyword not_false).any.bind fun _ _ => (moves_definition moves kind _).any
  | some usageKind =>
    refine (mimics_keyword not_false).optional.bind fun definition? _ => ?_
    cases definition? with
    | none => exact (moves_usage moves usageKind _).any
    | some _ => exact (moves_definition moves kind _).any

theorem moves_shorthand : Moves distance (Declaration.moved distance) (shorthand member) (shorthand member) := by
  intro room
  have start : Mimics (fun _ => False) distance room 0 id (ahead redefinition) (ahead redefinition) :=
    (mimics_redefinition fun _ => never).ahead
  have run : Mimics (fun _ => False) distance room 1 (Declaration.moved distance)
      (ahead redefinition >>= fun _ => committed (usage member .shorthand))
      (ahead redefinition >>= fun _ => committed (usage member .shorthand)) :=
    start.after fun _ => (moves_usage moves .shorthand room).committed
  exact run

end declarations

theorem moves_commentBody : Moves distance (Spanned.moved distance) commentBody commentBody := fun _ =>
  (mimics_token fun _ => False.elim).expecting _

theorem moves_comment : Moves distance (Declaration.moved distance) comment comment := by
  intro room
  have about : Mimics (fun _ => False) distance (room - 1 - 0) 1 (List.map (Spanned.moved distance))
      (keyword .about *> qualifiedNames) (keyword .about *> qualifiedNames) :=
    (mimics_keyword not_false).seqRight fun _ => (mimics_names fun _ => never).any
  refine (mimics_keyword not_false).bind fun _ _ => Mimics.committed ?_
  refine (mimics_identifier fun _ => not_false).optional.bind fun name? _ => about.optional.bind fun about? _ => ?_
  exact (moves_commentBody _).any.map fun body => by cases about? <;> simp [Declaration.moved]

theorem moves_bareComment : Moves distance (Declaration.moved distance) bareComment bareComment := fun room =>
  (moves_commentBody room).map fun _ => by rw [Declaration.moved]; rfl

theorem moves_documentation : Moves distance (Declaration.moved distance) documentation documentation := by
  intro room
  have locale : Mimics (fun _ => False) distance (room - 1) 1 (Spanned.moved distance) (keyword .locale *> text)
      (keyword .locale *> text) := (mimics_keyword not_false).seqRight fun _ => (mimics_text fun _ => not_false).any
  refine (mimics_keyword not_false).bind fun _ _ => Mimics.committed ?_
  exact locale.optional.bind fun locale? _ => (moves_commentBody _).any.map fun _ => by rw [Declaration.moved]

theorem moves_importing : Moves distance (Declaration.moved distance) importing importing := by
  intro room
  have all : ∀ {room}, Mimics (fun _ => False) distance room 1 (Span.moved distance) (mark .doubleColon *> mark .star)
      (mark .doubleColon *> mark .star) := (mimics_mark not_false).seqRight fun _ => (mimics_mark not_false).any
  refine (mimics_keyword not_false).bind fun _ _ => Mimics.committed ?_
  refine (mimics_qualifiedName (fun _ => not_false) not_false).any.bind fun name _ => ?_
  exact all.optional.bind fun _ _ => (mimics_mark not_false).any.bind fun _ _ => .pure (by rw [Declaration.moved])

theorem moves_declarationWithin (depth : Nat) :
    Moves distance (Declaration.moved distance) (declarationWithin depth) (declarationWithin depth) := by
  induction depth with
  | zero =>
    intro room
    rw [declarationWithin]
    exact .fail _
  | succ depth ih =>
    intro room
    have visible : Mimics (fun _ => False) distance room 1 (Declaration.moved distance)
        (visibility *> declarationWithin depth) (visibility *> declarationWithin depth) := by
      have start : Mimics (fun _ => False) distance room 1 id visibility visibility :=
        (mimics_token fun _ => False.elim).map fun _ => rfl
      exact start.seqRight fun _ => (ih _).any
    rw [declarationWithin]
    exact ((moves_package ih room).either ((moves_definitionOrUsage ih room).either ((moves_shorthand ih room).either
      ((moves_comment room).either ((moves_documentation room).either ((moves_bareComment room).either
        ((moves_importing room).either visible))))))).expecting _

/-- Where the tokens stand does not change how many there are. -/
theorem moves_declaration : Moves distance (Declaration.moved distance) declaration declaration := by
  intro room front left left' inside halts
  have same : (front.map (Spanned.moved distance) ++ left').length = (front ++ left).length := by
    cases halts with
    | ended => simp
    | stopped stop => exact stop.elim
  rw [declaration, declaration, same]
  exact moves_declarationWithin _ room front left left' inside halts

theorem many_moved {tokens : Tokens} {declarations : List Declaration} (read : many declaration tokens = .ok (declarations, [])) :
    many declaration (tokens.map (Spanned.moved distance)) = .ok (declarations.map (Declaration.moved distance), []) := by
  obtain ⟨taken, rest, _, _, none, read'⟩ := (moves_declaration tokens.length).many.taken tokens [] [] (Nat.le_refl _) .ended
    ((List.append_nil tokens).symm ▸ read)
  obtain rfl := (List.append_eq_nil_iff.mp none.symm).1
  rwa [List.append_nil] at read'

end Reader

/-- A document is read if declarations take all of its tokens. -/
theorem Declaration.ofTokens_ok_iff {tokens : Tokens} {declarations : List Declaration} :
    ofTokens tokens = .ok declarations ↔ Reader.many Reader.declaration tokens = .ok (declarations, []) := by
  rw [ofTokens, Reader.document]
  cases read : Reader.many Reader.declaration tokens with
  | error error =>
    rw [Reader.bind_error read]
    exact ⟨nofun, nofun⟩
  | ok found =>
    obtain ⟨found, left⟩ := found
    rw [Reader.bind_ok read]
    cases left with
    | nil => simp
    | cons => simp

end StructuralModel
