import StructuralModel.Proofs.DeclarationReading
import StructuralModel.Proofs.MovedDeclarations

/-! Declarations that go on to be read where more text follows. A declaration ends with a token of its own, which the
header before it does not look beyond; so what follows a document does not change how the document is read. -/

namespace StructuralModel

theorem mapError_eq_ok {ε ε' α : Type} {f : ε → ε'} {found : Except ε α} {value : α} :
    found.mapError f = .ok value ↔ found = .ok value := by
  cases found <;> simp [Except.mapError]

namespace Reader

variable {α β : Type}

/-- What the first reader takes, the second takes too where more text follows. -/
def Extends (p q : Reader α) : Prop :=
  ∀ tokens value left, p tokens = .ok (value, left) → ∀ more, q (tokens ++ more) = .ok (value, left ++ more)

section outcomes

variable {p : Reader α} {tokens left : Tokens}

theorem bind_eq_ok {next : α → Reader β} {value : β} (read : (p >>= next) tokens = .ok (value, left)) :
    ∃ first between, p tokens = .ok (first, between) ∧ next first between = .ok (value, left) := by
  cases first : p tokens with
  | error error =>
    rw [bind_error first] at read
    cases read
  | ok found =>
    obtain ⟨first', between⟩ := found
    rw [bind_ok first] at read
    exact ⟨first', between, rfl, read⟩

theorem expecting_eq_ok {what : Expected} {found : α × Tokens} : expecting what p tokens = .ok found ↔ p tokens = .ok found :=
  mapError_eq_ok

theorem committed_eq_ok {found : α × Tokens} : committed p tokens = .ok found ↔ p tokens = .ok found :=
  mapError_eq_ok

theorem either_eq_ok {q : Reader α} {found : α × Tokens} (read : either p q tokens = .ok found) :
    p tokens = .ok found ∨ (∃ error, p tokens = .error error ∧ error.isCommitted = false) ∧ q tokens = .ok found := by
  rw [either] at read
  cases first : p tokens with
  | ok value =>
    rw [first] at read
    exact .inl read
  | error error =>
    rw [first] at read
    dsimp only at read
    split at read
    · cases read
    next open_ => exact .inr ⟨⟨error, rfl, by simpa using open_⟩, read⟩

theorem either_of_error {q : Reader α} (failed : ∃ error, p tokens = .error error ∧ error.isCommitted = false) :
    either p q tokens = q tokens := by
  obtain ⟨error, failed, free⟩ := failed
  simp only [either, failed, free, Bool.false_eq_true, if_false]

theorem token_eq_ok {read : Token → Option α} {value : Spanned α} (found : token read tokens = .ok (value, left)) :
    ∃ first, tokens = first :: left ∧ read first.value = some value.value := by
  cases tokens with
  | nil => cases found
  | cons first rest =>
    rw [token] at found
    split at found
    next known =>
      obtain ⟨rfl, rfl⟩ := Prod.mk.inj (Except.ok.inj found)
      exact ⟨first, rfl, known⟩
    next => cases found

theorem map_eq_ok {f : α → β} {value : β} (read : (f <$> p) tokens = .ok (value, left)) :
    ∃ first, p tokens = .ok (first, left) ∧ f first = value := by
  have run : (p >>= fun value => (pure (f value) : Reader β)) tokens = .ok (value, left) := read
  obtain ⟨first, between, readFirst, readNext⟩ := bind_eq_ok run
  obtain ⟨rfl, rfl⟩ := Prod.mk.inj (Except.ok.inj readNext)
  exact ⟨first, readFirst, rfl⟩

theorem seqRight_eq_ok {next : Reader β} {value : β} (read : (p *> next) tokens = .ok (value, left)) :
    ∃ first between, p tokens = .ok (first, between) ∧ next between = .ok (value, left) := by
  have run : (p >>= fun _ => next) tokens = .ok (value, left) := read
  exact bind_eq_ok run

theorem seqLeft_eq_ok {next : Reader β} {value : α} (read : (p <* next) tokens = .ok (value, left)) :
    ∃ between last, p tokens = .ok (value, between) ∧ next between = .ok (last, left) := by
  have run : (p >>= fun value => next >>= fun _ => (pure value : Reader α)) tokens = .ok (value, left) := read
  obtain ⟨first, between, readFirst, readNext⟩ := bind_eq_ok run
  obtain ⟨last, rest, readLast, done⟩ := bind_eq_ok readNext
  obtain ⟨rfl, rfl⟩ := Prod.mk.inj (Except.ok.inj done)
  exact ⟨between, last, readFirst, readLast⟩

theorem mark_eq_ok {sign : Mark} {span : Span} (read : mark sign tokens = .ok (span, left)) :
    ∃ first, tokens = first :: left ∧ first.value = .mark sign := by
  obtain ⟨value, found, _⟩ := map_eq_ok (expecting_eq_ok.mp read)
  obtain ⟨first, rfl, known⟩ := token_eq_ok found
  refine ⟨first, rfl, ?_⟩
  split at known
  next other same =>
    split at known
    next own => exact same.trans (own ▸ rfl)
    next => cases known
  next => cases known

theorem keyword_eq_ok {word : Keyword} {span : Span} (read : keyword word tokens = .ok (span, left)) :
    ∃ first, tokens = first :: left ∧ first.value = .keyword word := by
  obtain ⟨value, found, _⟩ := map_eq_ok (expecting_eq_ok.mp read)
  obtain ⟨first, rfl, known⟩ := token_eq_ok found
  refine ⟨first, rfl, ?_⟩
  split at known
  next other same =>
    split at known
    next own => exact same.trans (own ▸ rfl)
    next => cases known
  next => cases known

/-- A reader does not invent tokens. -/
theorem suffix {stops : Token → Prop} {distance least : Nat} {f : α → β} {q : Reader β}
    (mimics : ∀ room, Mimics stops distance room least f p q) {value : α} (read : p tokens = .ok (value, left)) :
    ∃ taken, tokens = taken ++ left ∧ least ≤ taken.length := by
  obtain ⟨taken, rest, split, enough, same, _⟩ := (mimics tokens.length).taken tokens [] [] (Nat.le_refl _) .ended
    ((List.append_nil tokens).symm ▸ read)
  rw [List.append_nil] at same
  exact ⟨taken, same ▸ split, enough⟩

end outcomes

namespace Extends

variable {p q : Reader α}

theorem pure (value : α) : Extends (Pure.pure value) (Pure.pure value) := by
  intro tokens _ left read more
  obtain ⟨rfl, rfl⟩ := Prod.mk.inj (Except.ok.inj read)
  rfl

theorem token {read : Token → Option α} : Extends (token read) (token read) := by
  intro tokens value left found more
  cases tokens with
  | nil => cases found
  | cons first rest =>
    rw [Reader.token] at found
    rw [List.cons_append, Reader.token]
    split at found
    next known =>
      obtain ⟨rfl, rfl⟩ := Prod.mk.inj (Except.ok.inj found)
      rfl
    next => cases found

theorem bind {next next' : α → Reader β} (extends_ : Extends p q) (later : ∀ value, Extends (next value) (next' value)) :
    Extends (p >>= next) (q >>= next') := by
  intro tokens value left read more
  obtain ⟨first, between, readFirst, readNext⟩ := bind_eq_ok read
  rw [bind_ok (extends_ tokens first between readFirst more)]
  exact later first between value left readNext more

theorem map (f : α → β) (extends_ : Extends p q) : Extends (f <$> p) (f <$> q) := by
  have run : Extends (p >>= fun value => Pure.pure (f value)) (q >>= fun value => Pure.pure (f value)) :=
    extends_.bind fun _ => .pure _
  exact run

theorem seqRight {next next' : Reader β} (extends_ : Extends p q) (later : Extends next next') :
    Extends (p *> next) (q *> next') := by
  have run : Extends (p >>= fun _ => next) (q >>= fun _ => next') := extends_.bind fun _ => later
  exact run

theorem seqLeft {next next' : Reader β} (extends_ : Extends p q) (later : Extends next next') :
    Extends (p <* next) (q <* next') := by
  have run : Extends (p >>= fun value => next >>= fun _ => Pure.pure value)
      (q >>= fun value => next' >>= fun _ => Pure.pure value) := extends_.bind fun _ => later.bind fun _ => .pure _
  exact run

theorem expecting (extends_ : Extends p q) (what : Expected) : Extends (expecting what p) (expecting what q) :=
  fun tokens value left read more => expecting_eq_ok.mpr (extends_ tokens value left (expecting_eq_ok.mp read) more)

theorem committed (extends_ : Extends p q) : Extends (committed p) (committed q) :=
  fun tokens value left read more => committed_eq_ok.mpr (extends_ tokens value left (committed_eq_ok.mp read) more)

theorem mark (sign : Mark) : Extends (mark sign) (mark sign) :=
  (token.map _).expecting _

theorem keyword (word : Keyword) : Extends (keyword word) (keyword word) :=
  (token.map _).expecting _

theorem identifier : Extends identifier identifier :=
  token.expecting _

/-- What a mark ends has to be read alike in front of the mark only. -/
theorem ended {sign : Mark} (extends_ : ∀ tokens value first left, p tokens = .ok (value, first :: left) →
    first.value = .mark sign → ∀ more, q (tokens ++ more) = .ok (value, first :: left ++ more)) :
    Extends (p <* Reader.mark sign) (q <* Reader.mark sign) := by
  intro tokens value left read more
  obtain ⟨between, span, readFirst, ends⟩ := seqLeft_eq_ok read
  obtain ⟨first, rfl, same⟩ := mark_eq_ok ends
  have again : (q >>= fun value => Reader.mark sign >>= fun _ => (Pure.pure value : Reader α)) (tokens ++ more) =
      .ok (value, left ++ more) := by
    rw [bind_ok (extends_ tokens value first left readFirst same more), bind_ok (mark sign _ span left ends more)]
    rfl
  exact again

/-- The second alternative is taken only where the first refuses, whatever follows. -/
theorem either {second second' : Reader α} (first : Extends p q) (other : Extends second second')
    (apart : ∀ tokens value left, second tokens = .ok (value, left) → ∀ more,
      ∃ error, q (tokens ++ more) = .error error ∧ error.isCommitted = false) :
    Extends (either p second) (either q second') := by
  intro tokens value left read more
  rcases either_eq_ok read with here | ⟨_, there⟩
  · rw [Reader.either, first tokens value left here more]
  · rw [either_of_error (apart tokens value left there more)]
    exact other tokens value left there more

end Extends

/-- Nothing is read without a closing token. -/
def Needs (p : Reader α) : Prop :=
  ∀ tokens value left, p tokens = .ok (value, left) → ∃ token ∈ tokens, token.value.Closes

namespace Needs

variable {p : Reader α}

theorem map {f : α → β} (needs : Needs p) : Needs (f <$> p) := by
  intro tokens value left read
  obtain ⟨first, readFirst, _⟩ := map_eq_ok read
  exact needs tokens first left readFirst

/-- A closing token behind some others is one of them all. -/
theorem bind {stops : Token → Prop} {distance least : Nat} {γ : Type} {f : α → γ} {q : Reader γ} {next : α → Reader β}
    (mimics : ∀ room, Mimics stops distance room least f p q) (needs : ∀ value, Needs (next value)) : Needs (p >>= next) := by
  intro tokens value left read
  obtain ⟨first, between, readFirst, readNext⟩ := bind_eq_ok read
  obtain ⟨taken, rfl, _⟩ := suffix mimics readFirst
  obtain ⟨token, member, closing⟩ := needs first between value left readNext
  exact ⟨token, List.mem_append_right _ member, closing⟩

theorem token {read : Token → Option α} (closes : ∀ token value, read token = some value → token.Closes) :
    Needs (token read) := by
  intro tokens value left found
  obtain ⟨first, rfl, known⟩ := token_eq_ok found
  exact ⟨first, List.mem_cons_self, closes _ _ known⟩

theorem first {next : α → Reader β} (needs : Needs p) : Needs (p >>= next) := by
  intro tokens value left read
  obtain ⟨first, between, readFirst, _⟩ := bind_eq_ok read
  exact needs tokens first between readFirst

theorem expecting (needs : Needs p) (what : Expected) : Needs (expecting what p) :=
  fun tokens value left read => needs tokens value left (expecting_eq_ok.mp read)

theorem either {q : Reader α} (first : Needs p) (second : Needs q) : Needs (either p q) := by
  intro tokens value left read
  rcases either_eq_ok read with here | ⟨_, there⟩
  · exact first tokens value left here
  · exact second tokens value left there

theorem mark {sign : Mark} (closes : (Token.mark sign).Closes) : Needs (mark sign) := by
  intro tokens span left read
  obtain ⟨first, rfl, same⟩ := mark_eq_ok read
  exact ⟨first, List.mem_cons_self, same ▸ closes⟩

theorem commentBody : Needs commentBody := by
  refine Needs.expecting (Needs.token fun token value known => ?_) _
  split at known
  · exact .comment _
  · cases known

end Needs

namespace Extends

variable {p q : Reader α}

theorem ahead (extends_ : Extends p q) : Extends (ahead p) (ahead q) := by
  intro tokens value left read more
  rw [Reader.ahead] at read ⊢
  split at read
  next found rest first =>
    obtain ⟨rfl, rfl⟩ := Prod.mk.inj (Except.ok.inj read)
    rw [extends_ tokens found rest first more]
  next => cases read

/-- A header is read as before if a closing token follows it, which is where it stops at the latest. -/
theorem closed {least : Nat} {f : α → α} {next next' : α → Reader β} (same : ∀ value, f value = value)
    (mimics : ∀ room, Mimics Token.Closes 0 room least f p q)
    (closes : ∀ first, Needs (next first))
    (later : ∀ value, Extends (next value) (next' value)) : Extends (p >>= next) (q >>= next') := by
  intro tokens value left read more
  obtain ⟨first, between, readFirst, readNext⟩ := bind_eq_ok read
  obtain ⟨taken, rfl, _⟩ := suffix mimics readFirst
  obtain ⟨token, member, closing⟩ := closes first between value left readNext
  obtain ⟨front, rest, rfl⟩ := List.append_of_mem member
  have unmoved : ∀ tokens : Tokens, tokens.map (Spanned.moved 0) = tokens := List.map_id
  obtain ⟨_, kept, _, _, left, read'⟩ := (mimics (taken ++ front).length).taken (taken ++ front) (token :: rest)
    (token :: (rest ++ more)) (Nat.le_refl _) (.stopped closing) (by rwa [List.append_assoc])
  obtain rfl := List.append_cancel_right left
  rw [unmoved, unmoved, same] at read'
  have whole : taken ++ (front ++ token :: rest) ++ more = taken ++ front ++ token :: (rest ++ more) := by simp
  have after := later first _ value _ readNext more
  rw [List.append_assoc, List.cons_append] at after
  rw [whole, bind_ok read', after]

end Extends

/-- A repetition ends where its reader refuses what is left, however often it may go on. -/
theorem upTo_extends {member member' : Reader α} (extends_ : Extends member member') {count count' : Nat} {tokens left more : Tokens}
    {values : List α} (read : upTo count member tokens = .ok (values, left)) (enough : count ≤ count')
    (refused : ∃ error, member' (left ++ more) = .error error ∧ error.isCommitted = false) :
    upTo count' member' (tokens ++ more) = .ok (values, left ++ more) := by
  obtain ⟨error, failed, free⟩ := refused
  have stopped : ∀ count, upTo count member' (left ++ more) = .ok ([], left ++ more) := by
    intro count
    cases count with
    | zero => rfl
    | succ count => rw [upTo_error failed, free, if_neg Bool.false_ne_true]
  induction count generalizing tokens values count' with
  | zero =>
    obtain ⟨rfl, rfl⟩ := Prod.mk.inj (Except.ok.inj read)
    exact stopped count'
  | succ count ih =>
    obtain ⟨count', rfl⟩ : ∃ less, count' = less + 1 := ⟨count' - 1, by omega⟩
    cases first : member tokens with
    | ok found =>
      obtain ⟨value, between⟩ := found
      rw [upTo_ok first] at read
      obtain ⟨rest, readRest, rfl⟩ := map_eq_ok read
      rw [upTo_ok (extends_ tokens value between first more)]
      exact map_ok (ih readRest (Nat.le_of_succ_le_succ enough))
    | error error =>
      rw [upTo_error first] at read
      split at read
      · cases read
      · obtain ⟨rfl, rfl⟩ := Prod.mk.inj (Except.ok.inj read)
        exact stopped (count' + 1)

/-- What the readers of members have to do for a body: the second goes on where the first does, it stops at the brace that
closes the body, and nothing that the first reads could be a literal. -/
structure ReadsOn (member member' : Reader Declaration) : Prop where
  extends_ : Extends member member'
  closed : ∀ rest, Refuses member' (.mark .rightBrace :: rest)
  literal : ∀ tokens value left, member tokens = .ok (value, left) → ∀ more,
    ∃ error, enumerationLiteral (tokens ++ more) = .error error ∧ error.isCommitted = false

section declarations

variable {member member' : Reader Declaration}

theorem extends_body (extends_ : Extends member member') (closed : ∀ rest, Refuses member' (.mark .rightBrace :: rest)) :
    Extends (body member) (body member') := by
  have braces : Extends (mark .leftBrace *> many member <* mark .rightBrace)
      (mark .leftBrace *> many member' <* mark .rightBrace) := by
    refine Extends.ended fun tokens values brace left read same more => ?_
    obtain ⟨span, inner, opened, readMany⟩ := seqRight_eq_ok read
    have refused := closed ((left ++ more).map (·.value)) (brace :: left ++ more) (by simp [same])
    have again : (mark .leftBrace >>= fun _ => many member') (tokens ++ more) = .ok (values, brace :: left ++ more) := by
      rw [bind_ok (Extends.mark .leftBrace tokens span inner opened more)]
      exact upTo_extends extends_ readMany (by simp) refused
    exact again
  refine Extends.expecting (Extends.either ((Extends.mark .semicolon).map _) braces ?_) _
  intro tokens values left read more
  obtain ⟨_, _, inside, _⟩ := seqLeft_eq_ok read
  obtain ⟨span, inner, opened, _⟩ := seqRight_eq_ok inside
  obtain ⟨brace, rfl, same⟩ := mark_eq_ok opened
  have refuses : Refuses ((fun _ => ([] : List Declaration)) <$> mark .semicolon) (.mark .leftBrace :: (inner ++ more).map (·.value)) :=
    (refuses_mark (by simp)).map
  exact refuses _ (by simp [same])

theorem needs_body : Needs (body member) :=
  (((Needs.mark .semicolon).map).either (Needs.mark .leftBrace).first.first).expecting _

theorem option_moved_zero (value? : Option (Spanned α)) : value?.map (Spanned.moved 0) = value? := by
  cases value? <;> rfl

theorem header_moved_zero (header : UsageHeader) : header.moved 0 = header := by
  have kept : ∀ {α : Type} (values : List (Spanned α)), values.map (Spanned.moved 0) = values := List.map_id
  simp only [UsageHeader.moved, option_moved_zero, kept]

/-! The readers of headers stop at closing tokens. -/

theorem stops_name (room : Nat) : Mimics Token.Closes 0 room 1 (Spanned.moved 0) identifier identifier :=
  mimics_name fun _ closes => closes

theorem stops_keyword (word : Keyword) (room : Nat) :
    Mimics Token.Closes 0 room 1 (Span.moved 0) (keyword word) (keyword word) :=
  mimics_word (fun _ closes => closes) word

theorem stops_specializations (room : Nat) :
    Mimics Token.Closes 0 room 0 (List.map (Spanned.moved 0)) specializations specializations :=
  mimics_specializations fun _ closes => closes

theorem stops_usageHeader (room : Nat) : Mimics Token.Closes 0 room 1 (UsageHeader.moved 0) usageHeader usageHeader :=
  mimics_usageHeader fun _ closes => closes

theorem needs_definition (kind : DefinitionKind) : Needs (definition member kind) :=
  .bind stops_name fun _ => .bind stops_specializations fun _ => needs_body.map

theorem needs_usage (kind : UsageKind) : Needs (usage member kind) :=
  .bind stops_usageHeader fun _ => needs_body.map

theorem extends_literal : Extends enumerationLiteral enumerationLiteral := by
  refine Extends.closed (fun span? => by cases span? <;> rfl) (fun room => (stops_keyword .enumeration room).optional)
    (fun _ => Needs.map ?_) fun _ => (Extends.identifier.seqLeft (.mark _)).map _
  exact Needs.bind stops_name fun _ => (Needs.mark .semicolon).first

theorem extends_definition (on : ReadsOn member member') (kind : DefinitionKind) :
    Extends (definition member kind) (definition member' kind) := by
  refine Extends.identifier.bind fun name => ?_
  refine Extends.closed List.map_id stops_specializations (fun _ => needs_body.map) fun generals => Extends.map _ ?_
  match kind with
  | .part | .attribute => exact extends_body on.extends_ on.closed
  | .enumeration =>
    refine extends_body (extends_literal.either on.extends_ on.literal) fun rest => ?_
    exact (refuses_literal (by simp) (by simp)).either_refuses (on.closed rest)

theorem extends_usage (on : ReadsOn member member') (kind : UsageKind) :
    Extends (usage member kind) (usage member' kind) :=
  Extends.closed header_moved_zero stops_usageHeader (fun _ => needs_body.map) fun _ =>
    (extends_body on.extends_ on.closed).map _

theorem extends_definitionOrUsage (on : ReadsOn member member') :
    Extends (definitionOrUsage member) (definitionOrUsage member') := by
  refine Extends.token.bind fun leading => Extends.committed ?_
  obtain ⟨⟨kind, usageKind?⟩, span⟩ := leading
  cases usageKind? with
  | none => exact (Extends.keyword _).bind fun _ => extends_definition on kind
  | some usageKind =>
    refine Extends.closed (fun span? => by cases span? <;> rfl) (fun room => (stops_keyword .definition room).optional)
      (fun span? => ?_) fun span? => ?_
    · cases span? with
      | none => exact needs_usage usageKind
      | some _ => exact needs_definition kind
    · cases span? with
      | none => exact extends_usage on usageKind
      | some _ => exact extends_definition on kind

theorem extends_shorthand (on : ReadsOn member member') : Extends (shorthand member) (shorthand member') :=
  (Extends.token.map _).expecting _ |>.ahead.seqRight (extends_usage on .shorthand).committed

theorem extends_package (on : ReadsOn member member') : Extends (package member) (package member') :=
  (Extends.keyword _).bind fun _ => (Extends.identifier.bind fun _ => (extends_body on.extends_ on.closed).map _).committed

end declarations

theorem extends_commentBody : Extends commentBody commentBody :=
  Extends.token.expecting _

theorem extends_comment : Extends comment comment := by
  have about : ∀ room, Mimics Token.Closes 0 room 1 (List.map (Spanned.moved 0)) (keyword .about *> qualifiedNames)
      (keyword .about *> qualifiedNames) :=
    fun room => (stops_keyword .about room).seqRight fun _ => (mimics_names fun _ closes => closes).any
  have list : ∀ names? : Option (List (Spanned Path)), names?.map (List.map (Spanned.moved 0)) = names? := by
    intro names?
    cases names? with
    | none => rfl
    | some names => exact congrArg some (List.map_id names)
  refine (Extends.keyword _).bind fun _ => Extends.committed ?_
  refine Extends.closed option_moved_zero (fun room => (stops_name room).optional) (fun _ => ?_) fun name? => ?_
  · exact Needs.bind (fun room => (about room).optional) fun _ => Needs.commentBody.map
  · exact Extends.closed list (fun room => (about room).optional) (fun _ => Needs.commentBody.map) fun _ =>
      extends_commentBody.map _

theorem extends_documentation : Extends documentation documentation := by
  have locale : ∀ room, Mimics Token.Closes 0 room 1 (Spanned.moved 0) (keyword .locale *> text) (keyword .locale *> text) :=
    fun room => (stops_keyword .locale room).seqRight fun _ => (mimics_text fun _ => nofun).any
  refine (Extends.keyword _).bind fun _ => Extends.committed ?_
  exact Extends.closed option_moved_zero (fun room => (locale room).optional) (fun _ => Needs.commentBody.map) fun _ =>
    extends_commentBody.map _

theorem extends_importing : Extends importing importing := by
  have name : ∀ room, Mimics Token.Closes 0 room 1 (Spanned.moved 0) qualifiedName qualifiedName :=
    fun room => mimics_qualifiedName (fun _ => nofun) nofun
  have all : ∀ room, Mimics Token.Closes 0 room 1 (Span.moved 0) (mark .doubleColon *> mark .star)
      (mark .doubleColon *> mark .star) := fun room => (mimics_mark nofun).seqRight fun _ => (mimics_mark nofun).any
  refine (Extends.keyword _).bind fun _ => Extends.committed ?_
  refine Extends.closed (fun _ => rfl) name (fun _ => ?_) fun _ => ?_
  · exact Needs.bind (fun room => (all room).optional) fun _ => (Needs.mark .semicolon).first
  · exact Extends.closed (fun span? => by cases span? <;> rfl) (fun room => (all room).optional)
      (fun _ => (Needs.mark .semicolon).first) fun _ => (Extends.mark _).bind fun _ => .pure _

/-! The alternatives of a declaration, told apart by the first token. -/

/-- The construct that a token starts, by its position among the alternatives. -/
def opening : Token → Nat
  | .keyword .package => 0
  | .keyword .part | .keyword .attribute | .keyword .enumeration => 1
  | .keyword .redefines | .mark .redefines => 2
  | .keyword .comment => 3
  | .keyword .documentation => 4
  | .comment _ => 5
  | .keyword .importing => 6
  | .keyword .privately | .keyword .publicly => 7
  | _ => 8

theorem leadingKeyword_eq_none {token : Token} (other : opening token ≠ 1) : leadingKeyword? token = none := by
  unfold leadingKeyword?
  split
  · exact absurd rfl other
  · exact absurd rfl other
  · exact absurd rfl other
  · rfl

variable {member member' : Reader Declaration}

theorem refuses_alternative {position : Nat} {reader : Reader Declaration} (found : (alternatives member)[position]? = some reader)
    {rest : List Token} (other : ∀ token ∈ rest.head?, opening token ≠ position) : Refuses reader rest := by
  have apart : ∀ {token}, opening token = position → rest.head? ≠ some token :=
    fun same next => other _ next same
  rcases position with _ | _ | _ | _ | _ | _ | _ | _ | position
  · obtain rfl := Option.some.inj found
    exact refuses_package (apart rfl)
  · obtain rfl := Option.some.inj found
    exact refuses_definitionOrUsage fun token next => leadingKeyword_eq_none (other token next)
  · obtain rfl := Option.some.inj found
    exact refuses_shorthand (apart rfl) (apart rfl)
  · obtain rfl := Option.some.inj found
    exact .bind (refuses_keyword (apart rfl))
  · obtain rfl := Option.some.inj found
    exact .bind (refuses_keyword (apart rfl))
  · obtain rfl := Option.some.inj found
    exact .map (refuses_commentBody fun _ => apart rfl)
  · obtain rfl := Option.some.inj found
    exact .bind (refuses_keyword (apart rfl))
  · obtain rfl := Option.some.inj found
    refine .seqRight (.map (refuses_token fun token next => ?_))
    have unknown := other token next
    split
    · exact absurd rfl unknown
    · exact absurd rfl unknown
    · rfl
  · cases found

/-- What an alternative reads starts with a token that opens it. -/
theorem opening_of_alternative {position : Nat} {reader : Reader Declaration}
    (found : (alternatives member)[position]? = some reader) {tokens left : Tokens} {declaration : Declaration}
    (read : reader tokens = .ok (declaration, left)) : ∃ first rest, tokens = first :: rest ∧ opening first.value = position := by
  by_contra unopened
  have other : ∀ token ∈ (tokens.map (·.value)).head?, opening token ≠ position := by
    intro token next same
    cases tokens with
    | nil => cases next
    | cons first rest =>
      obtain rfl := Option.some.inj next
      exact unopened ⟨first, rest, rfl, same⟩
  obtain ⟨error, failed, _⟩ := refuses_alternative found other tokens rfl
  rw [failed] at read
  cases read

theorem exists_of_firstOf_ok {readers : List (Reader α)} {tokens : Tokens} {found : α × Tokens}
    (read : firstOf readers tokens = .ok found) :
    ∃ (position : Nat) (reader : Reader α), readers[position]? = some reader ∧ reader tokens = .ok found := by
  induction readers with
  | nil => cases read
  | cons first readers ih =>
    cases readers with
    | nil => exact ⟨0, first, rfl, read⟩
    | cons next readers =>
      rcases either_eq_ok read with here | ⟨_, there⟩
      · exact ⟨0, first, rfl, here⟩
      · obtain ⟨position, reader, listed, found⟩ := ih there
        exact ⟨position + 1, reader, listed, found⟩

theorem firstOf_ok {readers : List (Reader α)} {position : Nat} {reader : Reader α} {tokens : Tokens} {found : α × Tokens}
    (listed : readers[position]? = some reader) (read : reader tokens = .ok found)
    (others : ∀ (earlier : Nat) (other : Reader α), earlier < position → readers[earlier]? = some other →
      ∃ error, other tokens = .error error ∧ error.isCommitted = false) : firstOf readers tokens = .ok found := by
  induction readers generalizing position with
  | nil => cases listed
  | cons first readers ih =>
    cases position with
    | zero =>
      obtain rfl := Option.some.inj listed
      cases readers with
      | nil => exact read
      | cons next readers => rw [firstOf, either, read]
    | succ position =>
      cases readers with
      | nil => cases listed
      | cons next readers =>
        rw [firstOf, either_of_error (others 0 first (Nat.succ_pos _) rfl)]
        exact ih listed fun earlier other before there => others (earlier + 1) other (Nat.succ_lt_succ before) there

theorem extends_alternative (on : ReadsOn member member') {position : Nat} {reader : Reader Declaration}
    (listed : (alternatives member)[position]? = some reader) :
    ∃ reader' : Reader Declaration, (alternatives member')[position]? = some reader' ∧ Extends reader reader' := by
  rcases position with _ | _ | _ | _ | _ | _ | _ | _ | position
  · obtain rfl := Option.some.inj listed
    exact ⟨_, rfl, extends_package on⟩
  · obtain rfl := Option.some.inj listed
    exact ⟨_, rfl, extends_definitionOrUsage on⟩
  · obtain rfl := Option.some.inj listed
    exact ⟨_, rfl, extends_shorthand on⟩
  · obtain rfl := Option.some.inj listed
    exact ⟨_, rfl, extends_comment⟩
  · obtain rfl := Option.some.inj listed
    exact ⟨_, rfl, extends_documentation⟩
  · obtain rfl := Option.some.inj listed
    exact ⟨_, rfl, extends_commentBody.map _⟩
  · obtain rfl := Option.some.inj listed
    exact ⟨_, rfl, extends_importing⟩
  · obtain rfl := Option.some.inj listed
    exact ⟨_, rfl, (Extends.token.map _).seqRight on.extends_⟩
  · cases listed

/-- Only one alternative is open to a declaration, whatever follows it. -/
theorem extends_alternatives (on : ReadsOn member member') :
    Extends (firstOf (alternatives member)) (firstOf (alternatives member')) := by
  intro tokens declaration left read more
  obtain ⟨position, reader, listed, found⟩ := exists_of_firstOf_ok read
  obtain ⟨reader', listed', extends_⟩ := extends_alternative on listed
  obtain ⟨first, rest, rfl, opened⟩ := opening_of_alternative listed found
  refine firstOf_ok listed' (extends_ _ _ _ found more) fun earlier other before there => ?_
  refine refuses_alternative there (fun token next same => ?_) (first :: rest ++ more) rfl
  obtain rfl := Option.some.inj next
  exact Nat.ne_of_gt before (opened.symm.trans same)

/-- After the keyword of an enumeration, a declaration goes on with that of a definition. -/
theorem definition_of_enumeration {first : Spanned Token} {rest left : Tokens} {declaration : Declaration}
    (keyed : first.value = .keyword .enumeration) (read : definitionOrUsage member (first :: rest) = .ok (declaration, left)) :
    ∃ second more, rest = second :: more ∧ second.value = .keyword .definition := by
  obtain ⟨leading, between, readLeading, readRest⟩ := bind_eq_ok read
  obtain ⟨_, same, known⟩ := token_eq_ok readLeading
  obtain ⟨rfl, rfl⟩ := List.cons.inj same
  rw [keyed] at known
  obtain ⟨⟨kind, usageKind?⟩, span⟩ := leading
  obtain ⟨rfl, rfl⟩ := Prod.mk.inj (Option.some.inj known)
  obtain ⟨_, more, readDefinition, _⟩ := bind_eq_ok (committed_eq_ok.mp readRest)
  obtain ⟨second, same, definition⟩ := keyword_eq_ok readDefinition
  exact ⟨second, more, same, definition⟩

/-- A declaration does not start as a literal does. -/
theorem literal_declarationWithin {depth : Nat} {tokens left : Tokens} {declaration : Declaration}
    (read : declarationWithin depth tokens = .ok (declaration, left)) (more : Tokens) :
    ∃ error, enumerationLiteral (tokens ++ more) = .error error ∧ error.isCommitted = false := by
  cases depth with
  | zero => cases read
  | succ depth =>
    rw [declarationWithin_succ] at read
    obtain ⟨position, reader, listed, found⟩ := exists_of_firstOf_ok (expecting_eq_ok.mp read)
    obtain ⟨first, rest, rfl, opened⟩ := opening_of_alternative listed found
    by_cases keyed : first.value = .keyword .enumeration
    · obtain rfl : position = 1 := by
        rw [← opened, keyed]
        rfl
      obtain rfl := Option.some.inj listed
      obtain ⟨second, others, rfl, definition⟩ := definition_of_enumeration keyed found
      exact refuses_literal_definition ((others ++ more).map (·.value)) _ (by simp [keyed, definition])
    · refine refuses_literal ?_ ?_ (first :: rest ++ more) rfl
      · simpa using keyed
      · rintro name same
        have named : first.value = .identifier name := Option.some.inj same
        rw [named] at opened
        subst opened
        cases listed

theorem readsOn_declarationWithin {depth depth' : Nat} (deeper : depth ≤ depth') :
    ReadsOn (declarationWithin depth) (declarationWithin depth') := by
  refine ⟨?_, fun rest => refuses_declarationWithin (by simp) depth', fun _ _ _ => literal_declarationWithin⟩
  induction depth generalizing depth' with
  | zero => exact nofun
  | succ depth ih =>
    obtain ⟨depth', rfl⟩ : ∃ less, depth' = less + 1 := ⟨depth' - 1, by omega⟩
    have inner : ReadsOn (declarationWithin depth) (declarationWithin depth') :=
      ⟨ih (by omega), fun rest => refuses_declarationWithin (by simp) depth', fun _ _ _ => literal_declarationWithin⟩
    rw [declarationWithin_succ, declarationWithin_succ]
    exact (extends_alternatives inner).expecting _

theorem extends_declaration : Extends declaration declaration := by
  intro tokens value left read more
  rw [declaration] at read ⊢
  exact (readsOn_declarationWithin (by simp)).extends_ tokens value left read more

theorem upTo_append {p : Reader α} (extends_ : Extends p p)
    (ended : ∃ error, p [] = .error error ∧ error.isCommitted = false) {count count' : Nat} {tokens more : Tokens}
    {values others : List α} (first : upTo count p tokens = .ok (values, []))
    (second : upTo count' p more = .ok (others, [])) :
    upTo (count + count') p (tokens ++ more) = .ok (values ++ others, []) := by
  have after : ∀ budget, count' ≤ budget → upTo budget p more = .ok (others, []) := by
    intro budget enough
    have run : upTo budget p (more ++ []) = .ok (others, [] ++ []) := upTo_extends extends_ second enough ended
    rwa [List.append_nil] at run
  induction count generalizing tokens values with
  | zero =>
    obtain ⟨rfl, rfl⟩ := Prod.mk.inj (Except.ok.inj first)
    exact after _ (by omega)
  | succ count ih =>
    rw [Nat.add_right_comm]
    cases read : p tokens with
    | ok found =>
      obtain ⟨value, between⟩ := found
      rw [upTo_ok read] at first
      obtain ⟨rest, readRest, rfl⟩ := map_eq_ok first
      rw [upTo_ok (extends_ tokens value between read more)]
      exact map_ok (ih readRest)
    | error error =>
      rw [upTo_error read] at first
      split at first
      · cases first
      · obtain ⟨rfl, rfl⟩ := Prod.mk.inj (Except.ok.inj first)
        exact after _ (by omega)

theorem many_append {tokens more : Tokens} {declarations others : List Declaration}
    (first : many declaration tokens = .ok (declarations, [])) (second : many declaration more = .ok (others, [])) :
    many declaration (tokens ++ more) = .ok (declarations ++ others, []) := by
  have ended : ∃ error, declaration [] = .error error ∧ error.isCommitted = false :=
    refuses_declarationWithin (by simp) 1 [] rfl
  rw [many, List.length_append]
  exact upTo_append extends_declaration ended first second

end Reader

namespace Declaration

theorem ofTokens_append {tokens more : Tokens} {declarations others : List Declaration}
    (first : ofTokens tokens = .ok declarations) (second : ofTokens more = .ok others) :
    ofTokens (tokens ++ more) = .ok (declarations ++ others) :=
  ofTokens_ok_iff.mpr (Reader.many_append (ofTokens_ok_iff.mp first) (ofTokens_ok_iff.mp second))

theorem ofSource_ok_iff {source : String} {declarations : List Declaration} : ofSource source = .ok declarations ↔
    ∃ tokens, Lexer.tokens source = .ok tokens ∧ ofTokens tokens = .ok declarations := by
  rw [ofSource]
  cases Lexer.tokens source with
  | error errors => exact ⟨nofun, nofun⟩
  | ok tokens =>
    have step : ((ofTokens tokens).mapError ([·]) = .ok declarations) ↔ ofTokens tokens = .ok declarations := mapError_eq_ok
    exact ⟨fun read => ⟨tokens, rfl, step.mp read⟩, fun ⟨_, same, read⟩ => step.mpr (Except.ok.inj same ▸ read)⟩

/-- A text under another is read as if it stood alone, that much further on. -/
theorem ofSource_line {first second : String} {declarations others : List Declaration}
    (read : ofSource first = .ok declarations) (read' : ofSource second = .ok others) :
    ofSource (first ++ "\n" ++ second) = .ok (declarations ++ others.map (moved (first.utf8ByteSize + 1))) := by
  obtain ⟨tokens, lexed, parsed⟩ := ofSource_ok_iff.mp read
  obtain ⟨more, lexed', parsed'⟩ := ofSource_ok_iff.mp read'
  refine ofSource_ok_iff.mpr ⟨_, Lexer.tokens_line lexed lexed', ofTokens_append parsed ?_⟩
  exact ofTokens_ok_iff.mpr (Reader.many_moved (ofTokens_ok_iff.mp parsed'))

/-- Texts are cut into tokens and read piece by piece: what two texts say is said by both with a line end between them,
first by the tokens and declarations of the one and then, that much further on, by those of the other. -/
theorem reading_joined {first second : String} {before after : Tokens} {declarations others : List Declaration}
    (lexed : Lexer.tokens first = .ok before) (read : ofTokens before = .ok declarations)
    (lexed' : Lexer.tokens second = .ok after) (read' : ofTokens after = .ok others) :
    Lexer.tokens (first ++ "\n" ++ second) = .ok (before ++ after.map (Spanned.moved (first.utf8ByteSize + 1))) ∧
      ofTokens (before ++ after.map (Spanned.moved (first.utf8ByteSize + 1))) =
        .ok (declarations ++ others.map (moved (first.utf8ByteSize + 1))) := by
  refine ⟨Lexer.tokens_line lexed lexed', ofTokens_append read ?_⟩
  exact ofTokens_ok_iff.mpr (Reader.many_moved (ofTokens_ok_iff.mp read'))

theorem exists_of_map_ofSource {α : Type} {source : String} {f : List Declaration → α} {seen : α}
    (read : (ofSource source).map f = .ok seen) :
    ∃ tokens declarations, Lexer.tokens source = .ok tokens ∧ ofTokens tokens = .ok declarations ∧ f declarations = seen := by
  cases found : ofSource source with
  | error diagnostics =>
    rw [found] at read
    cases read
  | ok declarations =>
    rw [found] at read
    obtain ⟨tokens, lexed, parsed⟩ := ofSource_ok_iff.mp found
    exact ⟨tokens, declarations, lexed, parsed, Except.ok.inj read⟩

/-- The line comment at the end of the first text ends there, so the block comment under it is a declaration. -/
theorem reading_joined_comment : ∃ before after declarations others,
    Lexer.tokens "part 'é'; // part def" = .ok before ∧ ofTokens before = .ok declarations ∧
      Lexer.tokens "/* é */ part B;" = .ok after ∧ ofTokens after = .ok others ∧
      declarations.length = 1 ∧ others.length = 2 ∧
      Lexer.tokens ("part 'é'; // part def" ++ "\n" ++ "/* é */ part B;") =
        .ok (before ++ after.map (Spanned.moved 23)) ∧
      ofTokens (before ++ after.map (Spanned.moved 23)) = .ok (declarations ++ others.map (moved 23)) := by
  have above : (ofSource "part 'é'; // part def").map List.length = .ok 1 := by cbv
  have under : (ofSource "/* é */ part B;").map List.length = .ok 2 := by cbv
  obtain ⟨before, declarations, lexed, read, one⟩ := exists_of_map_ofSource above
  obtain ⟨after, others, lexed', read', two⟩ := exists_of_map_ofSource under
  have length : "part 'é'; // part def".utf8ByteSize + 1 = 23 := by decide
  have joined := reading_joined lexed read lexed' read'
  rw [length] at joined
  exact ⟨before, after, declarations, others, lexed, read, lexed', read', one, two, joined⟩

end Declaration
end StructuralModel
