import StructuralModel.Proofs.JoinedText
import StructuralModel.Proofs.TokenReading

/-! The same tokens read at two places of a text. What a reader does with them depends neither on where they stand nor on
what follows, if that starts with a token at which the reader stops anyway. -/

namespace StructuralModel

namespace Reader

section repetition

variable {α : Type} {reader : Reader α} {tokens left : Tokens} {count : Nat}

theorem optional_ok {value : α} (read : reader tokens = .ok (value, left)) : optional reader tokens = .ok (some value, left) := by
  rw [optional, either, map_ok read]

theorem optional_error {error : SyntaxError} (failed : reader tokens = .error error) :
    optional reader tokens = if error.isCommitted then .error error else .ok (none, tokens) := by
  rw [optional, either, map_error failed]
  rfl

theorem upTo_ok {value : α} (read : reader tokens = .ok (value, left)) :
    upTo (count + 1) reader tokens = ((value :: ·) <$> upTo count reader) left :=
  bind_ok (optional_ok read)

theorem upTo_error {error : SyntaxError} (failed : reader tokens = .error error) :
    upTo (count + 1) reader tokens = if error.isCommitted then .error error else .ok ([], tokens) := by
  have first := optional_error failed
  split at first
  next final => exact (bind_error first).trans (if_pos final).symm
  next final => exact (bind_ok first).trans (if_neg final).symm

end repetition

variable {α β γ δ : Type} {stops : Token → Prop} {distance room least : Nat}

/-- Two budgets that are the same, or both as large as needed. -/
def Ample (need budget budget' : Nat) : Prop :=
  budget = budget' ∨ need ≤ budget ∧ need ≤ budget'

theorem Ample.mono {need less budget budget' : Nat} (ample : Ample need budget budget') (fewer : less ≤ need) :
    Ample less budget budget' := by
  rw [Ample] at ample ⊢
  omega

/-- A budget of which one is spent. -/
theorem Ample.spend {need budget budget' : Nat} (ample : Ample (need + 1) (budget + 1) budget') :
    ∃ rest, budget' = rest + 1 ∧ Ample need budget rest := by
  rw [Ample] at ample
  exact ⟨budget' - 1, by omega, by rw [Ample]; omega⟩

theorem Ample.spent {need budget' : Nat} (ample : Ample (need + 1) 0 budget') : budget' = 0 := by
  rw [Ample] at ample
  omega

/-- Two texts that end, or go on with the same token at which reading stops. -/
inductive Halts (stops : Token → Prop) (distance : Nat) : Tokens → Tokens → Prop
  | ended : Halts stops distance [] []
  | stopped {token : Spanned Token} {more more' : Tokens} (stop : stops token.value) :
    Halts stops distance (token :: more) (token.moved distance :: more')

/-- Both readers take the same tokens and find corresponding values, or both fail with the same commitment. -/
inductive SameOutcome (distance least : Nat) (f : α → β) (front left left' : Tokens) :
    Except SyntaxError (α × Tokens) → Except SyntaxError (β × Tokens) → Prop
  | ok (taken rest : Tokens) (value : α) (split : front = taken ++ rest) (enough : least ≤ taken.length) :
    SameOutcome distance least f front left left' (.ok (value, rest ++ left))
      (.ok (f value, rest.map (Spanned.moved distance) ++ left'))
  | error {error error' : SyntaxError} (same : error'.isCommitted = error.isCommitted) :
    SameOutcome distance least f front left left' (.error error) (.error error')

/-- Errors may be changed on both sides if they are committed alike afterwards. -/
theorem SameOutcome.mapError {f : α → β} {front left left' : Tokens} {here : Except SyntaxError (α × Tokens)}
    {there : Except SyntaxError (β × Tokens)} {g h : SyntaxError → SyntaxError}
    (same : SameOutcome distance least f front left left' here there)
    (alike : ∀ error error', error'.isCommitted = error.isCommitted → (h error').isCommitted = (g error).isCommitted) :
    SameOutcome distance least f front left left' (here.mapError g) (there.mapError h) := by
  cases same with
  | ok taken rest value split enough => exact .ok taken rest value split enough
  | error same => exact .error (alike _ _ same)

/-- The second reader does with tokens further on what the first does with them here, of which it takes at least so many. No
more of them than there is room for stand before the first at which reading stops. -/
def Mimics (stops : Token → Prop) (distance room least : Nat) (f : α → β) (p : Reader α) (q : Reader β) : Prop :=
  ∀ front left left' : Tokens, front.length ≤ room → Halts stops distance left left' →
    SameOutcome distance least f front left left' (p (front ++ left)) (q (front.map (Spanned.moved distance) ++ left'))

namespace Mimics

variable {f : α → β} {p : Reader α} {q : Reader β}

/-- What the first reader takes, the second takes further on. -/
theorem taken (mimics : Mimics stops distance room least f p q) (front left left' : Tokens) {back : Tokens} {value : α}
    (inside : front.length ≤ room) (halts : Halts stops distance left left') (read : p (front ++ left) = .ok (value, back)) :
    ∃ taken rest, front = taken ++ rest ∧ least ≤ taken.length ∧ back = rest ++ left ∧
      q (front.map (Spanned.moved distance) ++ left') = .ok (f value, rest.map (Spanned.moved distance) ++ left') := by
  have same := mimics front left left' inside halts
  generalize read' : q _ = there at same ⊢
  generalize found : p _ = here at same
  cases same with
  | ok taken rest _ split enough =>
    obtain ⟨rfl, rfl⟩ := Prod.mk.inj (Except.ok.inj (found.symm.trans read))
    exact ⟨taken, rest, split, enough, rfl, rfl⟩
  | error =>
    rw [found] at read
    cases read

theorem mono {fewer : Nat} (mimics : Mimics stops distance room least f p q) (enough : fewer ≤ least) :
    Mimics stops distance room fewer f p q := by
  intro front left left' inside halts
  have same := mimics front left left' inside halts
  generalize p _ = here at same ⊢
  generalize q _ = there at same ⊢
  cases same with
  | ok taken rest value split several => exact .ok taken rest value split (Nat.le_trans enough several)
  | error same => exact .error same

theorem fail (f : α → β) : Mimics stops distance room least f Reader.fail Reader.fail :=
  fun _ _ _ _ _ => .error rfl

theorem any (mimics : Mimics stops distance room least f p q) : Mimics stops distance room 0 f p q :=
  mimics.mono (Nat.zero_le least)

theorem narrow {narrower : Nat} (mimics : Mimics stops distance room least f p q) (inside : narrower ≤ room) :
    Mimics stops distance narrower least f p q :=
  fun front left left' short halts => mimics front left left' (Nat.le_trans short inside) halts

theorem pure {value : α} {value' : β} (same : value' = f value) :
    Mimics stops distance room 0 f (Pure.pure value) (Pure.pure value') := by
  subst same
  exact fun front _ _ _ _ => .ok [] front value rfl (Nat.zero_le _)

theorem bind_add {more : Nat} {g : γ → δ} {next : α → Reader γ} {next' : β → Reader δ}
    (mimics : Mimics stops distance room least f p q)
    (later : ∀ value, least ≤ room → Mimics stops distance (room - least) more g (next value) (next' (f value))) :
    Mimics stops distance room (least + more) g (p >>= next) (q >>= next') := by
  intro front left left' inside halts
  have same := mimics front left left' inside halts
  generalize read : p (front ++ left) = here at same
  generalize read' : q (front.map (Spanned.moved distance) ++ left') = there at same
  cases same with
  | ok taken rest value split enough =>
    rw [bind_ok read, bind_ok read']
    subst split
    rw [List.length_append] at inside
    have after := later value (by omega) rest left left' (by omega) halts
    generalize next value _ = here at after ⊢
    generalize next' (f value) _ = there at after ⊢
    cases after with
    | ok taken' rest' _ split' enough' =>
      refine .ok (taken ++ taken') rest' _ (by rw [split', List.append_assoc]) ?_
      rw [List.length_append]
      exact Nat.add_le_add enough enough'
    | error same => exact .error same
  | error same =>
    rw [bind_error read, bind_error read']
    exact .error same

theorem bind {g : γ → δ} {next : α → Reader γ} {next' : β → Reader δ} (mimics : Mimics stops distance room least f p q)
    (later : ∀ value, least ≤ room → Mimics stops distance (room - least) 0 g (next value) (next' (f value))) :
    Mimics stops distance room least g (p >>= next) (q >>= next') :=
  mimics.bind_add later

/-- Where the first reader may take nothing, it is the second that takes so many. -/
theorem after {g : γ → δ} {next : α → Reader γ} {next' : β → Reader δ} (mimics : Mimics stops distance room 0 f p q)
    (later : ∀ value, Mimics stops distance room least g (next value) (next' (f value))) :
    Mimics stops distance room least g (p >>= next) (q >>= next') :=
  (mimics.bind_add fun value _ => later value).mono (Nat.le_add_left least 0)

theorem map {g : α → γ} {g' : β → δ} {h : γ → δ} (mimics : Mimics stops distance room least f p q)
    (same : ∀ value, g' (f value) = h (g value)) : Mimics stops distance room least h (g <$> p) (g' <$> q) := by
  have run : Mimics stops distance room least h (p >>= fun value => Pure.pure (g value))
      (q >>= fun value => Pure.pure (g' value)) := by
    exact mimics.bind fun value _ => .pure (same value)
  exact run

theorem seqRight {g : γ → δ} {next : Reader γ} {next' : Reader δ} (mimics : Mimics stops distance room least f p q)
    (later : least ≤ room → Mimics stops distance (room - least) 0 g next next') :
    Mimics stops distance room least g (p *> next) (q *> next') := by
  have run : Mimics stops distance room least g (p >>= fun _ => next) (q >>= fun _ => next') :=
    mimics.bind fun _ inside => later inside
  exact run

theorem seqLeft {g : γ → δ} {next : Reader γ} {next' : Reader δ} (mimics : Mimics stops distance room least f p q)
    (later : least ≤ room → Mimics stops distance (room - least) 0 g next next') :
    Mimics stops distance room least f (p <* next) (q <* next') := by
  have run : Mimics stops distance room least f (p >>= fun value => next >>= fun _ => Pure.pure value)
      (q >>= fun value => next' >>= fun _ => Pure.pure value) :=
    mimics.bind fun value inside => (later inside).bind fun _ _ => .pure rfl
  exact run

theorem expecting (mimics : Mimics stops distance room least f p q) (what : Expected) :
    Mimics stops distance room least f (expecting what p) (expecting what q) := by
  intro front left left' inside halts
  apply (mimics front left left' inside halts).mapError
  exact fun _ _ same => same

theorem committed (mimics : Mimics stops distance room least f p q) :
    Mimics stops distance room least f (committed p) (committed q) := by
  intro front left left' inside halts
  apply (mimics front left left' inside halts).mapError
  exact fun _ _ _ => rfl

theorem either {second : Reader α} {second' : Reader β} (first : Mimics stops distance room least f p q)
    (other : Mimics stops distance room least f second second') :
    Mimics stops distance room least f (either p second) (either q second') := by
  intro front left left' inside halts
  have same := first front left left' inside halts
  have otherwise := other front left left' inside halts
  rw [Reader.either, Reader.either]
  generalize p _ = here at same ⊢
  generalize q _ = there at same ⊢
  cases same with
  | ok taken rest value split enough => exact .ok taken rest value split enough
  | error same =>
    dsimp only
    rw [same]
    split
    · exact .error same
    · exact otherwise

theorem optional (mimics : Mimics stops distance room least f p q) :
    Mimics stops distance room 0 (Option.map f) (optional p) (optional q) := by
  have found : Mimics stops distance room 0 (Option.map f) (some <$> p) (some <$> q) :=
    (mimics.map (g := some) (h := Option.map f) fun _ => rfl).any
  exact found.either (.pure rfl)

/-- A repetition is stopped by the tokens, not by how often it may go on. -/
theorem upTo (mimics : Mimics stops distance room 1 f p q) {count count' : Nat}
    (ample : Ample (room + 1) count count') :
    Mimics stops distance room 0 (List.map f) (upTo count p) (upTo count' q) := by
  induction count generalizing count' room with
  | zero =>
    obtain rfl := ample.spent
    exact .pure rfl
  | succ count ih =>
    obtain ⟨count', rfl, spare⟩ := ample.spend
    intro front left left' inside halts
    have same := mimics front left left' inside halts
    generalize read : p (front ++ left) = here at same
    generalize read' : q (front.map (Spanned.moved distance) ++ left') = there at same
    cases same with
    | ok taken rest value split enough =>
      rw [upTo_ok read, upTo_ok read']
      subst split
      rw [List.length_append] at inside
      have more := ih (mimics.narrow (Nat.sub_le room 1)) (spare.mono (by omega))
      have values : Mimics stops distance (room - 1) 0 (List.map f) ((value :: ·) <$> Reader.upTo count p)
          ((f value :: ·) <$> Reader.upTo count' q) := more.map fun _ => rfl
      have after := values rest left left' (by omega) halts
      generalize ((value :: ·) <$> Reader.upTo count p) _ = here at after ⊢
      generalize ((f value :: ·) <$> Reader.upTo count' q) _ = there at after ⊢
      cases after with
      | ok taken' rest' _ split' _ => exact .ok (taken ++ taken') rest' _ (by rw [split', List.append_assoc]) (Nat.zero_le _)
      | error same => exact .error same
    | error same =>
      rw [upTo_error read, upTo_error read', same]
      split
      · exact .error same
      · exact .ok [] front [] rfl (Nat.zero_le _)

theorem many (mimics : Mimics stops distance room 1 f p q) : Mimics stops distance room 0 (List.map f) (many p) (many q) := by
  intro front left left' inside halts
  refine (mimics.narrow inside).upTo ?_ front left left' (Nat.le_refl _) halts
  rw [List.length_append, List.length_append, List.length_map]
  cases halts with
  | ended => exact .inl rfl
  | stopped => exact .inr ⟨by simp, by simp⟩

theorem oneOrMore (mimics : Mimics stops distance room 1 f p q) :
    Mimics stops distance room 1 (List.map f) (oneOrMore p) (oneOrMore q) := by
  refine mimics.bind fun first _ => ?_
  exact (mimics.narrow (Nat.sub_le room 1)).many.map (g := (first :: ·)) (h := List.map f) fun _ => rfl

theorem separated {g : γ → δ} {separator : Reader γ} {separator' : Reader δ}
    (marked : Mimics stops distance room 1 g separator separator') (mimics : Mimics stops distance room least f p q) :
    Mimics stops distance room least (List.map f) (separated separator p) (separated separator' q) := by
  have next : Mimics stops distance room 1 f (separator *> p) (separator' *> q) :=
    marked.seqRight fun _ => (mimics.narrow (Nat.sub_le room 1)).any
  refine mimics.bind fun first _ => ?_
  exact (next.narrow (Nat.sub_le room least)).many.map (g := (first :: ·)) (h := List.map f) fun _ => rfl

theorem ahead (mimics : Mimics stops distance room least f p q) :
    Mimics stops distance room 0 f (ahead p) (ahead q) := by
  intro front left left' inside halts
  have same := mimics front left left' inside halts
  rw [Reader.ahead, Reader.ahead]
  generalize p _ = here at same ⊢
  generalize q _ = there at same ⊢
  cases same with
  | ok _ _ value => exact .ok [] front value rfl (Nat.zero_le _)
  | error same => exact .error same

theorem spanOf_moved {tokens : Tokens} (nonempty : tokens ≠ []) :
    SyntaxError.spanOf (tokens.map (Spanned.moved distance)) = (SyntaxError.spanOf tokens).moved distance := by
  cases tokens with
  | nil => exact absurd rfl nonempty
  | cons first more =>
    rw [List.map_cons, SyntaxError.spanOf, SyntaxError.spanOf, Span.moved_union, List.getLast?_map]
    cases more.getLast? <;> rfl

/-- What is read from tokens has its place where they stand. -/
theorem spanned (mimics : Mimics stops distance room 1 f p q) :
    Mimics stops distance room 1 (fun found => ⟨f found.value, found.span.moved distance⟩) (spanned p) (spanned q) := by
  intro front left left' inside halts
  have same := mimics front left left' inside halts
  have run : ∀ {γ : Type} (reader : Reader γ) tokens, Reader.spanned reader tokens = (reader tokens).bind fun found =>
      .ok (⟨found.1, SyntaxError.spanOf (tokens.take (tokens.length - found.2.length))⟩, found.2) := fun _ _ => rfl
  rw [run, run]
  generalize p _ = here at same ⊢
  generalize q _ = there at same ⊢
  cases same with
  | ok taken rest value split enough =>
    subst split
    have nonempty : taken ≠ [] := List.ne_nil_of_length_pos enough
    have front : (taken ++ rest ++ left).take ((taken ++ rest ++ left).length - (rest ++ left).length) = taken := by
      simp [List.append_assoc]
    have front' : ((taken ++ rest).map (Spanned.moved distance) ++ left').take
        (((taken ++ rest).map (Spanned.moved distance) ++ left').length -
          (rest.map (Spanned.moved distance) ++ left').length) = taken.map (Spanned.moved distance) := by
      simp [List.append_assoc]
    simp only [Except.bind, front, front', spanOf_moved nonempty]
    exact .ok taken rest (⟨value, SyntaxError.spanOf taken⟩ : Spanned α) rfl enough
  | error same => exact .error same

end Mimics

/-! Single tokens. -/

theorem mimics_token {read : Token → Option α} (refused : ∀ token, stops token → read token = none) :
    Mimics stops distance room 1 (Spanned.moved distance) (token read) (token read) := by
  intro front left left' _ halts
  cases front with
  | nil =>
    cases halts with
    | ended => exact .error rfl
    | @stopped token _ _ stop =>
      simp only [List.nil_append, List.map_nil, Reader.token, Spanned.moved, refused token.value stop]
      exact .error rfl
  | cons first front =>
    simp only [List.cons_append, List.map_cons, Reader.token, Spanned.moved]
    cases read first.value with
    | none => exact .error rfl
    | some value => exact .ok [first] front (⟨value, first.span⟩ : Spanned α) rfl (Nat.le_refl 1)

theorem mimics_keyword {word : Keyword} (passed : ¬ stops (.keyword word)) :
    Mimics stops distance room 1 (Span.moved distance) (keyword word) (keyword word) := by
  refine Mimics.expecting (Mimics.map (mimics_token fun token stop => ?_) fun _ => by rfl) _
  cases token with
  | keyword found =>
    have apart : found ≠ word := fun same => passed (same ▸ stop)
    simp [apart]
  | _ => rfl

theorem mimics_mark {sign : Mark} (passed : ¬ stops (.mark sign)) :
    Mimics stops distance room 1 (Span.moved distance) (mark sign) (mark sign) := by
  refine Mimics.expecting (Mimics.map (mimics_token fun token stop => ?_) fun _ => by rfl) _
  cases token with
  | mark found =>
    have apart : found ≠ sign := fun same => passed (same ▸ stop)
    simp [apart]
  | _ => rfl

theorem mimics_identifier (passed : ∀ name, ¬ stops (.identifier name)) :
    Mimics stops distance room 1 (Spanned.moved distance) identifier identifier := by
  refine Mimics.expecting (mimics_token fun token stop => ?_) _
  cases token with
  | identifier name => exact absurd stop (passed name)
  | _ => rfl

theorem mimics_number (passed : ∀ value, ¬ stops (.number value)) :
    Mimics stops distance room 1 (Spanned.moved distance) number number := by
  refine Mimics.expecting (mimics_token fun token stop => ?_) _
  cases token with
  | number value => exact absurd stop (passed value)
  | _ => rfl

theorem mimics_text (passed : ∀ value, ¬ stops (.text value)) :
    Mimics stops distance room 1 (Spanned.moved distance) text text := by
  refine Mimics.expecting (mimics_token fun token stop => ?_) _
  cases token with
  | text value => exact absurd stop (passed value)
  | _ => rfl

theorem mimics_qualifiedName (passed : ∀ name, ¬ stops (.identifier name)) (joined : ¬ stops (.mark .doubleColon)) :
    Mimics stops distance room 1 (Spanned.moved distance) qualifiedName qualifiedName := by
  have next : Mimics stops distance (room - 1) 1 (Spanned.moved distance) (mark .doubleColon *> identifier)
      (mark .doubleColon *> identifier) := (mimics_mark joined).seqRight fun _ => (mimics_identifier passed).any
  refine (mimics_identifier passed).bind fun first _ => next.many.bind fun names _ => .pure ?_
  have last : ((names.map (Spanned.moved distance)).getLast?.getD (first.moved distance)).span =
      ((names.getLast?.getD first).span).moved distance := by
    rw [List.getLast?_map]
    cases names.getLast? <;> rfl
  rw [last]
  simp only [Spanned.moved, Span.moved_union, List.map_map]
  rfl

theorem mimics_qualifiedNames (passed : ∀ name, ¬ stops (.identifier name)) (joined : ¬ stops (.mark .doubleColon))
    (separated : ¬ stops (.mark .comma)) :
    Mimics stops distance room 1 (List.map (Spanned.moved distance)) qualifiedNames qualifiedNames :=
  (mimics_mark separated).separated (mimics_qualifiedName passed joined)

end Reader
end StructuralModel
