import Mathlib
import StructuralModel.Source.Reader

/-! What readers do with tokens of given values, wherever these stand in a source text. A reader takes some tokens in
front of others, or it refuses what is there and leaves it to an alternative. -/

namespace StructuralModel

def Path.tokens (path : Path) : List Token :=
  .identifier path.first :: path.rest.flatMap fun name => [.mark .doubleColon, .identifier name]

namespace Reader

variable {α β : Type} {reader : Reader α} {written more rest : List Token} {result : α → Prop}

theorem bind_ok {next : α → Reader β} {tokens left : Tokens} {value : α} (read : reader tokens = .ok (value, left)) :
    (reader >>= next) tokens = next value left := by
  have run : (reader >>= next) tokens = (reader tokens).bind fun found => next found.1 found.2 := rfl
  rw [run, read]
  rfl

theorem bind_error {next : α → Reader β} {tokens : Tokens} {error : SyntaxError} (failed : reader tokens = .error error) :
    (reader >>= next) tokens = .error error := by
  have run : (reader >>= next) tokens = (reader tokens).bind fun found => next found.1 found.2 := rfl
  rw [run, failed]
  rfl

theorem map_ok {f : α → β} {tokens left : Tokens} {value : α} (read : reader tokens = .ok (value, left)) :
    (f <$> reader) tokens = .ok (f value, left) := by
  have run : (f <$> reader) tokens = (reader tokens).bind fun found => .ok (f found.1, found.2) := rfl
  rw [run, read]
  rfl

theorem map_error {f : α → β} {tokens : Tokens} {error : SyntaxError} (failed : reader tokens = .error error) :
    (f <$> reader) tokens = .error error := by
  have run : (f <$> reader) tokens = (reader tokens).bind fun found => .ok (f found.1, found.2) := rfl
  rw [run, failed]
  rfl

/-- The reader takes tokens of the first values, and no more, where the others follow. -/
def Takes (reader : Reader α) (written rest : List Token) (result : α → Prop) : Prop :=
  ∀ tokens left : Tokens, tokens.map (·.value) = written → left.map (·.value) = rest →
    ∃ value, reader (tokens ++ left) = .ok (value, left) ∧ result value

/-- The reader fails without commitment where the tokens have these values. -/
def Refuses (reader : Reader α) (rest : List Token) : Prop :=
  ∀ tokens : Tokens, tokens.map (·.value) = rest → ∃ error, reader tokens = .error error ∧ error.isCommitted = false

theorem Takes.mono {weaker : α → Prop} (takes : Takes reader written rest result)
    (implies : ∀ value, result value → weaker value) : Takes reader written rest weaker := by
  intro tokens left same next
  obtain ⟨value, read, holds⟩ := takes tokens left same next
  exact ⟨value, read, implies value holds⟩

theorem takes_pure {value : α} (holds : result value) : Takes (pure value) [] rest result := by
  intro tokens left same _
  obtain rfl := List.map_eq_nil_iff.mp same
  exact ⟨value, rfl, holds⟩

theorem Takes.bind {next : α → Reader β} {last : β → Prop} (takes : Takes reader written (more ++ rest) result)
    (later : ∀ value, result value → Takes (next value) more rest last) :
    Takes (reader >>= next) (written ++ more) rest last := by
  intro tokens left same follows
  obtain ⟨front, back, rfl, frontSame, backSame⟩ := List.map_eq_append_iff.mp same
  obtain ⟨value, read, holds⟩ := takes front (back ++ left) frontSame (by rw [List.map_append, backSame, follows])
  obtain ⟨final, readLater, isLast⟩ := later value holds back left backSame follows
  refine ⟨final, ?_, isLast⟩
  rw [List.append_assoc, bind_ok read, readLater]

/-- The first reader takes everything. -/
theorem Takes.bind_nil {next : α → Reader β} {last : β → Prop} (takes : Takes reader written rest result)
    (later : ∀ value, result value → Takes (next value) [] rest last) : Takes (reader >>= next) written rest last := by
  have run : Takes (reader >>= next) (written ++ []) rest last := Takes.bind takes later
  rwa [List.append_nil] at run

/-- The first reader takes nothing. -/
theorem Takes.nil_bind {next : α → Reader β} {last : β → Prop} (takes : Takes reader [] (written ++ rest) result)
    (later : ∀ value, result value → Takes (next value) written rest last) :
    Takes (reader >>= next) written rest last :=
  Takes.bind takes later

theorem Takes.map {f : α → β} {last : β → Prop} (takes : Takes reader written rest result)
    (holds : ∀ value, result value → last (f value)) : Takes (f <$> reader) written rest last := by
  intro tokens left same follows
  obtain ⟨value, read, isResult⟩ := takes tokens left same follows
  exact ⟨f value, map_ok read, holds value isResult⟩

theorem Takes.seqRight {next : Reader β} {last : β → Prop} (takes : Takes reader written (more ++ rest) result)
    (later : Takes next more rest last) : Takes (reader *> next) (written ++ more) rest last := by
  have run : Takes (reader >>= fun _ => next) (written ++ more) rest last := takes.bind fun _ _ => later
  exact run

theorem Takes.seqLeft {next : Reader β} {last : β → Prop} (takes : Takes reader written (more ++ rest) result)
    (later : Takes next more rest last) : Takes (reader <* next) (written ++ more) rest result := by
  have kept : ∀ value, result value → Takes (next >>= fun _ => pure value) more rest result :=
    fun _ holds => later.bind_nil fun _ _ => takes_pure holds
  exact takes.bind kept

theorem Takes.expecting (takes : Takes reader written rest result) (what : Expected) :
    Takes (expecting what reader) written rest result := by
  intro tokens left same follows
  obtain ⟨value, read, holds⟩ := takes tokens left same follows
  exact ⟨value, by rw [Reader.expecting, read]; rfl, holds⟩

theorem Takes.committed (takes : Takes reader written rest result) : Takes (committed reader) written rest result := by
  intro tokens left same follows
  obtain ⟨value, read, holds⟩ := takes tokens left same follows
  exact ⟨value, by rw [Reader.committed, read]; rfl, holds⟩

theorem Takes.either (takes : Takes reader written rest result) (second : Reader α) :
    Takes (either reader second) written rest result := by
  intro tokens left same follows
  obtain ⟨value, read, holds⟩ := takes tokens left same follows
  exact ⟨value, by rw [Reader.either, read], holds⟩

theorem Refuses.either {second : Reader α} (refuses : Refuses reader (written ++ rest))
    (takes : Takes second written rest result) : Takes (either reader second) written rest result := by
  intro tokens left same follows
  obtain ⟨error, read, free⟩ := refuses (tokens ++ left) (by rw [List.map_append, same, follows])
  obtain ⟨value, readSecond, holds⟩ := takes tokens left same follows
  refine ⟨value, ?_, holds⟩
  simp only [Reader.either, read, free, Bool.false_eq_true, if_false]
  exact readSecond

theorem Takes.firstOf (takes : Takes reader written rest result) (others : List (Reader α)) :
    Takes (firstOf (reader :: others)) written rest result := by
  cases others with
  | nil => exact takes
  | cons next others => exact takes.either _

theorem Refuses.firstOf {next : Reader α} {others : List (Reader α)} (refuses : Refuses reader (written ++ rest))
    (takes : Takes (firstOf (next :: others)) written rest result) :
    Takes (firstOf (reader :: next :: others)) written rest result :=
  refuses.either takes

theorem Takes.optional (takes : Takes reader written rest result) :
    Takes (optional reader) written rest fun found => ∃ value, found = some value ∧ result value :=
  (takes.map fun value holds => ⟨value, rfl, holds⟩).either _

theorem Refuses.map {f : α → β} (refuses : Refuses reader rest) : Refuses (f <$> reader) rest := by
  intro tokens same
  obtain ⟨error, read, free⟩ := refuses tokens same
  exact ⟨error, map_error read, free⟩

theorem Refuses.optional (refuses : Refuses reader rest) : Takes (optional reader) [] rest (· = none) := by
  have none_taken : Refuses (some <$> reader) ([] ++ rest) := refuses.map
  exact none_taken.either (takes_pure rfl)

theorem Refuses.bind {next : α → Reader β} (refuses : Refuses reader rest) : Refuses (reader >>= next) rest := by
  intro tokens same
  obtain ⟨error, read, free⟩ := refuses tokens same
  exact ⟨error, bind_error read, free⟩

theorem Refuses.seqRight {next : Reader β} (refuses : Refuses reader rest) : Refuses (reader *> next) rest := by
  have run : Refuses (reader >>= fun _ => next) rest := refuses.bind
  exact run

theorem Refuses.seqLeft {next : Reader β} (refuses : Refuses reader rest) : Refuses (reader <* next) rest := by
  have run : Refuses (reader >>= fun value => next >>= fun _ => pure value) rest := refuses.bind
  exact run

/-- What the first reader takes is given back if the second refuses what follows. -/
theorem Takes.bind_refuses {next : α → Reader β} (takes : Takes reader written rest result)
    (refuses : ∀ value, Refuses (next value) rest) : Refuses (reader >>= next) (written ++ rest) := by
  intro tokens same
  obtain ⟨front, back, rfl, frontSame, backSame⟩ := List.map_eq_append_iff.mp same
  obtain ⟨value, read, _⟩ := takes front back frontSame backSame
  obtain ⟨error, readLater, free⟩ := refuses value back backSame
  exact ⟨error, (bind_ok read).trans readLater, free⟩

theorem Takes.seqLeft_refuses {next : Reader β} (takes : Takes reader written rest result)
    (refuses : Refuses next rest) : Refuses (reader <* next) (written ++ rest) := by
  have run : Refuses (reader >>= fun value => next >>= fun _ => pure value) (written ++ rest) :=
    takes.bind_refuses fun _ => refuses.bind
  exact run

theorem Takes.seqRight_refuses {next : Reader β} (takes : Takes reader written rest result)
    (refuses : Refuses next rest) : Refuses (reader *> next) (written ++ rest) := by
  have run : Refuses (reader >>= fun _ => next) (written ++ rest) := takes.bind_refuses fun _ => refuses
  exact run

theorem Refuses.expecting (refuses : Refuses reader rest) (what : Expected) :
    Refuses (expecting what reader) rest := by
  intro tokens same
  obtain ⟨error, read, free⟩ := refuses tokens same
  exact ⟨error.add (.expected what), by rw [Reader.expecting, read]; rfl, free⟩

theorem Refuses.either_refuses {second : Reader α} (refuses : Refuses reader rest) (also : Refuses second rest) :
    Refuses (Reader.either reader second) rest := by
  intro tokens same
  obtain ⟨error, read, free⟩ := refuses tokens same
  obtain ⟨last, readSecond, lastFree⟩ := also tokens same
  refine ⟨last, ?_, lastFree⟩
  simp only [Reader.either, read, free, Bool.false_eq_true, if_false]
  exact readSecond

theorem refuses_firstOf {readers : List (Reader α)} (refuse : ∀ reader ∈ readers, Refuses reader rest) :
    Refuses (firstOf readers) rest := by
  induction readers with
  | nil => exact fun tokens _ => ⟨.stopped tokens, rfl, rfl⟩
  | cons reader others ih =>
    have others_refuse := ih fun other member => refuse other (List.mem_cons_of_mem _ member)
    cases others with
    | nil => exact refuse reader List.mem_cons_self
    | cons next others => exact (refuse reader List.mem_cons_self).either_refuses others_refuse

/-! Single tokens. -/

theorem takes_token {read : Token → Option α} {token : Token} {value : α} (found : read token = some value) :
    Takes (Reader.token read) [token] rest (·.value = value) := by
  intro tokens left same _
  obtain ⟨first, rfl, rfl⟩ := List.map_eq_singleton_iff.mp same
  refine ⟨⟨value, first.span⟩, ?_, rfl⟩
  simp only [List.singleton_append, Reader.token, found]

theorem takes_known {read : Token → Option α} {token : Token} (known : (read token).isSome = true) :
    Takes (Reader.token read) [token] rest fun _ => True := by
  obtain ⟨value, found⟩ := Option.isSome_iff_exists.mp known
  exact (takes_token found).mono fun _ _ => trivial

/-- The next token, if there is one, is none that the reader knows. -/
theorem refuses_token {read : Token → Option α} (unknown : ∀ token ∈ rest.head?, read token = none) :
    Refuses (Reader.token read) rest := by
  intro tokens same
  subst same
  cases tokens with
  | nil => exact ⟨_, rfl, rfl⟩
  | cons first more =>
    have missing : read first.value = none := unknown first.value (by simp)
    exact ⟨.stopped (first :: more), by simp only [Reader.token, missing], rfl⟩

theorem takes_keyword (word : Keyword) : Takes (keyword word) [.keyword word] rest fun _ => True := by
  refine Takes.expecting (Takes.map (takes_known ?_) fun _ _ => trivial) _
  simp

theorem refuses_keyword {word : Keyword} (other : rest.head? ≠ some (.keyword word)) : Refuses (keyword word) rest := by
  refine Refuses.expecting (Refuses.map (refuses_token fun token next => ?_)) _
  cases token with
  | keyword found =>
    have apart : found ≠ word := fun same => other (same ▸ next)
    simp [apart]
  | _ => rfl

theorem takes_mark (sign : Mark) : Takes (mark sign) [.mark sign] rest fun _ => True := by
  refine Takes.expecting (Takes.map (takes_known ?_) fun _ _ => trivial) _
  simp

theorem refuses_mark {sign : Mark} (other : rest.head? ≠ some (.mark sign)) : Refuses (mark sign) rest := by
  refine Refuses.expecting (Refuses.map (refuses_token fun token next => ?_)) _
  cases token with
  | mark found =>
    have apart : found ≠ sign := fun same => other (same ▸ next)
    simp [apart]
  | _ => rfl

theorem takes_identifier (name : String) : Takes identifier [.identifier name] rest (·.value = name) := by
  refine Takes.expecting ?_ _
  exact takes_token rfl

theorem refuses_identifier (other : ∀ name, rest.head? ≠ some (.identifier name)) : Refuses identifier rest := by
  refine Refuses.expecting (refuses_token fun token next => ?_) _
  cases token with
  | identifier name => exact absurd next (other name)
  | _ => rfl

theorem takes_number (value : Float) : Takes number [.number value] rest (·.value = value) := by
  refine Takes.expecting ?_ _
  exact takes_token rfl

theorem refuses_number (other : ∀ value, rest.head? ≠ some (.number value)) : Refuses number rest := by
  refine Refuses.expecting (refuses_token fun token next => ?_) _
  cases token with
  | number value => exact absurd next (other value)
  | _ => rfl

theorem takes_text (value : String) : Takes text [.text value] rest (·.value = value) := by
  refine Takes.expecting ?_ _
  exact takes_token rfl

theorem refuses_text (other : ∀ value, rest.head? ≠ some (.text value)) : Refuses text rest := by
  refine Refuses.expecting (refuses_token fun token next => ?_) _
  cases token with
  | text value => exact absurd next (other value)
  | _ => rfl

/-! Repetition. -/

/-- However many the reader may take, as long as there are no fewer than tokens. -/
def TakesMany (reader : Reader α) (written rest : List Token) (result : List α → Prop) : Prop :=
  ∀ count, written.length ≤ count → Takes (upTo count reader) written rest result

theorem Refuses.takesMany {result : List α → Prop} (refuses : Refuses reader rest) (holds : result []) :
    TakesMany reader [] rest result := by
  intro count _
  cases count with
  | zero => exact takes_pure holds
  | succ count =>
    refine Takes.nil_bind refuses.optional ?_
    rintro _ rfl
    exact takes_pure holds

theorem Takes.cons {results : List α → Prop} {last : List α → Prop} (takes : Takes reader written (more ++ rest) result)
    (nonempty : written ≠ []) (later : TakesMany reader more rest results)
    (holds : ∀ value values, result value → results values → last (value :: values)) :
    TakesMany reader (written ++ more) rest last := by
  intro count enough
  have longer := List.length_pos_iff.mpr nonempty
  rw [List.length_append] at enough
  obtain ⟨count, rfl⟩ := Nat.exists_eq_add_one_of_ne_zero (by omega : count ≠ 0)
  refine Takes.bind takes.optional ?_
  rintro _ ⟨value, rfl, isResult⟩
  exact (later count (by omega)).map fun values areResults => holds value values isResult areResults

theorem TakesMany.many {result : List α → Prop} (takes : TakesMany reader written rest result) :
    Takes (many reader) written rest result := by
  intro tokens left same follows
  have enough : written.length ≤ (tokens ++ left).length := by
    rw [← same, List.length_map, List.length_append]
    exact Nat.le_add_right ..
  exact takes _ enough tokens left same follows

/-- Pieces that are taken one after the other, up to where the reader refuses. -/
theorem takesMany_flatMap {items : List β} {piece : β → List Token} {result : β → α → Prop}
    (each : ∀ before item after, items = before ++ item :: after →
      Takes reader (piece item) (after.flatMap piece ++ rest) (result item))
    (nonempty : ∀ item ∈ items, piece item ≠ []) (stops : Refuses reader rest) :
    TakesMany reader (items.flatMap piece) rest (List.Forall₂ result items) := by
  induction items with
  | nil => exact stops.takesMany .nil
  | cons item items ih =>
    have later := ih (fun before other after same => each (item :: before) other after (by rw [same]; rfl))
      fun other member => nonempty other (List.mem_cons_of_mem _ member)
    exact (each [] item items rfl).cons (nonempty item List.mem_cons_self) later fun _ _ => .cons

theorem takes_oneOrMore {item : β} {items : List β} {piece : β → List Token} {result : β → α → Prop}
    (each : ∀ before current after, item :: items = before ++ current :: after →
      Takes reader (piece current) (after.flatMap piece ++ rest) (result current))
    (nonempty : ∀ current ∈ items, piece current ≠ []) (stops : Refuses reader rest) :
    Takes (oneOrMore reader) ((item :: items).flatMap piece) rest (List.Forall₂ result (item :: items)) := by
  rw [List.flatMap_cons]
  refine Takes.bind (each [] item items rfl) fun first isFirst => ?_
  have others : TakesMany reader (items.flatMap piece) rest (List.Forall₂ result items) :=
    takesMany_flatMap (fun before current after same => each (item :: before) current after (by rw [same]; rfl))
      nonempty stops
  exact others.many.map fun _ areOthers => .cons isFirst areOthers

/-- Pieces that are taken with the tokens of a separator before all but the first. -/
theorem takes_separated {separator : Reader α} {γ : Type} {reader : Reader γ} {mark : List Token} {item : β}
    {items : List β} {result : β → γ → Prop} (piece : β → List Token)
    (separates : ∀ rest, Takes separator mark rest fun _ => True) (visible : mark ≠ [])
    (each : ∀ before current after, item :: items = before ++ current :: after →
      Takes reader (piece current) (after.flatMap (fun next => mark ++ piece next) ++ rest) (result current))
    (stops : Refuses separator rest) :
    Takes (separated separator reader) (piece item ++ items.flatMap fun next => mark ++ piece next) rest
      (List.Forall₂ result (item :: items)) := by
  refine Takes.bind (each [] item items rfl) fun first isFirst => ?_
  have others : TakesMany (separator *> reader) (items.flatMap fun next => mark ++ piece next) rest
      (List.Forall₂ result items) := by
    refine takesMany_flatMap (fun before current after same => ?_) (by simp [visible]) stops.seqRight
    exact (separates _).seqRight (each (item :: before) current after (by rw [same]; rfl))
  exact others.many.map fun _ areOthers => .cons isFirst areOthers

/-! Qualified names. -/

theorem map_value_of_forall₂ {values : List β} {found : List (Spanned β)}
    (same : List.Forall₂ (fun value piece => piece.value = value) values found) : found.map (·.value) = values := by
  induction same with
  | nil => rfl
  | cons first _ ih => rw [List.map_cons, first, ih]

theorem takes_qualifiedName {path : Path} (stops : Refuses (mark .doubleColon *> identifier) rest) :
    Takes qualifiedName (path.tokens) rest (·.value = path) := by
  have pieces : Takes (many (mark .doubleColon *> identifier))
      (path.rest.flatMap fun name => [.mark .doubleColon, .identifier name]) rest
      (List.Forall₂ (fun name found => found.value = name) path.rest) := by
    refine (takesMany_flatMap ?_ (by simp) stops).many
    intro _ name _ _
    exact (takes_mark .doubleColon).seqRight (takes_identifier name)
  refine Takes.bind (takes_identifier path.first) fun first isFirst => ?_
  refine Takes.bind_nil pieces fun found areRest => takes_pure ?_
  rw [isFirst, map_value_of_forall₂ areRest]

end Reader
end StructuralModel
