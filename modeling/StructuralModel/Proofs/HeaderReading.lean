import StructuralModel.Proofs.DeclarationTokens

/-! The header of a usage is read back from its tokens. Its parts are read in their order, and each of them may be
missing: what follows then starts a later part, and the reader of the missing one leaves it alone. -/

namespace StructuralModel

theorem Spanned.unplaced_eq {α : Type} {first second : Spanned α} (same : first.value = second.value) :
    first.unplaced = second.unplaced := by
  rw [Spanned.unplaced, same]
  rfl

theorem Spanned.map_unplaced {α : Type} {values found : List (Spanned α)}
    (same : List.Forall₂ (fun value found => found.value = value.value) values found) :
    found.map (·.unplaced) = values.map (·.unplaced) := by
  induction same with
  | nil => rfl
  | cons first _ ih => rw [List.map_cons, List.map_cons, ih, Spanned.unplaced_eq first]

namespace Reader
open Declaration

variable {α β : Type} {rest written : List Token}

/-! Headers. -/

/-- The part of a header that a token starts; the last is the body. -/
def headerPart : Token → Nat
  | .mark .colon => 1
  | .mark .leftBracket => 2
  | .mark .specializes => 3
  | .mark .assign => 4
  | .mark .semicolon | .mark .leftBrace => 5
  | _ => 0

/-- What comes next starts the part or a later one. -/
def From (part : Nat) (rest : List Token) : Prop :=
  ∃ first more, rest = first :: more ∧ part ≤ headerPart first

namespace From

variable {part : Nat}

theorem head_ne (next : From part rest) {token : Token} (earlier : headerPart token < part) :
    rest.head? ≠ some token := by
  obtain ⟨first, more, rfl, later⟩ := next
  intro same
  obtain rfl : first = token := by simpa using same
  omega

theorem later {other : Nat} (next : From part rest) (earlier : other ≤ part) : From other rest := by
  obtain ⟨first, more, same, later⟩ := next
  exact ⟨first, more, same, Nat.le_trans earlier later⟩

theorem announced {part : Nat} (next : From (part + 1) rest) {token : Token} (known : headerPart token = part)
    (names : List (Spanned Path)) : From part (announced token names ++ rest) := by
  subst known
  cases names with
  | nil => exact next.later (Nat.le_succ _)
  | cons first more => exact ⟨token, _, rfl, Nat.le_refl _⟩

theorem multiplicity (next : From 3 rest) {count? : Option (Spanned Float)}
    (counted : WrittenMultiplicity count? written) : From 2 (written ++ rest) := by
  cases counted with
  | none => exact next.later (Nat.le_succ _)
  | some => exact ⟨.mark .leftBracket, _, rfl, Nat.le_refl _⟩

theorem value (next : From 5 rest) {value? : Option (Spanned Expr)} (valued : WrittenValue value? written) :
    From 4 (written ++ rest) := by
  cases valued with
  | none => exact next.later (Nat.le_succ _)
  | some => exact ⟨.mark .assign, _, rfl, Nat.le_refl _⟩

theorem body {members : List Declaration} (body : WrittenBody members written) (rest : List Token) :
    From 5 (written ++ rest) := by
  cases body with
  | none => exact ⟨.mark .semicolon, _, rfl, Nat.le_refl _⟩
  | braces inside => exact ⟨.mark .leftBrace, _, rfl, Nat.le_refl _⟩

end From

/-! Parts that may be missing. -/

theorem Takes.present {reader : Reader (Spanned α)} {value : Spanned α}
    (takes : Takes reader written rest (·.value = value.value)) :
    Takes (Reader.optional reader) written rest fun found => found.map (·.unplaced) = (some value).map (·.unplaced) := by
  refine takes.optional.mono ?_
  rintro _ ⟨found, rfl, same⟩
  exact congrArg some (Spanned.unplaced_eq same)

theorem Refuses.absent {reader : Reader (Spanned α)} (refuses : Refuses reader rest) :
    Takes (Reader.optional reader) [] rest fun found => found.map (·.unplaced) = (none : Option (Spanned α)).map (·.unplaced) :=
  refuses.optional.mono fun _ same => by rw [same]

theorem takes_names {first : Spanned Path} {names : List (Spanned Path)} (noComma : rest.head? ≠ some (.mark .comma))
    (noColons : rest.head? ≠ some (.mark .doubleColon)) :
    Takes qualifiedNames (first.value.tokens ++ names.flatMap fun next => [.mark .comma] ++ next.value.tokens) rest
      fun found => found.map (·.unplaced) = (first :: names).map (·.unplaced) := by
  have taken : Takes qualifiedNames
      (first.value.tokens ++ names.flatMap fun next => [.mark .comma] ++ next.value.tokens) rest
      (List.Forall₂ (fun name found => found.value = name.value) (first :: names)) := by
    refine takes_separated (fun name : Spanned Path => name.value.tokens) (fun _ => takes_mark .comma) (by simp)
      (fun before current after same => ?_) (refuses_mark noComma)
    refine takes_qualifiedName (refuses_mark ?_).seqRight
    cases after with
    | nil => exact noColons
    | cons next after => simp
  exact taken.mono fun _ areNames => Spanned.map_unplaced areNames

/-- Names that a token announces, or none where the token is missing. -/
theorem takes_announced {lead : Reader β} {token : Token} (taken : ∀ rest, Takes lead [token] rest fun _ => True)
    (refused : Refuses lead rest) (names : List (Spanned Path)) (noComma : rest.head? ≠ some (.mark .comma))
    (noColons : rest.head? ≠ some (.mark .doubleColon)) :
    Takes (optional (lead *> qualifiedNames)) (announced token names) rest
      fun found => (found.getD []).map (·.unplaced) = names.map (·.unplaced) := by
  cases names with
  | nil => exact refused.seqRight.optional.mono fun _ same => by rw [same]; rfl
  | cons first more =>
    have listed : Takes (lead *> qualifiedNames) (announced token (first :: more)) rest
        fun found => found.map (·.unplaced) = (first :: more).map (·.unplaced) :=
      (taken _).seqRight (takes_names noComma noColons)
    refine listed.optional.mono ?_
    rintro _ ⟨found, rfl, same⟩
    exact same

theorem takes_specializations (names : List (Spanned Path)) (next : From 4 rest) :
    Takes specializations (announced (.mark .specializes) names) rest
      fun found => found.map (·.unplaced) = names.map (·.unplaced) := by
  have listed := takes_announced (fun _ => takes_mark .specializes) (refuses_mark (next.head_ne (by decide))) names
    (next.head_ne (by decide)) (next.head_ne (by decide))
  exact listed.map fun _ same => same

theorem takes_redefinition {token : Token} (sign : RedefinitionToken token) :
    Takes redefinition [token] rest fun _ => True := by
  refine Takes.expecting (Takes.map (takes_known ?_) fun _ _ => trivial) _
  cases sign <;> rfl

theorem refuses_redefinition (noKeyword : rest.head? ≠ some (.keyword .redefines))
    (noMark : rest.head? ≠ some (.mark .redefines)) : Refuses redefinition rest := by
  refine Refuses.expecting (Refuses.map (refuses_token fun token next => ?_)) _
  split
  · exact absurd next noKeyword
  · exact absurd next noMark
  · rfl

theorem takes_usageNames {name? redefines? : Option (Spanned String)} (named : WrittenNames name? redefines? written)
    (someName : name?.isSome = true ∨ redefines?.isSome = true) (next : From 1 rest) :
    Takes usageNames written rest fun found =>
      found.1.map (·.unplaced) = name?.map (·.unplaced) ∧ found.2.map (·.unplaced) = redefines?.map (·.unplaced) := by
  have ended : Refuses redefinition rest := refuses_redefinition (next.head_ne (by decide)) (next.head_ne (by decide))
  cases named with
  | neither => simp at someName
  | @own name =>
    refine Takes.nil_bind (refuses_redefinition (by simp) (by simp)).optional ?_
    rintro _ rfl
    refine Takes.bind_nil (takes_identifier name.value) fun found same => ?_
    exact ended.seqRight.absent.bind_nil fun _ none => takes_pure ⟨congrArg some (Spanned.unplaced_eq same), none⟩
  | @redefined redefined token sign =>
    refine Takes.bind (takes_redefinition sign).optional ?_
    rintro _ ⟨_, rfl, _⟩
    refine Takes.bind_nil (takes_identifier redefined.value) fun found same => ?_
    exact takes_pure ⟨rfl, congrArg some (Spanned.unplaced_eq same)⟩
  | @both name redefined token sign =>
    refine Takes.nil_bind (refuses_redefinition (by simp) (by simp)).optional ?_
    rintro _ rfl
    refine Takes.bind (takes_identifier name.value) fun found same => ?_
    have other : Takes (redefinition *> identifier) [token, .identifier redefined.value] rest
        (·.value = redefined.value) := (takes_redefinition sign).seqRight (takes_identifier redefined.value)
    exact other.present.bind_nil fun _ last => takes_pure ⟨congrArg some (Spanned.unplaced_eq same), last⟩

theorem takes_multiplicity {count? : Option (Spanned Float)} (counted : WrittenMultiplicity count? written)
    (next : From 3 rest) : Takes (optional (mark .leftBracket *> number <* mark .rightBracket)) written rest
      fun found => found.map (·.unplaced) = count?.map (·.unplaced) := by
  cases counted with
  | none =>
    have absent : Refuses (mark .leftBracket) rest := refuses_mark (next.head_ne (by decide))
    exact absent.seqRight.seqLeft.absent
  | @some count =>
    have inside : Takes (mark .leftBracket *> number) [.mark .leftBracket, .number count.value]
        (.mark .rightBracket :: rest) (·.value = count.value) :=
      (takes_mark .leftBracket).seqRight (takes_number count.value)
    have bracketed : Takes (mark .leftBracket *> number <* mark .rightBracket)
        [.mark .leftBracket, .number count.value, .mark .rightBracket] rest (·.value = count.value) :=
      inside.seqLeft (takes_mark .rightBracket)
    exact bracketed.present

theorem Takes.spanned {reader : Reader α} {result : α → Prop} (takes : Takes reader written rest result) :
    Takes (spanned reader) written rest fun found => result found.value := by
  intro tokens left same follows
  obtain ⟨value, read, holds⟩ := takes tokens left same follows
  refine ⟨⟨value, SyntaxError.spanOf ((tokens ++ left).take ((tokens ++ left).length - left.length))⟩, ?_, holds⟩
  simp only [Reader.spanned, read]
  rfl

theorem takes_value {value? : Option (Spanned Expr)} (valued : WrittenValue value? written) (next : From 5 rest) :
    Takes (optional (mark .assign *> spanned expression)) written rest
      fun found => found.map (·.unplaced) = value?.map (·.unplaced) := by
  cases valued with
  | none =>
    have absent : Refuses (mark .assign) rest := refuses_mark (next.head_ne (by decide))
    exact absent.seqRight.absent
  | @some value tokens written =>
    obtain ⟨first, more, rfl, last⟩ := next
    have bodyFirst : first = .mark .semicolon ∨ first = .mark .leftBrace := by
      unfold headerPart at last
      split at last
      all_goals first | omega | exact .inl rfl | exact .inr rfl
    have assigned : Takes (mark .assign *> Reader.spanned expression) (.mark .assign :: tokens) (first :: more)
        (·.value = value.value) := (takes_mark .assign).seqRight (written first more bodyFirst).spanned
    exact assigned.present

theorem takes_usageHeader {header : UsageHeader} (headed : WrittenHeader header written)
    (someName : header.name?.isSome = true ∨ header.redefines?.isSome = true) (next : From 5 rest) :
    Takes usageHeader written rest (·.unplaced = header.unplaced) := by
  obtain ⟨named, counted, valued⟩ := headed
  rename_i names count value
  have fromValue : From 4 (value ++ rest) := next.value valued
  have fromSubsets : From 3 (announced (.mark .specializes) header.subsets ++ value ++ rest) := by
    rw [List.append_assoc]
    exact fromValue.announced rfl header.subsets
  have fromCount : From 2 (count ++ (announced (.mark .specializes) header.subsets ++ value) ++ rest) := by
    rw [List.append_assoc]
    exact fromSubsets.multiplicity counted
  have fromTypes : From 1 (announced (.mark .colon) header.types ++
      (count ++ (announced (.mark .specializes) header.subsets ++ value)) ++ rest) := by
    rw [List.append_assoc]
    exact fromCount.announced rfl header.types
  refine Takes.bind (takes_usageNames named someName fromTypes) fun found areNames => ?_
  refine Takes.bind (takes_announced (fun _ => takes_mark .colon) (refuses_mark (fromCount.head_ne (by decide)))
    header.types (fromCount.head_ne (by decide)) (fromCount.head_ne (by decide))) fun types areTypes => ?_
  refine Takes.bind (takes_multiplicity counted fromSubsets) fun multiplicity isCount => ?_
  refine Takes.bind (takes_specializations header.subsets fromValue) fun subsets areSubsets => ?_
  refine (takes_value valued next).bind_nil fun last isValue => takes_pure ?_
  rw [UsageHeader.unplaced, UsageHeader.unplaced, areNames.1, areNames.2, areTypes, isCount, areSubsets, isValue]

end Reader
end StructuralModel
