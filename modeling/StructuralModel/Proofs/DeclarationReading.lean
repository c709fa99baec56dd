import StructuralModel.Proofs.ExpressionReading
import StructuralModel.Proofs.HeaderReading

/-! A well-formed list of declarations is read back from its tokens: constructs by the token that they start with,
bodies member by member up to their closing brace, and nested declarations by induction on how they are written. -/

namespace StructuralModel

namespace Reader
open Declaration

variable {α : Type} {rest written : List Token}

/-! One construct after the other, with a reader of members. -/

section Constructs

variable {member : Reader Declaration} {members : List Declaration} {tokens : List Token}

/-- The reader takes the body of these members. -/
def TakesBody (member : Reader Declaration) (tokens rest : List Token) (members : List Declaration) : Prop :=
  Takes (body member) tokens rest fun found => unplacedAll found = unplacedAll members

theorem takesBody_none : TakesBody member [.mark .semicolon] rest [] := by
  refine Takes.expecting (Takes.either (Takes.map (takes_mark .semicolon) fun _ _ => ?_) _) _
  rfl

theorem takesBody_braces (inside : TakesMany member tokens (.mark .rightBrace :: rest)
    fun found => unplacedAll found = unplacedAll members) :
    TakesBody member (.mark .leftBrace :: (tokens ++ [.mark .rightBrace])) rest members := by
  have noSemicolon : Refuses ((fun _ => ([] : List Declaration)) <$> mark .semicolon)
      (.mark .leftBrace :: (tokens ++ [.mark .rightBrace]) ++ rest) := .map (refuses_mark (by simp))
  have opened : Takes (mark .leftBrace *> many member) (.mark .leftBrace :: tokens) (.mark .rightBrace :: rest)
      fun found => unplacedAll found = unplacedAll members := (takes_mark .leftBrace).seqRight inside.many
  exact (noSemicolon.either (opened.seqLeft (takes_mark .rightBrace))).expecting _

theorem takes_package {name : Spanned String} (inside : TakesBody member tokens rest members) :
    Takes (package member) (.keyword .package :: .identifier name.value :: tokens) rest
      (·.unplaced = (Declaration.package name members).unplaced) := by
  refine Takes.bind (takes_keyword .package) fun _ _ => Takes.committed ?_
  refine Takes.bind (takes_identifier name.value) fun found same => Takes.map inside fun _ areMembers => ?_
  rw [Declaration.unplaced, Declaration.unplaced, areMembers, Spanned.unplaced_eq same]

/-- The reader of what stands directly in an enumeration or elsewhere. -/
def element (inEnumeration : Bool) (member : Reader Declaration) : Reader Declaration :=
  if inEnumeration then either enumerationLiteral member else member

theorem takes_definition {kind : DefinitionKind} {name : Spanned String} {generals : List (Spanned Path)}
    (inside : TakesBody (element (kind = .enumeration) member) tokens rest members) (next : From 4 (tokens ++ rest)) :
    Takes (definition member kind) (.identifier name.value :: (announced (.mark .specializes) generals ++ tokens)) rest
      (·.unplaced = (Declaration.definition kind name generals members).unplaced) := by
  refine Takes.bind (takes_identifier name.value) fun found same => ?_
  refine Takes.bind (takes_specializations generals next) fun found areGenerals => ?_
  rcases kind with _ | _ | _
  all_goals
    refine Takes.map inside fun _ areMembers => ?_
    rw [Declaration.unplaced, Declaration.unplaced, areMembers, areGenerals, Spanned.unplaced_eq same]

theorem takes_usage {kind : UsageKind} {header : UsageHeader} {front : List Token} (headed : WrittenHeader header front)
    (someName : header.name?.isSome = true ∨ header.redefines?.isSome = true)
    (inside : TakesBody member tokens rest members) (next : From 5 (tokens ++ rest)) :
    Takes (usage member kind) (front ++ tokens) rest (·.unplaced = (Declaration.usage kind header members).unplaced) := by
  refine Takes.bind (takes_usageHeader headed someName next) fun found same => Takes.map inside fun _ areMembers => ?_
  rw [Declaration.unplaced, Declaration.unplaced, areMembers, same]

theorem takes_keyedDefinition {kind : DefinitionKind} {declaration : Declaration}
    (defined : Takes (definition member kind) tokens rest (·.unplaced = declaration.unplaced)) :
    Takes (definitionOrUsage member) (definitionKeyword kind :: .keyword .definition :: tokens) rest
      (·.unplaced = declaration.unplaced) := by
  obtain ⟨usage?, known⟩ : ∃ usage?, leadingKeyword? (definitionKeyword kind) = some (kind, usage?) := by
    rcases kind with _ | _ | _ <;> exact ⟨_, rfl⟩
  refine Takes.bind (takes_token known) ?_
  rintro ⟨_, span⟩ rfl
  cases usage? with
  | none => exact Takes.committed (Takes.bind (takes_keyword .definition) fun _ _ => defined)
  | some usageKind =>
    refine Takes.committed (Takes.bind (takes_keyword .definition).optional ?_)
    rintro _ ⟨_, rfl, _⟩
    exact defined

theorem takes_keyedUsage {kind : UsageKind} {keyword : Token} {declaration : Declaration}
    (keyed : usageKeyword kind = [keyword]) (noDefinition : (tokens ++ rest).head? ≠ some (.keyword .definition))
    (used : Takes (usage member kind) tokens rest (·.unplaced = declaration.unplaced)) :
    Takes (definitionOrUsage member) (keyword :: tokens) rest (·.unplaced = declaration.unplaced) := by
  obtain ⟨definitionKind, known⟩ : ∃ definitionKind, leadingKeyword? keyword = some (definitionKind, some kind) := by
    rcases kind with _ | _ | _ <;> cases keyed <;> exact ⟨_, rfl⟩
  refine Takes.bind (takes_token known) ?_
  rintro ⟨_, span⟩ rfl
  refine Takes.committed (Takes.nil_bind (refuses_keyword noDefinition).optional ?_)
  rintro _ rfl
  exact used

theorem takes_literal {name : Spanned String} :
    Takes enumerationLiteral [.identifier name.value, .mark .semicolon] rest
      (·.unplaced = (Declaration.enumerationLiteral name).unplaced) := by
  refine Takes.nil_bind (refuses_keyword (by simp)).optional fun _ _ => ?_
  refine Takes.map ((takes_identifier name.value).seqLeft (takes_mark .semicolon)) fun found same => ?_
  rw [Declaration.unplaced, Declaration.unplaced, Spanned.unplaced_eq same]

theorem takes_keywordLiteral {name : Spanned String} :
    Takes enumerationLiteral [.keyword .enumeration, .identifier name.value, .mark .semicolon] rest
      (·.unplaced = (Declaration.enumerationLiteral name).unplaced) := by
  refine Takes.bind (takes_keyword .enumeration).optional fun _ _ => ?_
  refine Takes.map ((takes_identifier name.value).seqLeft (takes_mark .semicolon)) fun found same => ?_
  rw [Declaration.unplaced, Declaration.unplaced, Spanned.unplaced_eq same]

theorem takes_commentBody {body : Spanned String} {raw : String} (cleans : commentText raw = body.value) :
    Takes commentBody [.comment raw] rest (·.unplaced = body.unplaced) := by
  have taken : Takes commentBody [.comment raw] rest (·.value = commentText raw) := by
    refine Takes.expecting ?_ _
    exact takes_token rfl
  exact taken.mono fun _ same => Spanned.unplaced_eq (same.trans cleans)

theorem takes_ownName (name? : Option (Spanned String)) (noName : ∀ name, rest.head? ≠ some (.identifier name)) :
    Takes (optional identifier) (ownName name?) rest fun found => found.map (·.unplaced) = name?.map (·.unplaced) := by
  cases name? with
  | none => exact (refuses_identifier noName).absent
  | some name => exact (takes_identifier name.value).present

theorem takes_comment {name? : Option (Spanned String)} {about : List (Spanned Path)} {body : Spanned String}
    {raw : String} (cleans : commentText raw = body.value) :
    Takes comment (.keyword .comment :: (ownName name? ++ (announced (.keyword .about) about ++ [.comment raw]))) rest
      (·.unplaced = (Declaration.comment name? about body).unplaced) := by
  have noName : ∀ name, (announced (.keyword .about) about ++ [Token.comment raw] ++ rest).head? ≠
      some (.identifier name) := by
    cases about <;> simp [announced]
  refine Takes.bind (takes_keyword .comment) fun _ _ => Takes.committed ?_
  refine Takes.bind (takes_ownName name? noName) fun found isName => ?_
  refine Takes.bind (takes_announced (fun _ => takes_keyword .about) (refuses_keyword (by simp)) about (by simp)
    (by simp)) fun targets areAbout => ?_
  refine Takes.map (takes_commentBody cleans) fun text same => ?_
  rw [Declaration.unplaced, Declaration.unplaced, isName, areAbout, same]

theorem takes_bareComment {body : Spanned String} {raw : String} (cleans : commentText raw = body.value) :
    Takes bareComment [.comment raw] rest (·.unplaced = (Declaration.comment none [] body).unplaced) := by
  refine Takes.map (takes_commentBody cleans) fun text same => ?_
  rw [Declaration.unplaced, Declaration.unplaced, same, Option.map_none, List.map_nil]

theorem takes_documentation {locale? : Option (Spanned String)} {body : Spanned String} {raw : String}
    (cleans : commentText raw = body.value) :
    Takes documentation (.keyword .documentation :: (localeTokens locale? ++ [.comment raw])) rest
      (·.unplaced = (Declaration.documentation locale? body).unplaced) := by
  have localized : Takes (optional (keyword .locale *> text)) (localeTokens locale?) ([.comment raw] ++ rest)
      fun found => found.map (·.unplaced) = locale?.map (·.unplaced) := by
    cases locale? with
    | none => exact (Refuses.seqRight (refuses_keyword (by simp))).absent
    | some locale =>
      have named : Takes (keyword .locale *> text) (localeTokens (some locale)) ([.comment raw] ++ rest)
          (·.value = locale.value) := (takes_keyword .locale).seqRight (takes_text locale.value)
      exact named.present
  refine Takes.bind (takes_keyword .documentation) fun _ _ => Takes.committed ?_
  refine Takes.bind localized fun found isLocale => Takes.map (takes_commentBody cleans) fun text same => ?_
  rw [Declaration.unplaced, Declaration.unplaced, isLocale, same]

theorem takes_importing {name : Spanned Path} :
    Takes importing (.keyword .importing :: (name.value.tokens ++ [.mark .semicolon])) rest
      (·.unplaced = (Declaration.importing name).unplaced) := by
  refine Takes.bind (takes_keyword .importing) fun _ _ => Takes.committed ?_
  refine Takes.bind (takes_qualifiedName (Refuses.seqRight (refuses_mark (by simp)))) fun found same => ?_
  refine Takes.nil_bind (Refuses.seqRight (refuses_mark (by simp))).optional fun _ _ => ?_
  refine Takes.bind_nil (takes_mark .semicolon) fun _ _ => takes_pure ?_
  rw [Declaration.unplaced, Declaration.unplaced, Spanned.unplaced_eq same]

/-- The last separator belongs to the star and not to the name. -/
theorem takes_importingAll {name : Spanned Path} :
    Takes importing
      (.keyword .importing :: (name.value.tokens ++ [.mark .doubleColon, .mark .star, .mark .semicolon])) rest
      (·.unplaced = (Declaration.importing name).unplaced) := by
  have ended : Refuses (mark .doubleColon *> identifier)
      ([.mark .doubleColon, .mark .star, .mark .semicolon] ++ rest) :=
    (takes_mark .doubleColon).seqRight_refuses (refuses_identifier (by simp))
  have starred : Takes (mark .doubleColon *> mark .star) [.mark .doubleColon, .mark .star] ([.mark .semicolon] ++ rest)
      fun _ => True := (takes_mark .doubleColon).seqRight (takes_mark .star)
  refine Takes.bind (takes_keyword .importing) fun _ _ => Takes.committed ?_
  refine Takes.bind (takes_qualifiedName ended) fun found same => ?_
  refine Takes.bind starred.optional fun _ _ => ?_
  refine Takes.bind_nil (takes_mark .semicolon) fun _ _ => takes_pure ?_
  rw [Declaration.unplaced, Declaration.unplaced, Spanned.unplaced_eq same]

theorem takes_ahead {reader : Reader α} {result : α → Prop} (takes : Takes reader written rest result) :
    Takes (ahead reader) [] (written ++ rest) result := by
  intro tokens left same follows
  obtain rfl := List.map_eq_nil_iff.mp same
  obtain ⟨front, back, rfl, frontSame, backSame⟩ := List.map_eq_append_iff.mp follows
  obtain ⟨value, read, holds⟩ := takes front back frontSame backSame
  exact ⟨value, by rw [List.nil_append, ahead, read], holds⟩

theorem refuses_ahead {reader : Reader α} (refuses : Refuses reader rest) : Refuses (ahead reader) rest := by
  intro tokens same
  obtain ⟨error, read, free⟩ := refuses tokens same
  exact ⟨⟨error.trail, tokens, error.isCommitted⟩, by rw [ahead, read], free⟩

/-! The alternatives of a declaration, by the tokens that they start with. -/

/-- The constructs in the order in which they are tried. -/
def alternatives (member : Reader Declaration) : List (Reader Declaration) :=
  [package member, definitionOrUsage member, shorthand member, comment, documentation, bareComment, importing,
    visibility *> member]

theorem declarationWithin_succ (depth : Nat) : declarationWithin (depth + 1) =
    expecting .declaration (firstOf (alternatives (declarationWithin depth))) :=
  rfl

variable {declaration : Declaration}

theorem refuses_package (other : rest.head? ≠ some (.keyword .package)) : Refuses (package member) rest :=
  .bind (refuses_keyword other)

theorem refuses_definitionOrUsage (other : ∀ token ∈ rest.head?, leadingKeyword? token = none) :
    Refuses (definitionOrUsage member) rest :=
  .bind (refuses_token other)

theorem refuses_shorthand (noKeyword : rest.head? ≠ some (.keyword .redefines))
    (noMark : rest.head? ≠ some (.mark .redefines)) : Refuses (shorthand member) rest :=
  (refuses_ahead (refuses_redefinition noKeyword noMark)).seqRight

theorem refuses_commentBody (other : ∀ raw, rest.head? ≠ some (.comment raw)) : Refuses commentBody rest := by
  refine Refuses.expecting (refuses_token fun token next => ?_) _
  cases token with
  | comment raw => exact absurd next (other raw)
  | _ => rfl

theorem alternative_definitionOrUsage {first : Token} {more : List Token} (other : first ≠ .keyword .package)
    (takes : Takes (definitionOrUsage member) (first :: more) rest (·.unplaced = declaration.unplaced)) :
    Takes (firstOf (alternatives member)) (first :: more) rest (·.unplaced = declaration.unplaced) := by
  refine Refuses.firstOf (refuses_package ?_) (takes.firstOf _)
  simpa using other

theorem alternative_shorthand {token : Token} {more : List Token} (sign : RedefinitionToken token)
    (takes : Takes (usage member .shorthand) (token :: more) rest (·.unplaced = declaration.unplaced)) :
    Takes (firstOf (alternatives member)) (token :: more) rest (·.unplaced = declaration.unplaced) := by
  have signed : Takes redefinition [token] (more ++ rest) fun _ => True := takes_redefinition sign
  have seen : Takes (ahead redefinition) [] ([token] ++ (more ++ rest)) fun _ => True := takes_ahead signed
  have looked : Takes (ahead redefinition) [] (token :: more ++ rest) fun _ => True := seen
  have short : Takes (shorthand member) (token :: more) rest (·.unplaced = declaration.unplaced) :=
    looked.nil_bind fun _ _ => takes.committed
  refine Refuses.firstOf (refuses_package ?_) (Refuses.firstOf (refuses_definitionOrUsage ?_) (short.firstOf _))
  · cases sign <;> simp
  · cases sign <;> simp [leadingKeyword?]

/-- A token that starts no package, definition or usage leaves the choice to the other constructs. -/
theorem alternative_other {token : Token} {more : List Token} (noPackage : token ≠ .keyword .package)
    (noLead : leadingKeyword? token = none) (noKeyword : token ≠ .keyword .redefines) (noMark : token ≠ .mark .redefines)
    (takes : Takes (firstOf [comment, documentation, bareComment, importing, visibility *> member]) (token :: more) rest
      (·.unplaced = declaration.unplaced)) :
    Takes (firstOf (alternatives member)) (token :: more) rest (·.unplaced = declaration.unplaced) := by
  refine Refuses.firstOf (refuses_package ?_) (Refuses.firstOf (refuses_definitionOrUsage ?_)
    (Refuses.firstOf (refuses_shorthand ?_ ?_) takes))
  · simpa using noPackage
  · simpa using noLead
  · simpa using noKeyword
  · simpa using noMark

theorem alternative_comment {more : List Token}
    (takes : Takes comment (.keyword .comment :: more) rest (·.unplaced = declaration.unplaced)) :
    Takes (firstOf (alternatives member)) (.keyword .comment :: more) rest (·.unplaced = declaration.unplaced) :=
  alternative_other (by simp) rfl (by simp) (by simp) (takes.firstOf _)

theorem alternative_documentation {more : List Token}
    (takes : Takes documentation (.keyword .documentation :: more) rest (·.unplaced = declaration.unplaced)) :
    Takes (firstOf (alternatives member)) (.keyword .documentation :: more) rest
      (·.unplaced = declaration.unplaced) := by
  refine alternative_other (by simp) rfl (by simp) (by simp) ?_
  exact Refuses.firstOf (Refuses.bind (refuses_keyword (by simp))) (takes.firstOf _)

theorem alternative_bareComment {raw : String}
    (takes : Takes bareComment [.comment raw] rest (·.unplaced = declaration.unplaced)) :
    Takes (firstOf (alternatives member)) [.comment raw] rest (·.unplaced = declaration.unplaced) := by
  refine alternative_other (by simp) rfl (by simp) (by simp) ?_
  refine Refuses.firstOf (Refuses.bind (refuses_keyword (by simp))) ?_
  exact Refuses.firstOf (Refuses.bind (refuses_keyword (by simp))) (takes.firstOf _)

theorem alternative_importing {more : List Token}
    (takes : Takes importing (.keyword .importing :: more) rest (·.unplaced = declaration.unplaced)) :
    Takes (firstOf (alternatives member)) (.keyword .importing :: more) rest (·.unplaced = declaration.unplaced) := by
  refine alternative_other (by simp) rfl (by simp) (by simp) ?_
  refine Refuses.firstOf (Refuses.bind (refuses_keyword (by simp))) ?_
  refine Refuses.firstOf (Refuses.bind (refuses_keyword (by simp))) ?_
  exact Refuses.firstOf (Refuses.map (refuses_commentBody (by simp))) (takes.firstOf _)

/-- Members end at a closing brace and at the end of the document. -/
theorem refuses_declarationWithin (closed : ∀ token ∈ rest.head?, token = .mark .rightBrace) (depth : Nat) :
    Refuses (declarationWithin depth) rest := by
  have apart : ∀ {token}, token ≠ .mark .rightBrace → rest.head? ≠ some token :=
    fun other next => other (closed _ next)
  cases depth with
  | zero => exact fun tokens _ => ⟨.stopped tokens, rfl, rfl⟩
  | succ depth =>
    rw [declarationWithin_succ]
    refine Refuses.expecting (refuses_firstOf ?_) _
    simp only [alternatives, List.forall_mem_cons]
    refine ⟨refuses_package (apart (by simp)), refuses_definitionOrUsage fun token next => by rw [closed token next]; rfl,
      refuses_shorthand (apart (by simp)) (apart (by simp)), .bind (refuses_keyword (apart (by simp))),
      .bind (refuses_keyword (apart (by simp))), .map (refuses_commentBody fun _ => apart (by simp)),
      .bind (refuses_keyword (apart (by simp))), ?_, by simp⟩
    exact Refuses.seqRight (.map (refuses_token fun token next => by rw [closed token next]))

theorem refuses_literal (noKeyword : rest.head? ≠ some (.keyword .enumeration))
    (noName : ∀ name, rest.head? ≠ some (.identifier name)) : Refuses enumerationLiteral rest := by
  have unkeyed : Takes (optional (keyword .enumeration)) [] rest (· = none) := (refuses_keyword noKeyword).optional
  exact unkeyed.bind_refuses fun _ => .map (.seqLeft (refuses_identifier noName))

/-- An enumeration inside an enumeration is not taken for a literal. -/
theorem refuses_literal_definition (more : List Token) :
    Refuses enumerationLiteral (.keyword .enumeration :: .keyword .definition :: more) := by
  have keyed : Takes (optional (keyword .enumeration)) [.keyword .enumeration] (.keyword .definition :: more)
      fun found => ∃ span, found = some span ∧ True := (takes_keyword .enumeration).optional
  exact keyed.bind_refuses fun _ => .map (.seqLeft (refuses_identifier (by simp)))

end Constructs

/-! Whole declarations. -/

variable {inEnumeration : Bool} {declaration : Declaration} {members : List Declaration} {tokens : List Token}

/-- The tokens are read as the declaration, whatever follows. A level of nesting takes at least one token. -/
structure ReadsAs (inEnumeration : Bool) (declaration : Declaration) (tokens : List Token) : Prop where
  nonempty : tokens ≠ []
  takes {depth : Nat} {rest : List Token} (deep : tokens.length ≤ depth) :
    Takes (element inEnumeration (declarationWithin depth)) tokens rest (·.unplaced = declaration.unplaced)

def ReadsBody (inEnumeration : Bool) (members : List Declaration) (tokens : List Token) : Prop :=
  ∀ {depth : Nat} {rest : List Token}, tokens.length ≤ depth →
    TakesBody (element inEnumeration (declarationWithin depth)) tokens rest members

/-- Anything but a literal is read in an enumeration as it is elsewhere. -/
theorem readsAs_of_alternative (nonempty : tokens ≠ [])
    (noLiteral : ∀ rest, Refuses enumerationLiteral (tokens ++ rest))
    (takes : ∀ {depth rest}, tokens.length ≤ depth + 1 →
      Takes (firstOf (alternatives (declarationWithin depth))) tokens rest (·.unplaced = declaration.unplaced)) :
    ReadsAs inEnumeration declaration tokens := by
  refine ⟨nonempty, fun {depth rest} deep => ?_⟩
  have some_token := List.length_pos_iff.mpr nonempty
  obtain ⟨depth, rfl⟩ := Nat.exists_eq_add_one_of_ne_zero (by omega : depth ≠ 0)
  have read : Takes (declarationWithin (depth + 1)) tokens rest (·.unplaced = declaration.unplaced) :=
    (takes deep).expecting _
  cases inEnumeration with
  | true => exact (noLiteral rest).either read
  | false => exact read

theorem readsAs_literal {name : Spanned String} (written : Written (.enumerationLiteral name) tokens) :
    ReadsAs true (.enumerationLiteral name) tokens := by
  cases written with
  | literal => exact ⟨by simp, fun _ => takes_literal.either _⟩
  | keywordLiteral => exact ⟨by simp, fun _ => takes_keywordLiteral.either _⟩

theorem readsAs_package {name : Spanned String} (inside : ReadsBody false members tokens) :
    ReadsAs inEnumeration (.package name members) (.keyword .package :: .identifier name.value :: tokens) := by
  refine readsAs_of_alternative (by simp) (fun _ => refuses_literal (by simp) (by simp)) fun {depth rest} deep => ?_
  rw [List.length_cons, List.length_cons] at deep
  exact (takes_package (inside (by omega))).firstOf _

theorem readsAs_definition {kind : DefinitionKind} {name : Spanned String} {generals : List (Spanned Path)}
    (body : WrittenBody members tokens) (inside : ReadsBody (kind = .enumeration) members tokens) :
    ReadsAs inEnumeration (.definition kind name generals members) (definitionKeyword kind :: .keyword .definition ::
      .identifier name.value :: (announced (.mark .specializes) generals ++ tokens)) := by
  refine readsAs_of_alternative (by simp) (fun _ => ?_) fun {depth rest} deep => ?_
  · rcases kind with _ | _ | _
    · exact refuses_literal (by simp [definitionKeyword]) (by simp [definitionKeyword])
    · exact refuses_literal (by simp [definitionKeyword]) (by simp [definitionKeyword])
    · exact refuses_literal_definition _
  · simp only [List.length_cons, List.length_append] at deep
    have next : From 4 (tokens ++ rest) := From.later (From.body body rest) (Nat.le_succ 4)
    refine alternative_definitionOrUsage (by rcases kind with _ | _ | _ <;> simp [definitionKeyword]) ?_
    exact takes_keyedDefinition (takes_definition (inside (by omega)) next)

theorem header_front {header : UsageHeader} {front : List Token} (headed : WrittenHeader header front)
    (someName : header.name?.isSome = true ∨ header.redefines?.isSome = true) :
    ∃ first more, front = first :: more ∧ first ≠ .keyword .definition ∧
      (header.name? = none → RedefinitionToken first) := by
  obtain ⟨named, _, _⟩ := headed
  generalize header.name? = name? at named someName
  generalize header.redefines? = redefines? at named someName
  cases named with
  | neither => simp at someName
  | own => exact ⟨_, _, rfl, by simp, nofun⟩
  | redefined sign => exact ⟨_, _, rfl, by cases sign <;> simp, fun _ => sign⟩
  | both sign => exact ⟨_, _, rfl, by simp, nofun⟩

theorem readsAs_usage {kind : UsageKind} {header : UsageHeader} {front : List Token}
    (headed : WrittenHeader header front) (body : WrittenBody members tokens) (named : header.WellNamed kind)
    (inside : ReadsBody false members tokens) :
    ReadsAs inEnumeration (.usage kind header members) (usageKeyword kind ++ (front ++ tokens)) := by
  have someName : header.name?.isSome = true ∨ header.redefines?.isSome = true := by
    cases kind with
    | shorthand => exact .inr named.2
    | _ => exact named
  obtain ⟨first, more, rfl, noDefinition, sign⟩ := header_front headed someName
  have used : ∀ {depth rest}, tokens.length ≤ depth → Takes (usage (declarationWithin depth) kind)
      (first :: more ++ tokens) rest (·.unplaced = (Declaration.usage kind header members).unplaced) :=
    fun deep => takes_usage headed someName (inside deep) (From.body body _)
  rcases kind with _ | _ | _
  · refine readsAs_of_alternative (by simp [usageKeyword])
      (fun _ => refuses_literal (by simp [usageKeyword]) (by simp [usageKeyword])) fun {depth rest} deep => ?_
    simp only [usageKeyword, List.length_append, List.length_cons] at deep
    exact alternative_definitionOrUsage (by simp) (takes_keyedUsage rfl (by simpa using noDefinition) (used (by omega)))
  · refine readsAs_of_alternative (by simp [usageKeyword])
      (fun _ => refuses_literal (by simp [usageKeyword]) (by simp [usageKeyword])) fun {depth rest} deep => ?_
    simp only [usageKeyword, List.length_append, List.length_cons] at deep
    exact alternative_definitionOrUsage (by simp) (takes_keyedUsage rfl (by simpa using noDefinition) (used (by omega)))
  · have redefinition : RedefinitionToken first := sign named.1
    refine readsAs_of_alternative (by simp [usageKeyword]) (fun _ => ?_) fun {depth rest} deep => ?_
    · cases redefinition <;> exact refuses_literal (by simp [usageKeyword]) (by simp [usageKeyword])
    · simp only [usageKeyword, List.length_append, List.length_cons] at deep
      exact alternative_shorthand redefinition (used (by omega))

theorem readsAs_comment {name? : Option (Spanned String)} {about : List (Spanned Path)} {body : Spanned String}
    (written : Written (.comment name? about body) tokens) : ReadsAs inEnumeration (.comment name? about body) tokens := by
  cases written with
  | comment cleans =>
    exact readsAs_of_alternative (by simp) (fun _ => refuses_literal (by simp) (by simp)) fun _ =>
      alternative_comment (takes_comment cleans)
  | bareComment cleans =>
    exact readsAs_of_alternative (by simp) (fun _ => refuses_literal (by simp) (by simp)) fun _ =>
      alternative_bareComment (takes_bareComment cleans)

theorem readsAs_documentation {locale? : Option (Spanned String)} {body : Spanned String}
    (written : Written (.documentation locale? body) tokens) :
    ReadsAs inEnumeration (.documentation locale? body) tokens := by
  cases written with
  | documentation cleans =>
    exact readsAs_of_alternative (by simp) (fun _ => refuses_literal (by simp) (by simp)) fun _ =>
      alternative_documentation (takes_documentation cleans)

theorem readsAs_importing {name : Spanned Path} (written : Written (.importing name) tokens) :
    ReadsAs inEnumeration (.importing name) tokens := by
  cases written with
  | importing =>
    exact readsAs_of_alternative (by simp) (fun _ => refuses_literal (by simp) (by simp)) fun _ =>
      alternative_importing takes_importing
  | importingAll =>
    exact readsAs_of_alternative (by simp) (fun _ => refuses_literal (by simp) (by simp)) fun _ =>
      alternative_importing takes_importingAll

/-- Members one after the other, up to where no member starts. -/
theorem takesMany_members {reader : Reader Declaration} {pieces : List (List Token)}
    (each : List.Forall₂ (fun declaration piece => piece ≠ [] ∧
      ∀ rest, Takes reader piece rest (·.unplaced = declaration.unplaced)) members pieces)
    (stops : Refuses reader rest) :
    TakesMany reader pieces.flatten rest fun found => unplacedAll found = unplacedAll members := by
  induction each with
  | nil => exact stops.takesMany rfl
  | cons first _ ih =>
    refine (first.2 _).cons first.1 ih fun found others same areOthers => ?_
    rw [unplacedAll, unplacedAll, same, areOthers]

theorem readsBody_braces {pieces : List (List Token)}
    (each : List.Forall₂ (ReadsAs inEnumeration) members pieces) :
    ReadsBody inEnumeration members (.mark .leftBrace :: (pieces.flatten ++ [.mark .rightBrace])) := by
  intro depth rest deep
  rw [List.length_cons, List.length_append] at deep
  have inside : ∀ {members pieces}, List.Forall₂ (ReadsAs inEnumeration) members pieces → pieces.flatten.length ≤ depth →
      List.Forall₂ (fun declaration piece => piece ≠ [] ∧ ∀ rest,
        Takes (element inEnumeration (declarationWithin depth)) piece rest (·.unplaced = declaration.unplaced))
        members pieces := by
    intro members pieces each fits
    induction each with
    | nil => exact .nil
    | cons first _ ih =>
      rw [List.flatten_cons, List.length_append] at fits
      exact .cons ⟨first.nonempty, fun _ => first.takes (by omega)⟩ (ih (by omega))
  have closed : Refuses (element inEnumeration (declarationWithin depth)) (.mark .rightBrace :: rest) := by
    have noMember : Refuses (declarationWithin depth) (.mark .rightBrace :: rest) :=
      refuses_declarationWithin (by simp) depth
    cases inEnumeration with
    | true => exact (refuses_literal (by simp) (by simp)).either_refuses noMember
    | false => exact noMember
  exact takesBody_braces (takesMany_members (inside each (by omega)) closed)

mutual

/-- A well-formed declaration is read back from any of its forms. -/
theorem readsAs_written {declaration : Declaration} {tokens : List Token} {inEnumeration : Bool} :
    Written declaration tokens → declaration.WellFormed inEnumeration → ReadsAs inEnumeration declaration tokens
  | .package body, formed => readsAs_package (readsBody_written body formed)
  | .definition body, formed => readsAs_definition body (readsBody_written body formed)
  | .usage headed body, formed => readsAs_usage headed body formed.1 (readsBody_written body formed.2)
  | .literal, formed => formed ▸ readsAs_literal .literal
  | .keywordLiteral, formed => formed ▸ readsAs_literal .keywordLiteral
  | .comment cleans, _ => readsAs_comment (.comment cleans)
  | .bareComment cleans, _ => readsAs_comment (.bareComment cleans)
  | .documentation cleans, _ => readsAs_documentation (.documentation cleans)
  | .importing, _ => readsAs_importing .importing
  | .importingAll, _ => readsAs_importing .importingAll

theorem readsBody_written {members : List Declaration} {tokens : List Token} {inEnumeration : Bool} :
    WrittenBody members tokens → AllWellFormed inEnumeration members → ReadsBody inEnumeration members tokens
  | .none, _ => fun _ => takesBody_none
  | .braces inside, formed => by
    obtain ⟨pieces, rfl, each⟩ := readsAll_written inside formed
    exact readsBody_braces each

theorem readsAll_written {members : List Declaration} {tokens : List Token} {inEnumeration : Bool} :
    WrittenAll members tokens → AllWellFormed inEnumeration members →
      ∃ pieces : List (List Token), tokens = pieces.flatten ∧ List.Forall₂ (ReadsAs inEnumeration) members pieces
  | .nil, _ => ⟨[], rfl, .nil⟩
  | .cons head tail, formed => by
    obtain ⟨pieces, rfl, each⟩ := readsAll_written tail formed.2
    exact ⟨_ :: pieces, rfl, .cons (readsAs_written head formed.1) each⟩

end

theorem ReadsAs.takes_declaration (reads : ReadsAs false declaration tokens) (rest : List Token) :
    Takes Reader.declaration tokens rest (·.unplaced = declaration.unplaced) := by
  intro written left same follows
  have deep : tokens.length ≤ (written ++ left).length + 1 := by
    rw [← same, List.length_map, List.length_append]
    omega
  exact reads.takes deep written left same follows

end Reader

namespace Declaration
open Reader

/-- Before a body, the tokens of an expression are a form of it as a value. -/
theorem writtenExpression_tokens {e : Expr} (written : ∀ unit ∈ e.units, unit.Readable ∧ unit.PlainNumbers) :
    WrittenExpression e e.tokens := by
  intro first more next
  refine takes_expression written (Binding.ends_of_none ?_ _ _)
  rcases next with rfl | rfl <;> rfl

/-- Every document of well-formed declarations is read back from any of its forms. -/
theorem ofTokens_written {declarations : List Declaration} (formed : AllWellFormed false declarations) {tokens : Tokens}
    (written : WrittenAll declarations (tokens.map (·.value))) :
    ∃ found, ofTokens tokens = .ok found ∧ unplacedAll found = unplacedAll declarations := by
  obtain ⟨pieces, same, each⟩ := readsAll_written written formed
  have members : TakesMany declaration pieces.flatten [] fun found => unplacedAll found = unplacedAll declarations := by
    refine takesMany_members (each.imp fun _ _ reads => ⟨reads.nonempty, reads.takes_declaration⟩) ?_
    intro none ended
    obtain rfl := List.map_eq_nil_iff.mp ended
    exact refuses_declarationWithin (by simp) 1 [] rfl
  obtain ⟨found, read, areMembers⟩ := members.many tokens [] same rfl
  rw [List.append_nil] at read
  have whole : document tokens = .ok (found, []) := bind_ok read
  exact ⟨found, by rw [ofTokens, whole], areMembers⟩

/-- The usage `part engine redefines motor : Engine [1] :> parts = mass + 1`. -/
def engineHeader : UsageHeader where
  name? := some ⟨"engine", .atStart⟩
  redefines? := some ⟨"motor", .atStart⟩
  types := [⟨.simple "Engine", .atStart⟩]
  multiplicity? := some ⟨1, .atStart⟩
  subsets := [⟨.simple "parts", .atStart⟩]
  value? := some ⟨.binary .add (.reference (.simple "mass")) (.literal (.number 1)), .atStart⟩

def powerHeader : UsageHeader where
  name? := none
  redefines? := some ⟨"power", .atStart⟩
  types := []
  multiplicity? := none
  subsets := []
  value? := none

def fleet : List Declaration :=
  [.package ⟨"Fleet", .atStart⟩ [
    .definition .enumeration ⟨"Color", .atStart⟩ []
      [.enumerationLiteral ⟨"red", .atStart⟩, .enumerationLiteral ⟨"blue", .atStart⟩],
    .definition .part ⟨"Car", .atStart⟩ [⟨.simple "Vehicle", .atStart⟩, ⟨⟨"Base", ["Thing"]⟩, .atStart⟩] [
      .usage .part engineHeader [.usage .shorthand powerHeader []],
      .documentation (some ⟨"en", .atStart⟩) ⟨"A car.", .atStart⟩],
    .comment (some ⟨"Origin", .atStart⟩) [⟨.simple "Car", .atStart⟩] ⟨"Made here.", .atStart⟩,
    .importing ⟨.simple "Units", .atStart⟩]]

def engineTokens : List Token :=
  [.keyword .part, .identifier "engine", .keyword .redefines, .identifier "motor", .mark .colon, .identifier "Engine",
    .mark .leftBracket, .number 1, .mark .rightBracket, .mark .specializes, .identifier "parts",
    .mark .assign, .identifier "mass", .mark .plus, .number 1, .mark .leftBrace,
    .mark .redefines, .identifier "power", .mark .semicolon, .mark .rightBrace]

def colorTokens : List Token :=
  [.keyword .enumeration, .keyword .definition, .identifier "Color", .mark .leftBrace, .identifier "red", .mark .semicolon,
    .keyword .enumeration, .identifier "blue", .mark .semicolon, .mark .rightBrace]

def carTokens : List Token :=
  .keyword .part :: .keyword .definition :: .identifier "Car" :: .mark .specializes :: .identifier "Vehicle" ::
    .mark .comma :: .identifier "Base" :: .mark .doubleColon :: .identifier "Thing" :: .mark .leftBrace ::
    (engineTokens ++ [.keyword .documentation, .keyword .locale, .text "en", .comment " A car. ", .mark .rightBrace])

/-- The package `Fleet` with the enumeration `Color`, the part `Car`, the comment `Origin` and an import. -/
def fleetTokens : List Token :=
  .keyword .package :: .identifier "Fleet" :: .mark .leftBrace :: (colorTokens ++ (carTokens ++
    [.keyword .comment, .identifier "Origin", .keyword .about, .identifier "Car", .comment " Made here. ",
      .keyword .importing, .identifier "Units", .mark .doubleColon, .mark .star, .mark .semicolon, .mark .rightBrace]))

theorem fleet_wellFormed : AllWellFormed false fleet := by
  simp [fleet, AllWellFormed, WellFormed, UsageHeader.WellNamed, engineHeader, powerHeader]

theorem written_engine : Written (.usage .part engineHeader [.usage .shorthand powerHeader []]) engineTokens := by
  have value : WrittenExpression (.binary .add (.reference (.simple "mass")) (.literal (.number 1)))
      [.identifier "mass", .mark .plus, .number 1] :=
    writtenExpression_tokens (by simp [Expr.units])
  have power : Written (.usage .shorthand powerHeader []) [.mark .redefines, .identifier "power", .mark .semicolon] :=
    @Written.usage .shorthand powerHeader [] [.mark .redefines, .identifier "power"] _
      (@WrittenHeader.header powerHeader _ [] [] (.redefined .mark) .none .none) .none
  have engine : WrittenHeader engineHeader _ :=
    @WrittenHeader.header engineHeader _ _ _ (.both .keyword) .some (.some value)
  exact Written.usage engine (.braces (.cons power .nil))

theorem fleet_written : WrittenAll fleet fleetTokens := by
  have color : Written (.definition .enumeration ⟨"Color", .atStart⟩ []
      [.enumerationLiteral ⟨"red", .atStart⟩, .enumerationLiteral ⟨"blue", .atStart⟩]) colorTokens :=
    Written.definition (.braces (.cons .literal (.cons .keywordLiteral .nil)))
  have documented : Written (.documentation (some ⟨"en", .atStart⟩) ⟨"A car.", .atStart⟩)
      [.keyword .documentation, .keyword .locale, .text "en", .comment " A car. "] :=
    Written.documentation (by decide +kernel)
  have car : Written (.definition .part ⟨"Car", .atStart⟩
      [⟨.simple "Vehicle", .atStart⟩, ⟨⟨"Base", ["Thing"]⟩, .atStart⟩] [
        .usage .part engineHeader [.usage .shorthand powerHeader []],
        .documentation (some ⟨"en", .atStart⟩) ⟨"A car.", .atStart⟩]) carTokens :=
    Written.definition (.braces (.cons written_engine (.cons documented .nil)))
  have origin : Written (.comment (some ⟨"Origin", .atStart⟩) [⟨.simple "Car", .atStart⟩] ⟨"Made here.", .atStart⟩)
      [.keyword .comment, .identifier "Origin", .keyword .about, .identifier "Car", .comment " Made here. "] :=
    Written.comment (by decide +kernel)
  have units : Written (.importing ⟨.simple "Units", .atStart⟩)
      [.keyword .importing, .identifier "Units", .mark .doubleColon, .mark .star, .mark .semicolon] :=
    Written.importingAll
  exact .cons (Written.package (.braces (.cons color (.cons car (.cons origin (.cons units .nil)))))) .nil

theorem ofTokens_fleet : AllWellFormed false fleet ∧
    WrittenAll fleet ((fleetTokens.map fun token => (⟨token, .atStart⟩ : Spanned Token)).map (·.value)) ∧
    ∃ found, ofTokens (fleetTokens.map (⟨·, .atStart⟩)) = .ok found ∧ unplacedAll found = unplacedAll fleet := by
  have written : WrittenAll fleet ((fleetTokens.map fun token => (⟨token, .atStart⟩ : Spanned Token)).map (·.value)) := by
    rw [List.map_map]
    exact (List.map_id fleetTokens).symm ▸ fleet_written
  exact ⟨fleet_wellFormed, written, ofTokens_written fleet_wellFormed written⟩

end Declaration
end StructuralModel
