import StructuralModel.Elaboration.LoadedModel
import StructuralModel.Proofs.Linking
import StructuralModel.Proofs.PlacedReading

/-! Where declarations and their elements stand. Everything that is read from tokens of a text stands in the text, so
what is wrong with the declarations is told at places in the text. -/

namespace StructuralModel

variable {source : String}

/-- All that is named in the declaration stands in the text. -/
inductive Declaration.Within (source : String) : Declaration → Prop
  | package {name members} (named : name.span.Within source) (inside : ∀ member ∈ members, Within source member) :
    Within source (.package name members)
  | definition {kind name generals members} (named : name.span.Within source)
      (listed : ∀ general ∈ generals, general.span.Within source)
      (inside : ∀ member ∈ members, Within source member) : Within source (.definition kind name generals members)
  | usage {kind header members} (placed : header.Within source) (inside : ∀ member ∈ members, Within source member) :
    Within source (.usage kind header members)
  | enumerationLiteral {name} (named : name.span.Within source) : Within source (.enumerationLiteral name)
  | comment {name? about body} (named : ∀ name ∈ name?, name.span.Within source)
      (targets : ∀ target ∈ about, target.span.Within source) (written : body.span.Within source) :
    Within source (.comment name? about body)
  | documentation {locale? body} (language : ∀ locale ∈ locale?, locale.span.Within source)
      (written : body.span.Within source) : Within source (.documentation locale? body)
  | importing {name} (named : name.span.Within source) : Within source (.importing name)

namespace Reader

variable {member : Reader Declaration}

/-- The reader makes declarations in the text. -/
abbrev Declares (source : String) (reader : Reader Declaration) : Prop :=
  Makes source (Declaration.Within source) reader

theorem makes_commentBody : Makes source (·.span.Within source) commentBody :=
  Makes.token.expecting _

section declarations

variable (declares : Declares source member)

include declares

theorem makes_body : Makes source (fun members => ∀ member ∈ members, Declaration.Within source member) (body member) :=
  ((((makes_mark .semicolon).map fun _ _ => nofun).either
    (((makes_mark .leftBrace).seqRight declares.many).seqLeft (makes_mark .rightBrace)))).expecting _

theorem declares_package : Declares source (package member) := by
  refine (makes_keyword .package).bind fun _ _ => Makes.committed ?_
  exact makes_identifier.bind fun name placed => (makes_body declares).map fun _ members => .package placed members

theorem declares_element (kind : DefinitionKind) : Declares source
    (match kind with
      | .enumeration => either enumerationLiteral member
      | .part | .attribute => member) := by
  match kind with
  | .part | .attribute => exact declares
  | .enumeration =>
    have literal : Declares source enumerationLiteral := (makes_keyword .enumeration).optional.bind fun _ _ =>
      (makes_identifier.seqLeft (makes_mark .semicolon)).map fun _ placed => .enumerationLiteral placed
    exact literal.either declares

theorem declares_definition (kind : DefinitionKind) : Declares source (definition member kind) := by
  refine makes_identifier.bind fun name placed => makes_specializations.bind fun generals listed => ?_
  exact (makes_body (declares_element declares kind)).map fun _ members => .definition placed listed members

theorem declares_usage (kind : UsageKind) : Declares source (usage member kind) :=
  makes_usageHeader.bind fun _ header => (makes_body declares).map fun _ members => .usage header members

theorem declares_definitionOrUsage : Declares source (definitionOrUsage member) := by
  refine Makes.token.bind fun leading _ => ?_
  obtain ⟨⟨kind, usageKind?⟩, span⟩ := leading
  refine Makes.committed ?_
  cases usageKind? with
  | none => exact (makes_keyword .definition).bind fun _ _ => declares_definition declares kind
  | some usageKind =>
    refine (makes_keyword .definition).optional.bind fun definition? _ => ?_
    cases definition? with
    | none => exact declares_usage declares usageKind
    | some _ => exact declares_definition declares kind

theorem declares_shorthand : Declares source (shorthand member) :=
  stays_redefinition.ahead.seqRight (declares_usage declares .shorthand).committed

end declarations

theorem declares_comment : Declares source comment := by
  refine (makes_keyword .comment).bind fun _ _ => Makes.committed ?_
  refine makes_identifier.optional.bind fun name? name => ?_
  refine ((makes_keyword .about).seqRight makes_qualifiedNames).optional.bind fun about? about => ?_
  exact makes_commentBody.map fun _ body => .comment name (all_getD about) body

theorem declares_bareComment : Declares source bareComment :=
  makes_commentBody.map fun _ body => .comment nofun nofun body

theorem declares_documentation : Declares source documentation := by
  refine (makes_keyword .documentation).bind fun _ _ => Makes.committed ?_
  refine ((makes_keyword .locale).seqRight makes_text).optional.bind fun locale? locale => ?_
  exact makes_commentBody.map fun _ body => .documentation locale body

theorem declares_importing : Declares source importing := by
  refine (makes_keyword .importing).bind fun _ _ => Makes.committed ?_
  refine makes_qualifiedName.bind fun name placed => ?_
  refine ((makes_mark .doubleColon).seqRight (makes_mark .star)).optional.bind fun _ _ => ?_
  exact (makes_mark .semicolon).bind fun _ _ => .pure (.importing placed)

theorem declares_within (depth : Nat) : Declares source (declarationWithin depth) := by
  induction depth with
  | zero =>
    rw [declarationWithin]
    exact .fail
  | succ depth ih =>
    have visible : Stays source visibility := Makes.token.map fun _ _ => trivial
    rw [declarationWithin]
    exact ((declares_package ih).either <| (declares_definitionOrUsage ih).either <| (declares_shorthand ih).either <|
      declares_comment.either <| declares_documentation.either <| declares_bareComment.either <|
        declares_importing.either <| visible.seqRight ih).expecting _

theorem makes_document : Makes source (fun found => ∀ declaration ∈ found, Declaration.Within source declaration)
    document := by
  have each : Declares source declaration := fun tokens placed => declares_within _ tokens placed
  refine each.many.bind fun declarations within tokens placed => ?_
  cases tokens with
  | nil => exact .ok within placed
  | cons first rest => exact .error (((SyntaxError.within_stopped placed).expected .declaration).commit placed)

end Reader

namespace Declaration

/-- The declarations of tokens in a text, or what is wrong with these. -/
theorem within_ofTokens {tokens : Tokens} (placed : ∀ token ∈ tokens, token.span.Within source) :
    (∀ declarations, ofTokens tokens = .ok declarations → ∀ declaration ∈ declarations, declaration.Within source) ∧
      ∀ diagnostic, ofTokens tokens = .error diagnostic → diagnostic.code? = some .unexpectedToken ∧
        ∀ label ∈ diagnostic.labels, label.span.Within source := by
  have read := Reader.makes_document tokens placed
  rw [ofTokens]
  generalize Reader.document tokens = result at read
  cases read with
  | ok holds rest => exact ⟨by rintro _ ⟨⟩; exact holds, nofun⟩
  | error within => exact ⟨nofun, by rintro _ ⟨⟩; exact ⟨rfl, SyntaxError.within_diagnostic within placed⟩⟩

end Declaration

/-- The problem is told at places in the text. -/
def DeclarationProblem.Within (problem : DeclarationProblem) (source : String) : Prop :=
  ∀ label ∈ problem.labels, label.span.Within source

namespace Draft
open Model

/-- All that was declared so far stands in the text. -/
structure Within (d : Draft) (source : String) : Prop where
  spans : ∀ span ∈ d.spans, span.Within source
  problems : ∀ problem ∈ d.problems, problem.Within source
  generals : ∀ general ∈ d.generals, general.name.span.Within source
  redefinitions : ∀ redefinition ∈ d.redefinitions, redefinition.name.span.Within source
  abouts : ∀ target ∈ d.abouts, target.name.span.Within source

variable {d : Draft}

namespace Within

theorem spanOf (within : d.Within source) (id : ElementId) : (d.spanOf id).Within source := by
  rw [Draft.spanOf, Array.getD_eq_getD_getElem?]
  cases found : d.spans[id]? with
  | none => exact Span.within_atStart
  | some span => exact within.spans span (Array.mem_of_getElem? found)

theorem empty : Draft.empty.Within source :=
  ⟨by simp [Draft.empty], nofun, nofun, nofun, nofun⟩

theorem report {problem : DeclarationProblem} (within : d.Within source) (placed : problem.Within source) :
    (d.report problem).Within source :=
  ⟨within.spans, List.forall_mem_append.mpr ⟨within.problems, List.forall_mem_singleton.mpr placed⟩, within.generals,
    within.redefinitions, within.abouts⟩

theorem edit (within : d.Within source) (f : Model → Model) : (d.edit f).Within source :=
  ⟨within.spans, within.problems, within.generals, within.redefinitions, within.abouts⟩

theorem add {span : Span} (within : d.Within source) (placed : span.Within source) (owner? : Option ElementId)
    (kind : ElementKind) (name? : Option String) : (d.add owner? kind name? span).Within source := by
  refine ⟨fun other member => ?_, within.problems, within.generals, within.redefinitions, within.abouts⟩
  rcases Array.mem_push.mp member with earlier | rfl
  · exact within.spans other earlier
  · exact placed

theorem addNamed {name : Spanned String} {content : Draft → ElementId → Draft} (within : d.Within source)
    (placed : name.span.Within source) (owner? : Option ElementId) (kind : ElementKind)
    (filled : ∀ (added : Draft) id, added.Within source → (content added id).Within source) :
    (d.addNamed owner? kind name content).Within source := by
  rw [Draft.addNamed]
  split
  next problem taken =>
    obtain ⟨first, _, rfl⟩ := Option.map_eq_some_iff.mp taken
    exact within.report (List.forall_mem_cons.mpr ⟨placed, List.forall_mem_singleton.mpr (within.spanOf first)⟩)
  next => exact filled _ _ (within.add placed owner? kind (some name.value))

theorem addGenerals {names : List (Spanned Path)} (within : d.Within source)
    (placed : ∀ name ∈ names, name.span.Within source) (id : ElementId) : (d.addGenerals id names).Within source :=
  ⟨within.spans, within.problems, List.forall_mem_append.mpr ⟨within.generals, List.forall_mem_map.mpr placed⟩,
    within.redefinitions, within.abouts⟩

theorem addComment {about : List (Spanned Path)} (within : d.Within source)
    (placed : ∀ target ∈ about, target.span.Within source) (id : ElementId) (body : Spanned String) :
    (d.addComment id about body).Within source :=
  ⟨within.spans, within.problems, within.generals, within.redefinitions,
    List.forall_mem_append.mpr ⟨within.abouts, List.forall_mem_map.mpr placed⟩⟩

theorem setMultiplicity {count? : Option (Spanned Float)} (within : d.Within source)
    (placed : ∀ count ∈ count?, count.span.Within source) (id : ElementId) :
    (d.setMultiplicity id count?).Within source := by
  cases count? with
  | none => exact within
  | some count =>
    rw [Draft.setMultiplicity]
    split
    · exact within.edit _
    · exact within.report (List.forall_mem_singleton.mpr (placed count rfl))

theorem setValue (within : d.Within source) (id : ElementId) (value? : Option (Spanned Expr)) :
    (d.setValue id value?).Within source := by
  cases value? with
  | none => exact within
  | some value => exact within.edit (·.setValue id value.value)

theorem setLocale (within : d.Within source) (id : ElementId) (locale? : Option (Spanned String)) :
    (d.setLocale id locale?).Within source := by
  cases locale? with
  | none => exact within
  | some locale => exact within.edit (·.setLocale id locale.value)

theorem addRedefinition {name? : Option (Spanned String)} (within : d.Within source)
    (placed : ∀ name ∈ name?, name.span.Within source) (id : ElementId) (kind : UsageKind) :
    (d.addRedefinition id kind name?).Within source := by
  cases name? with
  | none => exact within
  | some name =>
    exact ⟨within.spans, within.problems, within.generals,
      List.forall_mem_append.mpr ⟨within.redefinitions, List.forall_mem_singleton.mpr (placed name rfl)⟩, within.abouts⟩

theorem addHeader {header : UsageHeader} (within : d.Within source) (placed : header.Within source) (id : ElementId)
    (kind : UsageKind) : (d.addHeader id kind header).Within source :=
  (((within.setMultiplicity placed.multiplicity? id).setValue id header.value?).addGenerals
    (List.forall_mem_append.mpr ⟨placed.types, placed.subsets⟩) id).addRedefinition placed.redefines? id kind

/-- What each member keeps, all of them keep. -/
theorem declareAll {members : List Declaration} (owner? : Option ElementId)
    (each : ∀ member ∈ members, ∀ d : Draft, d.Within source → (d.declare owner? member).Within source) :
    ∀ {d : Draft}, d.Within source → (d.declareAll owner? members).Within source := by
  induction members with
  | nil => exact fun within => within
  | cons member rest ih =>
    obtain ⟨first, others⟩ := List.forall_mem_cons.mp each
    intro d within
    rw [Draft.declareAll]
    exact ih others (first d within)

theorem declare {declaration : Declaration} (placed : declaration.Within source) :
    ∀ (owner? : Option ElementId) (d : Draft), d.Within source → (d.declare owner? declaration).Within source := by
  induction placed with
  | package name _ ih =>
    intro owner? d within
    rw [Draft.declare]
    exact within.addNamed name owner? .package fun added id filled =>
      filled.declareAll (some id) fun member among => ih member among (some id)
  | @definition kind _ _ _ name generals _ ih =>
    intro owner? d within
    rw [Draft.declare]
    exact within.addNamed name owner? kind.elementKind fun added id filled =>
      (filled.addGenerals generals id).declareAll (some id) fun member among => ih member among (some id)
  | @usage kind header _ placed _ ih =>
    intro owner? d within
    rw [Draft.declare]
    split
    · exact within
    next name declared =>
      have named : name.span.Within source := by
        rw [UsageHeader.declaredName?] at declared
        cases own : header.name? with
        | none =>
          rw [own] at declared
          exact placed.redefines? name declared
        | some first =>
          rw [own] at declared
          exact placed.name? name (own.trans declared)
      exact within.addNamed named owner? kind.elementKind fun added id filled =>
        (filled.addHeader placed id kind).declareAll (some id) fun member among => ih member among (some id)
  | enumerationLiteral name =>
    intro owner? d within
    rw [Draft.declare]
    exact within.addNamed name owner? .enumerationLiteral fun _ _ filled => filled
  | @comment name? _ body name about place =>
    intro owner? d within
    cases name? with
    | none =>
      rw [Draft.declare]
      exact (within.add place owner? .comment none).addComment about _ body
    | some own =>
      rw [Draft.declare]
      exact within.addNamed (name own rfl) owner? .comment fun _ id filled => filled.addComment about id body
  | documentation _ place =>
    intro owner? d within
    rw [Draft.declare]
    exact ((within.add place owner? .documentation none).edit _).setLocale _ _
  | importing =>
    intro owner? d within
    rw [Draft.declare]
    exact within

theorem ofDeclarations {declarations : List Declaration}
    (placed : ∀ declaration ∈ declarations, declaration.Within source) : (ofDeclarations declarations).Within source :=
  empty.declareAll none fun declaration member => declare (placed declaration member) none

end Within

/-! Problems with names and edges are told where these names and the elements are declared. -/

theorem within_linked (within : d.Within source) : ∀ problem ∈ d.linked.2, problem.Within source := by
  have generals : ∀ m, ∀ general ∈ d.generals, ∀ problem, d.linkGeneral m general = .error problem →
      problem.Within source := by
    intro m general member problem failed
    have place := within.generals general member
    rw [linkGeneral] at failed
    split at failed
    · split at failed <;> cases failed
      exact List.forall_mem_cons.mpr ⟨place, List.forall_mem_singleton.mpr (within.spanOf _)⟩
    · split at failed <;> cases failed
      exact List.forall_mem_singleton.mpr place
  have redefinitions : ∀ m, ∀ redefinition ∈ d.redefinitions, ∀ problem,
      d.linkRedefinition m redefinition = .error problem → problem.Within source := by
    intro m redefinition member problem failed
    have place := within.redefinitions redefinition member
    simp only [linkRedefinition] at failed
    split at failed
    · cases failed
    · split at failed <;> cases failed
      · exact List.forall_mem_cons.mpr ⟨place, List.forall_mem_singleton.mpr (within.spanOf _)⟩
      · exact List.forall_mem_singleton.mpr place
  have abouts : ∀ m, ∀ target ∈ d.abouts, ∀ problem, linkAbout m target = .error problem → problem.Within source := by
    intro m target member problem failed
    rw [linkAbout] at failed
    split at failed <;> cases failed
    exact List.forall_mem_singleton.mpr (within.abouts target member)
  intro problem member
  simp only [linked, List.mem_append] at member
  rcases member with (member | member) | member
  · exact linkAll_problems generals _ problem member
  · exact linkAll_problems redefinitions _ problem member
  · exact linkAll_problems abouts _ problem member

theorem within_edgeProblems (within : d.Within source) (m : Model) :
    ∀ problem ∈ d.edgeProblems m, problem.Within source := by
  intro problem member
  rw [edgeProblems] at member
  split at member
  · obtain ⟨id, _, found⟩ := List.mem_filterMap.mp member
    rw [shadowing?] at found
    split at found
    · obtain ⟨name, _, found⟩ := Option.bind_eq_some_iff.mp found
      obtain ⟨owner, _, found⟩ := Option.bind_eq_some_iff.mp found
      obtain ⟨hidden, _, found⟩ := Option.bind_eq_some_iff.mp found
      obtain rfl := Option.some.inj found
      exact List.forall_mem_cons.mpr ⟨within.spanOf id, List.forall_mem_singleton.mpr (within.spanOf hidden)⟩
    · cases found
  · obtain ⟨cycle, _, found⟩ := List.mem_filterMap.mp member
    cases cycle with
    | nil => cases found
    | cons first more =>
      obtain rfl := Option.some.inj found
      refine List.forall_mem_cons.mpr ⟨within.spanOf first, ?_⟩
      simp only [List.map_map, List.forall_mem_map]
      exact fun id _ => within.spanOf id

end Draft
end StructuralModel
