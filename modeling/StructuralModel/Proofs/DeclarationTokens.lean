import StructuralModel.Proofs.Blocks
import StructuralModel.Proofs.TokenReading
import StructuralModel.Source.DeclarationGrammar

/-! Declarations as tokens, in the order of the notation. Where the notation has several forms, such as a semicolon
and empty braces, each of them is one of the ways in which a declaration is written. -/

namespace StructuralModel

/-- What of a declaration its own place has to allow. -/
def UsageHeader.WellNamed (header : UsageHeader) : UsageKind → Prop
  | .part | .attribute => header.name?.isSome = true ∨ header.redefines?.isSome = true
  | .shorthand => header.name? = none ∧ header.redefines?.isSome = true

namespace Declaration

mutual

/-- Literals stand directly in enumerations only, and every usage has a name that it can be written with. -/
def WellFormed (inEnumeration : Bool) : Declaration → Prop
  | .package _ members => AllWellFormed false members
  | .definition kind _ _ members => AllWellFormed (kind = .enumeration) members
  | .usage kind header members => header.WellNamed kind ∧ AllWellFormed false members
  | .enumerationLiteral _ => inEnumeration = true
  | .comment _ _ _ | .documentation _ _ | .importing _ => True

def AllWellFormed (inEnumeration : Bool) : List Declaration → Prop
  | [] => True
  | declaration :: rest => declaration.WellFormed inEnumeration ∧ AllWellFormed inEnumeration rest

end

/-- Names after the token that announces them, and nothing if there are none. -/
def announced (token : Token) : List (Spanned Path) → List Token
  | [] => []
  | first :: more => token :: (first.value.tokens ++ more.flatMap fun next => [.mark .comma] ++ next.value.tokens)

/-- The keyword or the mark of a redefinition. -/
inductive RedefinitionToken : Token → Prop
  | keyword : RedefinitionToken (.keyword .redefines)
  | mark : RedefinitionToken (.mark .redefines)

inductive WrittenNames : Option (Spanned String) → Option (Spanned String) → List Token → Prop
  | neither : WrittenNames none none []
  | own {name} : WrittenNames (some name) none [.identifier name.value]
  | redefined {redefined token} (sign : RedefinitionToken token) :
      WrittenNames none (some redefined) [token, .identifier redefined.value]
  | both {name redefined token} (sign : RedefinitionToken token) :
      WrittenNames (some name) (some redefined) [.identifier name.value, token, .identifier redefined.value]

inductive WrittenMultiplicity : Option (Spanned Float) → List Token → Prop
  | none : WrittenMultiplicity none []
  | some {count} :
      WrittenMultiplicity (some count) [.mark .leftBracket, .number count.value, .mark .rightBracket]

/-- Tokens of which the grammar of expressions makes the value, where a body follows. -/
def WrittenExpression (value : Expr) (tokens : List Token) : Prop :=
  ∀ first more, first = .mark .semicolon ∨ first = .mark .leftBrace →
    Reader.Takes Reader.expression tokens (first :: more) (· = value)

inductive WrittenValue : Option (Spanned Expr) → List Token → Prop
  | none : WrittenValue none []
  | some {value tokens} (written : WrittenExpression value.value tokens) :
      WrittenValue (some value) (.mark .assign :: tokens)

/-- The names of a usage, its types, its multiplicity, what it subsets, and its value. -/
inductive WrittenHeader : UsageHeader → List Token → Prop
  | header {header names count value} (named : WrittenNames header.name? header.redefines? names)
      (counted : WrittenMultiplicity header.multiplicity? count) (valued : WrittenValue header.value? value) :
      WrittenHeader header (names ++ (announced (.mark .colon) header.types ++
        (count ++ (announced (.mark .specializes) header.subsets ++ value))))

def definitionKeyword : DefinitionKind → Token
  | .part => .keyword .part
  | .attribute => .keyword .attribute
  | .enumeration => .keyword .enumeration

def usageKeyword : UsageKind → List Token
  | .part => [.keyword .part]
  | .attribute => [.keyword .attribute]
  | .shorthand => []

def ownName : Option (Spanned String) → List Token
  | none => []
  | some name => [.identifier name.value]

def localeTokens : Option (Spanned String) → List Token
  | none => []
  | some locale => [.keyword .locale, .text locale.value]

mutual

inductive Written : Declaration → List Token → Prop
  | package {name members tokens} (body : WrittenBody members tokens) :
      Written (.package name members) (.keyword .package :: .identifier name.value :: tokens)
  | definition {kind name generals members tokens} (body : WrittenBody members tokens) :
      Written (.definition kind name generals members) (definitionKeyword kind :: .keyword .definition ::
        .identifier name.value :: (announced (.mark .specializes) generals ++ tokens))
  | usage {kind header members front tokens} (named : WrittenHeader header front) (body : WrittenBody members tokens) :
      Written (.usage kind header members) (usageKeyword kind ++ (front ++ tokens))
  | literal {name} : Written (.enumerationLiteral name) [.identifier name.value, .mark .semicolon]
  | keywordLiteral {name} :
      Written (.enumerationLiteral name) [.keyword .enumeration, .identifier name.value, .mark .semicolon]
  | comment {name? about body raw} (cleans : commentText raw = body.value) :
      Written (.comment name? about body)
        (.keyword .comment :: (ownName name? ++ (announced (.keyword .about) about ++ [.comment raw])))
  | bareComment {body raw} (cleans : commentText raw = body.value) : Written (.comment none [] body) [.comment raw]
  | documentation {locale? body raw} (cleans : commentText raw = body.value) :
      Written (.documentation locale? body) (.keyword .documentation :: (localeTokens locale? ++ [.comment raw]))
  | importing {name} : Written (.importing name) (.keyword .importing :: (name.value.tokens ++ [.mark .semicolon]))
  | importingAll {name} : Written (.importing name)
      (.keyword .importing :: (name.value.tokens ++ [.mark .doubleColon, .mark .star, .mark .semicolon]))

inductive WrittenBody : List Declaration → List Token → Prop
  | none : WrittenBody [] [.mark .semicolon]
  | braces {members tokens} (inside : WrittenAll members tokens) :
      WrittenBody members (.mark .leftBrace :: (tokens ++ [.mark .rightBrace]))

inductive WrittenAll : List Declaration → List Token → Prop
  | nil : WrittenAll [] []
  | cons {declaration rest first tokens} (head : Written declaration first) (tail : WrittenAll rest tokens) :
      WrittenAll (declaration :: rest) (first ++ tokens)

end

end Declaration
end StructuralModel
