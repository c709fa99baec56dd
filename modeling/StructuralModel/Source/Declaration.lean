import StructuralModel.Expr.Basic
import StructuralModel.Source.Span

/-! Declarations as they are written, with names still unresolved. -/

namespace StructuralModel

inductive DefinitionKind
  | part
  | attribute
  | enumeration
deriving Repr, DecidableEq

inductive UsageKind
  | part
  | attribute
  /-- Without a keyword, as in `:>> mass = 5;`: the kind is that of the redefined feature. -/
  | shorthand
deriving Repr, DecidableEq

/-- What stands between the keyword of a usage and its body. -/
structure UsageHeader where
  name? : Option (Spanned String)
  redefines? : Option (Spanned String)
  types : List (Spanned Path)
  multiplicity? : Option (Spanned Float)
  subsets : List (Spanned Path)
  value? : Option (Spanned Expr)

inductive Declaration
  | package (name : Spanned String) (members : List Declaration)
  | definition (kind : DefinitionKind) (name : Spanned String) (generals : List (Spanned Path))
      (members : List Declaration)
  | usage (kind : UsageKind) (header : UsageHeader) (members : List Declaration)
  | enumerationLiteral (name : Spanned String)
  | comment (name? : Option (Spanned String)) (about : List (Spanned Path)) (body : Spanned String)
  | documentation (locale? : Option (Spanned String)) (body : Spanned String)
  /-- Imports are accepted and change nothing: all names are reachable without them. -/
  | importing (name : Spanned Path)

instance : Inhabited Declaration := ⟨.importing ⟨.simple "", .atStart⟩⟩

end StructuralModel
