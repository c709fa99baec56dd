import StructuralModel.Evaluation.Evaluator

/-! Composite values opened for inspection. Opening one evaluates nothing; each of its features is
evaluated on request, with the composite's element as the scope. -/

namespace StructuralModel

structure Composite where
  element : ElementId
  /-- The scope in which the composite was reached. -/
  origin : ElementId
deriving Repr, DecidableEq

namespace Composite

def ofElement (element : ElementId) : Composite :=
  ⟨element, element⟩

def ofValue? : Value → Option Composite
  | .composite element origin => some ⟨element, origin⟩
  | _ => none

def declaredNames (m : Model) (c : Composite) : List String :=
  (m.ownedFeatures c.element).filterMap m.name?

/-- The names of all features visible in the element, each redefinition chain once. -/
def effectiveNames (m : Model) (c : Composite) : List String :=
  (m.visibleFeatures c.element).filterMap m.name?

def evaluate (m : Model) (env : Environment) (c : Composite) (name : String) : Evaluated Value :=
  match m.feature? c.element name with
  | some feature => m.evaluateFeature env feature c.element
  | none => .error (.unresolvedReference name (m.path c.element))

def evaluateAll (m : Model) (env : Environment) (c : Composite) : Evaluated (List (String × Value)) :=
  (c.effectiveNames m).mapM fun name => do return (name, ← c.evaluate m env name)

def nested? (m : Model) (env : Environment) (c : Composite) (name : String) :
    Evaluated (Option Composite) := do
  return ofValue? (← c.evaluate m env name)

end Composite
end StructuralModel
