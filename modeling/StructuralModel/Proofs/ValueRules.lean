import StructuralModel.Evaluation.Evaluator

/-! What expressions are worth, as rules. Nothing here counts how deep an evaluation is or remembers
what is under evaluation: what depends on itself has no derivation. -/

namespace StructuralModel

def Literal.worth : Literal → Value
  | .number x => .scalar x
  | .boolean b => .boolean b
  | .text s => .text s

/-- The result of an aggregate from what its instances came to. -/
def Aggregate.conclude (kind : Aggregate) (m : Model) (table : ConversionTable) (type scope : ElementId)
    (found : List Instance) : Option Value → Evaluated Value
  | none =>
    if kind = .sum then .ok (.scalar 0)
    else .error (.invalidArgument (Builtin.aggregate kind).name (.noParts (m.path type) (m.path scope)))
  | some total =>
    if kind = .avg then Operators.binary .div total (.scalar (Model.totalWeight found)) table else .ok total

namespace Model

section aggregate

variable {m : Model} {table : ConversionTable} {featureValue : ElementId → ElementId → Evaluated Value}
  {frame : Frame} (kind : Aggregate)

theorem aggregate_arity {arguments : List Expr} (wrong : arguments.length ≠ 2) :
    m.aggregate table featureValue frame kind arguments =
      .error (.arityMismatch (Builtin.aggregate kind).name 2 arguments.length) := by
  match arguments with
  | [_, _] => exact absurd rfl wrong
  | [] | [_] | _ :: _ :: _ :: _ => rfl

theorem aggregate_pair (typeName featureName : Expr) :
    m.aggregate table featureValue frame kind [typeName, featureName] =
      m.typeArgument frame (Builtin.aggregate kind).name typeName >>= fun type =>
        featureArgument (Builtin.aggregate kind).name featureName >>= fun feature =>
          m.aggregateOver table featureValue kind (Builtin.aggregate kind).name feature
              (m.instances type frame.scope) >>=
            kind.conclude m table type frame.scope (m.instances type frame.scope) := by
  rw [aggregate]
  refine bind_congr fun type => bind_congr fun feature => bind_congr fun result? => ?_
  cases result? <;> cases kind <;> rfl

end aggregate

mutual

/-- The outcome of an expression in a frame. -/
inductive Evaluates (m : Model) (env : Environment) : Frame → Expr → Evaluated Value → Prop
  | literal {frame} (value : Literal) :
      Evaluates m env frame (.literal value) (.ok value.worth)
  | quantity {frame} (x : Float) (unit : PhysicalUnit) :
      Evaluates m env frame (.quantity x unit) (.ok (if env.quantities then .measured x unit else .scalar x))
  | unresolved {frame path} (missing : m.lookup? frame path = none) :
      Evaluates m env frame (.reference path) (.error (.unresolvedReference path.text (m.path frame.scope)))
  | reference {frame path target outcome} (found : m.lookup? frame path = some target)
      (value : ElementYields m env target frame.scope outcome) : Evaluates m env frame (.reference path) outcome
  | memberFails {frame target name error} (failed : Evaluates m env frame target (.error error)) :
      Evaluates m env frame (.member target name) (.error error)
  | memberOfPlain {frame target name value} (evaluated : Evaluates m env frame target (.ok value))
      (plain : ∀ element origin, value ≠ .composite element origin) :
      Evaluates m env frame (.member target name) (.error (.invalidOperand ("." ++ name) value.kindName))
  | memberMissing {frame target name element origin}
      (opened : Evaluates m env frame target (.ok (.composite element origin)))
      (missing : m.feature? element name = none) :
      Evaluates m env frame (.member target name) (.error (.unresolvedReference name (m.path element)))
  | member {frame target name element origin feature outcome}
      (opened : Evaluates m env frame target (.ok (.composite element origin)))
      (found : m.feature? element name = some feature)
      (value : ElementYields m env feature element outcome) :
      Evaluates m env frame (.member target name) outcome
  | unary {frame op operand outcome} (evaluated : Evaluates m env frame operand outcome) :
      Evaluates m env frame (.unary op operand) (outcome >>= Operators.unary op)
  | leftFails {frame op lhs rhs error} (failed : Evaluates m env frame lhs (.error error)) :
      Evaluates m env frame (.binary op lhs rhs) (.error error)
  | decided {frame op lhs rhs left} (evaluated : Evaluates m env frame lhs (.ok left))
      (decides : Operators.decides op left = true) : Evaluates m env frame (.binary op lhs rhs) (.ok left)
  | binary {frame op lhs rhs left outcome} (evaluated : Evaluates m env frame lhs (.ok left))
      (undecided : Operators.decides op left = false) (second : Evaluates m env frame rhs outcome) :
      Evaluates m env frame (.binary op lhs rhs)
        (outcome >>= fun right => Operators.binary op left right env.conversions)
  | conditionFails {frame condition whenTrue whenFalse error}
      (failed : Evaluates m env frame condition (.error error)) :
      Evaluates m env frame (.conditional condition whenTrue whenFalse) (.error error)
  | conditionPlain {frame condition whenTrue whenFalse value}
      (evaluated : Evaluates m env frame condition (.ok value)) (plain : ∀ b, value ≠ .boolean b) :
      Evaluates m env frame (.conditional condition whenTrue whenFalse)
        (.error (.invalidOperand "if" value.kindName))
  | whenTrue {frame condition whenTrue whenFalse outcome}
      (holds : Evaluates m env frame condition (.ok (.boolean true)))
      (branch : Evaluates m env frame whenTrue outcome) :
      Evaluates m env frame (.conditional condition whenTrue whenFalse) outcome
  | whenFalse {frame condition whenTrue whenFalse outcome}
      (fails : Evaluates m env frame condition (.ok (.boolean false)))
      (branch : Evaluates m env frame whenFalse outcome) :
      Evaluates m env frame (.conditional condition whenTrue whenFalse) outcome
  | unknownFunction {frame function arguments} (unknown : Builtin.ofName? function = none) :
      Evaluates m env frame (.call function arguments) (.error (.unknownFunction function))
  | count {frame function} (arguments : List Expr)
      (called : Builtin.ofName? function = some .count ∨ Builtin.ofName? function = some .size) :
      Evaluates m env frame (.call function arguments) (m.countInstances frame function arguments)
  | numeric {frame function numeric argument outcome}
      (called : Builtin.ofName? function = some (.numeric numeric))
      (evaluated : Evaluates m env frame argument outcome) :
      Evaluates m env frame (.call function [argument]) (outcome >>= applyNumeric numeric)
  | sqrt {frame function argument outcome} (called : Builtin.ofName? function = some .sqrt)
      (evaluated : Evaluates m env frame argument outcome) :
      Evaluates m env frame (.call function [argument]) (outcome >>= sqrtValue)
  | arity {frame function arguments}
      (called : (∃ numeric, Builtin.ofName? function = some (.numeric numeric)) ∨
        Builtin.ofName? function = some .sqrt)
      (wrong : arguments.length ≠ 1) :
      Evaluates m env frame (.call function arguments) (.error (.arityMismatch function 1 arguments.length))
  | aggregateArity {frame function kind arguments}
      (called : Builtin.ofName? function = some (.aggregate kind)) (wrong : arguments.length ≠ 2) :
      Evaluates m env frame (.call function arguments)
        (.error (.arityMismatch (Builtin.aggregate kind).name 2 arguments.length))
  | aggregateType {frame function kind typeName featureName error}
      (called : Builtin.ofName? function = some (.aggregate kind))
      (failed : m.typeArgument frame (Builtin.aggregate kind).name typeName = .error error) :
      Evaluates m env frame (.call function [typeName, featureName]) (.error error)
  | aggregateFeature {frame function kind typeName featureName type error}
      (called : Builtin.ofName? function = some (.aggregate kind))
      (typed : m.typeArgument frame (Builtin.aggregate kind).name typeName = .ok type)
      (failed : featureArgument (Builtin.aggregate kind).name featureName = .error error) :
      Evaluates m env frame (.call function [typeName, featureName]) (.error error)
  | aggregate {frame function kind typeName featureName type feature outcome}
      (called : Builtin.ofName? function = some (.aggregate kind))
      (typed : m.typeArgument frame (Builtin.aggregate kind).name typeName = .ok type)
      (named : featureArgument (Builtin.aggregate kind).name featureName = .ok feature)
      (gathered : Gathers m env kind feature none (m.instances type frame.scope) outcome) :
      Evaluates m env frame (.call function [typeName, featureName])
        (outcome >>= kind.conclude m env.conversions type frame.scope (m.instances type frame.scope))

/-- The outcome of going on with an aggregate, from the result so far, over further instances. -/
inductive Gathers (m : Model) (env : Environment) :
    Aggregate → String → Option Value → List Instance → Evaluated (Option Value) → Prop
  | done {kind feature} (result? : Option Value) : Gathers m env kind feature result? [] (.ok result?)
  | missing {kind feature result? next rest} (none : m.feature? next.part feature = none) :
      Gathers m env kind feature result? (next :: rest)
        (.error (.invalidArgument (Builtin.aggregate kind).name (.noFeature (m.path next.part) feature)))
  | valueFails {kind feature result? next rest target error}
      (found : m.feature? next.part feature = some target)
      (failed : ElementYields m env target next.part (.error error)) :
      Gathers m env kind feature result? (next :: rest) (.error error)
  | combineFails {kind feature result? next rest target value error}
      (found : m.feature? next.part feature = some target)
      (evaluated : ElementYields m env target next.part (.ok value))
      (failed : Aggregate.combine kind env.conversions result? value next.weight = .error error) :
      Gathers m env kind feature result? (next :: rest) (.error error)
  | next {kind feature result? next rest target value result outcome}
      (found : m.feature? next.part feature = some target)
      (evaluated : ElementYields m env target next.part (.ok value))
      (combined : Aggregate.combine kind env.conversions result? value next.weight = .ok result)
      (further : Gathers m env kind feature (some result) rest outcome) :
      Gathers m env kind feature result? (next :: rest) outcome

/-- The outcome of a referenced element as seen from a scope. -/
inductive ElementYields (m : Model) (env : Environment) : ElementId → ElementId → Evaluated Value → Prop
  | inheritedFeature {target scope outcome} (kind : m.kind target = .feature)
      (inherited : m.isInherited target scope = true) (value : FeatureYields m env target scope outcome) :
      ElementYields m env target scope outcome
  | outsideFeature {target scope outcome} (kind : m.kind target = .feature)
      (outside : m.isInherited target scope = false)
      (value : FeatureYields m env target ((m.owner? target).getD target) outcome) :
      ElementYields m env target scope outcome
  | inheritedPart {target scope} (kind : m.kind target = .partUsage)
      (inherited : m.isInherited target scope = true) :
      ElementYields m env target scope ((m.resolved target scope).map fun part => .composite part scope)
  | outsidePart {target scope} (kind : m.kind target = .partUsage)
      (outside : m.isInherited target scope = false) :
      ElementYields m env target scope (.ok (.composite target scope))
  | definition {target scope} (kind : (m.kind target).isDefinition = true) :
      ElementYields m env target scope (.ok (.composite target scope))
  | literal {target scope} (kind : m.kind target = .enumerationLiteral) :
      ElementYields m env target scope (.ok (.literal target ((m.name? target).getD (m.path target))))
  | noValue {target scope} (kind : m.kind target = .package ∨ (m.kind target).annotates = true) :
      ElementYields m env target scope (.error (.notAValue (m.path target) (m.kind target)))

/-- The outcome of a feature in a scope: the outcome of the effective feature's expression there. -/
inductive FeatureYields (m : Model) (env : Environment) : ElementId → ElementId → Evaluated Value → Prop
  | unresolved {feature scope error} (failed : m.effective feature scope = .error error) :
      FeatureYields m env feature scope (.error error)
  | expressed {feature scope chosen expr outcome} (resolved : m.effective feature scope = .ok chosen)
      (expressed : m.value? chosen = some expr)
      (evaluated : Evaluates m env ⟨scope, some chosen⟩ expr outcome) :
      FeatureYields m env feature scope outcome
  | unexpressed {feature scope chosen} (resolved : m.effective feature scope = .ok chosen)
      (silent : m.value? chosen = none) :
      FeatureYields m env feature scope (.ok (m.unexpressedValue chosen scope))

end

end Model
end StructuralModel
