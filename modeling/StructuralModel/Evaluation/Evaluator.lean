import StructuralModel.Evaluation.Builtin
import StructuralModel.Evaluation.Environment
import StructuralModel.Evaluation.Instances
import StructuralModel.Evaluation.Operators
import StructuralModel.Model.Lookup

/-! Evaluation of expressions in a scope. Every name is looked up from the scope, and every feature
that it reaches is first resolved there, so that the redefinitions of the scope take effect. -/

namespace StructuralModel

structure Frame where
  scope : ElementId
  /-- The feature that the expression belongs to, if any. -/
  origin? : Option ElementId

/-- A feature with the scope it is evaluated in. -/
abbrev Access := ElementId × ElementId

namespace Model

/-- The feature that a simple name denotes. It is bound where the expression is declared, so a
feature of the same name further down the scope's chain is never picked up instead; only without a
match there the scope's own closure is searched. -/
def boundFeature? (m : Model) (frame : Frame) (name : String) : Option ElementId :=
  ((frame.origin?.bind m.owner?).bind fun owner => m.feature? owner name) <|>
    m.feature? frame.scope name

/-- The element that a name denotes: a feature, or else what the name stands for lexically, seen
from the scope and then from the expression. -/
def lookup? (m : Model) (frame : Frame) (path : Path) : Option ElementId :=
  (if path.isSimple then m.boundFeature? frame path.first else none) <|>
    m.resolvePath? (some frame.scope) path.segments <|>
    frame.origin?.bind fun origin => m.resolvePath? (some origin) path.segments

def lookup (m : Model) (frame : Frame) (path : Path) : Evaluated ElementId :=
  match m.lookup? frame path with
  | some target => .ok target
  | none => .error (.unresolvedReference path.text (m.path frame.scope))

/-- Whether an element is owned by the scope or by something it specializes. -/
def isInherited (m : Model) (target scope : ElementId) : Bool :=
  (m.owner? target).any fun owner => m.specializes scope owner

def resolved (m : Model) (feature scope : ElementId) : Evaluated ElementId :=
  (m.resolve feature scope).mapError .resolution

/-- The value of a referenced element as seen from a scope, given the values of features. A feature
outside the scope's closure is evaluated in its owner. -/
def elementValue (m : Model) (featureValue : ElementId → ElementId → Evaluated Value)
    (target scope : ElementId) : Evaluated Value :=
  match m.kind target with
  | .feature =>
    if m.isInherited target scope then featureValue target scope
    else featureValue target ((m.owner? target).getD target)
  | .partUsage => do
    let part ← if m.isInherited target scope then m.resolved target scope else pure target
    return .composite part scope
  | .partDefinition | .attributeDefinition | .enumerationDefinition => .ok (.composite target scope)
  | .enumerationLiteral => .ok (.literal target ((m.name? target).getD (m.path target)))
  | kind => .error (.notAValue (m.path target) kind)

def typeArgument (m : Model) (frame : Frame) (function : String) : Expr → Evaluated ElementId
  | .reference path => do
    let type ← m.lookup frame path
    let kind := m.kind type
    if kind.isDefinition || kind == .partUsage then return type
    throw (.invalidArgument function (.notAType path.text kind))
  | argument => .error (.invalidArgument function (.notATypeName argument.text))

def featureArgument (function : String) (argument : Expr) : Evaluated String :=
  match argument with
  | .reference ⟨name, []⟩ => .ok name
  | _ => .error (.invalidArgument function (.notAFeatureName argument.text))

/-- The sum of the weights. Without instances it is the negative zero, which is neutral in sums. -/
def totalWeight (found : List Instance) : Float :=
  found.foldl (fun total next => total + next.weight) (-0.0)

def countInstances (m : Model) (frame : Frame) (function : String) :
    List Expr → Evaluated Value
  | [typeName] => do
    let type ← m.typeArgument frame function typeName
    return .scalar (totalWeight (m.instances type frame.scope))
  | arguments => .error (.arityMismatch function 1 arguments.length)

/-- A value multiplied by the number of instances that have it. -/
def weighted (value : Value) (weight : Float) (table : ConversionTable) : Evaluated Value :=
  if weight == 1 then .ok value else Operators.binary .mul value (.scalar weight) table

/-- Takes the value of one more instance into the result. -/
def Aggregate.combine (kind : Aggregate) (table : ConversionTable) (result? : Option Value)
    (value : Value) (weight : Float) : Evaluated Value :=
  match kind, result? with
  | .sum, none | .avg, none => weighted value weight table
  | .sum, some total | .avg, some total => do
    Operators.binary .add total (← weighted value weight table) table
  | .min, none | .max, none => .ok value
  | .min, some best => do
    return if (← Operators.order .lt value best table) = some .lt then value else best
  | .max, some best => do
    return if (← Operators.order .lt value best table) = some .gt then value else best

def valueInPart (m : Model) (featureValue : ElementId → ElementId → Evaluated Value)
    (function feature : String) (part : ElementId) : Evaluated Value :=
  match m.feature? part feature with
  | some target => m.elementValue featureValue target part
  | none => .error (.invalidArgument function (.noFeature (m.path part) feature))

/-- The result over all instances, none if there are no instances. -/
def aggregateOver (m : Model) (table : ConversionTable)
    (featureValue : ElementId → ElementId → Evaluated Value) (kind : Aggregate)
    (function feature : String) (found : List Instance) : Evaluated (Option Value) :=
  found.foldlM (fun result? next => do
    let value ← m.valueInPart featureValue function feature next.part
    return some (← Aggregate.combine kind table result? value next.weight)) none

def aggregate (m : Model) (table : ConversionTable)
    (featureValue : ElementId → ElementId → Evaluated Value) (frame : Frame) (kind : Aggregate) :
    List Expr → Evaluated Value
  | [typeName, featureName] => do
    let function := (Builtin.aggregate kind).name
    let type ← m.typeArgument frame function typeName
    let feature ← featureArgument function featureName
    let found := m.instances type frame.scope
    match ← m.aggregateOver table featureValue kind function feature found, kind with
    | none, .sum => return .scalar 0
    | none, _ =>
      throw (.invalidArgument function (.noParts (m.path type) (m.path frame.scope)))
    | some total, .avg => Operators.binary .div total (.scalar (totalWeight found)) table
    | some result, _ => return result
  | arguments => .error (.arityMismatch (Builtin.aggregate kind).name 2 arguments.length)

def applyNumeric (function : NumericFunction) : Value → Evaluated Value
  | .scalar x => .ok (.scalar (function.apply x))
  | .quantity x unit => .ok (.quantity (function.apply x) unit)
  | value => .error (.invalidArgument (Builtin.numeric function).name (.notANumber value.kindName))

def sqrtValue (value : Value) : Evaluated Value :=
  match value.number? with
  | none => .error (.invalidArgument Builtin.sqrt.name (.notANumber value.kindName))
  | some x =>
    if x < 0 then .error (.invalidArgument Builtin.sqrt.name (.negative value.printed))
    else
      match value with
      | .quantity _ unit =>
        match unit.sqrt? with
        | some root => .ok (.measured x.sqrt root)
        | none => .error (.invalidArgument Builtin.sqrt.name (.noSquareRoot unit))
      | _ => .ok (.scalar x.sqrt)

/-- The value of an expression, given the values of features. -/
def evaluateWith (m : Model) (env : Environment)
    (featureValue : ElementId → ElementId → Evaluated Value) (frame : Frame) :
    Expr → Evaluated Value
  | .literal (.number x) => .ok (.scalar x)
  | .literal (.boolean b) => .ok (.boolean b)
  | .literal (.text s) => .ok (.text s)
  | .quantity x unit => .ok (if env.quantities then .measured x unit else .scalar x)
  | .reference path => do
    m.elementValue featureValue (← m.lookup frame path) frame.scope
  | .member target name => do
    match ← m.evaluateWith env featureValue frame target with
    | .composite element _ =>
      match m.feature? element name with
      | some feature => m.elementValue featureValue feature element
      | none => throw (.unresolvedReference name (m.path element))
    | value => throw (.invalidOperand ("." ++ name) value.kindName)
  | .unary op operand => do
    Operators.unary op (← m.evaluateWith env featureValue frame operand)
  | .binary op lhs rhs => do
    let left ← m.evaluateWith env featureValue frame lhs
    if Operators.decides op left then return left
    Operators.binary op left (← m.evaluateWith env featureValue frame rhs) env.conversions
  | .conditional condition whenTrue whenFalse => do
    match ← m.evaluateWith env featureValue frame condition with
    | .boolean true => m.evaluateWith env featureValue frame whenTrue
    | .boolean false => m.evaluateWith env featureValue frame whenFalse
    | value => throw (.invalidOperand "if" value.kindName)
  | .call function arguments =>
    match Builtin.ofName? function with
    | none => .error (.unknownFunction function)
    | some .count => m.countInstances frame function arguments
    | some .size => m.countInstances frame function arguments
    | some (.aggregate kind) => m.aggregate env.conversions featureValue frame kind arguments
    | some (.numeric numeric) =>
      match arguments with
      | [argument] => do applyNumeric numeric (← m.evaluateWith env featureValue frame argument)
      | _ => .error (.arityMismatch function 1 arguments.length)
    | some .sqrt =>
      match arguments with
      | [argument] => do sqrtValue (← m.evaluateWith env featureValue frame argument)
      | _ => .error (.arityMismatch function 1 arguments.length)

section call

variable {m : Model} {env : Environment} {featureValue : ElementId → ElementId → Evaluated Value}
  {frame : Frame} {function : String}

theorem evaluateWith_unknown (arguments : List Expr) (called : Builtin.ofName? function = none) :
    m.evaluateWith env featureValue frame (.call function arguments) = .error (.unknownFunction function) := by
  match arguments with
  | [] | [_] | _ :: _ :: _ => simp [evaluateWith, called]

theorem evaluateWith_count (arguments : List Expr)
    (called : Builtin.ofName? function = some .count ∨ Builtin.ofName? function = some .size) :
    m.evaluateWith env featureValue frame (.call function arguments) =
      m.countInstances frame function arguments := by
  match arguments with
  | [] | [_] | _ :: _ :: _ => rcases called with called | called <;> simp [evaluateWith, called]

theorem evaluateWith_aggregate {kind : Aggregate} (arguments : List Expr)
    (called : Builtin.ofName? function = some (.aggregate kind)) :
    m.evaluateWith env featureValue frame (.call function arguments) =
      m.aggregate env.conversions featureValue frame kind arguments := by
  match arguments with
  | [] | [_] | _ :: _ :: _ => simp [evaluateWith, called]

theorem evaluateWith_numeric {numeric : NumericFunction} (argument : Expr)
    (called : Builtin.ofName? function = some (.numeric numeric)) :
    m.evaluateWith env featureValue frame (.call function [argument]) =
      m.evaluateWith env featureValue frame argument >>= applyNumeric numeric := by
  simp [evaluateWith, called]

theorem evaluateWith_sqrt (argument : Expr) (called : Builtin.ofName? function = some .sqrt) :
    m.evaluateWith env featureValue frame (.call function [argument]) =
      m.evaluateWith env featureValue frame argument >>= sqrtValue := by
  simp [evaluateWith, called]

theorem length_ne_one {arguments : List Expr} (wrong : ∀ argument, arguments = [argument] → False) :
    arguments.length ≠ 1 :=
  fun one => (List.length_eq_one_iff.mp one).elim wrong

theorem evaluateWith_arity {arguments : List Expr}
    (called : (∃ numeric, Builtin.ofName? function = some (.numeric numeric)) ∨
      Builtin.ofName? function = some .sqrt)
    (wrong : arguments.length ≠ 1) :
    m.evaluateWith env featureValue frame (.call function arguments) =
      .error (.arityMismatch function 1 arguments.length) := by
  match arguments with
  | [_] => exact absurd rfl wrong
  | [] | _ :: _ :: _ => rcases called with ⟨numeric, called⟩ | called <;> simp [evaluateWith, called]

end call

/-- The feature that is evaluated for an access; a feature without an owner stands for itself. -/
def effective (m : Model) (feature scope : ElementId) : Evaluated ElementId :=
  match m.owner? feature with
  | some _ => m.resolved feature scope
  | none => .ok feature

/-- The value of a feature without an expression: a handle if there is something in it. -/
def unexpressedValue (m : Model) (feature scope : ElementId) : Value :=
  if (m.kind feature).isPart || m.hasNestedFeatures feature then .composite feature scope
  else .absent

/-- The value of a feature in a scope, while the accesses in `active` are under evaluation and
`room` more may be. An access that is already under evaluation depends on itself. -/
def featureValue (m : Model) (env : Environment) (room : Nat) (active : List Access)
    (feature scope : ElementId) : Evaluated Value := do
  let chosen ← m.effective feature scope
  if (chosen, scope) ∈ active then
    throw (.cyclicReference (m.path chosen) (m.path scope))
  match room with
  | 0 => throw (.depthLimitExceeded env.maxDepth)
  | room + 1 =>
    match m.value? chosen with
    | some expr =>
      m.evaluateWith env (m.featureValue env room ((chosen, scope) :: active)) ⟨scope, some chosen⟩ expr
    | none => return m.unexpressedValue chosen scope

def evaluate (m : Model) (env : Environment) (expr : Expr) (scope : ElementId) : Evaluated Value :=
  m.evaluateWith env (m.featureValue env env.maxDepth []) ⟨scope, none⟩ expr

def evaluateFeature (m : Model) (env : Environment) (feature scope : ElementId) : Evaluated Value :=
  if m.isFeature feature then m.featureValue env env.maxDepth [] feature scope
  else .error (.notAValue (m.path feature) (m.kind feature))

end Model
end StructuralModel
