import StructuralModel.Proofs.Extension

/-! Evaluation in a model that goes on where another ends. Features that both have are worth the same in scopes that
both have, as long as no expression in the shorter one writes a name that starts with that of a new root. -/

namespace StructuralModel

namespace Expr

mutual

/-- The names that are written in an expression, those of types and features in calls included. -/
def paths : Expr → List Path
  | quantity .. | literal _ => []
  | reference path => [path]
  | member target _ => target.paths
  | unary _ operand => operand.paths
  | binary _ lhs rhs => lhs.paths ++ rhs.paths
  | conditional condition whenTrue whenFalse => condition.paths ++ whenTrue.paths ++ whenFalse.paths
  | call _ arguments => listPaths arguments

def listPaths : List Expr → List Path
  | [] => []
  | expr :: rest => expr.paths ++ listPaths rest

end

/-- No name in the expression starts with one of the given ones. -/
def Avoids (names : List String) (expr : Expr) : Prop :=
  ∀ path ∈ expr.paths, path.first ∉ names

end Expr

/-- Units do not matter where all of them are admitted. -/
theorem ConversionTable.Closed.all (table : ConversionTable) : table.Closed fun _ => True :=
  ⟨fun _ _ _ _ => trivial, fun _ _ _ => trivial, fun _ _ _ => trivial⟩

theorem Expr.UnitsAmong.all (env : Environment) (expr : Expr) : expr.UnitsAmong env fun _ => True :=
  fun _ _ _ _ => trivial

/-- After the same outcome only what follows its own value has to be the same. -/
theorem bind_congr_ok {α β : Type} {outcome : Evaluated α} {next other : α → Evaluated β}
    (same : ∀ value, outcome = .ok value → next value = other value) : outcome >>= next = outcome >>= other := by
  cases outcome with
  | ok value => exact same value rfl
  | error error => rfl

theorem foldlM_congr {α β : Type} {next other : α → β → Evaluated α} (list : List β) (start : α)
    (same : ∀ total, ∀ item ∈ list, next total item = other total item) :
    list.foldlM next start = list.foldlM other start := by
  induction list generalizing start with
  | nil => rfl
  | cons item rest ih =>
    obtain ⟨here, others⟩ := List.forall_mem_cons.mp fun item member total => same total item member
    rw [List.foldlM_cons, List.foldlM_cons, here start]
    exact bind_congr fun total => ih total fun total item member => others item member total

namespace Model

/-- The frame's elements are elements of the model. -/
structure Holds (m : Model) (frame : Frame) : Prop where
  scope : (frame.scope : Nat) < m.size
  origin : ∀ origin : Nat, frame.origin? = some origin → origin < m.size

namespace Continues

variable {names : List String} {m other : Model} (continues : Continues names m other)

include continues

theorem isInherited {target scope : Nat} (known : target < m.size) (inside : scope < m.size) :
    other.isInherited target scope = m.isInherited target scope := by
  have same : (fun owner => other.specializes scope owner) = fun owner => m.specializes scope owner :=
    funext fun owner => continues.specializes inside owner
  rw [Model.isInherited, Model.isInherited, continues.owner known, same]

theorem resolved {target scope : Nat} (known : target < m.size) (inside : scope < m.size) :
    other.resolved target scope = m.resolved target scope := by
  rw [Model.resolved, Model.resolved, continues.resolve inside known]

theorem effective {feature scope : Nat} (known : feature < m.size) (inside : scope < m.size) :
    other.effective feature scope = m.effective feature scope := by
  rw [Model.effective, Model.effective, continues.owner known, continues.resolved known inside]

theorem conclude (kind : Aggregate) (table : ConversionTable) {type scope : Nat} (known : type < m.size)
    (inside : scope < m.size) (found : List Instance) (result? : Option Value) :
    kind.conclude other table type scope found result? = kind.conclude m table type scope found result? := by
  cases result? with
  | none => rw [Aggregate.conclude, Aggregate.conclude, continues.path known, continues.path inside]
  | some result => rfl

section frames

variable {frame : Frame}

theorem lt_of_lookup {path : Path} {target : Nat} (found : m.lookup frame path = .ok target) : target < m.size := by
  rw [Model.lookup] at found
  split at found
  next chosen looked =>
    obtain rfl := Except.ok.inj found
    rw [lookup?] at looked
    simp only [Option.orElse_eq_some] at looked
    rcases looked with bound | ⟨_, inner | ⟨_, outer⟩⟩
    · split at bound
      · rw [boundFeature?] at bound
        simp only [Option.orElse_eq_some] at bound
        rcases bound with declared | ⟨_, inherited⟩
        · obtain ⟨owner, _, feature⟩ := Option.bind_eq_some_iff.mp declared
          exact lt_of_feature feature
        · exact lt_of_feature inherited
      · cases bound
    · exact lt_of_resolvePath continues.rooted inner
    · obtain ⟨origin, _, resolved⟩ := Option.bind_eq_some_iff.mp outer
      exact lt_of_resolvePath continues.rooted resolved
  next => cases found

theorem lt_of_typeArgument {function : String} {argument : Expr} {type : Nat}
    (found : m.typeArgument frame function argument = .ok type) : type < m.size := by
  cases argument with
  | reference path =>
    rw [Model.typeArgument] at found
    cases looked : m.lookup frame path with
    | error error =>
      rw [looked] at found
      cases found
    | ok target =>
      rw [looked, ok_bind] at found
      dsimp only at found
      split at found
      · exact Except.ok.inj found ▸ continues.lt_of_lookup looked
      · cases found
  | _ => cases found

variable (holds : m.Holds frame)

include holds

theorem boundFeature (name : String) : other.boundFeature? frame name = m.boundFeature? frame name := by
  have owners : (frame.origin?.bind other.owner?) = frame.origin?.bind m.owner? := by
    cases origin : frame.origin? with
    | none => rfl
    | some id => exact continues.owner (holds.origin id origin)
  rw [boundFeature?, boundFeature?, owners, continues.feature? holds.scope]
  cases owned : frame.origin?.bind m.owner? with
  | none => rfl
  | some owner =>
    obtain ⟨origin, same, owned⟩ := Option.bind_eq_some_iff.mp owned
    have known : owner < m.size := Nat.lt_trans (owner_lt owned) (holds.origin origin same)
    rw [Option.bind_some, Option.bind_some, continues.feature? known]

theorem lookup {path : Path} (apart : path.first ∉ names) : other.lookup frame path = m.lookup frame path := by
  have inner : other.resolvePath? (some frame.scope) path.segments = m.resolvePath? (some frame.scope) path.segments :=
    continues.resolvePath (fun start same => Option.some.inj same ▸ holds.scope) apart
  have outer : (frame.origin?.bind fun origin => other.resolvePath? (some origin) path.segments) =
      frame.origin?.bind fun origin => m.resolvePath? (some origin) path.segments := by
    cases origin : frame.origin? with
    | none => rfl
    | some id => exact continues.resolvePath (fun start same => Option.some.inj same ▸ holds.origin id origin) apart
  have found : other.lookup? frame path = m.lookup? frame path := by
    rw [lookup?, lookup?, continues.boundFeature holds, inner, outer]
  rw [Model.lookup, Model.lookup, found, continues.path holds.scope]

theorem typeArgument (function : String) {argument : Expr} (apart : argument.Avoids names) :
    other.typeArgument frame function argument = m.typeArgument frame function argument := by
  cases argument with
  | reference path =>
    rw [Model.typeArgument, Model.typeArgument, continues.lookup holds (apart path (by simp [Expr.paths]))]
    refine bind_congr_ok fun type found => ?_
    rw [continues.kind (continues.lt_of_lookup found)]
  | _ => rfl

theorem countInstances (function : String) {arguments : List Expr}
    (apart : ∀ path ∈ Expr.listPaths arguments, path.first ∉ names) :
    other.countInstances frame function arguments = m.countInstances frame function arguments := by
  match arguments with
  | [typeName] =>
    rw [Model.countInstances, Model.countInstances,
      continues.typeArgument holds function fun path member => apart path (by simp [Expr.listPaths, member])]
    refine bind_congr fun type => ?_
    rw [continues.instances holds.scope]
  | [] | _ :: _ :: _ => rfl

end frames

section features

variable {env : Environment} {first second : ElementId → ElementId → Evaluated Value}
  (agree : ∀ feature scope : Nat, feature < m.size → scope < m.size → second feature scope = first feature scope)

include agree

theorem elementValue {target scope : Nat} (known : target < m.size) (inside : scope < m.size) :
    other.elementValue second target scope = m.elementValue first target scope := by
  have kind := continues.kind known
  cases same : m.kind target with
  | feature =>
    simp only [Model.elementValue, kind, same, continues.isInherited known inside, continues.owner known]
    split
    · exact agree target scope known inside
    · exact agree target _ known (lt_of_owner known)
  | partUsage =>
    simp only [Model.elementValue, kind, same, continues.isInherited known inside, continues.resolved known inside]
  | partDefinition | attributeDefinition | enumerationDefinition =>
    simp only [Model.elementValue, kind, same]
  | enumerationLiteral =>
    simp only [Model.elementValue, kind, same, continues.name known, continues.path known]
  | package | comment | documentation =>
    simp only [Model.elementValue, kind, same, continues.path known]

theorem valueInPart (function feature : String) {part : Nat} (known : part < m.size) :
    other.valueInPart second function feature part = m.valueInPart first function feature part := by
  rw [Model.valueInPart, Model.valueInPart, continues.feature? known, continues.path known]
  split
  next target found => exact continues.elementValue agree (lt_of_feature found) known
  next => rfl

variable {frame : Frame} (holds : m.Holds frame)

include holds

theorem aggregate (kind : Aggregate) {arguments : List Expr}
    (apart : ∀ path ∈ Expr.listPaths arguments, path.first ∉ names) :
    other.aggregate env.conversions second frame kind arguments =
      m.aggregate env.conversions first frame kind arguments := by
  match arguments with
  | [typeName, featureName] =>
    rw [aggregate_pair, aggregate_pair,
      continues.typeArgument holds _ fun path member => apart path (by simp [Expr.listPaths, member])]
    refine bind_congr_ok fun type found => bind_congr fun feature => ?_
    have known := continues.lt_of_typeArgument found
    rw [continues.instances holds.scope, aggregateOver, aggregateOver, foldlM_congr _ _ fun result? next member => by
      rw [continues.valueInPart agree _ _ (lt_of_mem_instancesBelow member)]]
    exact bind_congr fun result? => continues.conclude kind _ known holds.scope _ result?
  | [] | [_] | _ :: _ :: _ :: _ =>
    rw [aggregate_arity kind (by simp), aggregate_arity kind (by simp)]

/-- The models agree on an expression if they agree on features. Members are asked for of elements that both have. -/
theorem evaluateWith (handles : ∀ feature scope : Nat, feature < m.size →
      Confined (fun _ => True) (Value.Within m fun _ => True) (first feature scope))
    {expr : Expr} (apart : expr.Avoids names) :
    other.evaluateWith env second frame expr = m.evaluateWith env first frame expr := by
  induction expr using evaluateWith.induct with
  | case1 | case2 | case3 | case4 => simp only [Model.evaluateWith]
  | case5 path =>
    simp only [Model.evaluateWith]
    rw [continues.lookup holds (apart path (by simp [Expr.paths]))]
    exact bind_congr_ok fun target found => continues.elementValue agree (continues.lt_of_lookup found) holds.scope
  | case6 target name ih =>
    simp only [Model.evaluateWith]
    rw [ih apart]
    refine bind_congr_ok fun value evaluated => ?_
    cases value with
    | composite element origin =>
      have known : (element : Nat) < m.size :=
        (confined_evaluateWith (.all _) handles frame target (.all _ _)).value _ evaluated
      simp only [continues.feature? known, continues.path known]
      split
      next feature found => exact continues.elementValue agree (lt_of_feature found) known
      next => rfl
    | _ => rfl
  | case7 op operand ih =>
    simp only [Model.evaluateWith]
    rw [ih apart]
  | case8 op lhs rhs left right =>
    simp only [Model.evaluateWith]
    rw [left fun path member => apart path (by simp [Expr.paths, member]),
      right fun path member => apart path (by simp [Expr.paths, member])]
  | case9 condition whenTrue whenFalse test positive negative =>
    simp only [Model.evaluateWith]
    rw [test fun path member => apart path (by simp [Expr.paths, member]),
      positive fun path member => apart path (by simp [Expr.paths, member]),
      negative fun path member => apart path (by simp [Expr.paths, member])]
  | case10 function arguments called => rw [evaluateWith_unknown _ called, evaluateWith_unknown _ called]
  | case11 function arguments called =>
    rw [evaluateWith_count _ (.inl called), evaluateWith_count _ (.inl called)]
    exact continues.countInstances holds function apart
  | case12 function arguments called =>
    rw [evaluateWith_count _ (.inr called), evaluateWith_count _ (.inr called)]
    exact continues.countInstances holds function apart
  | case13 function arguments kind called =>
    rw [evaluateWith_aggregate _ called, evaluateWith_aggregate _ called]
    exact continues.aggregate agree holds kind apart
  | case14 function numeric called argument ih =>
    rw [evaluateWith_numeric _ called, evaluateWith_numeric _ called,
      ih fun path member => apart path (by simp [Expr.paths, Expr.listPaths, member])]
  | case16 function called argument ih =>
    rw [evaluateWith_sqrt _ called, evaluateWith_sqrt _ called,
      ih fun path member => apart path (by simp [Expr.paths, Expr.listPaths, member])]
  | case15 function numeric called arguments wrong =>
    rw [evaluateWith_arity (.inl ⟨numeric, called⟩) (length_ne_one wrong),
      evaluateWith_arity (.inl ⟨numeric, called⟩) (length_ne_one wrong)]
  | case17 function called arguments wrong =>
    rw [evaluateWith_arity (.inr called) (length_ne_one wrong), evaluateWith_arity (.inr called) (length_ne_one wrong)]

end features

variable (apart : ∀ id expr, m.value? id = some expr → expr.Avoids names)

include apart

theorem expressedValue {env : Environment} {first second : ElementId → ElementId → Evaluated Value}
    (agree : ∀ feature scope : Nat, feature < m.size → scope < m.size → second feature scope = first feature scope)
    (handles : ∀ feature scope : Nat, feature < m.size →
      Confined (fun _ => True) (Value.Within m fun _ => True) (first feature scope))
    {chosen scope : Nat} (known : chosen < m.size) (inside : scope < m.size) :
    other.expressedValue env second chosen scope = m.expressedValue env first chosen scope := by
  rw [Model.expressedValue, Model.expressedValue, continues.value known]
  cases valued : m.value? chosen with
  | some expr =>
    have holds : m.Holds ⟨scope, some chosen⟩ := ⟨inside, fun origin same => Option.some.inj same ▸ known⟩
    exact continues.evaluateWith agree holds handles (apart chosen expr valued)
  | none =>
    simp only [unexpressedValue, continues.kind known, continues.hasNestedFeatures known]

theorem featureValue (env : Environment) (room : Nat) (active : List Access) {feature scope : Nat} (known : feature < m.size)
    (inside : scope < m.size) :
    other.featureValue env room active feature scope = m.featureValue env room active feature scope := by
  induction room generalizing active feature scope with
  | zero =>
    rw [featureValue_eq, featureValue_eq, continues.effective known inside]
    refine bind_congr_ok fun chosen resolved => ?_
    rw [continues.path (lt_of_effective known resolved), continues.path inside]
  | succ room ih =>
    rw [featureValue_eq, featureValue_eq, continues.effective known inside]
    refine bind_congr_ok fun chosen resolved => ?_
    have found := lt_of_effective known resolved
    rw [continues.path found, continues.path inside]
    split
    · rfl
    · exact continues.expressedValue apart (fun feature scope known inside => ih _ known inside)
        (fun feature scope known => confined_featureValue (.all _) (fun _ _ _ => .all _ _) _ _ _ _ known) found inside

/-- A feature is worth the same in both models. -/
theorem evaluateFeature (env : Environment) {feature scope : Nat} (known : feature < m.size) (inside : scope < m.size) :
    other.evaluateFeature env feature scope = m.evaluateFeature env feature scope := by
  rw [Model.evaluateFeature, Model.evaluateFeature, continues.isFeature known, continues.featureValue apart env _ _ known inside,
    continues.path known, continues.kind known]

end Continues
end Model
end StructuralModel
