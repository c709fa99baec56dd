import StructuralModel.Proofs.OwnErrors

/-! Evaluation follows the rules, as long as the outcomes that it takes for features follow them and
no guard interferes. In return, what the rules derive is found by evaluating deep enough. -/

namespace StructuralModel.Model

variable {m : Model} {env : Environment}

/-- The result of an aggregate after further instances. -/
def gathered (m : Model) (env : Environment) (featureValue : ElementId → ElementId → Evaluated Value)
    (kind : Aggregate) (feature : String) (result? : Option Value) (found : List Instance) :
    Evaluated (Option Value) :=
  found.foldlM (fun result? next => do
    let value ← m.valueInPart featureValue (Builtin.aggregate kind).name feature next.part
    return some (← Aggregate.combine kind env.conversions result? value next.weight)) result?

theorem gathered_cons {featureValue : ElementId → ElementId → Evaluated Value} (kind : Aggregate)
    (feature : String) (result? : Option Value) (next : Instance) (rest : List Instance) :
    m.gathered env featureValue kind feature result? (next :: rest) =
      m.valueInPart featureValue (Builtin.aggregate kind).name feature next.part >>= fun value =>
        Aggregate.combine kind env.conversions result? value next.weight >>= fun result =>
          m.gathered env featureValue kind feature (some result) rest := by
  simp only [gathered, List.foldlM_cons, bind_assoc, pure_bind]

section soundness

variable {featureValue : ElementId → ElementId → Evaluated Value}
  (yields : ∀ feature scope, Settled (featureValue feature scope) →
    FeatureYields m env feature scope (featureValue feature scope))

include yields

theorem elementYields_elementValue (target scope : ElementId)
    (settled : Settled (m.elementValue featureValue target scope)) :
    ElementYields m env target scope (m.elementValue featureValue target scope) := by
  cases kind : m.kind target with
  | feature =>
    simp only [elementValue, kind] at settled ⊢
    cases inherited : m.isInherited target scope with
    | true => exact .inheritedFeature kind inherited (yields _ _ (by simpa [inherited] using settled))
    | false => exact .outsideFeature kind inherited (yields _ _ (by simpa [inherited] using settled))
  | partUsage =>
    simp only [elementValue, kind]
    cases inherited : m.isInherited target scope with
    | true => exact .inheritedPart kind inherited
    | false => exact .outsidePart kind inherited
  | partDefinition | attributeDefinition | enumerationDefinition =>
    simp only [elementValue, kind]
    exact .definition (by rw [kind]; rfl)
  | enumerationLiteral =>
    simp only [elementValue, kind]
    exact .literal kind
  | package =>
    simp only [elementValue, kind]
    exact kind ▸ .noValue (.inl kind)
  | comment | documentation =>
    simp only [elementValue, kind]
    exact kind ▸ .noValue (.inr (by rw [kind]; rfl))

theorem gathers_gathered (kind : Aggregate) (feature : String) (found : List Instance)
    (result? : Option Value) (settled : Settled (m.gathered env featureValue kind feature result? found)) :
    Gathers m env kind feature result? found (m.gathered env featureValue kind feature result? found) := by
  induction found generalizing result? with
  | nil => exact .done result?
  | cons next rest ih =>
    rw [gathered_cons] at settled ⊢
    cases target? : m.feature? next.part feature with
    | none =>
      simp only [valueInPart, target?, error_bind]
      exact .missing target?
    | some target =>
      simp only [valueInPart, target?] at settled ⊢
      have value := elementYields_elementValue yields target next.part settled.of_bind
      cases evaluated : m.elementValue featureValue target next.part with
      | error error =>
        rw [evaluated] at value
        exact .valueFails target? value
      | ok part =>
        rw [evaluated] at value
        simp only [evaluated, ok_bind] at settled ⊢
        cases combined : Aggregate.combine kind env.conversions result? part next.weight with
        | error error => exact .combineFails target? value combined
        | ok result =>
          simp only [combined, ok_bind] at settled
          exact .next target? value combined (ih (some result) settled)

theorem evaluates_aggregate {frame : Frame} {function : String} {kind : Aggregate} {arguments : List Expr}
    (called : Builtin.ofName? function = some (.aggregate kind))
    (settled : Settled (m.aggregate env.conversions featureValue frame kind arguments)) :
    Evaluates m env frame (.call function arguments)
      (m.aggregate env.conversions featureValue frame kind arguments) := by
  match arguments with
  | [typeName, featureName] =>
    rw [aggregate_pair] at settled ⊢
    cases typed : m.typeArgument frame (Builtin.aggregate kind).name typeName with
    | error error => exact .aggregateType called typed
    | ok type =>
      cases named : featureArgument (Builtin.aggregate kind).name featureName with
      | error error => exact .aggregateFeature called typed named
      | ok feature =>
        simp only [typed, named, ok_bind] at settled
        exact .aggregate called typed named
          (gathers_gathered yields kind feature (m.instances type frame.scope) none settled.of_bind)
  | [] | [_] | _ :: _ :: _ :: _ =>
    rw [aggregate_arity kind (by simp)]
    exact .aggregateArity called (by simp)

theorem evaluates_evaluateWith (frame : Frame) (expr : Expr)
    (settled : Settled (m.evaluateWith env featureValue frame expr)) :
    Evaluates m env frame expr (m.evaluateWith env featureValue frame expr) := by
  induction expr using evaluateWith.induct with
  | case1 x | case2 x | case3 x =>
    simp only [evaluateWith]
    exact .literal _
  | case4 x unit =>
    simp only [evaluateWith]
    exact .quantity x unit
  | case5 path =>
    simp only [evaluateWith, lookup] at settled ⊢
    cases found : m.lookup? frame path with
    | none => exact .unresolved found
    | some target =>
      simp only [found, ok_bind] at settled
      exact .reference found (elementYields_elementValue yields target frame.scope settled)
  | case6 target name ih =>
    simp only [evaluateWith] at settled ⊢
    have opened := ih settled.of_bind
    cases evaluated : m.evaluateWith env featureValue frame target with
    | error error =>
      rw [evaluated] at opened
      exact .memberFails opened
    | ok value =>
      rw [evaluated] at opened
      simp only [evaluated, ok_bind] at settled ⊢
      cases value with
      | composite element origin =>
        cases found : m.feature? element name with
        | none =>
          simp only [found]
          exact .memberMissing opened found
        | some feature =>
          simp only [found] at settled ⊢
          exact .member opened found (elementYields_elementValue yields feature element settled)
      | _ => exact .memberOfPlain opened (by simp)
  | case7 op operand ih =>
    simp only [evaluateWith] at settled ⊢
    exact .unary (ih settled.of_bind)
  | case8 op lhs rhs left right =>
    simp only [evaluateWith] at settled ⊢
    have first := left settled.of_bind
    cases evaluated : m.evaluateWith env featureValue frame lhs with
    | error error =>
      rw [evaluated] at first
      exact .leftFails first
    | ok value =>
      rw [evaluated] at first
      simp only [evaluated, ok_bind] at settled ⊢
      cases decides : Operators.decides op value with
      | true => exact .decided first decides
      | false =>
        simp only [decides, Bool.false_eq_true, if_false] at settled ⊢
        exact .binary first decides (right settled.of_bind)
  | case9 condition whenTrue whenFalse test positive negative =>
    simp only [evaluateWith] at settled ⊢
    have tested := test settled.of_bind
    cases evaluated : m.evaluateWith env featureValue frame condition with
    | error error =>
      rw [evaluated] at tested
      exact .conditionFails tested
    | ok value =>
      rw [evaluated] at tested
      simp only [evaluated, ok_bind] at settled ⊢
      cases value with
      | boolean b =>
        cases b with
        | true => exact .whenTrue tested (positive settled)
        | false => exact .whenFalse tested (negative settled)
      | _ => exact .conditionPlain tested (by simp)
  | case10 function arguments called =>
    rw [evaluateWith_unknown _ called]
    exact .unknownFunction called
  | case11 function arguments called =>
    rw [evaluateWith_count _ (.inl called)]
    exact .count arguments (.inl called)
  | case12 function arguments called =>
    rw [evaluateWith_count _ (.inr called)]
    exact .count arguments (.inr called)
  | case13 function arguments kind called =>
    rw [evaluateWith_aggregate _ called] at settled ⊢
    exact evaluates_aggregate yields called settled
  | case14 function numeric called argument ih =>
    rw [evaluateWith_numeric _ called] at settled ⊢
    exact .numeric called (ih settled.of_bind)
  | case16 function called argument ih =>
    rw [evaluateWith_sqrt _ called] at settled ⊢
    exact .sqrt called (ih settled.of_bind)
  | case15 function numeric called arguments wrong =>
    rw [evaluateWith_arity (.inl ⟨numeric, called⟩) (length_ne_one wrong)]
    exact .arity (.inl ⟨numeric, called⟩) (length_ne_one wrong)
  | case17 function called arguments wrong =>
    rw [evaluateWith_arity (.inr called) (length_ne_one wrong)]
    exact .arity (.inr called) (length_ne_one wrong)

end soundness

/-- The value of the feature that an access leads to, given the values of features. -/
def expressedValue (m : Model) (env : Environment) (featureValue : ElementId → ElementId → Evaluated Value)
    (chosen scope : ElementId) : Evaluated Value :=
  match m.value? chosen with
  | some expr => m.evaluateWith env featureValue ⟨scope, some chosen⟩ expr
  | none => .ok (m.unexpressedValue chosen scope)

/-- The value of a feature if fewer than `depth` features are evaluated inside it one within the other.
Nothing is remembered of what is under evaluation. -/
def valueWithin (m : Model) (env : Environment) : Nat → ElementId → ElementId → Evaluated Value
  | 0, _, _ => .error (.depthLimitExceeded 0)
  | depth + 1, feature, scope =>
    m.effective feature scope >>= fun chosen => m.expressedValue env (m.valueWithin env depth) chosen scope

/-- From some depth on, evaluation has the outcome. -/
structure Eventually {α : Type} (run : Nat → Evaluated α) (outcome : Evaluated α) : Prop where
  settled : Settled outcome
  deep : ∃ enough, ∀ depth, enough ≤ depth → run depth = outcome

namespace Eventually

variable {α β : Type}

theorem own {outcome : Evaluated α} (settled : Settled outcome) : Eventually (fun _ => outcome) outcome :=
  ⟨settled, 0, fun _ _ => rfl⟩

theorem failed {error : EvaluationError} (own : error.isGuard = false) :
    Eventually (fun _ => (.error error : Evaluated α)) (.error error) :=
  Eventually.own (Settled.error_iff.mpr own)

theorem fail {run : Nat → Evaluated α} {error : EvaluationError} (failed : Eventually run (.error error))
    (next : Nat → α → Evaluated β) : Eventually (fun depth => run depth >>= next depth) (.error error) := by
  obtain ⟨settled, enough, same⟩ := failed
  refine ⟨Settled.error_iff.mpr (Settled.error_iff.mp settled), enough, fun depth reached => ?_⟩
  rw [same depth reached, error_bind]

theorem next {run : Nat → Evaluated α} {value : α} {rest : Nat → α → Evaluated β} {outcome : Evaluated β}
    (evaluated : Eventually run (.ok value)) (further : Eventually (fun depth => rest depth value) outcome) :
    Eventually (fun depth => run depth >>= rest depth) outcome := by
  obtain ⟨_, enough, same⟩ := evaluated
  obtain ⟨settled, enough', same'⟩ := further
  refine ⟨settled, max enough enough', fun depth reached => ?_⟩
  rw [same depth (by omega), ok_bind, same' depth (by omega)]

theorem bind {run : Nat → Evaluated α} {outcome : Evaluated α} (evaluated : Eventually run outcome)
    {next : α → Evaluated β} (settled : ∀ value, Settled (next value)) :
    Eventually (fun depth => run depth >>= next) (outcome >>= next) := by
  cases outcome with
  | ok value => exact evaluated.next (own (settled value))
  | error error => exact evaluated.fail _

theorem congr {run other : Nat → Evaluated α} {outcome : Evaluated α} (evaluated : Eventually run outcome)
    (same : ∀ depth, other depth = run depth) : Eventually other outcome :=
  ⟨evaluated.settled, evaluated.deep.imp fun _ holds depth reached => (same depth).trans (holds depth reached)⟩

theorem deeper {run : Nat → Evaluated α} {outcome : Evaluated α}
    (evaluated : Eventually (fun depth => run (depth + 1)) outcome) : Eventually run outcome := by
  obtain ⟨settled, enough, same⟩ := evaluated
  refine ⟨settled, enough + 1, fun depth reached => ?_⟩
  rw [← same (depth - 1) (by omega), Nat.sub_add_cancel (by omega)]

end Eventually

mutual

/-- What the rules derive for an expression is found by evaluating deep enough. -/
theorem Evaluates.eventually {frame : Frame} {expr : Expr} {outcome : Evaluated Value}
    (derivation : Evaluates m env frame expr outcome) :
    Eventually (fun depth => m.evaluateWith env (m.valueWithin env depth) frame expr) outcome := by
  match derivation with
  | .literal value =>
    refine (Eventually.own (.ok _)).congr fun depth => ?_
    cases value <;> simp only [evaluateWith, Literal.worth]
  | .quantity x unit =>
    refine (Eventually.own (.ok _)).congr fun depth => ?_
    simp only [evaluateWith]
  | .unresolved missing =>
    refine (Eventually.failed rfl).congr fun depth => ?_
    simp only [evaluateWith, lookup, missing, error_bind]
  | .reference found value =>
    refine value.eventually.congr fun depth => ?_
    simp only [evaluateWith, lookup, found, ok_bind]
  | .memberFails failed =>
    simp only [evaluateWith]
    exact failed.eventually.fail _
  | @Evaluates.memberOfPlain _ _ _ _ _ value evaluated plain =>
    simp only [evaluateWith]
    refine evaluated.eventually.next ?_
    cases value with
    | composite element origin => exact absurd rfl (plain element origin)
    | _ => exact .failed rfl
  | .memberMissing opened missing =>
    simp only [evaluateWith]
    refine opened.eventually.next ?_
    simp only [missing]
    exact .failed rfl
  | .member opened found value =>
    simp only [evaluateWith]
    refine opened.eventually.next ?_
    simp only [found]
    exact value.eventually
  | .unary evaluated =>
    simp only [evaluateWith]
    exact evaluated.eventually.bind fun _ => (Operators.operational_unary ..).settled
  | .leftFails failed =>
    simp only [evaluateWith]
    exact failed.eventually.fail _
  | .decided evaluated decides =>
    simp only [evaluateWith]
    refine evaluated.eventually.next ?_
    simp only [decides, if_true]
    exact .own (.ok _)
  | .binary evaluated undecided second =>
    simp only [evaluateWith]
    refine evaluated.eventually.next ?_
    simp only [undecided, Bool.false_eq_true, if_false]
    exact second.eventually.bind fun _ => (Operators.operational_binary ..).settled
  | .conditionFails failed =>
    simp only [evaluateWith]
    exact failed.eventually.fail _
  | @Evaluates.conditionPlain _ _ _ _ _ _ value evaluated plain =>
    simp only [evaluateWith]
    refine evaluated.eventually.next ?_
    cases value with
    | boolean b => exact absurd rfl (plain b)
    | _ => exact .failed rfl
  | .whenTrue holds branch =>
    simp only [evaluateWith]
    exact holds.eventually.next branch.eventually
  | .whenFalse fails branch =>
    simp only [evaluateWith]
    exact fails.eventually.next branch.eventually
  | .unknownFunction called =>
    exact (Eventually.failed rfl).congr fun depth => evaluateWith_unknown _ called
  | .count arguments called =>
    exact (Eventually.own (operational_countInstances ..).settled).congr fun depth => evaluateWith_count _ called
  | .numeric called evaluated =>
    exact (evaluated.eventually.bind fun _ => (operational_applyNumeric ..).settled).congr
      fun depth => evaluateWith_numeric _ called
  | .sqrt called evaluated =>
    exact (evaluated.eventually.bind fun _ => (operational_sqrtValue _).settled).congr
      fun depth => evaluateWith_sqrt _ called
  | .arity called wrong =>
    exact (Eventually.failed rfl).congr fun depth => evaluateWith_arity called wrong
  | .aggregateArity called wrong =>
    refine (Eventually.failed rfl).congr fun depth => ?_
    rw [evaluateWith_aggregate _ called, aggregate_arity _ wrong]
  | .aggregateType called failed =>
    refine (Eventually.failed ((operational_typeArgument ..).settled.own _ failed)).congr fun depth => ?_
    rw [evaluateWith_aggregate _ called, aggregate_pair, failed, error_bind]
  | .aggregateFeature called typed failed =>
    refine (Eventually.failed ((operational_featureArgument ..).settled.own _ failed)).congr fun depth => ?_
    rw [evaluateWith_aggregate _ called, aggregate_pair, typed, failed, ok_bind, error_bind]
  | .aggregate called typed named gathered =>
    refine (gathered.eventually.bind fun _ => (operational_conclude ..).settled).congr fun depth => ?_
    rw [evaluateWith_aggregate _ called, aggregate_pair, typed, named, ok_bind, ok_bind]
    rfl

theorem Gathers.eventually {kind : Aggregate} {feature : String} {result? : Option Value}
    {found : List Instance} {outcome : Evaluated (Option Value)}
    (derivation : Gathers m env kind feature result? found outcome) :
    Eventually (fun depth => m.gathered env (m.valueWithin env depth) kind feature result? found) outcome := by
  match derivation with
  | .done result? => exact .own (.ok _)
  | .missing missing =>
    refine (Eventually.failed rfl).congr fun depth => ?_
    simp only [gathered_cons, valueInPart, missing, error_bind]
  | .valueFails target? failed =>
    simp only [gathered_cons, valueInPart, target?]
    exact failed.eventually.fail _
  | .combineFails target? evaluated failed =>
    simp only [gathered_cons, valueInPart, target?]
    refine evaluated.eventually.next ?_
    simp only [failed, error_bind]
    exact .failed ((operational_combine ..).settled.own _ failed)
  | .next target? evaluated combined further =>
    simp only [gathered_cons, valueInPart, target?]
    refine evaluated.eventually.next ?_
    simp only [combined, ok_bind]
    exact further.eventually

theorem ElementYields.eventually {target scope : ElementId} {outcome : Evaluated Value}
    (derivation : ElementYields m env target scope outcome) :
    Eventually (fun depth => m.elementValue (m.valueWithin env depth) target scope) outcome := by
  match derivation with
  | .inheritedFeature kind inherited value =>
    refine value.eventually.congr fun depth => ?_
    simp only [elementValue, kind, inherited, if_true]
  | .outsideFeature kind outside value =>
    refine value.eventually.congr fun depth => ?_
    simp only [elementValue, kind, outside, Bool.false_eq_true, if_false]
  | .inheritedPart kind inherited =>
    refine (Eventually.own (settled_resolved ..).map).congr fun depth => ?_
    simp only [elementValue, kind, inherited, if_true]
    rfl
  | .outsidePart kind outside =>
    refine (Eventually.own (.ok _)).congr fun depth => ?_
    simp only [elementValue, kind, outside, Bool.false_eq_true, if_false]
    rfl
  | .definition kind =>
    refine (Eventually.own (.ok _)).congr fun depth => ?_
    rw [elementValue.eq_def]
    split <;> simp_all [ElementKind.isDefinition]
  | .literal kind =>
    refine (Eventually.own (.ok _)).congr fun depth => ?_
    simp only [elementValue, kind]
  | .noValue kind =>
    refine (Eventually.failed rfl).congr fun depth => ?_
    rw [elementValue.eq_def]
    split <;> simp_all [ElementKind.annotates]

theorem FeatureYields.eventually {feature scope : ElementId} {outcome : Evaluated Value}
    (derivation : FeatureYields m env feature scope outcome) :
    Eventually (fun depth => m.valueWithin env depth feature scope) outcome := by
  match derivation with
  | .unresolved failed =>
    refine Eventually.deeper ((Eventually.failed ((settled_effective ..).own _ failed)).congr fun depth => ?_)
    rw [valueWithin, failed, error_bind]
  | .expressed resolved expressed evaluated =>
    refine Eventually.deeper (evaluated.eventually.congr fun depth => ?_)
    simp only [valueWithin, resolved, ok_bind, expressedValue, expressed]
  | .unexpressed resolved silent =>
    refine Eventually.deeper ((Eventually.own (.ok _)).congr fun depth => ?_)
    simp only [valueWithin, resolved, ok_bind, expressedValue, silent]

end

end StructuralModel.Model
