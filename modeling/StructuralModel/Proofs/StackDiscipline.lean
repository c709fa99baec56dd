import StructuralModel.Proofs.StackGuard

/-! Evaluation on a stack that is changed in place. A feature puts its access on the stack when it is
entered and takes it off when it is left, whatever came of it, so every call gives the stack back as it was.
The stack never gets longer than the limit on depth, so every evaluation returns. -/

namespace StructuralModel

/-- The accesses under evaluation, innermost first, with all that the stack has held before. -/
structure Stack where
  active : List Access
  past : List (List Access)

namespace Stack

def empty : Stack := ⟨[], []⟩

def change (stack : Stack) (active : List Access) : Stack := ⟨active, stack.active :: stack.past⟩

end Stack

/-- A computation on the stack. It gives none if it has not returned within the nesting that it was given. -/
def Running (α : Type) := Stack → Option (Evaluated α × Stack)

namespace Running

variable {α β : Type}

/-- A step that does not touch the stack. -/
def of (outcome : Evaluated α) : Running α := fun stack => some (outcome, stack)

def bind (first : Running α) (next : α → Running β) : Running β := fun stack =>
  match first stack with
  | none => none
  | some (.ok value, after) => next value after
  | some (.error error, after) => some (.error error, after)

instance : Monad Running where
  pure value := of (.ok value)
  bind := bind

/-- A cycle is told before the limit is looked at. An access that is refused is not put on the stack. -/
def enter (m : Model) (env : Environment) (chosen scope : ElementId) : Running Unit := fun stack =>
  if stack.active.contains (chosen, scope) then some (.error (.cyclicReference (m.path chosen) (m.path scope)), stack)
  else if env.maxDepth ≤ stack.active.length then some (.error (.depthLimitExceeded env.maxDepth), stack)
  else some (.ok (), stack.change ((chosen, scope) :: stack.active))

/-- The innermost access is left after a value and after an error alike. -/
def thenLeave (run : Running α) : Running α := fun stack =>
  (run stack).map fun (outcome, after) => (outcome, after.change after.active.tail)

end Running

namespace Model
open Running

def elementValueOn (m : Model) (featureValue : ElementId → ElementId → Running Value) (target scope : ElementId) :
    Running Value :=
  match m.kind target with
  | .feature =>
    if m.isInherited target scope then featureValue target scope
    else featureValue target ((m.owner? target).getD target)
  | .partUsage => do
    let part ← of (if m.isInherited target scope then m.resolved target scope else .ok target)
    return .composite part scope
  | .partDefinition | .attributeDefinition | .enumerationDefinition => of (.ok (.composite target scope))
  | .enumerationLiteral => of (.ok (.literal target ((m.name? target).getD (m.path target))))
  | kind => of (.error (.notAValue (m.path target) kind))

def valueInPartOn (m : Model) (featureValue : ElementId → ElementId → Running Value) (function feature : String)
    (part : ElementId) : Running Value :=
  match m.feature? part feature with
  | some target => m.elementValueOn featureValue target part
  | none => of (.error (.invalidArgument function (.noFeature (m.path part) feature)))

def aggregateOverOn (m : Model) (table : ConversionTable) (featureValue : ElementId → ElementId → Running Value)
    (kind : Aggregate) (function feature : String) : Option Value → List Instance → Running (Option Value)
  | result?, [] => return result?
  | result?, next :: rest => do
    let value ← m.valueInPartOn featureValue function feature next.part
    let result ← of (Aggregate.combine kind table result? value next.weight)
    m.aggregateOverOn table featureValue kind function feature (some result) rest

def aggregateOn (m : Model) (table : ConversionTable) (featureValue : ElementId → ElementId → Running Value)
    (frame : Frame) (kind : Aggregate) : List Expr → Running Value
  | [typeName, featureName] => do
    let function := (Builtin.aggregate kind).name
    let type ← of (m.typeArgument frame function typeName)
    let feature ← of (featureArgument function featureName)
    let found := m.instances type frame.scope
    let gathered ← m.aggregateOverOn table featureValue kind function feature none found
    of (kind.conclude m table type frame.scope found gathered)
  | arguments => of (.error (.arityMismatch (Builtin.aggregate kind).name 2 arguments.length))

def evaluateOn (m : Model) (env : Environment) (featureValue : ElementId → ElementId → Running Value)
    (frame : Frame) : Expr → Running Value
  | .literal (.number x) => of (.ok (.scalar x))
  | .literal (.boolean b) => of (.ok (.boolean b))
  | .literal (.text s) => of (.ok (.text s))
  | .quantity x unit => of (.ok (if env.quantities then .measured x unit else .scalar x))
  | .reference path => do
    let target ← of (m.lookup frame path)
    m.elementValueOn featureValue target frame.scope
  | .member target name => do
    match ← m.evaluateOn env featureValue frame target with
    | .composite element _ =>
      match m.feature? element name with
      | some feature => m.elementValueOn featureValue feature element
      | none => of (.error (.unresolvedReference name (m.path element)))
    | value => of (.error (.invalidOperand ("." ++ name) value.kindName))
  | .unary op operand => do
    of (Operators.unary op (← m.evaluateOn env featureValue frame operand))
  | .binary op lhs rhs => do
    let left ← m.evaluateOn env featureValue frame lhs
    if Operators.decides op left then return left
    of (Operators.binary op left (← m.evaluateOn env featureValue frame rhs) env.conversions)
  | .conditional condition whenTrue whenFalse => do
    match ← m.evaluateOn env featureValue frame condition with
    | .boolean true => m.evaluateOn env featureValue frame whenTrue
    | .boolean false => m.evaluateOn env featureValue frame whenFalse
    | value => of (.error (.invalidOperand "if" value.kindName))
  | .call function arguments =>
    match Builtin.ofName? function with
    | none => of (.error (.unknownFunction function))
    | some .count => of (m.countInstances frame function arguments)
    | some .size => of (m.countInstances frame function arguments)
    | some (.aggregate kind) => m.aggregateOn env.conversions featureValue frame kind arguments
    | some (.numeric numeric) =>
      match arguments with
      | [argument] => do of (applyNumeric numeric (← m.evaluateOn env featureValue frame argument))
      | _ => of (.error (.arityMismatch function 1 arguments.length))
    | some .sqrt =>
      match arguments with
      | [argument] => do of (sqrtValue (← m.evaluateOn env featureValue frame argument))
      | _ => of (.error (.arityMismatch function 1 arguments.length))

def expressedValueOn (m : Model) (env : Environment) (featureValue : ElementId → ElementId → Running Value)
    (chosen scope : ElementId) : Running Value :=
  match m.value? chosen with
  | some expr => m.evaluateOn env featureValue ⟨scope, some chosen⟩ expr
  | none => of (.ok (m.unexpressedValue chosen scope))

/-- The value of a feature, with fewer than `nesting` features evaluated one within the other. The nesting
only makes this a function: what stops an evaluation is the stack. -/
def featureValueOn (m : Model) (env : Environment) : Nat → ElementId → ElementId → Running Value
  | 0, _, _ => fun _ => none
  | nesting + 1, feature, scope => do
    let chosen ← of (m.effective feature scope)
    enter m env chosen scope
    thenLeave (m.expressedValueOn env (m.featureValueOn env nesting) chosen scope)

def evaluateFeatureOn (m : Model) (env : Environment) (nesting : Nat) (feature scope : ElementId) : Running Value :=
  if m.isFeature feature then m.featureValueOn env nesting feature scope
  else of (.error (.notAValue (m.path feature) (m.kind feature)))

end Model

/-- Different accesses, and no more of them than may be under evaluation at a time. -/
structure Guarded (env : Environment) (active : List Access) : Prop where
  distinct : active.Nodup
  shallow : active.length ≤ env.maxDepth

theorem Guarded.enter {env : Environment} {access : Access} {active : List Access} (guarded : Guarded env active)
    (new : access ∉ active) (shallow : active.length < env.maxDepth) : Guarded env (access :: active) where
  distinct := List.nodup_cons.mpr ⟨new, guarded.distinct⟩
  shallow := shallow

namespace Running

variable {m : Model} {env : Environment} {active : List Access} {chosen scope : ElementId}

theorem enter_again (again : (chosen, scope) ∈ active) (past : List (List Access)) :
    enter m env chosen scope ⟨active, past⟩ =
      some (.error (.cyclicReference (m.path chosen) (m.path scope)), ⟨active, past⟩) :=
  if_pos (List.contains_iff_mem.mpr again)

theorem enter_full (new : (chosen, scope) ∉ active) (full : env.maxDepth ≤ active.length) (past : List (List Access)) :
    enter m env chosen scope ⟨active, past⟩ = some (.error (.depthLimitExceeded env.maxDepth), ⟨active, past⟩) :=
  (if_neg (mt List.contains_iff_mem.mp new)).trans (if_pos full)

theorem enter_new (new : (chosen, scope) ∉ active) (shallow : active.length < env.maxDepth)
    (past : List (List Access)) :
    enter m env chosen scope ⟨active, past⟩ = some (.ok (), ⟨(chosen, scope) :: active, active :: past⟩) :=
  (if_neg (mt List.contains_iff_mem.mp new)).trans (if_neg (Nat.not_le.mpr shallow))

end Running

/-- The run returns the outcome and gives the stack back as it was, and all that the stack holds meanwhile
is guarded. -/
structure Returns (env : Environment) (active : List Access) {α : Type} (run : Running α) (outcome : Evaluated α) :
    Prop where
  after : ∀ past, ∃ visited, run ⟨active, past⟩ = some (outcome, ⟨active, visited ++ past⟩) ∧
    ∀ held ∈ visited, Guarded env held

namespace Returns
open Running

variable {α β : Type} {env : Environment} {active : List Access}

theorem of (outcome : Evaluated α) : Returns env active (Running.of outcome) outcome := by
  constructor
  intro past
  refine ⟨[], rfl, ?_⟩
  intro held member
  cases member

theorem bind {first : Running α} {next : α → Running β} {outcome : Evaluated α} {other : α → Evaluated β}
    (before : Returns env active first outcome)
    (rest : ∀ value, outcome = .ok value → Returns env active (next value) (other value)) :
    Returns env active (first >>= next) (outcome >>= other) := by
  constructor
  intro past
  obtain ⟨visited, returned, guarded⟩ := before.after past
  have unfolded : (first >>= next) ⟨active, past⟩ = Running.bind first next ⟨active, past⟩ := rfl
  rw [unfolded, Running.bind, returned]
  cases outcome with
  | error error => exact ⟨visited, rfl, guarded⟩
  | ok value =>
    obtain ⟨later, finished, kept⟩ := (rest value rfl).after (visited ++ past)
    refine ⟨later ++ visited, ?_, ?_⟩
    · rw [List.append_assoc]
      exact finished
    · intro held member
      rcases List.mem_append.mp member with member | member
      · exact kept held member
      · exact guarded held member

/-- An access that is refused leaves the stack alone. -/
theorem refused {enters : Running Unit} {rest : Unit → Running α} {error : EvaluationError}
    (refuses : ∀ past, enters ⟨active, past⟩ = some (.error error, ⟨active, past⟩)) :
    Returns env active (enters >>= rest) (.error error) := by
  have turnedAway : Returns env active enters (.error error) := ⟨fun past => ⟨[], refuses past, by simp⟩⟩
  have skipped : Returns env active (enters >>= rest) ((.error error : Evaluated Unit) >>= fun _ => .error error) :=
    turnedAway.bind fun _ impossible => nomatch impossible
  exact skipped

/-- Between entering a feature and leaving it the stack holds the access of the feature as well. -/
theorem entered {access : Access} {enters : Running Unit} {run : Running α} {outcome : Evaluated α}
    (before : Guarded env active) (within : Guarded env (access :: active))
    (enter : ∀ past, enters ⟨active, past⟩ = some (.ok (), ⟨access :: active, active :: past⟩))
    (inside : Returns env (access :: active) run outcome) :
    Returns env active (enters >>= fun _ => thenLeave run) outcome := by
  constructor
  intro past
  obtain ⟨visited, returned, guarded⟩ := inside.after (active :: past)
  refine ⟨(access :: active) :: visited ++ [active], ?_, ?_⟩
  · have unfolded : (enters >>= fun _ => thenLeave run) ⟨active, past⟩ =
        Running.bind enters (fun _ => thenLeave run) ⟨active, past⟩ := rfl
    simp [unfolded, Running.bind, enter, thenLeave, returned, Stack.change]
  · intro held member
    simp only [List.cons_append, List.mem_cons, List.mem_append, List.not_mem_nil, or_false] at member
    rcases member with rfl | member | rfl
    · exact within
    · exact guarded held member
    · exact before

end Returns

namespace Model
open Running

variable {m : Model} {env : Environment} {active : List Access}

section expression

variable {featureValue : ElementId → ElementId → Running Value} {settledValue : ElementId → ElementId → Evaluated Value}
  (returns : ∀ feature scope, Returns env active (featureValue feature scope) (settledValue feature scope))

include returns

theorem returns_elementValueOn (target scope : ElementId) :
    Returns env active (m.elementValueOn featureValue target scope) (m.elementValue settledValue target scope) := by
  rw [elementValueOn, elementValue]
  cases m.kind target with
  | feature =>
    dsimp only
    split
    · exact returns ..
    · exact returns ..
  | partUsage =>
    dsimp only
    split
    · exact (Returns.of _).bind fun part _ => .of _
    · exact .of _
  | partDefinition | attributeDefinition | enumerationDefinition | enumerationLiteral => exact .of _
  | package | comment | documentation => exact .of _

theorem returns_valueInPartOn (function feature : String) (part : ElementId) :
    Returns env active (m.valueInPartOn featureValue function feature part)
      (m.valueInPart settledValue function feature part) := by
  rw [valueInPartOn, valueInPart]
  cases m.feature? part feature with
  | none => exact .of _
  | some target => exact returns_elementValueOn returns target part

theorem returns_aggregateOverOn (table : ConversionTable) (kind : Aggregate) (function feature : String)
    (result? : Option Value) (found : List Instance) :
    Returns env active (m.aggregateOverOn table featureValue kind function feature result? found)
      (found.foldlM (fun result? next => do
        let value ← m.valueInPart settledValue function feature next.part
        return some (← Aggregate.combine kind table result? value next.weight)) result?) := by
  induction found generalizing result? with
  | nil => exact .of _
  | cons next rest ih =>
    rw [aggregateOverOn, List.foldlM_cons]
    simp only [bind_assoc, pure_bind]
    refine (returns_valueInPartOn returns function feature next.part).bind fun value _ => ?_
    exact (Returns.of _).bind fun result _ => ih (some result)

theorem returns_aggregateOn (table : ConversionTable) (frame : Frame) (kind : Aggregate) (arguments : List Expr) :
    Returns env active (m.aggregateOn table featureValue frame kind arguments)
      (m.aggregate table settledValue frame kind arguments) := by
  match arguments with
  | [typeName, featureName] =>
    rw [aggregateOn, aggregate_pair]
    refine (Returns.of _).bind fun type _ => (Returns.of _).bind fun feature _ => ?_
    exact (returns_aggregateOverOn returns table kind _ feature none _).bind fun gathered _ => .of _
  | [] | [_] | _ :: _ :: _ :: _ => exact .of _

/-- An expression gives the stack back if the features that it refers to do. -/
theorem returns_evaluateOn (frame : Frame) (expr : Expr) :
    Returns env active (m.evaluateOn env featureValue frame expr) (m.evaluateWith env settledValue frame expr) := by
  induction expr using evaluateWith.induct with
  | case1 | case2 | case3 | case4 =>
    simp only [evaluateOn, evaluateWith]
    exact .of _
  | case5 path =>
    simp only [evaluateOn, evaluateWith]
    exact (Returns.of _).bind fun target _ => returns_elementValueOn returns target frame.scope
  | case6 target name ih =>
    simp only [evaluateOn, evaluateWith]
    refine ih.bind fun value _ => ?_
    cases value with
    | composite element origin =>
      dsimp only
      cases m.feature? element name with
      | none => exact .of _
      | some feature => exact returns_elementValueOn returns feature element
    | _ => exact .of _
  | case7 op operand ih =>
    simp only [evaluateOn, evaluateWith]
    exact ih.bind fun value _ => .of _
  | case8 op lhs rhs left right =>
    simp only [evaluateOn, evaluateWith]
    refine left.bind fun value _ => ?_
    split
    · exact .of _
    · exact right.bind fun other _ => .of _
  | case9 condition whenTrue whenFalse test positive negative =>
    simp only [evaluateOn, evaluateWith]
    refine test.bind fun value _ => ?_
    cases value with
    | boolean taken =>
      cases taken with
      | true => exact positive
      | false => exact negative
    | _ => exact .of _
  | case10 function arguments called =>
    rw [evaluateWith_unknown _ called]
    simp only [evaluateOn.eq_def, called]
    exact .of _
  | case11 function arguments called =>
    rw [evaluateWith_count _ (.inl called)]
    simp only [evaluateOn.eq_def, called]
    exact .of _
  | case12 function arguments called =>
    rw [evaluateWith_count _ (.inr called)]
    simp only [evaluateOn.eq_def, called]
    exact .of _
  | case13 function arguments kind called =>
    rw [evaluateWith_aggregate _ called]
    simp only [evaluateOn.eq_def, called]
    exact returns_aggregateOn returns ..
  | case14 function numeric called argument ih =>
    rw [evaluateWith_numeric _ called]
    simp only [evaluateOn, called]
    exact ih.bind fun value _ => .of _
  | case16 function called argument ih =>
    rw [evaluateWith_sqrt _ called]
    simp only [evaluateOn, called]
    exact ih.bind fun value _ => .of _
  | case15 function numeric called arguments wrong =>
    have arity := length_ne_one wrong
    rw [evaluateWith_arity (.inl ⟨numeric, called⟩) arity]
    simp only [evaluateOn.eq_def, called]
    exact .of _
  | case17 function called arguments wrong =>
    have arity := length_ne_one wrong
    rw [evaluateWith_arity (.inr called) arity]
    simp only [evaluateOn.eq_def, called]
    exact .of _

theorem returns_expressedValueOn (chosen scope : ElementId) :
    Returns env active (m.expressedValueOn env featureValue chosen scope)
      (m.expressedValue env settledValue chosen scope) := by
  rw [expressedValueOn, expressedValue]
  cases m.value? chosen with
  | none => exact .of _
  | some expr => exact returns_evaluateOn returns ..

end expression

/-- The room that is left gets smaller with each feature entered, so less nesting is needed within it. -/
theorem returns_featureValueOn {room nesting : Nat} (deep : room < nesting) (guarded : Guarded env active)
    (full : active.length + room = env.maxDepth) (feature scope : ElementId) :
    Returns env active (m.featureValueOn env nesting feature scope) (m.featureValue env room active feature scope) := by
  induction room generalizing nesting active feature scope with
  | zero =>
    obtain ⟨nesting, rfl⟩ : ∃ less, nesting = less + 1 := ⟨nesting - 1, by omega⟩
    rw [featureValueOn, featureValue_eq]
    refine (Returns.of _).bind fun chosen _ => ?_
    by_cases again : (chosen, scope) ∈ active
    · rw [if_pos again]
      exact .refused (enter_again again)
    · rw [if_neg again]
      exact .refused (enter_full again (by omega))
  | succ room ih =>
    obtain ⟨nesting, rfl⟩ : ∃ less, nesting = less + 1 := ⟨nesting - 1, by omega⟩
    rw [featureValueOn, featureValue_eq]
    refine (Returns.of _).bind fun chosen _ => ?_
    by_cases again : (chosen, scope) ∈ active
    · rw [if_pos again]
      exact .refused (enter_again again)
    · rw [if_neg again]
      have shallow : active.length < env.maxDepth := by omega
      have entered := guarded.enter again shallow
      apply Returns.entered guarded entered (enter_new again shallow)
      apply returns_expressedValueOn
      intro feature scope
      apply ih (by omega) entered
      rw [List.length_cons]
      omega

/-- The calls that are made on the stack, from inside an evaluation or to begin one. -/
inductive Call
  | expression (frame : Frame) (expr : Expr)
  | element (target scope : ElementId)
  | aggregate (frame : Frame) (kind : Aggregate) (arguments : List Expr)
  | feature (target scope : ElementId)
  | entered (chosen scope : ElementId)

def Call.run (m : Model) (env : Environment) (nesting : Nat) : Call → Running Value
  | .expression frame expr => m.evaluateOn env (m.featureValueOn env nesting) frame expr
  | .element target scope => m.elementValueOn (m.featureValueOn env nesting) target scope
  | .aggregate frame kind arguments => m.aggregateOn env.conversions (m.featureValueOn env nesting) frame kind arguments
  | .feature target scope => m.featureValueOn env nesting target scope
  | .entered chosen scope => m.expressedValueOn env (m.featureValueOn env nesting) chosen scope

theorem Call.returns (call : Call) {nesting : Nat} (deep : env.maxDepth < nesting + active.length)
    (guarded : Guarded env active) : ∃ outcome, Returns env active (call.run m env nesting) outcome := by
  obtain ⟨room, full⟩ : ∃ room, active.length + room = env.maxDepth :=
    ⟨env.maxDepth - active.length, Nat.add_sub_cancel' guarded.shallow⟩
  have features : ∀ feature scope,
      Returns env active (m.featureValueOn env nesting feature scope) (m.featureValue env room active feature scope) :=
    returns_featureValueOn (by omega) guarded full
  cases call with
  | expression frame expr => exact ⟨_, returns_evaluateOn features frame expr⟩
  | element target scope => exact ⟨_, returns_elementValueOn features target scope⟩
  | aggregate frame kind arguments => exact ⟨_, returns_aggregateOn features env.conversions frame kind arguments⟩
  | feature target scope => exact ⟨_, features target scope⟩
  | entered chosen scope => exact ⟨_, returns_expressedValueOn features chosen scope⟩

theorem guarded_nil : Guarded env [] := ⟨List.nodup_nil, Nat.zero_le _⟩

theorem returns_evaluate {nesting : Nat} (deep : env.maxDepth < nesting) (expr : Expr) (scope : ElementId) :
    Returns env [] (Call.run m env nesting (.expression ⟨scope, none⟩ expr)) (m.evaluate env expr scope) := by
  apply returns_evaluateOn
  exact returns_featureValueOn deep guarded_nil (Nat.zero_add _)

theorem returns_evaluateFeature {nesting : Nat} (deep : env.maxDepth < nesting) (feature scope : ElementId) :
    Returns env [] (m.evaluateFeatureOn env nesting feature scope) (m.evaluateFeature env feature scope) := by
  rw [evaluateFeatureOn, evaluateFeature]
  split
  · exact returns_featureValueOn deep guarded_nil (Nat.zero_add _) feature scope
  · exact .of _

/-- Whatever the model, evaluation returns, and it does so from every call on a guarded stack. All that the
stack holds meanwhile is guarded, and in the end it holds what it held in the beginning. -/
theorem evaluation_returns (m : Model) (env : Environment) {nesting : Nat} (deep : env.maxDepth < nesting) :
    (∀ expr scope, ∃ past, Call.run m env nesting (.expression ⟨scope, none⟩ expr) .empty =
        some (m.evaluate env expr scope, ⟨[], past⟩) ∧ ∀ held ∈ past, Guarded env held) ∧
    (∀ feature scope, ∃ past, m.evaluateFeatureOn env nesting feature scope .empty =
        some (m.evaluateFeature env feature scope, ⟨[], past⟩) ∧ ∀ held ∈ past, Guarded env held) ∧
    (∀ (call : Call) (stack : Stack) (nesting : Nat), env.maxDepth < nesting + stack.active.length →
      Guarded env stack.active → ∃ outcome visited, call.run m env nesting stack =
        some (outcome, ⟨stack.active, visited ++ stack.past⟩) ∧ ∀ held ∈ visited, Guarded env held) := by
  refine ⟨?_, ?_, ?_⟩
  · intro expr scope
    obtain ⟨past, returned, guarded⟩ := (returns_evaluate (m := m) deep expr scope).after []
    exact ⟨past, by rwa [List.append_nil] at returned, guarded⟩
  · intro feature scope
    obtain ⟨past, returned, guarded⟩ := (returns_evaluateFeature (m := m) deep feature scope).after []
    exact ⟨past, by rwa [List.append_nil] at returned, guarded⟩
  · intro call stack nesting deep guarded
    obtain ⟨outcome, returns⟩ := call.returns (m := m) deep guarded
    exact ⟨outcome, returns.after stack.past⟩

/-- On the cycle of `mutualReferences` the stack holds two accesses when the third is refused, and the error
takes them off again. -/
theorem evaluation_returns_mutualReferences : sixteenDeep.maxDepth < 17 ∧
    ∃ past, Call.run mutualReferences sixteenDeep 17 (.expression ⟨0, none⟩ (.reference (.simple "a"))) .empty =
        some (.error (.cyclicReference "Loop::a" "Loop"), ⟨[], past⟩) ∧
      [(2, 0), (1, 0)] ∈ past ∧ ∀ held ∈ past, Guarded sixteenDeep held := by
  have deep : sixteenDeep.maxDepth < 17 := by decide
  have run : Call.run mutualReferences sixteenDeep 17 (.expression ⟨0, none⟩ (.reference (.simple "a"))) .empty =
      some (.error (.cyclicReference "Loop::a" "Loop"), ⟨[], [[(1, 0)], [(2, 0), (1, 0)], [(1, 0)], []]⟩) := by cbv
  obtain ⟨past, returned, guarded⟩ :=
    (evaluation_returns mutualReferences sixteenDeep deep).1 (.reference (.simple "a")) 0
  rw [run] at returned
  simp only [Option.some.injEq, Prod.mk.injEq, Stack.mk.injEq, true_and] at returned
  obtain ⟨_, rfl⟩ := returned
  exact ⟨deep, _, run, by simp, guarded⟩

end Model
end StructuralModel
