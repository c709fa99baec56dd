import StructuralModel.Proofs.OwnErrors

/-! Evaluation with a record of the references that it evaluates. The record changes no outcome. Operands
that a logical operator does not need and branches that a condition does not take leave nothing in it. -/

namespace StructuralModel

/-- A reference that was evaluated, with the element that it denoted and what came of it. -/
structure Reading where
  path : Path
  target : ElementId
  outcome : Evaluated Value

/-- An outcome with the references that were evaluated on the way to it. -/
structure Observed (α : Type) where
  readings : List Reading
  outcome : Evaluated α

namespace Observed

/-- An outcome that is reached without a reference of the expression itself. -/
def of {α : Type} (outcome : Evaluated α) : Observed α := ⟨[], outcome⟩

def note (reading : Reading) : Observed Value := ⟨[reading], reading.outcome⟩

def bind {α β : Type} (first : Observed α) (next : α → Observed β) : Observed β :=
  match first.outcome with
  | .ok value => ⟨first.readings ++ (next value).readings, (next value).outcome⟩
  | .error error => ⟨first.readings, .error error⟩

instance : Monad Observed where
  pure value := of (.ok value)
  bind := bind

variable {α β : Type}

@[simp] theorem outcome_of (outcome : Evaluated α) : (of outcome).outcome = outcome := rfl

@[simp] theorem outcome_note (reading : Reading) : (note reading).outcome = reading.outcome := rfl

@[simp] theorem outcome_bind (first : Observed α) (next : α → Observed β) :
    (first >>= next).outcome = first.outcome >>= fun value => (next value).outcome := by
  obtain ⟨readings, outcome⟩ := first
  cases outcome <;> rfl

def Each (holds : Reading → Prop) (observed : Observed α) : Prop :=
  ∀ reading ∈ observed.readings, holds reading

namespace Each

variable {holds : Reading → Prop}

theorem of (outcome : Evaluated α) : Each holds (Observed.of outcome) :=
  fun _ member => by cases member

theorem note {reading : Reading} (own : holds reading) : Each holds (Observed.note reading) := by
  intro other member
  exact List.mem_singleton.mp member ▸ own

theorem bind {first : Observed α} {next : α → Observed β} (before : Each holds first)
    (after : ∀ value, first.outcome = .ok value → Each holds (next value)) : Each holds (first >>= next) := by
  obtain ⟨readings, outcome⟩ := first
  intro reading member
  cases outcome with
  | ok value =>
    rcases List.mem_append.mp member with member | member
    · exact before reading member
    · exact after value rfl reading member
  | error error => exact before reading member

end Each
end Observed

namespace Model
open Observed

def memberValue (m : Model) (featureValue : ElementId → ElementId → Evaluated Value) (name : String) :
    Value → Evaluated Value
  | .composite element _ =>
    match m.feature? element name with
    | some feature => m.elementValue featureValue feature element
    | none => .error (.unresolvedReference name (m.path element))
  | value => .error (.invalidOperand ("." ++ name) value.kindName)

/-- What a function of one value makes of it. The others take types. -/
def ofValue? : Builtin → Option (Value → Evaluated Value)
  | .numeric function => some (applyNumeric function)
  | .sqrt => some sqrtValue
  | .count | .size | .aggregate _ => none

/-- Evaluation that keeps a record. References in the arguments of aggregates stand for types and features
and have no value, and what is evaluated for them belongs to other expressions. -/
def observe (m : Model) (env : Environment) (featureValue : ElementId → ElementId → Evaluated Value)
    (frame : Frame) : Expr → Observed Value
  | .reference path => do
    let target ← of (m.lookup frame path)
    note ⟨path, target, m.elementValue featureValue target frame.scope⟩
  | .member target name => do
    of (m.memberValue featureValue name (← m.observe env featureValue frame target))
  | .unary op operand => do
    of (Operators.unary op (← m.observe env featureValue frame operand))
  | .binary op lhs rhs => do
    let left ← m.observe env featureValue frame lhs
    if Operators.decides op left then return left
    of (Operators.binary op left (← m.observe env featureValue frame rhs) env.conversions)
  | .conditional condition whenTrue whenFalse => do
    match ← m.observe env featureValue frame condition with
    | .boolean true => m.observe env featureValue frame whenTrue
    | .boolean false => m.observe env featureValue frame whenFalse
    | value => of (.error (.invalidOperand "if" value.kindName))
  | .call function [argument] =>
    match (Builtin.ofName? function).bind ofValue? with
    | some apply => do of (apply (← m.observe env featureValue frame argument))
    | none => of (m.evaluateWith env featureValue frame (.call function [argument]))
  | expr => of (m.evaluateWith env featureValue frame expr)

variable {m : Model} {env : Environment} {featureValue : ElementId → ElementId → Evaluated Value} {frame : Frame}

theorem evaluateWith_member (target : Expr) (name : String) :
    m.evaluateWith env featureValue frame (.member target name) =
      m.evaluateWith env featureValue frame target >>= m.memberValue featureValue name := by
  rw [evaluateWith]
  refine bind_congr fun value => ?_
  cases value with
  | composite element origin =>
    simp only [memberValue]
    cases m.feature? element name <;> rfl
  | _ => rfl

theorem evaluateWith_ofValue {function : String} {apply : Value → Evaluated Value} (argument : Expr)
    (called : (Builtin.ofName? function).bind ofValue? = some apply) :
    m.evaluateWith env featureValue frame (.call function [argument]) =
      m.evaluateWith env featureValue frame argument >>= apply := by
  obtain ⟨builtin, found, ofValue⟩ := Option.bind_eq_some_iff.mp called
  cases builtin with
  | numeric numeric =>
    obtain rfl := Option.some.inj ofValue
    exact evaluateWith_numeric argument found
  | sqrt =>
    obtain rfl := Option.some.inj ofValue
    exact evaluateWith_sqrt argument found
  | _ => cases ofValue

/-- Keeping a record changes no outcome. -/
theorem outcome_observe (expr : Expr) :
    (m.observe env featureValue frame expr).outcome = m.evaluateWith env featureValue frame expr := by
  induction expr using observe.induct with
  | case1 path => simp only [observe, evaluateWith, outcome_bind, outcome_of, outcome_note]
  | case2 target name ih => simp only [observe, evaluateWith_member, outcome_bind, outcome_of, ih]
  | case3 op operand ih => simp only [observe, evaluateWith, outcome_bind, outcome_of, ih]
  | case4 op lhs rhs left right =>
    simp only [observe, evaluateWith, outcome_bind, left]
    refine bind_congr fun value => ?_
    split
    · rfl
    · simp only [outcome_bind, outcome_of, right]
  | case5 condition whenTrue whenFalse test positive negative =>
    simp only [observe, evaluateWith, outcome_bind, test]
    refine bind_congr fun value => ?_
    cases value with
    | boolean taken => cases taken <;> assumption
    | _ => rfl
  | case6 function argument apply called ih =>
    simp only [observe, called, evaluateWith_ofValue argument called, outcome_bind, outcome_of, ih]
  | case7 function argument called => simp only [observe, called, outcome_of]
  | case8 expr => rw [observe, outcome_of] <;> assumption

/-- A reference denotes what its path leads to in a frame, and has the value of that in the frame's scope. -/
structure ReadIn (m : Model) (featureValue : ElementId → ElementId → Evaluated Value) (frame : Frame)
    (reading : Reading) : Prop where
  found : m.lookup frame reading.path = .ok reading.target
  value : reading.outcome = m.elementValue featureValue reading.target frame.scope

/-- However deep in an expression a reference is, it is read in the frame of the whole. -/
theorem each_observe (expr : Expr) :
    Each (m.ReadIn featureValue frame) (m.observe env featureValue frame expr) := by
  induction expr using observe.induct with
  | case1 path =>
    rw [observe]
    exact (Each.of _).bind fun target found => .note ⟨found, rfl⟩
  | case2 target name ih =>
    rw [observe]
    exact ih.bind fun _ _ => .of _
  | case3 op operand ih =>
    rw [observe]
    exact ih.bind fun _ _ => .of _
  | case4 op lhs rhs left right =>
    rw [observe]
    refine left.bind fun value _ => ?_
    split
    · exact .of _
    · exact right.bind fun _ _ => .of _
  | case5 condition whenTrue whenFalse test positive negative =>
    rw [observe]
    refine test.bind fun value _ => ?_
    split
    · exact positive
    · exact negative
    · exact .of _
  | case6 function argument apply called ih =>
    simp only [observe, called]
    exact ih.bind fun _ _ => .of _
  | case7 function argument called =>
    simp only [observe, called]
    exact .of _
  | case8 expr =>
    rw [observe]
    · exact .of _
    all_goals assumption

end Model
end StructuralModel
