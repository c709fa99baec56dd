import StructuralModel.Proofs.ValueRules

/-! The errors that the guard against endless evaluation raises are its own: no operator, function,
lookup or resolution raises one. Those of resolution are its own as well. -/

namespace StructuralModel

/-- Errors that say something about the evaluation and nothing about the model. -/
@[simp] def EvaluationError.isGuard : EvaluationError → Bool
  | .cyclicReference .. | .depthLimitExceeded _ => true
  | _ => false

/-- A value, or an error that the guard did not raise. -/
structure Settled {α : Type} (outcome : Evaluated α) : Prop where
  own : ∀ error, outcome = .error error → error.isGuard = false

@[simp] theorem ok_bind {α β : Type} (value : α) (next : α → Evaluated β) :
    (.ok value : Evaluated α) >>= next = next value := rfl

@[simp] theorem error_bind {α β : Type} (error : EvaluationError) (next : α → Evaluated β) :
    (.error error : Evaluated α) >>= next = .error error := rfl

namespace Settled

variable {α β : Type}

@[simp] theorem ok (value : α) : Settled (.ok value : Evaluated α) :=
  ⟨fun _ impossible => nomatch impossible⟩

@[simp] theorem pure (value : α) : Settled (Pure.pure value : Evaluated α) := ok value

@[simp] theorem error_iff {error : EvaluationError} :
    Settled (.error error : Evaluated α) ↔ error.isGuard = false :=
  ⟨fun settled => settled.own error rfl, fun own => ⟨fun _ same => Except.error.inj same ▸ own⟩⟩

@[simp] theorem throw_iff {error : EvaluationError} :
    Settled (throw error : Evaluated α) ↔ error.isGuard = false := error_iff

theorem bind {outcome : Evaluated α} {next : α → Evaluated β} (first : Settled outcome)
    (second : ∀ value, outcome = .ok value → Settled (next value)) : Settled (outcome >>= next) := by
  cases outcome with
  | ok value => exact second value rfl
  | error error => exact error_iff.mpr (first.own error rfl)

theorem of_bind {outcome : Evaluated α} {next : α → Evaluated β} (settled : Settled (outcome >>= next)) :
    Settled outcome := by
  cases outcome with
  | ok value => exact ok value
  | error error => exact error_iff.mpr (error_iff.mp settled)

theorem map {outcome : Evaluated α} {f : α → β} (first : Settled outcome) :
    Settled (outcome.map f) := by
  cases outcome with
  | ok value => simp [Except.map]
  | error error => exact error_iff.mpr (first.own error rfl)

end Settled

/-- Errors of operators, functions and lookups, about the names and values that they are given. -/
@[simp] def EvaluationError.isOperational : EvaluationError → Bool
  | .resolution _ | .cyclicReference .. | .depthLimitExceeded _ => false
  | _ => true

/-- A value, or an error that neither resolution nor the guard raised. -/
structure Operational {α : Type} (outcome : Evaluated α) : Prop where
  own : ∀ error, outcome = .error error → error.isOperational = true

namespace Operational

variable {α β : Type}

@[simp] theorem ok (value : α) : Operational (.ok value : Evaluated α) :=
  ⟨fun _ impossible => nomatch impossible⟩

@[simp] theorem pure (value : α) : Operational (Pure.pure value : Evaluated α) := ok value

@[simp] theorem error_iff {error : EvaluationError} :
    Operational (.error error : Evaluated α) ↔ error.isOperational = true :=
  ⟨fun operational => operational.own error rfl, fun own => ⟨fun _ same => Except.error.inj same ▸ own⟩⟩

@[simp] theorem throw_iff {error : EvaluationError} :
    Operational (throw error : Evaluated α) ↔ error.isOperational = true := error_iff

theorem bind {outcome : Evaluated α} {next : α → Evaluated β} (first : Operational outcome)
    (second : ∀ value, outcome = .ok value → Operational (next value)) : Operational (outcome >>= next) := by
  cases outcome with
  | ok value => exact second value rfl
  | error error => exact error_iff.mpr (first.own error rfl)

theorem settled {outcome : Evaluated α} (operational : Operational outcome) : Settled outcome := by
  constructor
  intro error failed
  have own := operational.own error failed
  cases error <;> simp_all

end Operational

namespace Operators

theorem operational_unary (op : UnaryOp) (operand : Value) : Operational (unary op operand) := by
  rw [unary.eq_def]
  split <;> simp

theorem operational_convert (op : BinaryOp) (target : PhysicalUnit) (x : Float) (unit : PhysicalUnit)
    (table : ConversionTable) : Operational (convert op target x unit table) := by
  rw [convert]
  split <;> simp

theorem operational_order (op : BinaryOp) (lhs rhs : Value) (table : ConversionTable) :
    Operational (order op lhs rhs table) := by
  rw [order.eq_def]
  split
  case h_2 => exact (operational_convert ..).bind fun _ _ => .ok _
  all_goals simp [typeMismatch]

theorem operational_equals (lhs rhs : Value) (table : ConversionTable) : Operational (equals lhs rhs table) := by
  rw [equals.eq_def]
  split
  case h_2 => exact (operational_convert ..).bind fun _ _ => .ok _
  all_goals simp [typeMismatch]

theorem operational_logical (op : BinaryOp) (lhs rhs : Value) : Operational (logical op lhs rhs) := by
  rw [logical.eq_def]
  split <;> simp [typeMismatch]

theorem operational_numbers (op : BinaryOp) (x y : Float) : Operational (numbers op x y) := by
  rw [numbers.eq_def]
  split <;> (try split) <;> simp

theorem operational_collapse (op : BinaryOp) (x : Float) (unit : PhysicalUnit) (table : ConversionTable) :
    Operational (collapse op x unit table) := by
  rw [collapse]
  split <;> (try split) <;> simp

theorem operational_quantities (op : BinaryOp) (x : Float) (xUnit : PhysicalUnit) (y : Float)
    (yUnit : PhysicalUnit) (table : ConversionTable) : Operational (quantities op x xUnit y yUnit table) := by
  rw [quantities.eq_def]
  split
  · exact (operational_convert ..).bind fun _ _ => (operational_numbers ..).bind fun _ _ => .ok _
  · exact (operational_convert ..).bind fun _ _ => (operational_numbers ..).bind fun _ _ => .ok _
  · exact (operational_convert ..).bind fun _ _ => (operational_numbers ..).bind fun _ _ => .ok _
  · split
    · exact operational_collapse ..
    · simp
  · refine (operational_numbers ..).bind fun _ _ => ?_
    split
    · exact operational_collapse ..
    · simp
  · simp

theorem operational_quantityWithScalar (op : BinaryOp) (x : Float) (unit : PhysicalUnit) (y : Float) :
    Operational (quantityWithScalar op x unit y) := by
  rw [quantityWithScalar.eq_def]
  split
  · exact (operational_numbers ..).bind fun _ _ => .ok _
  · exact (operational_numbers ..).bind fun _ _ => .ok _
  · split
    · simp
    · split <;> simp
  · simp

theorem operational_scalarWithQuantity (op : BinaryOp) (x y : Float) (unit : PhysicalUnit) :
    Operational (scalarWithQuantity op x y unit) := by
  rw [scalarWithQuantity.eq_def]
  split
  · simp
  · split
    · exact (operational_numbers ..).bind fun _ _ => .ok _
    · simp
  · simp
  · simp

theorem operational_arithmetic (op : BinaryOp) (lhs rhs : Value) (table : ConversionTable) :
    Operational (arithmetic op lhs rhs table) := by
  rw [arithmetic.eq_def]
  split
  · exact (operational_numbers ..).bind fun _ _ => .ok _
  · split <;> simp [typeMismatch]
  · exact operational_quantities ..
  · exact operational_quantityWithScalar ..
  · exact operational_scalarWithQuantity ..
  · simp [typeMismatch]

theorem operational_binary (op : BinaryOp) (lhs rhs : Value) (table : ConversionTable) :
    Operational (binary op lhs rhs table) := by
  rw [binary.eq_def]
  split
  case h_1 | h_2 | h_3 => exact operational_logical ..
  case h_4 | h_5 => exact (operational_equals ..).bind fun _ _ => .ok _
  case h_6 | h_7 | h_8 | h_9 => exact (operational_order ..).bind fun _ _ => .ok _
  all_goals exact operational_arithmetic ..

end Operators

namespace Model

variable {m : Model}

theorem operational_lookup (frame : Frame) (path : Path) : Operational (m.lookup frame path) := by
  rw [lookup]
  split <;> simp

theorem settled_resolved (feature scope : ElementId) : Settled (m.resolved feature scope) := by
  rw [resolved]
  cases m.resolve feature scope with
  | ok chosen => exact .ok chosen
  | error error => exact Settled.error_iff.mpr rfl

theorem settled_effective (feature scope : ElementId) : Settled (m.effective feature scope) := by
  rw [effective]
  split
  · exact settled_resolved ..
  · simp

theorem operational_typeArgument (frame : Frame) (function : String) (argument : Expr) :
    Operational (m.typeArgument frame function argument) := by
  rw [typeArgument.eq_def]
  split
  · refine (operational_lookup ..).bind fun type _ => ?_
    dsimp only
    split <;> simp
  · simp

theorem operational_featureArgument (function : String) (argument : Expr) :
    Operational (featureArgument function argument) := by
  rw [featureArgument.eq_def]
  split <;> simp

theorem operational_countInstances (frame : Frame) (function : String) (arguments : List Expr) :
    Operational (m.countInstances frame function arguments) := by
  rw [countInstances.eq_def]
  split
  · exact (operational_typeArgument ..).bind fun _ _ => .ok _
  · simp

theorem operational_weighted (value : Value) (weight : Float) (table : ConversionTable) :
    Operational (weighted value weight table) := by
  rw [weighted]
  split
  · simp
  · exact Operators.operational_binary ..

theorem operational_combine (kind : Aggregate) (table : ConversionTable) (result? : Option Value)
    (value : Value) (weight : Float) : Operational (Aggregate.combine kind table result? value weight) := by
  rw [Aggregate.combine.eq_def]
  split
  · exact operational_weighted ..
  · exact operational_weighted ..
  · exact (operational_weighted ..).bind fun _ _ => Operators.operational_binary ..
  · exact (operational_weighted ..).bind fun _ _ => Operators.operational_binary ..
  · simp
  · simp
  · exact (Operators.operational_order ..).bind fun _ _ => .ok _
  · exact (Operators.operational_order ..).bind fun _ _ => .ok _

theorem operational_conclude (kind : Aggregate) (table : ConversionTable) (type scope : ElementId)
    (found : List Instance) (gathered : Option Value) :
    Operational (kind.conclude m table type scope found gathered) := by
  rw [Aggregate.conclude.eq_def]
  split
  · split <;> simp
  · split
    · exact Operators.operational_binary ..
    · simp

theorem operational_applyNumeric (function : NumericFunction) (value : Value) :
    Operational (applyNumeric function value) := by
  rw [applyNumeric.eq_def]
  split <;> simp

theorem operational_sqrtValue (value : Value) : Operational (sqrtValue value) := by
  rw [sqrtValue.eq_def]
  split
  · simp
  · split
    · simp
    · split
      · split <;> simp
      · simp

end Model
end StructuralModel
