import StructuralModel.Proofs.EffectiveFeature
import StructuralModel.Proofs.StackGuard

/-! What an expression refers to is never out of reach. Every feature that evaluation comes to is evaluated in a
scope that sees it, so only the feature that is asked for from outside can be missing in its scope. -/

namespace StructuralModel

/-- The error does not say that a scope cannot see a feature. -/
def EvaluationError.Within (error : EvaluationError) : Prop :=
  ∀ feature scope, error ≠ .resolution (.notReachable feature scope)

namespace Model

variable {m : Model} {env : Environment}

theorem resolve_notReachable_iff {feature scope : ElementId} {name place : String} :
    m.resolve feature scope = .error (.notReachable name place) ↔
      ¬ m.Inherited feature scope ∧ name = m.path feature ∧ place = m.path scope := by
  rw [resolve, ← isReachable_iff]
  cases reachable : m.isReachable feature (m.generalClosure scope) with
  | false => simp [eq_comm]
  | true =>
    simp only [Bool.not_true, Bool.false_eq_true, if_false, not_true_eq_false, false_and, iff_false]
    split <;> simp

theorem effective_notReachable_iff {feature scope : ElementId} {name place : String} :
    m.effective feature scope = .error (.resolution (.notReachable name place)) ↔
      ¬ m.Sees scope feature ∧ name = m.path feature ∧ place = m.path scope := by
  rw [effective, Sees]
  cases owned : m.owner? feature with
  | none => simp
  | some owner =>
    have inherited : m.Inherited feature scope ↔ m.Reaches scope owner := by simp [Inherited, owned]
    have outcome : m.resolved feature scope = .error (.resolution (.notReachable name place)) ↔
        m.resolve feature scope = .error (.notReachable name place) := by
      rw [resolved]
      cases m.resolve feature scope <;> simp [Except.mapError]
    simp [outcome, resolve_notReachable_iff, inherited]

/-- Resolution within an evaluation is asked for what the scope inherits. -/
theorem compatible_within : Compatible m (ErrorsAmong EvaluationError.Within) where
  operational operational error failed feature scope same := by
    have own := operational.own error failed
    simp [same] at own
  resolved target scope inherited error failed feature place same := by
    obtain ⟨owner, owned, reached⟩ := isInherited_iff.mp inherited
    have missing : m.effective target scope = .error (.resolution (.notReachable feature place)) := by
      rw [effective, owned, ← same]
      exact failed
    exact (effective_notReachable_iff.mp missing).1 (sees_of_isInherited inherited)
  bind := ErrorsAmong.bind

section expression

variable {featureValue : ElementId → ElementId → Evaluated Value}
  (reports : ∀ feature scope name place, featureValue feature scope = .error (.resolution (.notReachable name place)) →
    ¬ m.Sees scope feature)

include reports

theorem errorsAmong_within (feature scope : Nat) (seen : m.Sees scope feature) :
    ErrorsAmong EvaluationError.Within Value (featureValue feature scope) (featureValue feature scope) := by
  intro error failed name place same
  rw [same] at failed
  exact reports feature scope name place failed seen

/-- If features are reported only where they are not seen, none is reported for an expression. -/
theorem evaluateWith_within (frame : Frame) (expr : Expr) (name place : String) :
    m.evaluateWith env featureValue frame expr ≠ .error (.resolution (.notReachable name place)) := by
  intro failed
  have within : ErrorsAmong EvaluationError.Within Value (m.evaluateWith env featureValue frame expr)
      (m.evaluateWith env featureValue frame expr) :=
    evaluateWith_congr compatible_within
      (fun feature scope _ _ seen => errorsAmong_within reports feature scope seen) frame expr
  exact within _ failed name place rfl

end expression

/-- An evaluation fails for a feature that is out of reach only where it begins. -/
theorem featureValue_notReachable_iff {room : Nat} {active : List Access} {feature scope : ElementId}
    {name place : String} :
    m.featureValue env room active feature scope = .error (.resolution (.notReachable name place)) ↔
      ¬ m.Sees scope feature ∧ name = m.path feature ∧ place = m.path scope := by
  rw [← effective_notReachable_iff]
  induction room generalizing active feature scope name place with
  | zero =>
    rw [featureValue_eq]
    cases m.effective feature scope with
    | error error => simp
    | ok chosen =>
      rw [ok_bind]
      split <;> simp
  | succ room ih =>
    rw [featureValue_eq]
    cases m.effective feature scope with
    | error error => simp
    | ok chosen =>
      rw [ok_bind]
      split
      next => simp
      next =>
        simp only [reduceCtorEq, iff_false]
        rw [expressedValue]
        split
        next expr expressed =>
          refine evaluateWith_within ?_ _ expr name place
          intro feature scope name place failed
          exact (effective_notReachable_iff.mp (ih.mp failed)).1
        next => simp

theorem not_sees_iff {feature scope : ElementId} :
    ¬ m.Sees scope feature ↔ ∃ owner, m.owner? feature = some owner ∧ owner ∉ m.lineage scope := by
  simp only [Sees, mem_lineage, not_forall, exists_prop]

/-- Expressions are never out of reach of what they refer to: not from outside, and not within the evaluation of a
feature. A feature that is asked for is out of reach exactly if it has an owner that is not in the closure of the
scope, and then the error names that feature and that scope. -/
theorem references_reachable (m : Model) (env : Environment) (name place : String) :
    (∀ expr scope, m.evaluate env expr scope ≠ .error (.resolution (.notReachable name place))) ∧
    (∀ room active frame expr, m.evaluateWith env (m.featureValue env room active) frame expr ≠
      .error (.resolution (.notReachable name place))) ∧
    (∀ feature scope, m.evaluateFeature env feature scope = .error (.resolution (.notReachable name place)) ↔
      m.isFeature feature = true ∧ (∃ owner, m.owner? feature = some owner ∧ owner ∉ m.lineage scope) ∧
        name = m.path feature ∧ place = m.path scope) := by
  have reports : ∀ {room active} (feature scope : ElementId) (name place : String),
      m.featureValue env room active feature scope = .error (.resolution (.notReachable name place)) →
      ¬ m.Sees scope feature := fun _ _ _ _ failed => (featureValue_notReachable_iff.mp failed).1
  refine ⟨?_, ?_, ?_⟩
  · intro expr scope
    exact evaluateWith_within reports ⟨scope, none⟩ expr name place
  · intro room active frame expr
    exact evaluateWith_within reports frame expr name place
  · intro feature scope
    rw [evaluateFeature]
    by_cases kind : m.isFeature feature = true
    · rw [if_pos kind, featureValue_notReachable_iff, not_sees_iff]
      simp only [kind, true_and]
    · rw [if_neg kind]
      simp [kind]

end Model
end StructuralModel
