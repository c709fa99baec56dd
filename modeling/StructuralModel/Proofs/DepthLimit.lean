import Mathlib
import StructuralModel.Proofs.StackGuard

/-! The limit on depth stops evaluations and does nothing else. What is found below it is found below every
higher limit, since nothing between a feature and the whole expression takes notice of the error. -/

namespace StructuralModel.Model

/-- The outcome does not come from the limit. -/
def NotCut {α : Type} (outcome : Evaluated α) : Prop :=
  ∀ limit, outcome ≠ .error (.depthLimitExceeded limit)

theorem NotCut.of_bind {α β : Type} {first : Evaluated α} {next : α → Evaluated β} (uncut : NotCut (first >>= next)) :
    NotCut first := by
  intro limit cut
  apply uncut limit
  rw [cut, error_bind]

/-- The other outcome is the same wherever the first does not come from the limit. -/
def Deepens (α : Type) (outcome other : Evaluated α) : Prop :=
  NotCut outcome → other = outcome

theorem congruent_deepens : Congruent Deepens where
  settled _ _ := rfl
  bind {α β first second next other} same rest uncut := by
    have equal : second = first := same uncut.of_bind
    subst equal
    cases evaluated : second with
    | ok value =>
      rw [evaluated] at uncut
      exact rest value evaluated uncut
    | error error => rfl

variable {m : Model} {env : Environment}

/-- The limit is looked at where a feature is entered, and nowhere in an expression. -/
theorem evaluateWith_maxDepth (env : Environment) (deeper : Nat)
    {featureValue : ElementId → ElementId → Evaluated Value} (frame : Frame) (expr : Expr) :
    m.evaluateWith { env with maxDepth := deeper } featureValue frame expr =
      m.evaluateWith env featureValue frame expr := by
  induction expr using evaluateWith.induct with
  | case1 | case2 | case3 | case4 | case5 => simp only [evaluateWith]
  | case6 target name ih => simp only [evaluateWith, ih]
  | case7 op operand ih => simp only [evaluateWith, ih]
  | case8 op lhs rhs left right => simp only [evaluateWith, left, right]
  | case9 condition whenTrue whenFalse test positive negative =>
    simp only [evaluateWith, test, positive, negative]
  | case10 function arguments called => rw [evaluateWith_unknown _ called, evaluateWith_unknown _ called]
  | case11 function arguments called => rw [evaluateWith_count _ (.inl called), evaluateWith_count _ (.inl called)]
  | case12 function arguments called => rw [evaluateWith_count _ (.inr called), evaluateWith_count _ (.inr called)]
  | case13 function arguments kind called => rw [evaluateWith_aggregate _ called, evaluateWith_aggregate _ called]
  | case14 function numeric called argument ih => rw [evaluateWith_numeric _ called, evaluateWith_numeric _ called, ih]
  | case16 function called argument ih => rw [evaluateWith_sqrt _ called, evaluateWith_sqrt _ called, ih]
  | case15 function numeric called arguments wrong =>
    have arity := length_ne_one wrong
    rw [evaluateWith_arity (.inl ⟨numeric, called⟩) arity, evaluateWith_arity (.inl ⟨numeric, called⟩) arity]
  | case17 function called arguments wrong =>
    have arity := length_ne_one wrong
    rw [evaluateWith_arity (.inr called) arity, evaluateWith_arity (.inr called) arity]

theorem expressedValue_maxDepth (env : Environment) (deeper : Nat)
    {featureValue : ElementId → ElementId → Evaluated Value} (chosen scope : ElementId) :
    m.expressedValue { env with maxDepth := deeper } featureValue chosen scope =
      m.expressedValue env featureValue chosen scope := by
  rw [expressedValue, expressedValue]
  cases m.value? chosen with
  | none => rfl
  | some expr => exact evaluateWith_maxDepth env deeper ..

/-- A cycle is told before the limit is looked at, so more room changes neither values nor cycles. -/
theorem featureValue_deepens {room more : Nat} (enough : room ≤ more) (deeper : Nat) (active : List Access)
    (feature scope : ElementId) : Deepens Value (m.featureValue env room active feature scope)
      (m.featureValue { env with maxDepth := deeper } more active feature scope) := by
  induction room generalizing more active feature scope with
  | zero =>
    rw [featureValue_eq, featureValue_eq]
    apply congruent_deepens.own_bind (settled_effective ..)
    intro chosen _ uncut
    by_cases again : (chosen, scope) ∈ active
    · rw [if_pos again, if_pos again]
    · rw [if_neg again] at uncut
      exact absurd rfl (uncut env.maxDepth)
  | succ room ih =>
    obtain ⟨more, rfl⟩ : ∃ less, more = less + 1 := ⟨more - 1, by omega⟩
    rw [featureValue_eq, featureValue_eq]
    apply congruent_deepens.own_bind (settled_effective ..)
    intro chosen _ uncut
    by_cases again : (chosen, scope) ∈ active
    · rw [if_pos again, if_pos again]
    · rw [if_neg again] at uncut ⊢
      rw [if_neg again]
      dsimp only at uncut ⊢
      rw [expressedValue_maxDepth env deeper]
      refine expressedValue_congr (congruent_deepens.compatible m) ?_ chosen scope uncut
      intro feature scope _ _ _
      exact ih (by omega) _ feature scope

theorem evaluate_deepens {deeper : Nat} (enough : env.maxDepth ≤ deeper) (expr : Expr) (scope : ElementId) :
    Deepens Value (m.evaluate env expr scope) (m.evaluate { env with maxDepth := deeper } expr scope) := by
  rw [evaluate, evaluate, evaluateWith_maxDepth env deeper]
  apply evaluateWith_congr (congruent_deepens.compatible m)
  intro feature scope _ _ _
  exact featureValue_deepens enough deeper [] feature scope

theorem evaluateFeature_deepens {deeper : Nat} (enough : env.maxDepth ≤ deeper) (feature scope : ElementId) :
    Deepens Value (m.evaluateFeature env feature scope)
      (m.evaluateFeature { env with maxDepth := deeper } feature scope) := by
  rw [evaluateFeature, evaluateFeature]
  split
  · exact featureValue_deepens enough deeper [] feature scope
  · exact fun _ => rfl

theorem evaluateFeature_not_too_deep {feature scope : Nat} (inside : scope < m.size)
    (enough : m.size * m.size ≤ env.maxDepth) : NotCut (m.evaluateFeature env feature scope) := by
  intro limit failed
  rw [evaluateFeature] at failed
  split at failed
  next kind =>
    exact featureValue_not_too_deep env.maxDepth [] feature scope (lt_of_isFeature kind) inside (spacious_nil enough) _
      failed limit rfl
  next => cases failed

/-- What is not cut off by a limit is the same under every higher one, and with room for all pairs of elements
nothing is cut off. -/
theorem evaluate_limit (m : Model) (env : Environment) {deeper : Nat} (enough : env.maxDepth ≤ deeper) (expr : Expr)
    (feature scope : Nat) :
    (NotCut (m.evaluate env expr scope) →
      m.evaluate { env with maxDepth := deeper } expr scope = m.evaluate env expr scope) ∧
    (NotCut (m.evaluateFeature env feature scope) →
      m.evaluateFeature { env with maxDepth := deeper } feature scope = m.evaluateFeature env feature scope) ∧
    (m.size ^ 2 ≤ env.maxDepth →
      NotCut (m.evaluate env expr scope) ∧ (scope < m.size → NotCut (m.evaluateFeature env feature scope))) := by
  refine ⟨evaluate_deepens enough expr scope, evaluateFeature_deepens enough feature scope, ?_⟩
  intro spacious
  have room : m.size * m.size ≤ env.maxDepth := by simpa [Nat.pow_two] using spacious
  exact ⟨evaluate_not_too_deep room, fun inside => evaluateFeature_not_too_deep inside room⟩

/-- Below a limit of two the cycle of `mutualReferences` is found, and below one it is not reached. -/
theorem evaluate_limit_mutualReferences :
    mutualReferences.evaluate { sixteenDeep with maxDepth := 1 } (.reference (.simple "a")) 0 =
        .error (.depthLimitExceeded 1) ∧
      ({ sixteenDeep with maxDepth := 2 } : Environment).maxDepth ≤ 16 ∧
      NotCut (mutualReferences.evaluate { sixteenDeep with maxDepth := 2 } (.reference (.simple "a")) 0) ∧
      mutualReferences.evaluate sixteenDeep (.reference (.simple "a")) 0 =
        .error (.cyclicReference "Loop::a" "Loop") := by
  have cut : mutualReferences.evaluate { sixteenDeep with maxDepth := 1 } (.reference (.simple "a")) 0 =
      .error (.depthLimitExceeded 1) := by cbv
  have cycle : mutualReferences.evaluate { sixteenDeep with maxDepth := 2 } (.reference (.simple "a")) 0 =
      .error (.cyclicReference "Loop::a" "Loop") := by cbv
  have uncut : NotCut (mutualReferences.evaluate { sixteenDeep with maxDepth := 2 } (.reference (.simple "a")) 0) := by
    rw [cycle]
    intro limit same
    cases same
  have enough : ({ sixteenDeep with maxDepth := 2 } : Environment).maxDepth ≤ 16 := by decide
  have deeper := (evaluate_limit mutualReferences _ enough (.reference (.simple "a")) 1 0).1 uncut
  exact ⟨cut, enough, uncut, deeper.trans cycle⟩

end StructuralModel.Model
