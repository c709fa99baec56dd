import Mathlib
import StructuralModel.Model.Edit
import StructuralModel.Proofs.FeatureDependence
import StructuralModel.Proofs.RuleEvaluation

/-! Remembering what is under evaluation changes nothing except that endless evaluations end. A feature
that has a value at all has it without coming back to itself, so the guard stops only what would not
end; and as there are finitely many accesses, everything endless comes back to one of them. -/

namespace StructuralModel.Model

variable {m : Model} {env : Environment}

/-- The other outcome is the same wherever the first is not the guard's. -/
def Extends (α : Type) (outcome other : Evaluated α) : Prop :=
  Settled outcome → other = outcome

theorem congruent_extends : Congruent Extends where
  settled _ _ := rfl
  bind {α β first second next other} same rest settled := by
    have equal := same settled.of_bind
    subst equal
    cases evaluated : second with
    | ok value =>
      rw [evaluated] at settled
      exact rest value evaluated settled
    | error error => rfl

/-- All errors of the outcome are of a kind. -/
def ErrorsAmong (allowed : EvaluationError → Prop) (α : Type) (outcome _other : Evaluated α) : Prop :=
  ∀ error, outcome = .error error → allowed error

theorem ErrorsAmong.bind {allowed : EvaluationError → Prop} {α β : Type} {first second : Evaluated α}
    {next other : α → Evaluated β} (same : ErrorsAmong allowed α first second)
    (rest : ∀ value, first = .ok value → ErrorsAmong allowed β (next value) (other value)) :
    ErrorsAmong allowed β (first >>= next) (second >>= other) := by
  intro error failed
  cases evaluated : first with
  | ok value =>
    rw [evaluated] at failed
    exact rest value evaluated error failed
  | error first =>
    rw [evaluated] at failed
    exact Except.error.inj failed ▸ same first evaluated

theorem congruent_errorsAmong {allowed : EvaluationError → Prop}
    (own : ∀ error : EvaluationError, error.isGuard = false → allowed error) :
    Congruent (ErrorsAmong allowed) where
  settled settled error failed := own error (settled.own error failed)
  bind := ErrorsAmong.bind

theorem congruent_not_too_deep :
    Congruent (ErrorsAmong fun error => ∀ limit, error ≠ .depthLimitExceeded limit) :=
  congruent_errorsAmong fun error own limit same => by simp [same] at own

theorem expressedValue_congr {related : (α : Type) → Evaluated α → Evaluated α → Prop}
    (compatible : Compatible m related) {first second : ElementId → ElementId → Evaluated Value}
    (agree : ∀ feature scope : Nat, feature < m.size → scope < m.size → m.Sees scope feature →
      related Value (first feature scope) (second feature scope)) (chosen scope : ElementId) :
    related Value (m.expressedValue env first chosen scope) (m.expressedValue env second chosen scope) := by
  rw [expressedValue, expressedValue]
  split
  · exact evaluateWith_congr compatible agree ..
  · exact compatible.operational (.ok _)

theorem featureValue_eq (room : Nat) (active : List Access) (feature scope : ElementId) :
    m.featureValue env room active feature scope = m.effective feature scope >>= fun chosen =>
      if (chosen, scope) ∈ active then .error (.cyclicReference (m.path chosen) (m.path scope))
      else match room with
        | 0 => .error (.depthLimitExceeded env.maxDepth)
        | room + 1 => m.expressedValue env (m.featureValue env room ((chosen, scope) :: active)) chosen scope := by
  cases room with
  | zero =>
    rw [featureValue]
    refine bind_congr fun chosen => ?_
    by_cases again : (chosen, scope) ∈ active
    · simp only [again, if_true]
      rfl
    · simp only [again, if_false]
      rfl
  | succ room =>
    rw [featureValue]
    refine bind_congr fun chosen => ?_
    by_cases again : (chosen, scope) ∈ active
    · simp only [again, if_true]
      rfl
    · simp only [again, if_false, expressedValue]
      cases m.value? chosen <;> rfl

/-- Guarded evaluation follows the rules whenever it is not stopped. -/
theorem featureYields_featureValue (room : Nat) (active : List Access) (feature scope : ElementId)
    (settled : Settled (m.featureValue env room active feature scope)) :
    FeatureYields m env feature scope (m.featureValue env room active feature scope) := by
  induction room generalizing active feature scope with
  | zero =>
    rw [featureValue_eq] at settled ⊢
    cases resolved : m.effective feature scope with
    | error error => exact .unresolved resolved
    | ok chosen =>
      simp only [resolved, ok_bind] at settled
      split at settled <;> simp at settled
  | succ room ih =>
    rw [featureValue_eq] at settled ⊢
    cases resolved : m.effective feature scope with
    | error error => exact .unresolved resolved
    | ok chosen =>
      simp only [resolved, ok_bind] at settled ⊢
      split at settled
      next => simp at settled
      next new =>
        rw [if_neg new]
        cases expressed : m.value? chosen with
        | none =>
          simp only [expressedValue, expressed]
          exact .unexpressed resolved expressed
        | some expr =>
          simp only [expressedValue, expressed] at settled ⊢
          exact .expressed resolved expressed
            (evaluates_evaluateWith (fun feature scope => ih _ feature scope) ⟨scope, some chosen⟩ expr settled)

/-- More depth does not change a value that has been found. -/
theorem valueWithin_extends {depth deeper : Nat} (more : depth ≤ deeper) (feature scope : ElementId) :
    Extends Value (m.valueWithin env depth feature scope) (m.valueWithin env deeper feature scope) := by
  induction depth generalizing deeper feature scope with
  | zero => exact fun settled => by simp [valueWithin] at settled
  | succ depth ih =>
    obtain ⟨deeper, rfl⟩ : ∃ less, deeper = less + 1 := ⟨deeper - 1, by omega⟩
    exact congruent_extends.own_bind (settled_effective ..) fun chosen _ =>
      expressedValue_congr (congruent_extends.compatible m) (fun feature scope _ _ _ => ih (by omega) feature scope) chosen scope

/-- The value of an access is found within less than the depth. -/
def FoundWithin (m : Model) (env : Environment) (depth : Nat) (access : Access) : Prop :=
  ∃ less < depth, Settled (m.expressedValue env (m.valueWithin env less) access.1 access.2)

/-- There is room for all accesses that are not under evaluation yet. -/
structure Spacious (m : Model) (room : Nat) (active : List Access) : Prop where
  distinct : active.Nodup
  known : ∀ access ∈ active, access.1 < m.size ∧ access.2 < m.size
  enough : m.size * m.size ≤ room + active.length

theorem length_le_of_known {active : List Access} (distinct : active.Nodup)
    (known : ∀ access ∈ active, access.1 < m.size ∧ access.2 < m.size) :
    active.length ≤ m.size * m.size := by
  have inside : active.toFinset ⊆ Finset.range m.size ×ˢ Finset.range m.size := by
    intro access member
    have bounds := known access (List.mem_toFinset.mp member)
    simpa [Finset.mem_product] using bounds
  have count := Finset.card_le_card inside
  rwa [List.toFinset_card_of_nodup distinct, Finset.card_product, Finset.card_range] at count

/-- A new access takes some of the room, which therefore is not used up. -/
theorem Spacious.enter {room : Nat} {active : List Access} (spacious : m.Spacious room active)
    {access : Access} (new : access ∉ active) (known : access.1 < m.size ∧ access.2 < m.size) :
    ∃ less, room = less + 1 ∧ m.Spacious less (access :: active) := by
  have distinct : (access :: active).Nodup := List.nodup_cons.mpr ⟨new, spacious.distinct⟩
  have bounded : ∀ other ∈ access :: active, other.1 < m.size ∧ other.2 < m.size := by
    intro other member
    rcases List.mem_cons.mp member with rfl | member
    · exact known
    · exact spacious.known other member
  have limit := length_le_of_known distinct bounded
  have enough := spacious.enough
  rw [List.length_cons] at limit
  refine ⟨room - 1, by omega, distinct, bounded, ?_⟩
  rw [List.length_cons]
  omega

theorem spacious_nil {room : Nat} (enough : m.size * m.size ≤ room) : m.Spacious room [] :=
  ⟨.nil, by simp, by simpa using enough⟩

/-- A value that is found at all is found at a least depth, below which its access is not found. -/
theorem exists_least_depth {depth : Nat} {chosen scope : ElementId}
    (settled : Settled (m.expressedValue env (m.valueWithin env depth) chosen scope)) :
    ∃ least ≤ depth, m.expressedValue env (m.valueWithin env depth) chosen scope =
      m.expressedValue env (m.valueWithin env least) chosen scope ∧ ¬ m.FoundWithin env least (chosen, scope) := by
  classical
  have exists_least : ∃ least, Settled (m.expressedValue env (m.valueWithin env least) chosen scope) :=
    ⟨depth, settled⟩
  refine ⟨Nat.find exists_least, Nat.find_min' exists_least settled, ?_, ?_⟩
  · exact expressedValue_congr (congruent_extends.compatible m)
      (fun feature scope _ _ _ => valueWithin_extends (Nat.find_min' exists_least settled) feature scope)
      chosen scope (Nat.find_spec exists_least)
  · rintro ⟨below, bound, value⟩
    exact Nat.find_min exists_least bound value

/-- Where no access under evaluation has been found, guarded evaluation finds what unguarded evaluation
does. -/
theorem featureValue_extends (depth room : Nat) (active : List Access) (feature scope : Nat)
    (known : feature < m.size) (inside : scope < m.size) (spacious : m.Spacious room active)
    (pending : ∀ access ∈ active, ¬ m.FoundWithin env depth access) :
    Extends Value (m.valueWithin env depth feature scope) (m.featureValue env room active feature scope) := by
  induction depth using Nat.strongRecOn generalizing room active feature scope with
  | ind depth ih =>
    cases depth with
    | zero => exact fun settled => by simp [valueWithin] at settled
    | succ depth =>
      rw [valueWithin, featureValue_eq]
      refine congruent_extends.own_bind (settled_effective ..) fun chosen resolved settled => ?_
      have found : m.FoundWithin env (depth + 1) (chosen, scope) := ⟨depth, by omega, settled⟩
      have new : (chosen, scope) ∉ active := fun again => pending _ again found
      obtain ⟨less, rfl, entered⟩ := spacious.enter new ⟨lt_of_effective known resolved, inside⟩
      rw [if_neg new]
      -- The access itself may have been found at `depth`. At the least depth it is still pending like the
      -- others, so the induction hypothesis applies there.
      obtain ⟨least, least_le, same, unfound⟩ := exists_least_depth settled
      rw [same] at settled ⊢
      refine expressedValue_congr (congruent_extends.compatible m) (fun feature' scope' known' inside' _ => ?_)
        chosen scope settled
      refine ih least (by omega) less _ feature' scope' known' inside' entered ?_
      intro access member
      rcases List.mem_cons.mp member with rfl | member
      · exact unfound
      · rintro ⟨below, bound, value⟩
        exact pending access member ⟨below, by omega, value⟩

/-- With room for all accesses the limit on depth is never met. -/
theorem featureValue_not_too_deep (room : Nat) (active : List Access) (feature scope : Nat)
    (known : feature < m.size) (inside : scope < m.size) (spacious : m.Spacious room active) :
    ErrorsAmong (fun error => ∀ limit, error ≠ .depthLimitExceeded limit) Value
      (m.featureValue env room active feature scope) (m.featureValue env room active feature scope) := by
  induction room using Nat.strong_induction_on generalizing active feature scope with
  | _ room ih =>
    rw [featureValue_eq]
    refine congruent_not_too_deep.own_bind (settled_effective ..) fun chosen resolved => ?_
    by_cases again : (chosen, scope) ∈ active
    · rw [if_pos again]
      intro error failed limit
      rw [← Except.error.inj failed]
      simp
    · rw [if_neg again]
      obtain ⟨less, rfl, entered⟩ := spacious.enter again ⟨lt_of_effective known resolved, inside⟩
      exact expressedValue_congr (congruent_not_too_deep.compatible m) (fun feature scope known inside _ =>
        ih less (Nat.lt_succ_self _) _ feature scope known inside entered) chosen scope

/-- What the rules derive is what guarded evaluation finds. -/
theorem evaluate_of_evaluates {expr : Expr} {scope : ElementId} {outcome : Evaluated Value}
    (enough : m.size * m.size ≤ env.maxDepth) (derived : Evaluates m env ⟨scope, none⟩ expr outcome) :
    m.evaluate env expr scope = outcome ∧ Settled outcome := by
  obtain ⟨settled, deep, same⟩ := derived.eventually
  have found := same deep (Nat.le_refl deep)
  have extended : Extends Value (m.evaluateWith env (m.valueWithin env deep) ⟨scope, none⟩ expr)
      (m.evaluate env expr scope) :=
    evaluateWith_congr (congruent_extends.compatible m) (fun feature scope known inside _ =>
      featureValue_extends deep env.maxDepth [] feature scope known inside (spacious_nil enough) (by simp))
      ⟨scope, none⟩ expr
  rw [found] at extended
  exact ⟨extended settled, settled⟩

/-- An outcome that is not the guard's is derived by the rules. -/
theorem evaluates_evaluate {expr : Expr} {scope : ElementId} (settled : Settled (m.evaluate env expr scope)) :
    Evaluates m env ⟨scope, none⟩ expr (m.evaluate env expr scope) :=
  evaluates_evaluateWith (featureYields_featureValue env.maxDepth []) ⟨scope, none⟩ expr settled

theorem evaluate_not_too_deep {expr : Expr} {scope : ElementId} (enough : m.size * m.size ≤ env.maxDepth)
    (limit : Nat) : m.evaluate env expr scope ≠ .error (.depthLimitExceeded limit) := by
  intro failed
  exact evaluateWith_congr (congruent_not_too_deep.compatible m) (fun feature scope known inside _ =>
    featureValue_not_too_deep env.maxDepth [] feature scope known inside (spacious_nil enough))
    ⟨scope, none⟩ expr _ failed limit rfl

theorem settled_or_cyclic {expr : Expr} {scope : ElementId} (enough : m.size * m.size ≤ env.maxDepth) :
    Settled (m.evaluate env expr scope) ∨
      ∃ feature inside, m.evaluate env expr scope = .error (.cyclicReference feature inside) := by
  cases found : m.evaluate env expr scope with
  | ok value => exact .inl (.ok value)
  | error error =>
    cases error with
    | cyclicReference feature inside => exact .inr ⟨feature, inside, rfl⟩
    | depthLimitExceeded limit => exact absurd found (evaluate_not_too_deep enough limit)
    | _ => exact .inl (Settled.error_iff.mpr rfl)

/-- With room for all accesses, guarded evaluation gives exactly the outcomes that the rules derive, and it
reports a cycle exactly where they derive none. -/
theorem evaluate_iff_evaluates (m : Model) (env : Environment) (expr : Expr) (scope : ElementId)
    (enough : m.size ^ 2 ≤ env.maxDepth) :
    (∀ outcome, (m.evaluate env expr scope = outcome ∧
        ∀ feature inside, outcome ≠ .error (.cyclicReference feature inside)) ↔
      Evaluates m env ⟨scope, none⟩ expr outcome) ∧
    ((∃ feature inside, m.evaluate env expr scope = .error (.cyclicReference feature inside)) ↔
      ¬ ∃ outcome, Evaluates m env ⟨scope, none⟩ expr outcome) := by
  have enough : m.size * m.size ≤ env.maxDepth := by simpa [Nat.pow_two] using enough
  refine ⟨fun outcome => ⟨?_, fun derived => ?_⟩, ?_, fun underivable => ?_⟩
  · rintro ⟨rfl, acyclic⟩
    rcases settled_or_cyclic enough with settled | ⟨feature, inside, cyclic⟩
    · exact evaluates_evaluate settled
    · exact absurd cyclic (acyclic feature inside)
  · obtain ⟨same, settled⟩ := evaluate_of_evaluates enough derived
    refine ⟨same, fun feature inside cyclic => ?_⟩
    simpa using settled.own _ cyclic
  · rintro ⟨feature, inside, cyclic⟩ ⟨outcome, derived⟩
    obtain ⟨same, settled⟩ := evaluate_of_evaluates enough derived
    simpa using settled.own _ (same.symm.trans cyclic)
  · rcases settled_or_cyclic enough with settled | cyclic
    · exact absurd ⟨_, evaluates_evaluate settled⟩ underivable
    · exact cyclic

/-- A part definition with `a = b`, `b = a` and `c = true or a`. -/
def mutualReferences : Model := ofEdits [
  .add none .partDefinition (some "Loop"),
  .add (some 0) .feature (some "a"), .setValue 1 (.reference (.simple "b")),
  .add (some 0) .feature (some "b"), .setValue 2 (.reference (.simple "a")),
  .add (some 0) .feature (some "c"),
  .setValue 3 (.binary .or (.literal (.boolean true)) (.reference (.simple "a")))]

/-- Just enough room for a model of four elements. -/
def sixteenDeep : Environment := { maxDepth := 16, conversions := .empty }

theorem evaluates_mutualReferences : mutualReferences.size ^ 2 ≤ sixteenDeep.maxDepth ∧
    Evaluates mutualReferences sixteenDeep ⟨0, none⟩ (.reference (.simple "c")) (.ok (.boolean true)) ∧
    ¬ ∃ outcome, Evaluates mutualReferences sixteenDeep ⟨0, none⟩ (.reference (.simple "a")) outcome := by
  have size : mutualReferences.size = 4 := by cbv
  have enough : mutualReferences.size ^ 2 ≤ sixteenDeep.maxDepth := by
    rw [size]
    decide
  have value : mutualReferences.evaluate sixteenDeep (.reference (.simple "c")) 0 =
      .ok (.boolean true) := by cbv
  have cycle : mutualReferences.evaluate sixteenDeep (.reference (.simple "a")) 0 =
      .error (.cyclicReference "Loop::a" "Loop") := by cbv
  exact ⟨enough,
    ((evaluate_iff_evaluates mutualReferences sixteenDeep _ 0 enough).1 _).mp ⟨value, by simp⟩,
    (evaluate_iff_evaluates mutualReferences sixteenDeep _ 0 enough).2.mp ⟨_, _, cycle⟩⟩

end StructuralModel.Model
