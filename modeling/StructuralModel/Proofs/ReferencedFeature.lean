import StructuralModel.Proofs.RestatedPart

/-! A feature that is mentioned in an expression and a feature that is asked for. Attributes are worth the same
either way. A reference to a part never looks at what stands for the part in the scope, so the two agree as long
as that can be opened, and they part where it is a value or an empty attribute. -/

namespace StructuralModel

namespace Model

/-- Nothing is to be computed for the feature, and there is something in it. -/
structure Opens (m : Model) (feature : ElementId) : Prop where
  silent : m.value? feature = none
  filled : (m.kind feature).isPart = true ∨ m.hasNestedFeatures feature = true

variable {m : Model} {env : Environment} {feature scope : ElementId} {path : Path}

theorem evaluate_reference (found : m.lookup? ⟨scope, none⟩ path = some feature) :
    m.evaluate env (.reference path) scope =
      m.elementValue (m.featureValue env env.maxDepth []) feature scope := by
  rw [evaluate, evaluateWith, lookup, found]
  rfl

theorem evaluate_attribute (found : m.lookup? ⟨scope, none⟩ path = some feature) (kind : m.kind feature = .feature)
    (inside : m.Inherited feature scope) :
    m.evaluate env (.reference path) scope = m.evaluateFeature env feature scope := by
  have feature_kind : m.isFeature feature = true := by simp [isFeature, kind, ElementKind.isFeature]
  rw [evaluate_reference found, elementValue_inherited kind inside, evaluateFeature, if_pos feature_kind]

/-- A part that is mentioned is resolved, and what comes out is not looked at. -/
theorem evaluate_part (found : m.lookup? ⟨scope, none⟩ path = some feature) (kind : m.kind feature = .partUsage)
    (inside : m.Inherited feature scope) : m.evaluate env (.reference path) scope =
      m.resolved feature scope >>= fun chosen => .ok (.composite chosen scope) := by
  have inherited : m.isInherited feature scope = true := isInherited_iff.mpr inside
  rw [evaluate_reference found]
  simp only [elementValue, kind, inherited, if_true]
  rfl

/-- A feature that is asked for is resolved, and what comes out is evaluated. -/
theorem evaluateFeature_eq (deep : 0 < env.maxDepth) (kind : m.isFeature feature = true)
    (inside : m.Inherited feature scope) : m.evaluateFeature env feature scope =
      m.resolved feature scope >>= fun chosen =>
        m.expressedValue env (m.featureValue env (env.maxDepth - 1) [(chosen, scope)]) chosen scope := by
  obtain ⟨owner, owned, _⟩ := inside
  obtain ⟨room, same⟩ := Nat.exists_eq_succ_of_ne_zero (Nat.ne_of_gt deep)
  have effective : m.effective feature scope = m.resolved feature scope := by rw [effective, owned]
  rw [evaluateFeature, if_pos kind, same, featureValue_eq, effective]
  apply bind_congr
  intro chosen
  rw [if_neg List.not_mem_nil]
  rfl

theorem Opens.unexpressedValue (opens : m.Opens feature) (scope : ElementId) :
    m.unexpressedValue feature scope = .composite feature scope := by
  rw [Model.unexpressedValue, if_pos]
  simpa using opens.filled

theorem unexpressedValue_of_not_opens (silent : m.value? feature = none) (closed : ¬ m.Opens feature)
    (scope : ElementId) : m.unexpressedValue feature scope = .absent := by
  have empty : ¬ ((m.kind feature).isPart = true ∨ m.hasNestedFeatures feature = true) :=
    fun filled => closed ⟨silent, filled⟩
  rw [Model.unexpressedValue, if_neg]
  simpa using empty

/-- What a part comes to that is asked for, once it is resolved. -/
theorem evaluateFeature_part {chosen : ElementId} (deep : 0 < env.maxDepth) (kind : m.isFeature feature = true)
    (inside : m.Inherited feature scope) (resolved : m.resolve feature scope = .ok chosen) :
    (m.Opens chosen → m.evaluateFeature env feature scope = .ok (.composite chosen scope)) ∧
      (m.value? chosen = none → ¬ m.Opens chosen → m.evaluateFeature env feature scope = .ok .absent) ∧
      ∀ expr, m.value? chosen = some expr → m.evaluateFeature env feature scope =
        m.evaluateWith env (m.featureValue env (env.maxDepth - 1) [(chosen, scope)]) ⟨scope, some chosen⟩ expr := by
  have direct : m.evaluateFeature env feature scope =
      m.expressedValue env (m.featureValue env (env.maxDepth - 1) [(chosen, scope)]) chosen scope := by
    rw [evaluateFeature_eq deep kind inside, Model.resolved, resolved]
    rfl
  rw [direct, expressedValue]
  refine ⟨fun opens => ?_, fun silent closed => ?_, fun expr value => ?_⟩
  · rw [opens.silent, ← opens.unexpressedValue scope]
  · rw [silent, ← unexpressedValue_of_not_opens silent closed scope]
  · rw [value]

/-- A feature that a name finds in the closure of a scope is worth the same there whether it is mentioned or asked
for, if it is an attribute, if it cannot be resolved, or if a part or something with features stands for it.
A part for which a value or an empty attribute stands is still opened where it is mentioned. -/
theorem evaluate_mentioned (deep : 0 < env.maxDepth) (found : m.lookup? ⟨scope, none⟩ path = some feature)
    (kind : m.isFeature feature = true) (inside : m.Inherited feature scope) :
    (m.kind feature = .feature →
      m.evaluate env (.reference path) scope = m.evaluateFeature env feature scope) ∧
    (m.kind feature = .partUsage →
      (∀ error, m.resolve feature scope = .error error →
        m.evaluate env (.reference path) scope = .error (.resolution error) ∧
        m.evaluateFeature env feature scope = .error (.resolution error)) ∧
      ∀ chosen, m.resolve feature scope = .ok chosen →
        m.evaluate env (.reference path) scope = .ok (.composite chosen scope) ∧
        (m.Opens chosen → m.evaluateFeature env feature scope = .ok (.composite chosen scope)) ∧
        (m.value? chosen = none → ¬ m.Opens chosen → m.evaluateFeature env feature scope = .ok .absent) ∧
        ∀ expr, m.value? chosen = some expr → m.evaluateFeature env feature scope =
          m.evaluateWith env (m.featureValue env (env.maxDepth - 1) [(chosen, scope)]) ⟨scope, some chosen⟩ expr) := by
  refine ⟨fun plain => evaluate_attribute found plain inside, fun part => ⟨?_, ?_⟩⟩
  · intro error failed
    have same : m.resolved feature scope = .error (.resolution error) := by
      rw [Model.resolved, failed]
      rfl
    rw [evaluate_part found part inside, evaluateFeature_eq deep kind inside, same]
    exact ⟨rfl, rfl⟩
  · intro chosen resolved
    refine ⟨?_, evaluateFeature_part deep kind inside resolved⟩
    rw [evaluate_part found part inside, Model.resolved, resolved]
    rfl

end Model

namespace LoadedModel
open Model

/-- A part with a value. -/
def valuedPart : String :=
  "part def A \x7b part p = true; \x7d"

theorem valuedPart_loads : ∃ loaded, ofSource valuedPart = .ok loaded ∧ loaded.model.kind 1 = .partUsage ∧
    loaded.model.owner? 1 = some 0 ∧ loaded.model.lookup? ⟨0, none⟩ (.simple "p") = some 1 ∧
    loaded.model.resolve 1 0 = .ok 1 ∧ loaded.model.value? 1 = some (.literal (.boolean true)) := by
  have facts : ((ofSource valuedPart).map fun loaded => (loaded.model.kind 1, loaded.model.owner? 1,
      loaded.model.lookup? ⟨0, none⟩ (.simple "p"), loaded.model.resolve 1 0, loaded.model.value? 1)) =
      .ok (.partUsage, some 0, some 1, .ok 1, some (.literal (.boolean true))) := by cbv
  obtain ⟨loaded, loads, same⟩ := exists_of_map_ofSource facts
  simp only [Prod.mk.injEq] at same
  exact ⟨loaded, loads, same⟩

theorem evaluate_valuedPart : ∃ loaded, ofSource valuedPart = .ok loaded ∧ 0 < sixteenDeep.maxDepth ∧
    loaded.model.lookup? ⟨0, none⟩ (.simple "p") = some 1 ∧ loaded.model.isFeature 1 = true ∧
    loaded.model.Inherited 1 0 ∧
    loaded.model.evaluate sixteenDeep (.reference (.simple "p")) 0 = .ok (.composite 1 0) ∧
    loaded.model.evaluateFeature sixteenDeep 1 0 = .ok (.boolean true) := by
  obtain ⟨loaded, loads, kind, owned, found, resolved, value⟩ := valuedPart_loads
  have deep : 0 < sixteenDeep.maxDepth := by decide
  have feature : loaded.model.isFeature 1 = true := by simp [isFeature, kind, ElementKind.isFeature]
  have inside : loaded.model.Inherited 1 0 := ⟨0, owned, .refl⟩
  obtain ⟨opened, _, _, evaluated⟩ := ((evaluate_mentioned deep found feature inside).2 kind).2 1 resolved
  refine ⟨loaded, loads, deep, found, feature, inside, opened, ?_⟩
  rw [evaluated _ value, evaluateWith]

/-- A part with a value has two. -/
theorem not_same_valuedPart : ¬ ∀ source loaded, ofSource source = .ok loaded → ∀ env : Environment,
    0 < env.maxDepth → ∀ path feature scope, loaded.model.lookup? ⟨scope, none⟩ path = some feature →
      loaded.model.isFeature feature = true → loaded.model.Inherited feature scope →
      loaded.model.evaluate env (.reference path) scope = loaded.model.evaluateFeature env feature scope ∧
        (loaded.model.kind feature = .partUsage →
          ∃ element origin, loaded.model.evaluateFeature env feature scope = .ok (.composite element origin)) := by
  intro same
  obtain ⟨loaded, loads, kind, owned, found, resolved, value⟩ := valuedPart_loads
  have deep : 0 < sixteenDeep.maxDepth := by decide
  have feature : loaded.model.isFeature 1 = true := by simp [isFeature, kind, ElementKind.isFeature]
  have inside : loaded.model.Inherited 1 0 := ⟨0, owned, .refl⟩
  have mentioned : loaded.model.evaluate sixteenDeep (.reference (.simple "p")) 0 = .ok (.composite 1 0) := by
    rw [evaluate_part found kind inside, Model.resolved, resolved]
    rfl
  have asked : loaded.model.evaluateFeature sixteenDeep 1 0 = .ok (.boolean true) := by
    rw [(evaluateFeature_part deep feature inside resolved).2.2 _ value, evaluateWith]
  have equal := (same valuedPart loaded loads sixteenDeep deep _ 1 0 found feature inside).1
  rw [mentioned, asked] at equal
  cases equal

end LoadedModel
end StructuralModel
