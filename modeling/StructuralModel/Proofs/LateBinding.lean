import StructuralModel.Proofs.Inheritance
import StructuralModel.Proofs.ObservedEvaluation
import StructuralModel.Proofs.StackGuard

/-! Expressions are bound late, and only through redefinition. A name in an inherited expression denotes a
feature where the expression is declared, and that feature is evaluated in the scope that inherits it. Its value comes
from the line of redefinitions that it stands on, in either direction. -/

namespace StructuralModel

namespace Model
open Relation

/-- A value is kept, while an error may give way to a value. -/
def Keeps (α : Type) (outcome other : Evaluated α) : Prop :=
  ∀ value, outcome = .ok value → other = .ok value

theorem congruent_keeps : Congruent Keeps where
  settled _ _ same := same
  bind {α β first second next other} kept rest value same := by
    cases evaluated : first with
    | ok middle =>
      rw [evaluated] at same
      rw [kept middle evaluated]
      exact rest middle evaluated value same
    | error error =>
      rw [evaluated] at same
      cases same

variable {m : Model} {env : Environment}

/-- A value found under some guard is found under a weaker one. -/
theorem featureValue_keeps {room more : Nat} (enough : room ≤ more) {active fewer : List Access}
    (remain : ∀ access ∈ fewer, access ∈ active) (feature scope : ElementId) :
    Keeps Value (m.featureValue env room active feature scope) (m.featureValue env more fewer feature scope) := by
  induction room generalizing more active fewer feature scope with
  | zero =>
    rw [featureValue_eq]
    intro value same
    cases resolved : m.effective feature scope with
    | error error => simp [resolved] at same
    | ok chosen =>
      simp only [resolved, ok_bind] at same
      split at same <;> cases same
  | succ room ih =>
    obtain ⟨more, rfl⟩ : ∃ less, more = less + 1 := ⟨more - 1, by omega⟩
    rw [featureValue_eq, featureValue_eq]
    refine congruent_keeps.own_bind (settled_effective ..) fun chosen _ value same => ?_
    split at same
    next => cases same
    next new =>
      rw [if_neg fun again => new (remain _ again)]
      refine expressedValue_congr (congruent_keeps.compatible m) (fun feature scope _ _ _ => ih (by omega) ?_ feature scope)
        chosen scope value same
      intro access member
      rcases List.mem_cons.mp member with rfl | member
      · exact List.mem_cons_self
      · exact List.mem_cons_of_mem _ (remain access member)

theorem lookup_bound {chosen scope owner target : ElementId} {name : String} (owned : m.owner? chosen = some owner)
    (found : m.feature? owner name = some target) :
    m.lookup ⟨scope, some chosen⟩ (.simple name) = .ok target := by
  have bound : m.boundFeature? ⟨scope, some chosen⟩ name = some target := by
    simp [boundFeature?, owned, found]
  have first : m.lookup? ⟨scope, some chosen⟩ (.simple name) = some target := by
    simp [lookup?, Path.simple, Path.isSimple, bound]
  rw [lookup, first]

theorem elementValue_inherited {featureValue : ElementId → ElementId → Evaluated Value} {target scope : ElementId}
    (kind : m.kind target = .feature) (inside : m.Inherited target scope) :
    m.elementValue featureValue target scope = featureValue target scope := by
  have inherited : m.isInherited target scope = true := isInherited_iff.mpr inside
  simp [elementValue, kind, inherited]

/-- The owner of one feature stands before the owner of the other in the closure of a scope. -/
def Nearer (m : Model) (scope near far : ElementId) : Prop :=
  ∃ owner general, m.owner? near = some owner ∧ m.owner? far = some general ∧ m.Precedes scope owner general

theorem Nearer.irrefl {scope feature : ElementId} : ¬ m.Nearer scope feature feature := by
  rintro ⟨owner, general, owned, above, nearer, farther, closure, before⟩
  obtain rfl := Option.some.inj (owned.symm.trans above)
  have once := m.nodup_lineage scope
  rw [closure, List.nodup_middle, List.nodup_cons] at once
  exact once.1 (List.mem_append_left _ before)

/-- A feature gives a value for another one: it redefines that one, or that one has no other to express. -/
def Supplies (m : Model) (supplier feature : ElementId) : Prop :=
  m.RedefinesByChain supplier feature ∨ m.Expresses feature supplier

/-- What supplies a feature from nearer to the scope redefines it or is redefined by it. -/
theorem Supplies.of_nearer {scope supplier feature : ElementId} (supplies : m.Supplies supplier feature)
    (nearer : m.Nearer scope supplier feature) :
    m.RedefinesByChain supplier feature ∨ m.RedefinesByChain feature supplier := by
  rcases supplies with chain | expressed
  · exact .inl chain
  · rcases expressed.eq_or_chain with rfl | chain
    · exact absurd nearer Nearer.irrefl
    · exact .inr chain

theorem ReadIn.bound (forest : Forest m) {featureValue : ElementId → ElementId → Evaluated Value}
    {chosen scope owner target : ElementId} {name : String} {reading : Reading}
    (read : m.ReadIn featureValue ⟨scope, some chosen⟩ reading) (owned : m.owner? chosen = some owner)
    (reached : m.Reaches scope owner) (written : reading.path = .simple name)
    (found : m.feature? owner name = some target) (kind : m.kind target = .feature) :
    reading.target = target ∧ reading.outcome = featureValue target scope := by
  have lookup := read.found
  rw [written, lookup_bound owned found] at lookup
  have same : reading.target = target := (Except.ok.inj lookup).symm
  have inside : m.Inherited target scope := (nearest_of_feature? forest found).inherited.of_reaches reached
  have value := read.value
  rw [same, elementValue_inherited kind inside] at value
  exact ⟨same, value⟩

theorem resolve_of_featureValue {feature scope owner : ElementId} {room : Nat} {active : List Access} {value : Value}
    (owned : m.owner? feature = some owner) (succeeds : m.featureValue env room active feature scope = .ok value) :
    ∃ supplier, m.resolve feature scope = .ok supplier := by
  rw [featureValue_eq, effective, owned, resolved] at succeeds
  cases found : m.resolve feature scope with
  | ok supplier => exact ⟨supplier, rfl⟩
  | error error =>
    rw [found] at succeeds
    cases succeeds

/-- A value found within an evaluation is the one that the feature has on its own, and comes from a feature
that supplies it. -/
theorem evaluateFeature_of_featureValue (valid : WellFormed m) (forest : Forest m) {feature scope owner : ElementId}
    {room : Nat} {active : List Access} {value : Value} (kind : m.isFeature feature = true)
    (owned : m.owner? feature = some owner) (within : room ≤ env.maxDepth)
    (succeeds : m.featureValue env room active feature scope = .ok value) :
    m.evaluateFeature env feature scope = .ok value ∧
      ∃ supplier, m.resolve feature scope = .ok supplier ∧ m.Supplies supplier feature := by
  have alone : m.featureValue env env.maxDepth [] feature scope = .ok value :=
    featureValue_keeps within (by simp) feature scope value succeeds
  obtain ⟨supplier, supplied⟩ := resolve_of_featureValue owned succeeds
  refine ⟨?_, supplier, supplied, redefines_or_expresses_of_resolve valid forest kind supplied⟩
  rw [evaluateFeature, if_pos kind, alone]

/-- The evaluation of a feature's expression in a scope, under guard. -/
def observeFeature (m : Model) (env : Environment) (room : Nat) (active : List Access) (chosen scope : ElementId)
    (expr : Expr) : Observed Value :=
  m.observe env (m.featureValue env room ((chosen, scope) :: active)) ⟨scope, some chosen⟩ expr

theorem effective_of_resolve {feature scope chosen owner : ElementId} (owned : m.owner? feature = some owner)
    (resolved : m.resolve feature scope = .ok chosen) : m.effective feature scope = .ok chosen := by
  simp [effective, owned, Model.resolved, resolved, Except.mapError]

theorem outcome_observeFeature {feature scope chosen owner : ElementId} {expr : Expr} {room : Nat}
    {active : List Access} (owned : m.owner? feature = some owner) (resolved : m.resolve feature scope = .ok chosen)
    (value : m.value? chosen = some expr) (new : (chosen, scope) ∉ active) :
    (m.observeFeature env room active chosen scope expr).outcome =
      m.featureValue env (room + 1) active feature scope := by
  rw [featureValue_eq, effective_of_resolve owned resolved, ok_bind, if_neg new, observeFeature, outcome_observe]
  simp only [expressedValue, value]

/-- The value of a feature is the one of its supplier's expression, evaluated in the same scope. -/
theorem exists_observeFeature {feature scope supplier owner : ElementId} {expr : Expr} {room : Nat}
    {active : List Access} {value : Value} (owned : m.owner? feature = some owner)
    (resolved : m.resolve feature scope = .ok supplier) (written : m.value? supplier = some expr)
    (succeeds : m.featureValue env room active feature scope = .ok value) :
    ∃ less, room = less + 1 ∧ (supplier, scope) ∉ active ∧
      (m.observeFeature env less active supplier scope expr).outcome = .ok value := by
  have guarded := succeeds
  rw [featureValue_eq, effective_of_resolve owned resolved, ok_bind] at guarded
  split at guarded
  next => cases guarded
  next new =>
    cases room with
    | zero => cases guarded
    | succ less => exact ⟨less, rfl, new, (outcome_observeFeature owned resolved written new).trans succeeds⟩

end Model

namespace LoadedModel
open Model

/-- A simple name in an inherited expression stands for the feature that it denotes where the expression is
declared. That feature is evaluated in the inheriting scope as it would be on its own, from the expression of the
feature that supplies it there. No feature nearer to the scope does so that neither redefines it nor is redefined by it,
whatever its name is. -/
theorem observeFeature_bound {source : String} {loaded : LoadedModel} (loads : ofSource source = .ok loaded)
    (env : Environment) {feature scope chosen owner : ElementId} {expr : Expr}
    (kind : loaded.model.isFeature feature = true) (resolved : loaded.model.resolve feature scope = .ok chosen)
    (value : loaded.model.value? chosen = some expr) (owned : loaded.model.owner? chosen = some owner)
    {room : Nat} {active : List Access} (within : room < env.maxDepth) (new : (chosen, scope) ∉ active) :
    (loaded.model.observeFeature env room active chosen scope expr).outcome =
        loaded.model.featureValue env (room + 1) active feature scope ∧
      ∀ reading ∈ (loaded.model.observeFeature env room active chosen scope expr).readings, ∀ name target,
        reading.path = .simple name → loaded.model.feature? owner name = some target →
        loaded.model.kind target = .feature →
        reading.target = target ∧
        reading.outcome = loaded.model.featureValue env room ((chosen, scope) :: active) target scope ∧
        ∀ result, reading.outcome = .ok result → loaded.model.evaluateFeature env target scope = .ok result ∧
          ∃ supplier, loaded.model.resolve target scope = .ok supplier ∧ loaded.model.Supplies supplier target ∧
            (∀ written, loaded.model.value? supplier = some written →
              ∃ less, room = less + 1 ∧ (supplier, scope) ∉ (chosen, scope) :: active ∧
                (loaded.model.observeFeature env less ((chosen, scope) :: active) supplier scope written).outcome =
                  .ok result) ∧
            ∀ other, loaded.model.Nearer scope other target → ¬ loaded.model.RedefinesByChain other target →
              ¬ loaded.model.RedefinesByChain target other → supplier ≠ other := by
  obtain ⟨valid, forest⟩ := valid_of_ofSource loads
  obtain ⟨general, above, _⟩ := inherited_of_resolve resolved
  obtain ⟨owner', owned', reached⟩ := effective_inherited valid forest kind resolved
  obtain rfl := Option.some.inj (owned.symm.trans owned')
  refine ⟨outcome_observeFeature above resolved value new, ?_⟩
  intro reading member name target written found feature
  have nearest := nearest_of_feature? forest found
  obtain ⟨same, read⟩ := (each_observe expr reading member).bound forest owned reached written found feature
  refine ⟨same, read, fun result succeeds => ?_⟩
  obtain ⟨general', above', _⟩ := nearest.inherited
  have inside := read.symm.trans succeeds
  obtain ⟨alone, supplier, supplied, supplies⟩ := evaluateFeature_of_featureValue valid forest nearest.kind above'
    (Nat.le_of_lt within) inside
  refine ⟨alone, supplier, supplied, supplies,
    fun expr written => exists_observeFeature above' supplied written inside, ?_⟩
  rintro other nearer unrelated uphill rfl
  exact (supplies.of_nearer nearer).elim unrelated uphill

/-- `B` redefines a feature that an expression of `A` mentions. -/
def mentioning : String :=
  "part def A \x7b attribute w = false; attribute d = not w; \x7d part def B :> A \x7b :>> w = true; \x7d"

theorem mentioning_loads : ∃ loaded, ofSource mentioning = .ok loaded ∧ loaded.model.isFeature 2 = true ∧
    loaded.model.resolve 2 3 = .ok 2 ∧
    loaded.model.value? 2 = some (.unary .not (.reference (.simple "w"))) ∧ loaded.model.owner? 2 = some 0 ∧
    loaded.model.feature? 0 "w" = some 1 ∧ loaded.model.kind 1 = .feature ∧
    (loaded.model.observeFeature sixteenDeep 15 [] 2 3 (.unary .not (.reference (.simple "w")))).readings =
      [⟨.simple "w", 1, .ok (.boolean true)⟩] := by
  have facts : ((ofSource mentioning).map fun loaded => (loaded.model.isFeature 2, loaded.model.resolve 2 3,
      loaded.model.value? 2, loaded.model.owner? 2, loaded.model.feature? 0 "w", loaded.model.kind 1,
      (loaded.model.observeFeature sixteenDeep 15 [] 2 3 (.unary .not (.reference (.simple "w")))).readings)) =
      .ok (true, .ok 2, some (.unary .not (.reference (.simple "w"))), some 0, some 1, .feature,
        [⟨.simple "w", 1, .ok (.boolean true)⟩]) := by cbv
  obtain ⟨loaded, loads, same⟩ := exists_of_map_ofSource facts
  simp only [Prod.mk.injEq] at same
  exact ⟨loaded, loads, same⟩

theorem observeFeature_mentioning : ∃ loaded, ofSource mentioning = .ok loaded ∧ loaded.model.isFeature 2 = true ∧
    loaded.model.resolve 2 3 = .ok 2 ∧ loaded.model.value? 2 = some (.unary .not (.reference (.simple "w"))) ∧
    loaded.model.owner? 2 = some 0 ∧ loaded.model.feature? 0 "w" = some 1 ∧
    loaded.model.evaluateFeature sixteenDeep 1 3 = .ok (.boolean true) := by
  obtain ⟨loaded, loads, kind, resolved, value, owned, found, feature, readings⟩ := mentioning_loads
  have within : 15 < sixteenDeep.maxDepth := by decide
  have bound := (observeFeature_bound loads sixteenDeep kind resolved value owned within List.not_mem_nil).2
  rw [readings] at bound
  obtain ⟨_, _, alone⟩ := bound _ (List.mem_singleton_self _) "w" 1 rfl found feature
  exact ⟨loaded, loads, kind, resolved, value, owned, found, (alone _ rfl).1⟩

/-- The `w` of `B` says nothing by itself, and `A`, which has the `w` that it redefines, is nearer to `S` than `B`. -/
def nearerGeneral : String :=
  "part def A \x7b attribute w = true; \x7d part def B :> A \x7b attribute :>> w; attribute d = w; \x7d " ++
    "part def C :> B; part def S :> A, C;"

/-- A value can come from a nearer feature of the same name that does not redefine the one that is mentioned. -/
theorem taken_from_nearerGeneral : ¬ ∀ source loaded, ofSource source = .ok loaded →
    ∀ (env : Environment) (feature scope chosen owner : ElementId) (expr : Expr), loaded.model.isFeature feature = true →
      loaded.model.resolve feature scope = .ok chosen → loaded.model.value? chosen = some expr →
      loaded.model.owner? chosen = some owner → ∀ (room : Nat) (active : List Access), room < env.maxDepth →
      (chosen, scope) ∉ active →
      ∀ reading ∈ (loaded.model.observeFeature env room active chosen scope expr).readings, ∀ name target,
        reading.path = .simple name → loaded.model.feature? owner name = some target →
        loaded.model.kind target = .feature → ∀ result supplier, reading.outcome = .ok result →
        loaded.model.resolve target scope = .ok supplier →
        ∀ other, loaded.model.name? other = some name → loaded.model.Nearer scope other target →
          ¬ loaded.model.RedefinesByChain other target → supplier ≠ other := by
  intro never
  have facts : ((ofSource nearerGeneral).map fun loaded => (loaded.model.isFeature 4, loaded.model.resolve 4 6,
      loaded.model.value? 4, loaded.model.owner? 4, loaded.model.feature? 2 "w", loaded.model.kind 3,
      loaded.model.resolve 3 6, loaded.model.name? 1, loaded.model.owner? 1, loaded.model.owner? 3,
      loaded.model.lineage 6, loaded.model.redefines 1 3,
      (loaded.model.observeFeature sixteenDeep 15 [] 4 6 (.reference (.simple "w"))).readings)) =
      .ok (true, .ok 4, some (.reference (.simple "w")), some 2, some 3, .feature, .ok 1, some "w", some 0, some 2,
        [6, 0, 5, 2], false, [⟨.simple "w", 3, .ok (.boolean true)⟩]) := by cbv
  obtain ⟨loaded, loads, same⟩ := exists_of_map_ofSource facts
  simp only [Prod.mk.injEq] at same
  obtain ⟨isFeature, resolved, value, owned, found, kind, supplied, name, above, below, closure, unrelated, readings⟩ :=
    same
  have nearer : loaded.model.Nearer 6 1 3 := ⟨0, 2, above, below, [6, 0, 5], [], closure, by simp⟩
  have apart : ¬ loaded.model.RedefinesByChain 1 3 := by simp [← redefines_iff, unrelated]
  have read := List.mem_singleton_self (⟨.simple "w", 3, .ok (.boolean true)⟩ : Reading)
  rw [← readings] at read
  exact never nearerGeneral loaded loads sixteenDeep 4 6 4 2 _ isFeature resolved value owned 15 [] (by decide)
    List.not_mem_nil _ read "w" 3 rfl found kind _ 1 rfl supplied 1 name nearer apart rfl

end LoadedModel
end StructuralModel
