import StructuralModel.Session
import StructuralModel.Proofs.Visibility

/-! All features of an element at once, and each of them by its name. The names come from what is visible in the element,
and every name is looked up again in its closure; a listed name always finds the feature that it was listed for. -/

namespace StructuralModel

section mapM

variable {α β ε : Type} {f : α → Except ε β} {items : List α}

theorem mapM_eq_ok_iff {found : List β} :
    items.mapM f = .ok found ↔ List.Forall₂ (fun item value => f item = .ok value) items found := by
  induction items generalizing found with
  | nil => cases found <;> simp [pure, Except.pure]
  | cons item items ih =>
    rw [List.mapM_cons]
    cases first : f item with
    | error error =>
      refine iff_of_false (by simp [bind, Except.bind]) fun each => ?_
      cases each with
      | cons value _ => cases first.symm.trans value
    | ok value =>
      cases later : items.mapM f with
      | error error =>
        refine iff_of_false (by simp [bind, Except.bind]) fun each => ?_
        cases each with
        | cons _ others => cases later.symm.trans (ih.mpr others)
      | ok values =>
        have others : List.Forall₂ (fun item value => f item = .ok value) items values := ih.mp later
        constructor
        · intro whole
          obtain rfl : value :: values = found := by simpa [bind, Except.bind, pure, Except.pure] using whole
          exact .cons first others
        · intro each
          cases each with
          | cons same rest =>
            obtain rfl := Except.ok.inj (first.symm.trans same)
            obtain rfl := Except.ok.inj (later.symm.trans (ih.mpr rest))
            rfl

/-- A run over all items stops at the first one that fails. -/
theorem mapM_eq_error_iff {error : ε} : items.mapM f = .error error ↔
    ∃ before item after, items = before ++ item :: after ∧ (∀ earlier ∈ before, ∃ value, f earlier = .ok value) ∧
      f item = .error error := by
  induction items with
  | nil => simp [pure, Except.pure]
  | cons item items ih =>
    rw [List.mapM_cons]
    cases first : f item with
    | error other =>
      constructor
      · intro failed
        obtain rfl : other = error := by simpa [bind, Except.bind] using failed
        exact ⟨[], item, items, rfl, by simp, first⟩
      · rintro ⟨before, stop, after, same, earlier, failed⟩
        cases before with
        | nil =>
          obtain ⟨rfl, _⟩ := List.cons.inj same
          obtain rfl := Except.error.inj (first.symm.trans failed)
          rfl
        | cons head before =>
          obtain ⟨rfl, _⟩ := List.cons.inj same
          obtain ⟨value, succeeded⟩ := earlier item List.mem_cons_self
          cases first.symm.trans succeeded
    | ok value =>
      have rest : ((do let values ← items.mapM f; pure (value :: values)) : Except ε (List β)) = .error error ↔
          items.mapM f = .error error := by
        cases items.mapM f <;> simp [bind, Except.bind, pure, Except.pure]
      refine rest.trans (ih.trans ⟨?_, ?_⟩)
      · rintro ⟨before, stop, after, rfl, earlier, failed⟩
        exact ⟨item :: before, stop, after, rfl, List.forall_mem_cons.mpr ⟨⟨value, first⟩, earlier⟩, failed⟩
      · rintro ⟨before, stop, after, same, earlier, failed⟩
        cases before with
        | nil =>
          obtain ⟨rfl, _⟩ := List.cons.inj same
          cases first.symm.trans failed
        | cons head before =>
          obtain ⟨rfl, rfl⟩ := List.cons.inj same
          exact ⟨before, stop, after, rfl, (List.forall_mem_cons.mp earlier).2, failed⟩

theorem mapM_mapError {ε' : Type} (told : ε → ε') (f : α → Except ε β) (items : List α) :
    (items.mapM f).mapError told = items.mapM fun item => (f item).mapError told := by
  induction items with
  | nil => rfl
  | cons item items ih =>
    rw [List.mapM_cons, List.mapM_cons, ← ih]
    cases f item with
    | error error => rfl
    | ok value => cases items.mapM f <;> rfl

theorem mapM_congr {g : α → Except ε β} (same : ∀ item ∈ items, f item = g item) : items.mapM f = items.mapM g := by
  induction items with
  | nil => rfl
  | cons item items ih =>
    obtain ⟨first, others⟩ := List.forall_mem_cons.mp same
    rw [List.mapM_cons, List.mapM_cons, first, ih others]

/-- Each item with what is found for it. -/
def paired (f : α → Except ε β) (item : α) : Except ε (α × β) := do
  return (item, ← f item)

theorem paired_eq_ok_iff {item : α} {entry : α × β} :
    paired f item = .ok entry ↔ entry.1 = item ∧ f item = .ok entry.2 := by
  obtain ⟨key, value⟩ := entry
  cases found : f item <;> simp [paired, found, bind, Except.bind, pure, Except.pure, eq_comm]

theorem paired_eq_error_iff {item : α} {error : ε} : paired f item = .error error ↔ f item = .error error := by
  cases found : f item <;> simp [paired, found, bind, Except.bind, pure, Except.pure]

theorem mapM_paired_eq_ok_iff {found : List (α × β)} : items.mapM (paired f) = .ok found ↔
    found.map Prod.fst = items ∧ ∀ entry ∈ found, f entry.1 = .ok entry.2 := by
  rw [mapM_eq_ok_iff]
  constructor
  · intro each
    induction each with
    | nil => simp
    | cons first _ ih =>
      obtain ⟨rfl, value⟩ := paired_eq_ok_iff.mp first
      exact ⟨by rw [List.map_cons, ih.1], List.forall_mem_cons.mpr ⟨value, ih.2⟩⟩
  · rintro ⟨rfl, each⟩
    rw [List.forall₂_map_left_iff, List.forall₂_same]
    exact fun entry member => paired_eq_ok_iff.mpr ⟨rfl, each entry member⟩

end mapM

namespace Model

variable {m : Model} {scope : ElementId} {name : String}

/-- A listed name finds a feature, the one that it was listed for. -/
theorem feature?_of_mem_effectiveNames {origin : ElementId} (listed : name ∈ Composite.effectiveNames m ⟨scope, origin⟩) :
    ∃ feature ∈ m.visibleFeatures scope, m.name? feature = some name ∧ m.feature? scope name = some feature := by
  obtain ⟨feature, visible, named⟩ := List.mem_filterMap.mp listed
  exact ⟨feature, visible, named, (mem_visibleFeatures_of_named named).mp visible⟩

end Model

namespace Session

variable {s : Session} {element name : String} {id : ElementId}

/-- The names of the features that are visible in an element. -/
def listedNames (s : Session) (id : ElementId) : List String :=
  (Composite.ofElement id).effectiveNames s.model

/-- A listed feature is evaluated by its name as it is among all. -/
theorem evaluate_listed (known : s.element element = .ok id) (listed : name ∈ s.listedNames id) :
    s.evaluate element name none = ((Composite.ofElement id).evaluate s.model s.environment name).mapError .evaluation := by
  obtain ⟨feature, _, _, found⟩ := Model.feature?_of_mem_effectiveNames listed
  have lookup : s.model.feature? (Composite.ofElement id).element name = some feature := found
  simp only [evaluate, Composite.evaluate, known, lookup, bind, Except.bind, pure, Except.pure, found]
  rfl

theorem evaluateAll_of_known (known : s.element element = .ok id) :
    s.evaluateAll element = (s.listedNames id).mapM (paired fun name => s.evaluate element name none) := by
  have opened : s.evaluateAll element = ((s.listedNames id).mapM
      (paired ((Composite.ofElement id).evaluate s.model s.environment))).mapError .evaluation := by
    simp only [evaluateAll, known, bind, Except.bind]
    rfl
  rw [opened, mapM_mapError]
  apply mapM_congr
  intro name listed
  simp only [paired, evaluate_listed known listed]
  cases (Composite.ofElement id).evaluate s.model s.environment name <;> rfl

/-- Evaluating all features of an element is evaluating each of its distinct listed names by itself: it yields them in
their order with their values, or it fails as the first of them that fails. -/
theorem evaluateAll_each (s : Session) (element : String) :
    (∀ failure, s.element element = .error failure →
      s.evaluateAll element = .error failure ∧ ∀ name, s.evaluate element name none = .error failure) ∧
    ∀ id, s.element element = .ok id →
      (s.listedNames id).Nodup ∧
      ((∃ values, s.evaluateAll element = .ok values) ↔
        ∀ name ∈ s.listedNames id, ∃ value, s.evaluate element name none = .ok value) ∧
      (∀ values, s.evaluateAll element = .ok values ↔ values.map Prod.fst = s.listedNames id ∧
        ∀ entry ∈ values, s.evaluate element entry.1 none = .ok entry.2) ∧
      ∀ failure, s.evaluateAll element = .error failure ↔ ∃ before name after,
        s.listedNames id = before ++ name :: after ∧
          (∀ earlier ∈ before, ∃ value, s.evaluate element earlier none = .ok value) ∧
          s.evaluate element name none = .error failure := by
  constructor
  · intro failure unknown
    refine ⟨?_, fun name => ?_⟩
    · rw [evaluateAll, unknown]
      rfl
    · rw [evaluate, unknown]
      rfl
  · intro id known
    have values : ∀ values, s.evaluateAll element = .ok values ↔ values.map Prod.fst = s.listedNames id ∧
        ∀ entry ∈ values, s.evaluate element entry.1 none = .ok entry.2 := by
      intro values
      rw [evaluateAll_of_known known, mapM_paired_eq_ok_iff]
    have failures : ∀ failure, s.evaluateAll element = .error failure ↔ ∃ before name after,
        s.listedNames id = before ++ name :: after ∧
          (∀ earlier ∈ before, ∃ value, s.evaluate element earlier none = .ok value) ∧
          s.evaluate element name none = .error failure := by
      intro failure
      have pair : ∀ name, (∃ entry, paired (fun name => s.evaluate element name none) name = .ok entry) ↔
          ∃ value, s.evaluate element name none = .ok value := by
        simp [paired_eq_ok_iff]
      simp only [evaluateAll_of_known known, mapM_eq_error_iff, paired_eq_error_iff, pair]
    refine ⟨Model.nodup_effectiveNames _, ⟨?_, fun each => ?_⟩, values, failures⟩
    · rintro ⟨found, all⟩ name listed
      obtain ⟨same, each⟩ := (values found).mp all
      obtain ⟨entry, member, rfl⟩ := List.mem_map.mp (same ▸ listed)
      exact ⟨entry.2, each entry member⟩
    · cases all : s.evaluateAll element with
      | ok found => exact ⟨found, rfl⟩
      | error failure =>
        obtain ⟨before, name, after, same, _, failed⟩ := (failures failure).mp all
        obtain ⟨value, succeeded⟩ := each name (same ▸ List.mem_append_right before List.mem_cons_self)
        cases failed.symm.trans succeeded

/-- A vehicle that states its mass anew. -/
def restatedMass : String :=
  "part def Vehicle \x7b attribute mass = true; attribute load = mass; \x7d part def Car :> Vehicle \x7b :>> mass = false; \x7d"

/-- The session of a model in which few features are under evaluation at a time. -/
def shallow (m : Model) : Session where
  settings := { evaluation := { maxDepth := 2 } }
  model := m

/-- The conversions play no part in what the features are worth. -/
theorem restatedMass_loads (conversions : ConversionTable) :
    ∃ loaded, LoadedModel.ofSource restatedMass = .ok loaded ∧ (shallow loaded.model).element "Car" = .ok 3 ∧
      (shallow loaded.model).listedNames 3 = ["mass", "load"] ∧
      loaded.model.feature? 3 "mass" = some 4 ∧ loaded.model.feature? 3 "load" = some 2 ∧
      loaded.model.evaluateFeature ⟨true, 2, conversions⟩ 4 3 = .ok (.boolean false) ∧
      loaded.model.evaluateFeature ⟨true, 2, conversions⟩ 2 3 = .ok (.boolean false) := by
  have facts : ((LoadedModel.ofSource restatedMass).map fun loaded => ((shallow loaded.model).element "Car",
      (shallow loaded.model).listedNames 3, loaded.model.feature? 3 "mass", loaded.model.feature? 3 "load",
      loaded.model.evaluateFeature ⟨true, 2, conversions⟩ 4 3, loaded.model.evaluateFeature ⟨true, 2, conversions⟩ 2 3)) =
      .ok (.ok 3, ["mass", "load"], some 4, some 2, .ok (.boolean false), .ok (.boolean false)) := by cbv
  obtain ⟨loaded, loads, same⟩ := LoadedModel.exists_of_map_ofSource facts
  simp only [Prod.mk.injEq] at same
  exact ⟨loaded, loads, same⟩

theorem evaluateAll_restatedMass : ∃ loaded, LoadedModel.ofSource restatedMass = .ok loaded ∧
    (shallow loaded.model).element "Car" = .ok 3 ∧
    (shallow loaded.model).evaluateAll "Car" = .ok [("mass", .boolean false), ("load", .boolean false)] := by
  obtain ⟨loaded, loads, known, listed, mass, load, massValue, loadValue⟩ :=
    restatedMass_loads (shallow .empty).environment.conversions
  refine ⟨loaded, loads, known, ?_⟩
  have named : ∀ name feature, loaded.model.feature? 3 name = some feature →
      loaded.model.evaluateFeature (shallow loaded.model).environment feature 3 = .ok (.boolean false) →
      (shallow loaded.model).evaluate "Car" name none = .ok (.boolean false) := by
    intro name feature found value
    have found' : (shallow loaded.model).model.feature? 3 name = some feature := found
    simp only [evaluate, known, bind, Except.bind, pure, Except.pure, found']
    exact congrArg _ value
  obtain ⟨_, _, values, _⟩ := (evaluateAll_each (shallow loaded.model) "Car").2 3 known
  apply (values _).mpr
  rw [listed]
  simp [named "mass" 4 mass massValue, named "load" 2 load loadValue]

end Session
end StructuralModel
