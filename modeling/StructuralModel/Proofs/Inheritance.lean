import StructuralModel.Model.Lookup
import StructuralModel.Proofs.OwnRedefinition

/-! What a scope inherits, and which of it a name finds there. Whatever is inherited by something that
the scope specializes is inherited by the scope, and so is everything that a redefinition leads to. -/

namespace StructuralModel.Model
open Relation

variable {m : Model} {feature scope : ElementId}

theorem Inherited.of_reaches {general : ElementId} (reached : m.Reaches scope general)
    (inside : m.Inherited feature general) : m.Inherited feature scope := by
  obtain ⟨owner, owned, above⟩ := inside
  exact ⟨owner, owned, reached.trans above⟩

theorem RedefinesByChain.inherited (valid : EdgesValid m) {target : ElementId}
    (chain : m.RedefinesByChain feature target) (inside : m.Inherited feature scope) :
    m.Inherited target scope := by
  obtain ⟨owner, owned, reached⟩ := inside
  obtain ⟨owner', general, owned', above, climbed⟩ := chain.climbs valid
  obtain rfl := Option.some.inj (owned.symm.trans owned')
  exact ⟨general, above, reached.trans climbed.to_reflTransGen⟩

theorem RedefinesByChain.isFeature (valid : EdgesValid m) {target : ElementId}
    (chain : m.RedefinesByChain feature target) :
    m.isFeature feature = true ∧ m.isFeature target = true := by
  constructor
  · obtain ⟨next, edge, _⟩ := TransGen.head'_iff.mp chain
    exact (valid.overrides feature next edge).feature
  · obtain ⟨last, _, edge⟩ := TransGen.tail'_iff.mp chain
    exact (valid.overrides last target edge).redefined

theorem Expresses.eq_or_chain {found : ElementId} (expressed : m.Expresses feature found) :
    found = feature ∨ m.RedefinesByChain feature found := by
  induction expressed with
  | own | last => exact .inl rfl
  | inherited _ edge _ ih =>
    rcases ih with rfl | chain
    · exact .inr (.single edge)
    · exact .inr (.head edge chain)

theorem Expresses.inherited_in (valid : EdgesValid m) {found : ElementId} (expressed : m.Expresses feature found)
    (inside : m.Inherited feature scope) : m.Inherited found scope := by
  rcases expressed.eq_or_chain with rfl | chain
  · exact inside
  · exact chain.inherited valid inside

/-- A chain that starts at a feature passes what that feature expresses, before or after any other. -/
theorem Expresses.before_or_after {found target : ElementId} (expressed : m.Expresses feature found)
    (chain : m.RedefinesByChain feature target) : m.RedefinesByChain found target ∨ m.Expresses target found := by
  induction expressed with
  | own | last => exact .inl chain
  | inherited _ edge rest ih =>
    obtain ⟨next, edge', further⟩ := TransGen.head'_iff.mp chain
    obtain rfl := Option.some.inj (edge.symm.trans edge')
    rcases reflTransGen_iff_eq_or_transGen.mp further with rfl | further
    · exact .inr rest
    · exact ih further

theorem inherited_of_resolve {found : ElementId} (resolved : m.resolve feature scope = .ok found) :
    m.Inherited feature scope := by
  rw [← isReachable_iff]
  by_contra outside
  rw [Bool.not_eq_true] at outside
  simp [resolve, outside] at resolved

theorem exists_mostSpecific_of_resolve (valid : WellFormed m) (forest : Forest m) {found : ElementId}
    (kind : m.isFeature feature = true) (resolved : m.resolve feature scope = .ok found) :
    ∃ single, m.MostSpecific feature scope single ∧ m.Expresses single found := by
  have described : m.Resolves feature scope (m.resolve feature scope) :=
    resolves_resolve forest valid.acyclic_redefines kind
  rw [resolved] at described
  cases described with
  | @chosen owner single _ _ _ only expressed =>
    have member : single ∈ m.mostSpecificIn feature scope owner := by simp [only]
    exact ⟨single, ((mem_mostSpecificIn forest).mp member).1, expressed⟩

theorem effective_inherited (valid : WellFormed m) (forest : Forest m) {found : ElementId}
    (kind : m.isFeature feature = true) (resolved : m.resolve feature scope = .ok found) :
    m.Inherited found scope := by
  obtain ⟨single, specific, expressed⟩ := exists_mostSpecific_of_resolve valid forest kind resolved
  exact expressed.inherited_in valid.toEdgesValid specific.qualifies.inherited

/-- The effective feature redefines the given one, or the given one has nothing else to express. -/
theorem redefines_or_expresses_of_resolve (valid : WellFormed m) (forest : Forest m) {found : ElementId}
    (kind : m.isFeature feature = true) (resolved : m.resolve feature scope = .ok found) :
    m.RedefinesByChain found feature ∨ m.Expresses feature found := by
  obtain ⟨single, specific, expressed⟩ := exists_mostSpecific_of_resolve valid forest kind resolved
  rcases specific.qualifies.related with rfl | chain
  · exact .inr expressed
  · exact expressed.before_or_after chain

/-- Of two elements of a scope's closure, the first stands nearer to the scope. -/
def Precedes (m : Model) (scope first second : ElementId) : Prop :=
  ∃ nearer farther, m.lineage scope = nearer ++ second :: farther ∧ first ∈ nearer

theorem precedes_iff {first second : ElementId} {nearer farther : List ElementId}
    (closure : m.lineage scope = nearer ++ second :: farther) : m.Precedes scope first second ↔ first ∈ nearer := by
  refine ⟨?_, fun member => ⟨nearer, farther, closure, member⟩⟩
  rintro ⟨nearer', farther', closure', member⟩
  have distinct := m.nodup_lineage scope
  rw [closure, List.nodup_middle, List.nodup_cons, List.mem_append, not_or] at distinct
  have same := (List.append_cons_inj_of_notMem distinct.1.1 distinct.1.2).mp (closure.symm.trans closure')
  exact same.1 ▸ member

/-- The closure is in order: of two different elements one stands before the other. -/
theorem precedes_total {first second : ElementId} (reached : m.Reaches scope first) (also : m.Reaches scope second) :
    first = second ∨ m.Precedes scope first second ∨ m.Precedes scope second first := by
  obtain ⟨nearer, farther, closure⟩ := List.append_of_mem (mem_lineage.mpr reached)
  have member := mem_lineage.mpr also
  rw [closure, List.mem_append, List.mem_cons] at member
  rcases member with before | rfl | after
  · exact .inr (.inr ⟨nearer, farther, closure, before⟩)
  · exact .inl rfl
  · obtain ⟨between, rest, rfl⟩ := List.append_of_mem after
    exact .inr (.inl ⟨nearer ++ first :: between, rest, by simp [closure], by simp⟩)

theorem not_precedes_scope (first : ElementId) : ¬ m.Precedes scope first scope := by
  have closure : m.lineage scope = [] ++ scope :: (m.lineage scope).tail := lineage_eq_cons scope
  rw [precedes_iff closure]
  exact List.not_mem_nil

/-- A feature of a scope with a name that no element before its owner has for a feature. -/
structure Nearest (m : Model) (scope : ElementId) (name : String) (feature : ElementId) : Prop where
  kind : m.isFeature feature = true
  named : m.name? feature = some name
  inherited : m.Inherited feature scope
  first : ∀ other owner near, m.isFeature other = true → m.name? other = some name →
    m.owner? feature = some owner → m.owner? other = some near → ¬ m.Precedes scope near owner

variable {name : String}

theorem ownFeature?_spec (forest : Forest m) {owner : ElementId} (found : m.ownFeature? name owner = some feature) :
    m.isFeature feature = true ∧ m.owner? feature = some owner ∧ m.name? feature = some name := by
  obtain ⟨kind, owned⟩ := (mem_ownedFeatures forest).mp (List.mem_of_find?_eq_some found)
  have named := List.find?_some found
  exact ⟨kind, owned, beq_iff_eq.mp named⟩

theorem name_ne_of_ownFeature? (forest : Forest m) {owner other : ElementId}
    (missing : m.ownFeature? name owner = none) (kind : m.isFeature other = true)
    (owned : m.owner? other = some owner) : m.name? other ≠ some name := by
  have missed := List.find?_eq_none.mp missing other ((mem_ownedFeatures forest).mpr ⟨kind, owned⟩)
  simpa using missed

theorem exists_feature? (forest : Forest m) (kind : m.isFeature feature = true)
    (inside : m.Inherited feature scope) (named : m.name? feature = some name) :
    ∃ found, m.feature? scope name = some found := by
  obtain ⟨owner, owned, reached⟩ := inside
  obtain ⟨ancestor, member, rfl⟩ := List.mem_map.mp (mem_lineage.mpr reached)
  refine Option.ne_none_iff_exists'.mp fun missing => ?_
  have none := List.findSome?_eq_none_iff.mp missing ancestor member
  exact name_ne_of_ownFeature? forest none kind owned named

theorem nearest_of_feature? (forest : Forest m) (found : m.feature? scope name = some feature) :
    m.Nearest scope name feature := by
  obtain ⟨before, ancestor, after, closure, own, missed⟩ := List.findSome?_eq_some_iff.mp found
  obtain ⟨kind, owned, named⟩ := ownFeature?_spec forest own
  have reached : m.Reaches scope ancestor.element := reaches_of_mem_generalClosure (by simp [closure])
  refine ⟨kind, named, ⟨_, owned, reached⟩, ?_⟩
  intro other owner near kind' named' owned' above earlier
  obtain rfl := Option.some.inj (owned.symm.trans owned')
  have order : m.lineage scope = before.map Ancestor.element ++ ancestor.element :: after.map Ancestor.element := by
    rw [lineage, closure, List.map_append, List.map_cons]
  obtain ⟨skipped, member, rfl⟩ := List.mem_map.mp ((precedes_iff order).mp earlier)
  exact name_ne_of_ownFeature? forest (missed skipped member) kind' above named'

theorem feature?_eq_some_iff (forest : Forest m) (distinct : m.DistinctNames) :
    m.feature? scope name = some feature ↔ m.Nearest scope name feature := by
  refine ⟨nearest_of_feature? forest, fun nearest => ?_⟩
  obtain ⟨found, search⟩ := exists_feature? forest nearest.kind nearest.inherited nearest.named
  have nearest' := nearest_of_feature? forest search
  obtain ⟨owner, owned, reached⟩ := nearest.inherited
  obtain ⟨owner', owned', reached'⟩ := nearest'.inherited
  rcases precedes_total reached reached' with rfl | before | after
  · have same := distinct (some owner) feature found name ((forest.member_iff owner feature).mpr owned)
      ((forest.member_iff owner found).mpr owned') nearest.named nearest'.named
    rw [search, same]
  · exact absurd before (nearest'.first feature owner' owner nearest.kind nearest.named owned' owned)
  · exact absurd after (nearest.first found owner owner' nearest'.kind nearest'.named owned owned')

end StructuralModel.Model
