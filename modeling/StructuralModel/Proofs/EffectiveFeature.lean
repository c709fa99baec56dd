import Mathlib
import StructuralModel.Proofs.BreadthFirst
import StructuralModel.Proofs.Ownership
import StructuralModel.Resolution

/-! What the effective feature of a feature is, said without the search for it: the nearest feature of
the scope that no other redefines, followed along its redefinitions to the first with something to say. -/

namespace StructuralModel.Model
open Relation

/-- The scope is the owner of the feature or inherits from it. -/
def Inherited (m : Model) (feature scope : ElementId) : Prop :=
  ∃ owner, m.owner? feature = some owner ∧ m.Reaches scope owner

/-- A feature in the scope that can stand for the given one. -/
structure Candidate (m : Model) (feature scope candidate : ElementId) : Prop where
  kind : m.isFeature candidate = true
  inherited : m.Inherited candidate scope
  related : candidate = feature ∨ m.RedefinesByChain candidate feature

/-- A candidate that no candidate redefines. -/
structure MostSpecific (m : Model) (feature scope candidate : ElementId) : Prop where
  qualifies : m.Candidate feature scope candidate
  last : ∀ other, m.Candidate feature scope other → ¬ m.RedefinesByChain other candidate

open Classical in
/-- The most specific candidates of an owner, in declaration order. -/
noncomputable def mostSpecificIn (m : Model) (feature scope owner : ElementId) : List ElementId :=
  (m.members owner).filter fun candidate => m.MostSpecific feature scope candidate

/-- No element before the owner in the closure owns a most specific candidate. -/
structure NearestOwner (m : Model) (feature scope owner : ElementId) : Prop where
  owns : ∃ candidate, m.MostSpecific feature scope candidate ∧ m.owner? candidate = some owner
  first : ∃ nearer farther, m.lineage scope = nearer ++ owner :: farther ∧
    ∀ candidate, m.MostSpecific feature scope candidate → ∀ near ∈ nearer, m.owner? candidate ≠ some near

/-- A feature says by itself what it is worth: it has a value or owns a feature. -/
def Expressive (m : Model) (feature : ElementId) : Prop :=
  (m.value? feature).isSome = true ∨ ∃ nested, m.isFeature nested = true ∧ m.owner? nested = some feature

/-- The first expressive feature on a redefinition chain, or the last one. -/
inductive Expresses (m : Model) : ElementId → ElementId → Prop
  | own {feature} (expressive : m.Expressive feature) : Expresses m feature feature
  | last {feature} (silent : ¬ m.Expressive feature) (ends : m.redefines? feature = none) :
      Expresses m feature feature
  | inherited {feature next found} (silent : ¬ m.Expressive feature) (edge : m.RedefinesEdge feature next)
      (rest : Expresses m next found) : Expresses m feature found

/-- The result of resolving a feature in a scope. -/
inductive Resolves (m : Model) (feature scope : ElementId) : Except ResolutionError ElementId → Prop
  | notReachable (outside : ¬ m.Inherited feature scope) :
      Resolves m feature scope (.error (.notReachable (m.path feature) (m.path scope)))
  | ambiguous {owner} (inside : m.Inherited feature scope) (nearest : m.NearestOwner feature scope owner)
      (several : 2 ≤ (m.mostSpecificIn feature scope owner).length) :
      Resolves m feature scope (.error (.ambiguous (m.path feature) (m.path scope)
        ((m.mostSpecificIn feature scope owner).map m.path)))
  | chosen {owner single found} (inside : m.Inherited feature scope)
      (nearest : m.NearestOwner feature scope owner)
      (only : m.mostSpecificIn feature scope owner = [single]) (expressed : m.Expresses single found) :
      Resolves m feature scope (.ok found)

variable {m : Model} {feature scope : ElementId}

theorem Expresses.unique {found other : ElementId} (first : m.Expresses feature found)
    (second : m.Expresses feature other) : found = other := by
  induction first with
  | own expressive =>
    cases second with
    | own | last => rfl
    | inherited silent => exact absurd expressive silent
  | last silent ends =>
    cases second with
    | own | last => rfl
    | inherited _ edge => exact absurd (ends.symm.trans edge) (by simp)
  | inherited silent edge _ ih =>
    cases second with
    | own expressive => exact absurd expressive silent
    | last _ ends => exact absurd (ends.symm.trans edge) (by simp)
    | inherited _ edge' rest =>
      obtain rfl := Option.some.inj (edge.symm.trans edge')
      exact ih rest

/-- Two elements of the closure cannot both be the first owner. -/
theorem NearestOwner.unique {owner other : ElementId} (first : m.NearestOwner feature scope owner)
    (second : m.NearestOwner feature scope other) : owner = other := by
  obtain ⟨nearer, farther, closure, before⟩ := first.first
  obtain ⟨nearer', farther', closure', before'⟩ := second.first
  obtain ⟨candidate, specific, owned⟩ := first.owns
  obtain ⟨candidate', specific', owned'⟩ := second.owns
  rcases List.append_eq_append_iff.mp (closure.symm.trans closure') with ⟨between, split, rest⟩ | ⟨between, split, rest⟩
  · cases between with
    | nil => exact (List.cons.inj rest).1
    | cons head between =>
      obtain rfl := (List.cons.inj rest).1
      exact absurd owned (before' candidate specific owner (by simp [split]))
  · cases between with
    | nil => exact (List.cons.inj rest).1.symm
    | cons head between =>
      obtain rfl := (List.cons.inj rest).1
      exact absurd owned' (before candidate' specific' other (by simp [split]))

theorem Resolves.unique {result other : Except ResolutionError ElementId}
    (first : m.Resolves feature scope result) (second : m.Resolves feature scope other) : result = other := by
  cases first with
  | notReachable outside =>
    cases second with
    | notReachable => rfl
    | ambiguous inside | chosen inside => exact absurd inside outside
  | ambiguous inside nearest several =>
    cases second with
    | notReachable outside => exact absurd inside outside
    | ambiguous _ nearest' => rw [nearest.unique nearest']
    | chosen _ nearest' only =>
      rw [nearest.unique nearest', only] at several
      simp at several
  | chosen inside nearest only expressed =>
    cases second with
    | notReachable outside => exact absurd inside outside
    | ambiguous _ nearest' several =>
      rw [← nearest.unique nearest', only] at several
      simp at several
    | chosen _ nearest' only' expressed' =>
      rw [nearest.unique nearest', only', List.cons.injEq] at only
      obtain rfl := only.1
      rw [expressed.unique expressed']

theorem isReachable_iff : m.isReachable feature (m.generalClosure scope) = true ↔ m.Inherited feature scope := by
  rw [isReachable, Inherited]
  cases m.owner? feature with
  | none => simp
  | some owner => simp only [any_generalClosure, Option.some.injEq, exists_eq_left']

theorem mem_candidatesIn (valid : m.Forest) {candidate owner : ElementId} :
    candidate ∈ m.candidatesIn feature owner ↔
      (m.isFeature candidate = true ∧ m.owner? candidate = some owner) ∧
        (candidate = feature ∨ m.RedefinesByChain candidate feature) := by
  rw [candidatesIn, List.mem_filter, mem_ownedFeatures valid]
  simp [redefines_iff]

theorem mem_candidates (valid : m.Forest) {candidate : ElementId} :
    candidate ∈ m.candidates feature (m.generalClosure scope) ↔ m.Candidate feature scope candidate := by
  simp only [candidates, List.mem_flatMap, mem_candidatesIn valid]
  constructor
  · rintro ⟨ancestor, member, ⟨kind, owned⟩, related⟩
    exact ⟨kind, ⟨_, owned, reaches_of_mem_generalClosure member⟩, related⟩
  · rintro ⟨kind, ⟨owner, owned, reached⟩, related⟩
    obtain ⟨ancestor, member, rfl⟩ := List.mem_map.mp (mem_lineage.mpr reached)
    exact ⟨ancestor, member, ⟨kind, owned⟩, related⟩

theorem endsIn_eq (valid : m.Forest) {owner : ElementId} (reached : m.Reaches scope owner) :
    m.endsIn feature (m.generalClosure scope) owner = m.mostSpecificIn feature scope owner := by
  simp only [endsIn, candidatesIn, ownedFeatures, mostSpecificIn, List.filter_filter]
  apply List.filter_congr
  intro candidate member
  have owned := (valid.member_iff owner candidate).mp member
  have unredefined : (m.candidates feature (m.generalClosure scope)).any (fun other => m.redefines other candidate) = true ↔
      ∃ other, m.Candidate feature scope other ∧ m.RedefinesByChain other candidate := by
    simp [mem_candidates valid, redefines_iff]
  rw [Bool.eq_iff_iff]
  simp only [Bool.and_eq_true, Bool.not_eq_true', Bool.or_eq_true, decide_eq_true_eq, redefines_iff,
    ← Bool.not_eq_true, unredefined, not_exists, not_and]
  constructor
  · rintro ⟨last, related, kind⟩
    exact ⟨⟨kind, ⟨owner, owned, reached⟩, related⟩, last⟩
  · rintro ⟨qualifies, last⟩
    exact ⟨last, qualifies.related, qualifies.kind⟩

theorem mem_mostSpecificIn (valid : m.Forest) {candidate owner : ElementId} :
    candidate ∈ m.mostSpecificIn feature scope owner ↔
      m.MostSpecific feature scope candidate ∧ m.owner? candidate = some owner := by
  simp only [mostSpecificIn, List.mem_filter, valid.member_iff, decide_eq_true_eq, and_comm]

theorem Inherited.candidate (inside : m.Inherited feature scope) (kind : m.isFeature feature = true) :
    m.Candidate feature scope feature :=
  ⟨kind, inside, .inl rfl⟩

/-- On an acyclic graph redefinition has no infinite ascent, since the elements are finitely many. -/
theorem wellFounded_redefines (acyclic : ∀ id, ¬ m.RedefinesByChain id id) :
    WellFounded m.RedefinesByChain := by
  have finite : WellFounded fun a b : Fin m.size => m.RedefinesByChain a.val b.val := by
    have : IsTrans (Fin m.size) (fun a b => m.RedefinesByChain a.val b.val) := ⟨fun _ _ _ => TransGen.trans⟩
    have : Std.Irrefl (fun a b : Fin m.size => m.RedefinesByChain a.val b.val) := ⟨fun a => acyclic a.val⟩
    exact Finite.wellFounded_of_trans_of_irrefl _
  refine ⟨fun id => ⟨id, fun other chain => ?_⟩⟩
  have inner : ∀ a : Fin m.size, Acc m.RedefinesByChain a.val := by
    intro a
    induction a using finite.induction with
    | _ a ih => exact ⟨_, fun b chain => ih ⟨b, chain.known.1⟩ chain⟩
  exact inner ⟨other, chain.known.1⟩

/-- Every candidate is redefined by a most specific one, or is one itself. -/
theorem Candidate.exists_mostSpecific (acyclic : ∀ id, ¬ m.RedefinesByChain id id) {candidate : ElementId}
    (qualifies : m.Candidate feature scope candidate) : ∃ last, m.MostSpecific feature scope last := by
  induction candidate using (wellFounded_redefines acyclic).induction with
  | _ candidate ih =>
    by_cases last : ∀ other, m.Candidate feature scope other → ¬ m.RedefinesByChain other candidate
    · exact ⟨candidate, qualifies, last⟩
    · push Not at last
      obtain ⟨other, qualifies, chain⟩ := last
      exact ih other chain qualifies

theorem endsIn_eq_nil_iff (valid : m.Forest) {owner : ElementId} (reached : m.Reaches scope owner) :
    m.endsIn feature (m.generalClosure scope) owner = [] ↔
      ∀ candidate, m.MostSpecific feature scope candidate → m.owner? candidate ≠ some owner := by
  rw [endsIn_eq valid reached, List.eq_nil_iff_forall_not_mem]
  simp only [mem_mostSpecificIn valid, not_and, ne_eq]

/-- Where no end is before an earlier one, the nearest is the first. -/
theorem ChainEnd.nearest?_eq_head? {ends : List ChainEnd}
    (sorted : ends.Pairwise fun first second => second.isBefore first = false) :
    ChainEnd.nearest? ends = ends.head? := by
  induction ends with
  | nil => rfl
  | cons first rest ih =>
    obtain ⟨later, sorted⟩ := List.pairwise_cons.mp sorted
    rw [ChainEnd.nearest?, ih sorted]
    cases rest with
    | nil => rfl
    | cons next rest => simp [later next]

/-- What owners have, each with the depth and the position of its owner. -/
def placed (owned : ElementId → List ElementId) (order : Nat) (closure : List Ancestor) : List ChainEnd :=
  (closure.zipIdx order).flatMap fun (ancestor, order) =>
    (owned ancestor.element).map fun candidate => ⟨candidate, ancestor.depth, order⟩

theorem placed_cons (owned : ElementId → List ElementId) (order : Nat) (ancestor : Ancestor) (closure : List Ancestor) :
    placed owned order (ancestor :: closure) =
      (owned ancestor.element).map (fun candidate => ⟨candidate, ancestor.depth, order⟩) ++
        placed owned (order + 1) closure := by
  rw [placed, List.zipIdx_cons, List.flatMap_cons, placed]

theorem mem_placed {owned : ElementId → List ElementId} {order : Nat} {closure : List Ancestor} {candidate : ChainEnd}
    (member : candidate ∈ placed owned order closure) :
    order ≤ candidate.order ∧ ∃ ancestor ∈ closure, candidate.depth = ancestor.depth := by
  obtain ⟨⟨ancestor, index⟩, inside, listed⟩ := List.mem_flatMap.mp member
  obtain ⟨id, _, rfl⟩ := List.mem_map.mp listed
  exact ⟨List.le_snd_of_mem_zipIdx inside, ancestor, List.fst_mem_of_mem_zipIdx inside, rfl⟩

/-- Depths never decrease in a closure, so its order is the one of the ends in it. -/
theorem sorted_placed (owned : ElementId → List ElementId) (order : Nat) {closure : List Ancestor}
    (sorted : closure.Pairwise fun first second => first.depth ≤ second.depth) :
    (placed owned order closure).Pairwise fun first second => second.isBefore first = false := by
  induction closure generalizing order with
  | nil => exact .nil
  | cons ancestor closure ih =>
    obtain ⟨deeper, sorted⟩ := List.pairwise_cons.mp sorted
    rw [placed_cons, List.pairwise_append]
    refine ⟨List.pairwise_map.mpr (List.pairwise_iff_forall_sublist.mpr fun _ => ?_), ih (order + 1) sorted, ?_⟩
    · simp [ChainEnd.isBefore]
    · intro first own second other
      obtain ⟨_, _, rfl⟩ := List.mem_map.mp own
      obtain ⟨later, below, inside, depth⟩ := mem_placed other
      have far := deeper below inside
      simp only [ChainEnd.isBefore, Bool.or_eq_false_iff, Bool.and_eq_false_iff, decide_eq_false_iff_not]
      omega

/-- What stands in the place of the first is what the first owner has that has anything. -/
theorem filter_placed (owned : ElementId → List ElementId) (order : Nat) (closure : List Ancestor) :
    ((placed owned order closure).head?.elim [] fun best => ((placed owned order closure).filter fun other =>
        other.depth = best.depth && other.order = best.order).map ChainEnd.feature) =
      (closure.findSome? fun ancestor => Option.guard (fun ends => !ends.isEmpty) (owned ancestor.element)).getD [] := by
  induction closure generalizing order with
  | nil => rfl
  | cons ancestor closure ih =>
    rw [placed_cons, List.findSome?_cons]
    cases own : owned ancestor.element with
    | nil => simpa [Option.guard] using ih (order + 1)
    | cons first rest =>
      have others : (placed owned (order + 1) closure).filter (fun other =>
          other.depth = ancestor.depth && other.order = order) = [] := by
        refine List.filter_eq_nil_iff.mpr fun other member => ?_
        have later := (mem_placed member).1
        simp only [Bool.and_eq_true, decide_eq_true_eq, not_and]
        omega
      rw [List.map_cons, List.cons_append, List.head?_cons, Option.elim_some]
      simp [List.filter_append, List.filter_map, others, Option.guard, Function.comp_def]

/-- Depths never decrease in the closure, so the nearest ends are those of the first owner that has any. -/
theorem nearestEnds_eq (scope : ElementId) : m.nearestEnds feature (m.generalClosure scope) =
    ((m.generalClosure scope).findSome? fun ancestor => Option.guard (fun ends => !ends.isEmpty)
      (m.endsIn feature (m.generalClosure scope) ancestor.element)).getD [] := by
  have ends : m.chainEnds feature (m.generalClosure scope) =
      placed (m.endsIn feature (m.generalClosure scope)) 0 (m.generalClosure scope) := rfl
  rw [nearestEnds, ends, ChainEnd.nearest?_eq_head? (sorted_placed _ 0 (m.sorted_generalClosure scope)),
    ← filter_placed _ 0]
  cases (placed (m.endsIn feature (m.generalClosure scope)) 0 (m.generalClosure scope)).head? <;> rfl

/-- The search stops at the first element of the closure that owns a most specific candidate. -/
theorem exists_nearestOwner (valid : m.Forest) {last : ElementId} (specific : m.MostSpecific feature scope last) :
    ∃ owner, m.NearestOwner feature scope owner ∧
      m.nearestEnds feature (m.generalClosure scope) = m.mostSpecificIn feature scope owner := by
  obtain ⟨owner, owned, reached⟩ := specific.qualifies.inherited
  obtain ⟨ancestor, member, rfl⟩ := List.mem_map.mp (mem_lineage.mpr reached)
  rw [nearestEnds_eq]
  cases search : (m.generalClosure scope).findSome? fun ancestor => Option.guard (fun ends => !ends.isEmpty)
      (m.endsIn feature (m.generalClosure scope) ancestor.element) with
  | none =>
    have missed := List.findSome?_eq_none_iff.mp search ancestor member
    have empty : m.endsIn feature (m.generalClosure scope) ancestor.element = [] := by simpa using missed
    exact absurd owned ((endsIn_eq_nil_iff valid reached).mp empty last specific)
  | some ends =>
    obtain ⟨nearer, nearest, farther, closure, found, before⟩ := List.findSome?_eq_some_iff.mp search
    have inside : m.Reaches scope nearest.element := reaches_of_mem_generalClosure (by simp [closure])
    rw [Option.guard_eq_some_iff, endsIn_eq valid inside] at found
    obtain ⟨rfl, filled⟩ := found
    obtain ⟨candidate, member⟩ := List.exists_mem_of_ne_nil _ (by simpa using filled)
    refine ⟨nearest.element, ⟨⟨candidate, (mem_mostSpecificIn valid).mp member⟩,
      nearer.map Ancestor.element, farther.map Ancestor.element, ?_, ?_⟩, rfl⟩
    · rw [lineage, closure, List.map_append, List.map_cons]
    · intro candidate specific near listed
      obtain ⟨skipped, earlier, rfl⟩ := List.mem_map.mp listed
      have reached : m.Reaches scope skipped.element := reaches_of_mem_generalClosure (by simp [closure, earlier])
      have empty : m.endsIn feature (m.generalClosure scope) skipped.element = [] := by
        simpa using before skipped earlier
      exact (endsIn_eq_nil_iff valid reached).mp empty candidate specific

theorem isExpressive_iff (valid : m.Forest) : m.isExpressive feature = true ↔ m.Expressive feature := by
  rw [isExpressive, Expressive, Bool.or_eq_true, Bool.not_eq_true', List.isEmpty_eq_false_iff_exists_mem]
  simp only [mem_ownedFeatures valid]

/-- On an acyclic graph a chain never comes back to what was met before, so it is followed to its end. -/
private theorem expresses_chain (valid : m.Forest) (acyclic : ∀ id, ¬ m.RedefinesByChain id id)
    (met : List ElementId) (id : ElementId) (behind : ∀ feature ∈ met, ReflTransGen m.RedefinesEdge feature id) :
    m.Expresses id (((id :: m.redefined met id).find? m.isExpressive).getD
      ((id :: m.redefined met id).getLastD id)) := by
  induction met, id using redefined.induct m with
  | case1 met id last =>
    rw [redefined_of_none last]
    have found : (([id].find? m.isExpressive).getD ([id].getLastD id)) = id := by
      rw [List.find?_cons]
      split <;> rfl
    rw [found]
    by_cases own : m.isExpressive id = true
    · exact .own ((isExpressive_iff valid).mp own)
    · exact .last (fun expressive => own ((isExpressive_iff valid).mpr expressive)) last
  | case2 met id next found repeated =>
    exact absurd (.tail' (behind next repeated) found) (acyclic next)
  | case3 met id next found new ih =>
    rw [redefined_of_some found, if_neg new]
    by_cases own : m.isExpressive id = true
    · rw [List.find?_cons_of_pos own]
      exact .own ((isExpressive_iff valid).mp own)
    · rw [List.find?_cons_of_neg own]
      refine .inherited (fun expressive => own ((isExpressive_iff valid).mpr expressive)) found ?_
      have further := ih fun feature member => by
        rcases List.mem_cons.mp member with rfl | member
        · exact .refl
        · exact .tail (behind feature member) found
      simpa only [List.getLastD_cons] using further

theorem expresses_expressive (valid : m.Forest) (acyclic : ∀ id, ¬ m.RedefinesByChain id id) :
    m.Expresses feature (m.expressive feature) :=
  expresses_chain valid acyclic [feature] feature (by simp [ReflTransGen.refl])

theorem resolves_resolve (valid : m.Forest) (acyclic : ∀ id, ¬ m.RedefinesByChain id id)
    (kind : m.isFeature feature = true) : m.Resolves feature scope (m.resolve feature scope) := by
  rw [resolve]
  by_cases inside : m.Inherited feature scope
  · rw [if_neg (by simp [isReachable_iff.mpr inside])]
    obtain ⟨last, specific⟩ := (inside.candidate kind).exists_mostSpecific acyclic
    obtain ⟨owner, nearest, ends⟩ := exists_nearestOwner valid specific
    obtain ⟨candidate, specific, owned⟩ := nearest.owns
    have nonempty := (mem_mostSpecificIn valid).mpr ⟨specific, owned⟩
    rw [ends]
    split
    next none => simp [none] at nonempty
    next single only => exact .chosen inside nearest only (expresses_expressive valid acyclic)
    next several not_one =>
      refine .ambiguous inside nearest ?_
      match list : m.mostSpecificIn feature scope owner with
      | [] => simp [list] at nonempty
      | [single] => exact absurd list (not_one single)
      | _ :: _ :: _ => simp
  · rw [if_pos (by simp [← Bool.not_eq_true, isReachable_iff, inside])]
    exact .notReachable inside

/-- Resolution gives the result that the specification describes, and no other. -/
theorem resolve_eq_iff_resolves (edits : List Edit)
    (acyclic : ∀ id, ¬ (ofEdits edits).RedefinesByChain id id) {feature : ElementId}
    (kind : (ofEdits edits).isFeature feature = true) (scope : ElementId) :
    (∀ result, (ofEdits edits).resolve feature scope = result ↔ (ofEdits edits).Resolves feature scope result) ∧
      ((ofEdits edits).Inherited feature scope → ∃ last, (ofEdits edits).MostSpecific feature scope last) := by
  have valid := Forest.ofEdits edits
  refine ⟨fun result => ⟨?_, fun described => ?_⟩, fun inside => ?_⟩
  · rintro rfl
    exact resolves_resolve valid acyclic kind
  · exact (resolves_resolve valid acyclic kind).unique described
  · exact (inside.candidate kind).exists_mostSpecific acyclic

/-- `D` specializes `A` and then `B`, and the `w` of `B` redefines the `w` of `A` without saying more. -/
def lessSpecificFirst : List Edit := [
  .add none .partDefinition (some "A"), .add (some 0) .feature (some "w"),
  .add none .partDefinition (some "B"), .addGeneral 2 0, .add (some 2) .feature (some "w"),
  .setRedefines 3 1, .add none .partDefinition (some "D"), .addGeneral 4 0, .addGeneral 4 2,
  .setValue 1 (.literal (.boolean true))]

theorem resolves_lessSpecificFirst :
    (∀ id, ¬ (ofEdits lessSpecificFirst).RedefinesByChain id id) ∧
      (ofEdits lessSpecificFirst).isFeature 1 = true ∧ (ofEdits lessSpecificFirst).Resolves 1 4 (.ok 1) := by
  have size : (ofEdits lessSpecificFirst).size = 5 := by cbv
  have none : (List.range 5).all (fun id => !(ofEdits lessSpecificFirst).redefines id id) = true := by cbv
  have acyclic : ∀ id, ¬ (ofEdits lessSpecificFirst).RedefinesByChain id id := by
    intro id chain
    have absent := List.all_eq_true.mp none id (List.mem_range.mpr (size ▸ chain.known.1))
    simp [redefines_iff.mpr chain] at absent
  have kind : (ofEdits lessSpecificFirst).isFeature 1 = true := by cbv
  exact ⟨acyclic, kind, ((resolve_eq_iff_resolves lessSpecificFirst acyclic kind 4).1 _).mp (by cbv)⟩

end StructuralModel.Model
