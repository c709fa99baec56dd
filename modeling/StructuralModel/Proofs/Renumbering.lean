import Mathlib
import StructuralModel.Proofs.TopLevel

/-! Documents with the same declarations in another order. Their elements are the same up to new positions:
each block of elements moves as a whole. -/

namespace StructuralModel
open Model

namespace Entry

theorem map_congr {f g : ElementId → ElementId} {entry : Entry} (owner : ∀ id, entry.owner? = some id → f id = g id)
    (members : ∀ id ∈ entry.members, f id = g id) : entry.map f = entry.map g := by
  have owners : entry.owner?.map f = entry.owner?.map g := Option.map_congr fun id member => owner id member
  have all : entry.members.map f = entry.members.map g := List.map_congr_left members
  rw [map, map, owners, all]

theorem map_map (f g : ElementId → ElementId) (entry : Entry) : (entry.map f).map g = entry.map (g ∘ f) := by
  simp [map, Function.comp_def]

theorem map_self : Entry.map (fun id => id) = id := by
  funext entry
  simp [map]

/-- Owners and members are among the entries. -/
def Closed (entries : List Entry) : Prop :=
  ∀ entry ∈ entries, (∀ owner : Nat, entry.owner? = some owner → owner < entries.length) ∧
    ∀ member ∈ entry.members, (member : Nat) < entries.length

theorem Closed.map_congr {entries : List Entry} (closed : Closed entries) {entry : Entry} (listed : entry ∈ entries)
    {f g : ElementId → ElementId} (same : ∀ id : Nat, id < entries.length → f id = g id) : entry.map f = entry.map g :=
  Entry.map_congr (fun owner owned => same owner ((closed entry listed).1 owner owned))
    fun member owned => same member ((closed entry listed).2 member owned)

theorem Closed.getElem_congr {entries : List Entry} (closed : Closed entries) {f g : ElementId → ElementId}
    (same : ∀ id : Nat, id < entries.length → f id = g id) (id : Nat) :
    entries[id]?.map (Entry.map f) = entries[id]?.map (Entry.map g) := by
  cases found : entries[id]? with
  | none => rfl
  | some entry => exact congrArg some (closed.map_congr (List.mem_of_getElem? found) same)

theorem getElem_map_map (entries : List Entry) (f g : ElementId → ElementId) (id : Nat) :
    (entries[id]?.map (Entry.map f)).map (Entry.map g) = entries[id]?.map (Entry.map (g ∘ f)) := by
  rw [Option.map_map]
  exact congrArg (Option.map · _) (funext (map_map f g))

@[simp] theorem length_join (before block : List Entry) : (join before block).length = before.length + block.length := by
  simp [join]

theorem Closed.join {before block : List Entry} (first : Closed before) (second : Closed block) :
    Closed (join before block) := by
  intro entry listed
  rw [length_join]
  rcases List.mem_append.mp listed with old | new
  · obtain ⟨owner, members⟩ := first entry old
    exact ⟨fun id owned => Nat.lt_add_right _ (owner id owned), fun id member => Nat.lt_add_right _ (members id member)⟩
  · obtain ⟨inner, inBlock, rfl⟩ := List.mem_map.mp new
    obtain ⟨owner, members⟩ := second inner inBlock
    constructor
    · intro id owned
      obtain ⟨own, inside, rfl⟩ := Option.map_eq_some_iff.mp owned
      exact Nat.add_lt_add_left (owner own inside) _
    · intro id member
      obtain ⟨own, inside, rfl⟩ := List.mem_map.mp member
      exact Nat.add_lt_add_left (members own inside) _

theorem getElem_join_old {before block : List Entry} {id : Nat} (old : id < before.length) :
    (join before block)[id]? = before[id]? :=
  List.getElem?_append_left old

theorem getElem_join_new (before block : List Entry) (id : Nat) :
    (join before block)[before.length + id]? = block[id]?.map (Entry.map (before.length + ·)) := by
  rw [join, List.getElem?_append_right (Nat.le_add_right ..), Nat.add_sub_cancel_left, List.getElem?_map]

end Entry

open Entry

/-- The same entries at other positions. -/
structure Renumbers (ρ : Equiv.Perm Nat) (first second : List Entry) : Prop where
  length : second.length = first.length
  fixed : ∀ id : Nat, first.length ≤ id → ρ id = id
  entry : ∀ id : Nat, second[ρ id]? = first[id]?.map (Entry.map ρ)

namespace Renumbers

variable {ρ σ : Equiv.Perm Nat} {first second third : List Entry}

theorem refl (entries : List Entry) : Renumbers 1 entries entries where
  length := rfl
  fixed _ _ := rfl
  entry id := by
    cases found : entries[id]? <;> simp [found, Entry.map]

theorem trans (before : Renumbers ρ first second) (after : Renumbers σ second third) :
    Renumbers (σ * ρ) first third where
  length := after.length.trans before.length
  fixed id beyond := by
    rw [Equiv.Perm.mul_apply, before.fixed id beyond, after.fixed id (before.length ▸ beyond)]
  entry id := by
    rw [Equiv.Perm.mul_apply, after.entry, before.entry, getElem_map_map]
    rfl

theorem lt_iff (renumbers : Renumbers ρ first second) (id : Nat) : ρ id < first.length ↔ id < first.length := by
  constructor
  · intro moved
    by_contra beyond
    rw [renumbers.fixed id (Nat.le_of_not_lt beyond)] at moved
    exact beyond moved
  · intro inside
    by_contra beyond
    have same := ρ.injective (renumbers.fixed (ρ id) (Nat.le_of_not_lt beyond))
    rw [same] at beyond
    exact beyond inside

/-- A block behind renumbered entries stays where it is. -/
theorem join (renumbers : Renumbers ρ first second) (block : List Entry) :
    Renumbers ρ (Entry.join first block) (Entry.join second block) where
  length := by simp [renumbers.length]
  fixed id beyond := renumbers.fixed id (Nat.le_trans (by simp) beyond)
  entry id := by
    by_cases old : id < first.length
    · have moved : ρ id < second.length := renumbers.length ▸ (renumbers.lt_iff id).mpr old
      rw [getElem_join_old old, getElem_join_old moved, renumbers.entry]
    · obtain ⟨inner, rfl⟩ := Nat.exists_eq_add_of_le (Nat.le_of_not_lt old)
      have same : ∀ other : Nat, ρ (first.length + other) = first.length + other :=
        fun other => renumbers.fixed _ (Nat.le_add_right ..)
      rw [same, getElem_join_new, ← renumbers.length, getElem_join_new, getElem_map_map, renumbers.length]
      congr 2
      funext other
      exact (same other).symm

end Renumbers

/-- Two blocks behind `start` that change places. -/
def blockSwap (start first second : Nat) : Equiv.Perm Nat where
  toFun id :=
    if id < start then id else if id < start + first then id + second
    else if id < start + first + second then id - first else id
  invFun id :=
    if id < start then id else if id < start + second then id + first
    else if id < start + second + first then id - second else id
  left_inv id := by
    dsimp only
    split_ifs <;> omega
  right_inv id := by
    dsimp only
    split_ifs <;> omega

section blockSwap

variable {start first second id : Nat}

theorem blockSwap_old (old : id < start) : blockSwap start first second id = id := by
  simp [blockSwap, old]

theorem blockSwap_first (inside : id < first) : blockSwap start first second (start + id) = start + second + id := by
  have bounds : ¬ start + id < start ∧ start + id < start + first := by omega
  simp only [blockSwap, Equiv.coe_fn_mk, bounds.1, bounds.2, if_false, if_true]
  omega

theorem blockSwap_second (inside : id < second) : blockSwap start first second (start + first + id) = start + id := by
  have bounds : ¬ start + first + id < start ∧ ¬ start + first + id < start + first ∧
      start + first + id < start + first + second := by omega
  simp only [blockSwap, Equiv.coe_fn_mk, bounds.1, bounds.2.1, bounds.2.2, if_false, if_true]
  omega

theorem blockSwap_beyond (beyond : start + first + second ≤ id) : blockSwap start first second id = id := by
  have bounds : ¬ id < start ∧ ¬ id < start + first ∧ ¬ id < start + first + second := by omega
  simp only [blockSwap, Equiv.coe_fn_mk, bounds.1, bounds.2.1, bounds.2.2, if_false]

end blockSwap

/-- Blocks refer to themselves only, so they can change places. -/
theorem Renumbers.swap {before first second : List Entry} (old : Closed before) (one : Closed first)
    (other : Closed second) : Renumbers (blockSwap before.length first.length second.length)
      (Entry.join (Entry.join before first) second) (Entry.join (Entry.join before second) first) where
  length := by
    simp only [length_join]
    omega
  fixed id beyond := blockSwap_beyond (by simpa only [length_join] using beyond)
  entry id := by
    have apart : id < before.length ∨ (∃ inner < first.length, id = before.length + inner) ∨
        (∃ inner < second.length, id = before.length + first.length + inner) ∨
        before.length + first.length + second.length ≤ id := by
      by_cases inOld : id < before.length
      · exact .inl inOld
      by_cases inFirst : id < before.length + first.length
      · exact .inr (.inl ⟨id - before.length, by omega, by omega⟩)
      by_cases inSecond : id < before.length + first.length + second.length
      · exact .inr (.inr (.inl ⟨id - (before.length + first.length), by omega, by omega⟩))
      · exact .inr (.inr (.inr (by omega)))
    have lengths : (Entry.join before first).length = before.length + first.length ∧
        (Entry.join before second).length = before.length + second.length := ⟨length_join .., length_join ..⟩
    rcases apart with inside | ⟨inner, inside, rfl⟩ | ⟨inner, inside, rfl⟩ | beyond
    · rw [blockSwap_old inside, getElem_join_old (by omega), getElem_join_old inside, getElem_join_old (by omega),
        getElem_join_old inside, old.getElem_congr (g := fun id => id) (fun id inside => blockSwap_old inside),
        map_self, Option.map_id, id_eq]
    · rw [blockSwap_first inside, ← lengths.2, getElem_join_new, getElem_join_old (by omega), getElem_join_new,
        getElem_map_map, lengths.2]
      exact (one.getElem_congr (fun id inside => blockSwap_first inside) inner).symm
    · rw [blockSwap_second inside, ← lengths.1, getElem_join_new, getElem_join_old (by omega), getElem_join_new,
        getElem_map_map, lengths.1]
      exact (other.getElem_congr (fun id inside => blockSwap_second inside) inner).symm
    · rw [blockSwap_beyond beyond, List.getElem?_eq_none (by simp only [length_join]; omega),
        List.getElem?_eq_none (by simp only [length_join]; omega)]
      rfl

/-- The same blocks in another order give the same entries at other positions. -/
theorem Renumbers.of_perm {blocks others : List (List Entry)} (perm : blocks.Perm others)
    (closed : ∀ block ∈ blocks, Closed block) {ρ : Equiv.Perm Nat} {first second : List Entry}
    (renumbers : Renumbers ρ first second) (one : Closed first) (other : Closed second) :
    ∃ σ, Renumbers σ (blocks.foldl Entry.join first) (others.foldl Entry.join second) := by
  induction perm generalizing ρ first second with
  | nil => exact ⟨ρ, renumbers⟩
  | cons block _ ih =>
    obtain ⟨own, rest⟩ := List.forall_mem_cons.mp closed
    exact ih rest (renumbers.join block) (one.join own) (other.join own)
  | swap front back rest =>
    obtain ⟨backClosed, frontClosed, _⟩ := by simpa only [List.forall_mem_cons] using closed
    have swapped := ((renumbers.join back).join front).trans (.swap other backClosed frontClosed)
    have step : ∀ (blocks : List (List Entry)) {ρ : Equiv.Perm Nat} {first second : List Entry},
        Renumbers ρ first second → Renumbers ρ (blocks.foldl Entry.join first) (blocks.foldl Entry.join second) := by
      intro blocks
      induction blocks with
      | nil => exact fun renumbers => renumbers
      | cons block rest ih => exact fun renumbers => ih (renumbers.join block)
    exact ⟨_, step rest swapped⟩
  | trans before _ ih later =>
    obtain ⟨σ, moved⟩ := ih closed renumbers one other
    obtain ⟨τ, again⟩ := later (fun block member => closed block (before.mem_iff.mpr member)) (.refl second) other other
    exact ⟨τ * σ, moved.trans again⟩

namespace Draft

variable {d d' : Draft} {ρ : Equiv.Perm Nat}

/-- The same elements with the same names waiting, at other positions. -/
structure Renumbered (ρ : Equiv.Perm Nat) (d d' : Draft) : Prop where
  size : d'.model.size = d.model.size
  known : ∀ id : Nat, ρ id < d.model.size ↔ id < d.model.size
  entry : ∀ id : Nat, d'.entry (ρ id) = (d.entry id).map ρ

theorem closed_entries (d : Draft) : Closed d.entries := by
  intro entry listed
  rw [length_entries]
  obtain ⟨id, member, rfl⟩ := List.mem_map.mp listed
  constructor
  · intro owner owned
    have older : owner < id := owner_lt owned
    exact Nat.lt_trans older (List.mem_range.mp member)
  · intro inner owned
    exact (lt_of_mem_members owned).2

theorem getElem_entries {id : Nat} (known : id < d.model.size) : d.entries[id]? = some (d.entry id) := by
  simp [entries, known]

theorem Renumbered.of_entries (first : d.Bounded) (second : d'.Bounded) (renumbers : Renumbers ρ d.entries d'.entries) :
    Renumbered ρ d d' := by
  have size : d'.model.size = d.model.size := by simpa using renumbers.length
  have inside : ∀ id : Nat, ρ id < d.model.size ↔ id < d.model.size := by simpa using renumbers.lt_iff
  refine ⟨size, inside, fun id => ?_⟩
  by_cases known : id < d.model.size
  · have moved : ρ id < d'.model.size := size ▸ (inside id).mpr known
    have same := renumbers.entry id
    rw [getElem_entries known, getElem_entries moved] at same
    exact Option.some.inj same
  · have beyond := Nat.le_of_not_lt known
    rw [renumbers.fixed id (by simpa using beyond), first id beyond, second id (size ▸ beyond)]
    rfl

end Draft

namespace Declaration

@[simp] theorem name_unplaced (declaration : Declaration) : declaration.unplaced.name? = declaration.name? := by
  cases declaration with
  | usage kind header members =>
    rw [unplaced, name?, name?, Draft.declaredName_unplaced, Option.map_map]
    rfl
  | comment own? about body =>
    rw [unplaced, name?, name?, Option.map_map]
    rfl
  | _ => rw [unplaced]; rfl

theorem unplacedAll_eq_map (declarations : List Declaration) : unplacedAll declarations = declarations.map unplaced := by
  induction declarations with
  | nil => rfl
  | cons declaration rest ih => rw [unplacedAll, ih, List.map_cons]

/-- Documents with the same declarations in another order, each at its own place in its text. -/
def Reordered (declarations others : List Declaration) : Prop :=
  (declarations.map unplaced).Perm (others.map unplaced)

variable {declarations others : List Declaration}

theorem Reordered.symm (reordered : Reordered declarations others) : Reordered others declarations :=
  List.Perm.symm reordered

theorem Reordered.names (reordered : Reordered declarations others) :
    (declarations.filterMap (·.name?)).Perm (others.filterMap (·.name?)) := by
  have same := List.Perm.filterMap (·.name?) reordered
  simpa [List.filterMap_map, Function.comp_def] using same

/-- The block of a declaration does not depend on the places. -/
theorem Reordered.blocks (reordered : Reordered declarations others) :
    (declarations.map (·.block)).Perm (others.map (·.block)) := by
  have same := List.Perm.map (Draft.empty.declare none) reordered
  rwa [List.map_map, List.map_map] at same

end Declaration

namespace Draft

variable {declarations others : List Declaration}

/-- Nothing new is wrong with the declarations in another order, and they declare the same elements. -/
theorem exists_renumbered (reordered : Declaration.Reordered declarations others)
    (clean : (ofDeclarations declarations).problems = []) :
    (ofDeclarations others).problems = [] ∧ ∃ ρ, Renumbered ρ (ofDeclarations declarations) (ofDeclarations others) := by
  have blocks := reordered.blocks
  obtain ⟨sound, distinct⟩ := (problems_ofDeclarations declarations).mp clean
  have clean' : (ofDeclarations others).problems = [] := by
    refine (problems_ofDeclarations others).mpr ⟨?_, reordered.names.nodup_iff.mp distinct⟩
    intro declaration member
    have listed := blocks.mem_iff.mpr (List.mem_map_of_mem member)
    obtain ⟨same, inside, equal⟩ := List.mem_map.mp listed
    exact equal ▸ sound same inside
  have first := laysOut_ofDeclarations declarations
  have second := laysOut_ofDeclarations others
  have closed : ∀ block ∈ declarations.map (·.block.entries), Closed block := by
    intro block member
    obtain ⟨declaration, _, rfl⟩ := List.mem_map.mp member
    exact closed_entries _
  have perm : (declarations.map (·.block.entries)).Perm (others.map (·.block.entries)) := by
    simpa only [List.map_map, Function.comp_def] using blocks.map Draft.entries
  obtain ⟨ρ, renumbers⟩ := Renumbers.of_perm perm closed (.refl empty.entries) (closed_entries _) (closed_entries _)
  rw [← first.entries clean, ← second.entries clean'] at renumbers
  exact ⟨clean', ρ, .of_entries first.bounded second.bounded renumbers⟩

end Draft
end StructuralModel
