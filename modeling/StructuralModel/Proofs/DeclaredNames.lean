import StructuralModel.Proofs.ContinuedEvaluation
import StructuralModel.Proofs.TopLevel

/-! What a run of declarations writes: elements behind those that are there already, and names that stand in the
declarations. What was there before stays as it is. -/

namespace StructuralModel
open Model

namespace UsageHeader

/-- The names that are looked up for a usage, those in its value included. -/
def paths (header : UsageHeader) : List Path :=
  (header.types ++ header.subsets).map (·.value) ++ (header.value?.map (·.value.paths)).getD []

end UsageHeader

namespace Declaration

mutual

/-- The names that a declaration looks up: of types, of what comments are about, and in expressions. -/
def paths : Declaration → List Path
  | .package _ members => listPaths members
  | .definition _ _ generals members => generals.map (·.value) ++ listPaths members
  | .usage _ header members => header.paths ++ listPaths members
  | .comment _ about _ => about.map (·.value)
  | .enumerationLiteral _ | .documentation .. | .importing _ => []

def listPaths : List Declaration → List Path
  | [] => []
  | declaration :: rest => declaration.paths ++ listPaths rest

end

end Declaration

namespace Draft

/-- Only elements from a position on are written, and only some names are. -/
structure Writes (base : Nat) (paths : List Path) (d after : Draft) : Prop where
  larger : d.model.size ≤ after.model.size
  kept : ∀ id : Nat, id < base → after.model.element id = d.model.element id
  values : ∀ id expr, after.model.value? id = some expr → d.model.value? id = some expr ∨ expr.paths ⊆ paths
  generals : ∃ more, after.generals = d.generals ++ more ∧
    ∀ general ∈ more, base ≤ (general.element : Nat) ∧ general.name.value ∈ paths
  redefinitions : ∃ more, after.redefinitions = d.redefinitions ++ more ∧
    ∀ pending ∈ more, base ≤ (pending.element : Nat)
  abouts : ∃ more, after.abouts = d.abouts ++ more ∧
    ∀ target ∈ more, base ≤ (target.element : Nat) ∧ target.name.value ∈ paths

namespace Writes

variable {base : Nat} {paths : List Path} {d middle after : Draft} {id : Nat}

/-- Nothing waits for more names. -/
theorem of_model (larger : d.model.size ≤ after.model.size)
    (kept : ∀ id : Nat, id < base → after.model.element id = d.model.element id)
    (values : ∀ id expr, after.model.value? id = some expr → d.model.value? id = some expr ∨ expr.paths ⊆ paths)
    (generals : after.generals = d.generals) (redefinitions : after.redefinitions = d.redefinitions)
    (abouts : after.abouts = d.abouts) : Writes base paths d after where
  larger := larger
  kept := kept
  values := values
  generals := ⟨[], by simp [generals], by simp⟩
  redefinitions := ⟨[], by simp [redefinitions], by simp⟩
  abouts := ⟨[], by simp [abouts], by simp⟩

theorem refl (d : Draft) : Writes base paths d d :=
  of_model (Nat.le_refl _) (fun _ _ => rfl) (fun _ _ same => .inl same) rfl rfl rfl

theorem report (problem : DeclarationProblem) : Writes base paths d (d.report problem) :=
  of_model (Nat.le_refl _) (fun _ _ => rfl) (fun _ _ same => .inl same) rfl rfl rfl

theorem trans (first : Writes base paths d middle) (last : Writes base paths middle after) :
    Writes base paths d after where
  larger := Nat.le_trans first.larger last.larger
  kept id known := (last.kept id known).trans (first.kept id known)
  values id expr written := by
    rcases last.values id expr written with before | new
    · exact first.values id expr before
    · exact .inr new
  generals := by
    obtain ⟨more, same, inside⟩ := first.generals
    obtain ⟨further, same', inside'⟩ := last.generals
    exact ⟨more ++ further, by rw [same', same, List.append_assoc], List.forall_mem_append.mpr ⟨inside, inside'⟩⟩
  redefinitions := by
    obtain ⟨more, same, inside⟩ := first.redefinitions
    obtain ⟨further, same', inside'⟩ := last.redefinitions
    exact ⟨more ++ further, by rw [same', same, List.append_assoc], List.forall_mem_append.mpr ⟨inside, inside'⟩⟩
  abouts := by
    obtain ⟨more, same, inside⟩ := first.abouts
    obtain ⟨further, same', inside'⟩ := last.abouts
    exact ⟨more ++ further, by rw [same', same, List.append_assoc], List.forall_mem_append.mpr ⟨inside, inside'⟩⟩

/-- One element gets another content, with a value from the names if it gets a new one. -/
theorem update {f : Element → Element} {members_kept owner_kept general_kept} (beyond : base ≤ id)
    (value : ∀ e expr, (f e).value? = some expr → e.value? = some expr ∨ expr.paths ⊆ paths) :
    Writes base paths d { d with model := d.model.update id f members_kept owner_kept general_kept } := by
  refine of_model (by simp) (fun other known => ?_) (fun other expr written => ?_) rfl rfl rfl
  · rw [element_update, if_neg]
    rintro ⟨rfl, _⟩
    exact Nat.not_lt_of_le beyond known
  · rw [value?, element_update] at written
    split at written
    · exact value _ _ written
    · exact .inl written

theorem setBody (beyond : base ≤ id) (body : String) : Writes base paths d (d.edit (·.setBody id body)) :=
  Writes.update beyond fun _ _ same => .inl same

theorem setLocale (beyond : base ≤ id) (locale? : Option (Spanned String)) :
    Writes base paths d (d.setLocale id locale?) := by
  cases locale? with
  | none => exact refl d
  | some locale => exact Writes.update beyond fun _ _ same => .inl same

theorem setMultiplicity (beyond : base ≤ id) (count? : Option (Spanned Float)) :
    Writes base paths d (d.setMultiplicity id count?) := by
  cases count? with
  | none => exact refl d
  | some count =>
    rw [Draft.setMultiplicity]
    split
    · exact Writes.update beyond fun _ _ same => .inl same
    · exact report _

theorem setValue (beyond : base ≤ id) {value? : Option (Spanned Expr)}
    (inside : (value?.map (·.value.paths)).getD [] ⊆ paths) : Writes base paths d (d.setValue id value?) := by
  cases value? with
  | none => exact refl d
  | some value =>
    refine Writes.update beyond fun e expr same => .inr ?_
    exact Option.some.inj same ▸ inside

theorem addGenerals (beyond : base ≤ id) {names : List (Spanned Path)} (inside : names.map (·.value) ⊆ paths) :
    Writes base paths d (d.addGenerals id names) := by
  refine { refl d with generals := ⟨_, rfl, fun general member => ?_⟩ }
  obtain ⟨name, listed, rfl⟩ := List.mem_map.mp member
  exact ⟨beyond, inside (List.mem_map_of_mem listed)⟩

theorem addRedefinition (beyond : base ≤ id) (kind : UsageKind) (name? : Option (Spanned String)) :
    Writes base paths d (d.addRedefinition id kind name?) := by
  cases name? with
  | none => exact refl d
  | some name => exact { refl d with redefinitions := ⟨_, rfl, List.forall_mem_singleton.mpr beyond⟩ }

theorem addHeader (beyond : base ≤ id) (kind : UsageKind) {header : UsageHeader} (inside : header.paths ⊆ paths) :
    Writes base paths d (d.addHeader id kind header) := by
  obtain ⟨types, value⟩ := List.append_subset.mp inside
  exact (((setMultiplicity beyond _).trans (setValue beyond value)).trans (addGenerals beyond types)).trans
    (addRedefinition beyond kind _)

theorem addComment (beyond : base ≤ id) {about : List (Spanned Path)} (inside : about.map (·.value) ⊆ paths)
    (body : Spanned String) : Writes base paths d (d.addComment id about body) := by
  refine { setBody (d := d) beyond body.value with abouts := ⟨_, rfl, fun target member => ?_⟩ }
  obtain ⟨name, listed, rfl⟩ := List.mem_map.mp member
  exact ⟨beyond, inside (List.mem_map_of_mem listed)⟩

variable {owner? : Option ElementId} (outside : ∀ owner : Nat, owner? = some owner → base ≤ owner)
  (behind : base ≤ d.model.size)

include outside behind

/-- A new element has no value yet, and its owner is no older one. -/
theorem add (kind : ElementKind) (name? : Option String) (span : Span) :
    Writes base paths d (d.add owner? kind name? span) := by
  refine of_model (by simp [Draft.add]) (fun id known => ?_) (fun id expr written => ?_) rfl rfl rfl
  · rw [Draft.add, element_add_of_ne (Nat.ne_of_lt (Nat.lt_of_lt_of_le known behind)), if_neg]
    intro owned
    exact Nat.not_lt_of_le (outside id (known_eq_some.mp owned).1) known
  · rw [Draft.add, value?] at written
    by_cases new : id = d.model.size
    · subst new
      rw [element_add_last] at written
      cases written
    · rw [element_add_of_ne new] at written
      split at written <;> exact .inl written

theorem addNamed {kind : ElementKind} {name : Spanned String} {content : Draft → ElementId → Draft}
    (filled : ∀ (added : Draft) (id : Nat), base ≤ id → base ≤ added.model.size →
      Writes base paths added (content added id)) :
    Writes base paths d (d.addNamed owner? kind name content) := by
  rw [Draft.addNamed]
  cases d.duplicate? owner? name with
  | some problem => exact report problem
  | none =>
    have added : Writes base paths d (d.add owner? kind (some name.value) name.span) := add outside behind ..
    exact added.trans (filled _ _ behind (Nat.le_trans behind added.larger))

end Writes

mutual

/-- Nothing older is written by a declaration, and no names but its own. -/
theorem writes_declare {base : Nat} {paths : List Path} (owner? : Option ElementId)
    (outside : ∀ owner : Nat, owner? = some owner → base ≤ owner) : ∀ (declaration : Declaration) (d : Draft),
    base ≤ d.model.size → declaration.paths ⊆ paths → Writes base paths d (d.declare owner? declaration)
  | .package name members, d, behind, inside => by
    rw [declare]
    exact .addNamed outside behind fun added id beyond behind =>
      writes_declareAll (some id) (fun _ same => Option.some.inj same ▸ beyond) members added behind inside
  | .definition kind name generals members, d, behind, inside => by
    rw [declare]
    obtain ⟨own, inner⟩ := List.append_subset.mp inside
    refine .addNamed outside behind fun added id beyond behind => ?_
    have typed : Writes base paths added (added.addGenerals id generals) := .addGenerals beyond own
    exact typed.trans (writes_declareAll (some id) (fun _ same => Option.some.inj same ▸ beyond) members _
      (Nat.le_trans behind typed.larger) inner)
  | .usage kind header members, d, behind, inside => by
    rw [declare]
    obtain ⟨own, inner⟩ := List.append_subset.mp inside
    split
    · exact .refl d
    · refine .addNamed outside behind fun added id beyond behind => ?_
      have described : Writes base paths added (added.addHeader id kind header) := .addHeader beyond kind own
      exact described.trans (writes_declareAll (some id) (fun _ same => Option.some.inj same ▸ beyond) members _
        (Nat.le_trans behind described.larger) inner)
  | .enumerationLiteral name, d, behind, _ => by
    rw [declare]
    exact .addNamed outside behind fun added _ _ _ => .refl added
  | .comment none about body, d, behind, inside => by
    rw [declare]
    exact (Writes.add outside behind ..).trans (.addComment behind inside body)
  | .comment (some name) about body, d, behind, inside => by
    rw [declare]
    exact .addNamed outside behind fun added id beyond _ => .addComment beyond inside body
  | .documentation locale? body, d, behind, _ => by
    rw [declare]
    exact ((Writes.add outside behind ..).trans (.setBody behind body.value)).trans (.setLocale behind locale?)
  | .importing _, d, _, _ => by
    rw [declare]
    exact .refl d

theorem writes_declareAll {base : Nat} {paths : List Path} (owner? : Option ElementId)
    (outside : ∀ owner : Nat, owner? = some owner → base ≤ owner) : ∀ (declarations : List Declaration) (d : Draft),
    base ≤ d.model.size → Declaration.listPaths declarations ⊆ paths →
      Writes base paths d (d.declareAll owner? declarations)
  | [], d, _, _ => by
    rw [declareAll]
    exact .refl d
  | declaration :: rest, d, behind, inside => by
    rw [declareAll]
    obtain ⟨own, others⟩ := List.append_subset.mp inside
    have first := writes_declare owner? outside declaration d behind own
    exact first.trans (writes_declareAll owner? outside rest _ (Nat.le_trans behind first.larger) others)

end

end Draft
end StructuralModel
