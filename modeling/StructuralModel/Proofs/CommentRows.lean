import StructuralModel.Proofs.CollectedMetadata
import StructuralModel.Proofs.WrittenRows

/-! The rows of the comments report. Each stands for a part and a comment that is attached to it, but a comment that
names a part twice has two rows for it. -/

namespace StructuralModel

/-- Nothing stands for an element without entries. -/
theorem Report.rowsOf_skip_eq_map (placeholder : Row) (element : ElementMetadata) (entries : List Row) :
    rowsOf .skip placeholder element entries = entries.map (identity element ++ ·) := by
  cases entries <;> rfl

namespace Model

variable {m : Model} {references : List Reference} {ids : List ElementId}

/-- A comment belongs to the parts that it refers to, or else to its owner. -/
structure Attached (m : Model) (part comment : ElementId) : Prop where
  isPart : (m.kind part).isPart
  isComment : m.kind comment = .comment
  route : m.owner? comment = some part ∧ (m.element comment).about = [] ∨ part ∈ (m.element comment).about

def commentRow (m : Model) (pair : ElementId × ElementId) : Row :=
  [(m.name? pair.1).getD "", m.path pair.1, (m.kind pair.1).name, (m.name? pair.2).getD "",
    (m.element pair.2).body?.getD ""]

/-- All parts with the comments attached to them, a comment as often as it names the part. -/
structure ListsAttached (m : Model) (pairs : List (ElementId × ElementId)) : Prop where
  mem_iff : ∀ part comment, (part, comment) ∈ pairs ↔ m.Attached part comment
  count : ∀ part comment, m.Attached part comment →
    pairs.count (part, comment) = max 1 ((m.element comment).about.count part)

theorem ListsAttached.nodup_iff {pairs : List (ElementId × ElementId)} (lists : m.ListsAttached pairs) :
    pairs.Nodup ↔ ∀ part comment, m.Attached part comment → (m.element comment).about.count part ≤ 1 := by
  rw [List.nodup_iff_count_le_one]
  constructor
  · intro once part comment attached
    have bound := once (part, comment)
    rw [lists.count part comment attached] at bound
    exact (Nat.le_max_right _ _).trans bound
  · rintro once ⟨part, comment⟩
    by_cases attached : m.Attached part comment
    · rw [lists.count part comment attached]
      exact Nat.max_le.mpr ⟨Nat.le_refl _, once part comment attached⟩
    · rw [List.count_eq_zero_of_not_mem fun member => attached ((lists.mem_iff part comment).mp member)]
      exact Nat.zero_le _

/-- The pairs that the rows of a report on some elements stand for. -/
def commentPairs (m : Model) (references : List Reference) (ids : List ElementId) : List (ElementId × ElementId) :=
  ids.flatMap fun part => (m.notesOn references .comment part).map (part, ·)

theorem rows_comments : (Report.comments .skip (ids.map (m.entryOf references))).rows =
    (m.commentPairs references ids).map m.commentRow := by
  simp only [Report.comments, Report.rows_ofEntries, commentPairs, List.flatMap_map, List.map_flatMap,
    Report.rowsOf_skip_eq_map, Report.commentRows, entryOf, List.map_map]
  rfl

theorem count_notesOn (records : Records m references) (part : ElementId) {comment : Nat}
    (kind : m.kind comment = .comment) : (m.notesOn references .comment part).count comment =
      (if m.owner? comment = some part ∧ (m.element comment).about = [] then 1 else 0) +
        (m.element comment).about.count part := by
  have known : comment < m.size := lt_of_kind (by simp [kind])
  rw [notesOn, List.count_append, (List.nodup_range.filter _).count]
  congr 1
  · simp [known, kind, records.about]
  · rw [List.count_filter (by simp [kind]), ← records.annotatedBy, records.count_annotatedBy]

theorem count_commentPairs (distinct : ids.Nodup) {part : ElementId} (listed : part ∈ ids) (comment : ElementId) :
    (m.commentPairs references ids).count (part, comment) = (m.notesOn references .comment part).count comment := by
  rw [commentPairs, List.count_flatMap, List.sum_map_eq_nsmul_single part, List.count_eq_one_of_mem distinct listed,
    one_nsmul]
  · exact List.count_map_of_injective _ _ (Prod.mk_right_injective part) comment
  · intro other apart _
    refine List.count_eq_zero_of_not_mem fun member => ?_
    obtain ⟨note, _, same⟩ := List.mem_map.mp member
    exact apart (congrArg Prod.fst same)

theorem mem_notesOn (records : Records m references) (part comment : ElementId) :
    comment ∈ m.notesOn references .comment part ↔ m.kind comment = .comment ∧
      (m.owner? comment = some part ∧ (m.element comment).about = [] ∨ part ∈ (m.element comment).about) := by
  simp only [notesOn, List.mem_append, List.mem_filter, List.mem_range, decide_eq_true_eq, mem_referrers, records.about]
  constructor
  · rintro (⟨_, kind, owned⟩ | ⟨member, kind⟩)
    · exact ⟨kind, .inl owned⟩
    · exact ⟨kind, .inr member⟩
  · rintro ⟨kind, owned | member⟩
    · exact .inl ⟨lt_of_kind (by simp [kind]), kind, owned⟩
    · exact .inr ⟨member, kind⟩

theorem Lists.mem_parts (lists : m.Lists partKinds ids) (part : ElementId) : part ∈ ids ↔ (m.kind part).isPart := by
  have kinds : m.kind part ∈ partKinds ↔ (m.kind part).isPart := by
    cases m.kind part <;> simp [partKinds, ElementKind.isPart]
  rw [lists.mem_iff, kinds]
  refine ⟨And.right, fun isPart => ⟨lt_of_kind fun package => ?_, isPart⟩⟩
  simp [package, ElementKind.isPart] at isPart

theorem listsAttached_commentPairs (records : Records m references) (lists : m.Lists partKinds ids) :
    m.ListsAttached (m.commentPairs references ids) where
  mem_iff part comment := by
    simp only [commentPairs, List.mem_flatMap, List.mem_map, Prod.mk.injEq, mem_notesOn records, lists.mem_parts]
    constructor
    · rintro ⟨_, isPart, _, ⟨isComment, route⟩, rfl, rfl⟩
      exact ⟨isPart, isComment, route⟩
    · rintro ⟨isPart, isComment, route⟩
      exact ⟨part, isPart, comment, ⟨isComment, route⟩, rfl, rfl⟩
  count part comment attached := by
    obtain ⟨isPart, isComment, route⟩ := attached
    rw [count_commentPairs lists.distinct ((lists.mem_parts part).mpr isPart), count_notesOn records part isComment]
    rcases route with ⟨owned, unreferring⟩ | member
    · simp [owned, unreferring]
    · have named := List.count_pos_iff.mpr member
      rw [if_neg fun own => List.ne_nil_of_mem member own.2]
      omega

end Model

namespace LoadedModel
open Model

/-- The rows of the comments report of a source are those of all parts with the comments attached to them. No pair is
missing, and a pair stands there more than once exactly as often as the comment names the part more than once. -/
theorem comments_list_attached {source : String} {loaded : LoadedModel} (loads : ofSource source = .ok loaded) :
    ∃ declarations pairs, Declaration.ofSource source = .ok declarations ∧
      (Report.comments .skip (loaded.model.metadata partKinds)).rows = pairs.map loaded.model.commentRow ∧
      loaded.model.ListsAttached pairs ∧
      (pairs.Nodup ↔ ∀ part comment, loaded.model.Attached part comment →
        (loaded.model.element comment).about.count part ≤ 1) ∧
      ∀ comment, (loaded.model.element comment).about.map some =
        ((Draft.ofDeclarations declarations).awaited comment).abouts.map fun path =>
          loaded.model.resolvePath? (loaded.model.owner? comment) path.segments := by
  obtain ⟨declarations, read, declared⟩ := declarations_of_ofSource loads
  obtain ⟨records, _⟩ := records_of_ofDeclarations declared
  have valid := forest_of_ofDeclarations declared
  have attached := listsAttached_commentPairs records (lists_sorted valid partKinds)
  refine ⟨declarations, _, read, ?_, attached, attached.nodup_iff, about_of_ofDeclarations declared⟩
  rw [metadata_eq records valid, rows_comments]

/-- Of the two comments in `A` one belongs to `B`. -/
def remote : String :=
  "part def A \x7b comment /* own */ comment about B /* far */ \x7d part def B;"

theorem comments_list_attached_remote : ∃ loaded, ofSource remote = .ok loaded ∧
    ∃ pairs, loaded.model.ListsAttached pairs ∧ pairs.map loaded.model.commentRow =
      [["A", "A", "PartDefinition", "", "own"], ["B", "B", "PartDefinition", "", "far"]] := by
  have facts : ((ofSource remote).map fun loaded => (Report.comments .skip (loaded.model.metadata partKinds)).rows) =
      .ok [["A", "A", "PartDefinition", "", "own"], ["B", "B", "PartDefinition", "", "far"]] := by cbv
  obtain ⟨loaded, loads, listed⟩ := exists_of_map_ofSource facts
  obtain ⟨_, pairs, _, rows, attached, _⟩ := comments_list_attached loads
  exact ⟨loaded, loads, pairs, attached, rows.symm.trans listed⟩

/-- The comment names `A` twice. -/
def namingTwice : String :=
  "part def A; comment about A, A /* note */"

/-- One part, one comment, two rows. -/
theorem two_rows_namingTwice : ¬ ∀ source loaded, ofSource source = .ok loaded →
    ∃ pairs : List (ElementId × ElementId), pairs.Nodup ∧
      (∀ part comment, (part, comment) ∈ pairs ↔ loaded.model.Attached part comment) ∧
      (Report.comments .skip (loaded.model.metadata partKinds)).rows = pairs.map loaded.model.commentRow := by
  intro single
  have facts : ((ofSource namingTwice).map fun loaded => (loaded.model.size, loaded.model.kind 0, loaded.model.kind 1,
      (Report.comments .skip (loaded.model.metadata partKinds)).rows.length)) =
      .ok (2, .partDefinition, .comment, 2) := by cbv
  obtain ⟨loaded, loads, same⟩ := exists_of_map_ofSource facts
  simp only [Prod.mk.injEq] at same
  obtain ⟨size, part, comment, two⟩ := same
  obtain ⟨pairs, distinct, attached, rows⟩ := single namingTwice loaded loads
  have only : ∀ first second : Nat, (first, second) ∈ pairs → first = 0 ∧ second = 1 := by
    intro first second member
    obtain ⟨isPart, isComment, _⟩ := (attached first second).mp member
    have older : first < 2 := size ▸ lt_of_kind fun package => by simp [package, ElementKind.isPart] at isPart
    have newer : second < 2 := size ▸ lt_of_kind (by simp [isComment])
    have apart : first ≠ 1 := fun same => by simp [same, comment, ElementKind.isPart] at isPart
    have other : second ≠ 0 := fun same => by simp [same, part] at isComment
    omega
  have bound : pairs.length ≤ [((0, 1) : ElementId × ElementId)].length := by
    refine distinct.length_le_of_subset fun pair member => List.mem_singleton.mpr ?_
    obtain ⟨zero, one⟩ := only pair.1 pair.2 member
    exact Prod.ext zero one
  rw [rows, List.length_map] at two
  simp [two] at bound

end LoadedModel
end StructuralModel
