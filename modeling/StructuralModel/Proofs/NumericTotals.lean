import StructuralModel.Proofs.Dimension
import StructuralModel.Proofs.StackGuard

/-! What sums and means are made of. A mean is a number made of numbers. A sum is one too, unless no operator has looked
at the values: the value of a single instance is passed on as it is, and texts are put one behind the other. -/

namespace StructuralModel
open Operators

/-- The aggregate adds up the values. -/
def Aggregate.Totals (kind : Aggregate) : Prop :=
  kind = .sum ∨ kind = .avg

namespace Operators

variable {table : ConversionTable} {value lhs rhs result : Value} {x : Float}

/-- Only numbers are multiplied with a number or divided by one, and a number comes out. -/
theorem isNumber_of_scaled {op : BinaryOp} (scales : op = .mul ∨ op = .div)
    (succeeds : binary op value (.scalar x) table = .ok result) : value.isNumber = true ∧ result.isNumber = true := by
  have number : value.isNumber = true := by
    cases value with
    | scalar | quantity => rfl
    | _ => rcases scales with rfl | rfl <;> cases succeeds
  have homogeneous := homogeneous_binary number rfl succeeds
  rcases scales with rfl | rfl
  · exact ⟨number, homogeneous.1⟩
  · exact ⟨number, homogeneous.1⟩

/-- Numbers are added to numbers and texts to texts. -/
theorem cases_of_added (succeeds : binary .add lhs rhs table = .ok result) :
    (lhs.isNumber = true ∧ rhs.isNumber = true ∧ result.isNumber = true) ∨
      ∃ a b, lhs = .text a ∧ rhs = .text b ∧ result = .text (a ++ b) := by
  have numbers (left : lhs.isNumber = true) (right : rhs.isNumber = true) :=
    (homogeneous_binary left right succeeds).2.1
  cases lhs with
  | scalar | quantity =>
    cases rhs with
    | scalar | quantity => exact .inl ⟨rfl, rfl, numbers rfl rfl⟩
    | _ => cases succeeds
  | text a =>
    cases rhs with
    | text b => exact .inr ⟨a, b, rfl, rfl, (Except.ok.inj succeeds).symm⟩
    | _ => cases succeeds
  | _ => cases rhs <;> cases succeeds

end Operators

namespace Model

section combining

variable {table : ConversionTable} {value total result : Value} {weight : Float}

theorem weighted_one (whole : (weight == 1) = true) : weighted value weight table = .ok value :=
  if_pos whole

theorem weighted_cases (succeeds : weighted value weight table = .ok result) :
    (weight == 1) = true ∧ result = value ∨ value.isNumber = true ∧ result.isNumber = true := by
  rw [weighted] at succeeds
  split at succeeds
  next whole => exact .inl ⟨whole, (Except.ok.inj succeeds).symm⟩
  next => exact .inr (isNumber_of_scaled (.inl rfl) succeeds)

variable {kind : Aggregate} (totals : kind.Totals)

include totals

theorem combine_first (value : Value) (weight : Float) :
    Aggregate.combine kind table none value weight = weighted value weight table := by
  rcases totals with rfl | rfl <;> rfl

theorem combine_next (total value : Value) (weight : Float) : Aggregate.combine kind table (some total) value weight =
    weighted value weight table >>= fun part => binary .add total part table := by
  rcases totals with rfl | rfl <;> rfl

/-- The first value need not be a number where no weight has to be taken into account. -/
theorem combine_first_cases (succeeds : Aggregate.combine kind table none value weight = .ok total) :
    (total.isNumber = true ∧ value.isNumber = true) ∨
      (total.isNumber = false ∧ (weight == 1) = true ∧ value = total) := by
  rw [combine_first totals] at succeeds
  rcases weighted_cases succeeds with ⟨whole, rfl⟩ | ⟨number, still⟩
  · cases number : total.isNumber with
    | true => exact .inl ⟨rfl, rfl⟩
    | false => exact .inr ⟨rfl, whole, rfl⟩
  · exact .inl ⟨still, number⟩

theorem combine_next_cases (succeeds : Aggregate.combine kind table (some total) value weight = .ok result) :
    (total.isNumber = true ∧ result.isNumber = true ∧ value.isNumber = true) ∨
      ∃ a b, total = .text a ∧ result = .text (a ++ b) ∧ (weight == 1) = true ∧ value = .text b := by
  rw [combine_next totals] at succeeds
  obtain ⟨part, weighs, added⟩ := bind_eq_ok succeeds
  rcases cases_of_added added with ⟨left, right, number⟩ | ⟨a, b, rfl, rfl, rfl⟩
  · refine .inl ⟨left, number, ?_⟩
    rcases weighted_cases weighs with ⟨_, rfl⟩ | ⟨number, _⟩
    · exact right
    · exact number
  · rcases weighted_cases weighs with ⟨whole, rfl⟩ | ⟨_, impossible⟩
    · exact .inr ⟨a, b, rfl, rfl, whole, rfl⟩
    · cases impossible

end combining

section gathering

variable (m : Model) (env : Environment) (featureValue : ElementId → ElementId → Evaluated Value) (kind : Aggregate)
  (feature : String)

/-- The feature has a number for its value in the part. -/
def NumberIn (next : Instance) : Prop :=
  ∃ value, m.valueInPart featureValue (Builtin.aggregate kind).name feature next.part = .ok value ∧ value.isNumber = true

/-- The feature has a value in the part that no weight changes. -/
def GivenBy (next : Instance) (value : Value) : Prop :=
  (next.weight == 1) = true ∧
    m.valueInPart featureValue (Builtin.aggregate kind).name feature next.part = .ok value

/-- What comes out without having been looked at: the value of a single instance, or texts one behind the other. -/
inductive PassedOn : List Instance → Value → Prop
  | single {next value} (given : m.GivenBy featureValue kind feature next value) (plain : value.isNumber = false) :
      PassedOn [next] value
  | texts {found texts} (several : 2 ≤ found.length)
      (given : List.Forall₂ (fun next text => m.GivenBy featureValue kind feature next (.text text)) found texts) :
      PassedOn found (.text (String.join texts))

variable {m env featureValue kind feature}

theorem PassedOn.plain {found : List Instance} {value : Value} (passed : m.PassedOn featureValue kind feature found value) :
    value.isNumber = false := by
  cases passed with
  | single _ plain => exact plain
  | texts => rfl

theorem gathered_cons_eq_ok {result? taken? : Option Value} {next : Instance} {rest : List Instance}
    (succeeds : m.gathered env featureValue kind feature result? (next :: rest) = .ok taken?) :
    ∃ value result, m.valueInPart featureValue (Builtin.aggregate kind).name feature next.part = .ok value ∧
      Aggregate.combine kind env.conversions result? value next.weight = .ok result ∧
      m.gathered env featureValue kind feature (some result) rest = .ok taken? := by
  rw [gathered_cons] at succeeds
  obtain ⟨value, given, succeeds⟩ := bind_eq_ok succeeds
  obtain ⟨result, combined, further⟩ := bind_eq_ok succeeds
  exact ⟨value, result, given, combined, further⟩

variable (totals : kind.Totals)

include totals

/-- From a number only numbers lead on, and they lead to a number. -/
theorem gathered_number {total : Value} (number : total.isNumber = true) {rest : List Instance} {taken? : Option Value}
    (succeeds : m.gathered env featureValue kind feature (some total) rest = .ok taken?) :
    (∃ result, taken? = some result ∧ result.isNumber = true) ∧ ∀ next ∈ rest, m.NumberIn featureValue kind feature next := by
  induction rest generalizing total with
  | nil => exact ⟨⟨total, (Except.ok.inj succeeds).symm, number⟩, nofun⟩
  | cons next rest ih =>
    obtain ⟨value, result, given, combined, further⟩ := gathered_cons_eq_ok succeeds
    rcases combine_next_cases totals combined with ⟨_, still, counted⟩ | ⟨a, b, rfl, _⟩
    · obtain ⟨ends, others⟩ := ih still further
      exact ⟨ends, List.forall_mem_cons.mpr ⟨⟨value, given, counted⟩, others⟩⟩
    · cases number

/-- From a text only texts lead on, and from anything else that is no number nothing does. -/
theorem gathered_plain {total : Value} (plain : total.isNumber = false) {rest : List Instance} {taken? : Option Value}
    (succeeds : m.gathered env featureValue kind feature (some total) rest = .ok taken?) :
    rest = [] ∧ taken? = some total ∨ ∃ a texts, total = .text a ∧
      List.Forall₂ (fun next text => m.GivenBy featureValue kind feature next (.text text)) rest texts ∧
      taken? = some (.text (texts.foldl (· ++ ·) a)) := by
  induction rest generalizing total with
  | nil => exact .inl ⟨rfl, (Except.ok.inj succeeds).symm⟩
  | cons next rest ih =>
    obtain ⟨value, result, given, combined, further⟩ := gathered_cons_eq_ok succeeds
    rcases combine_next_cases totals combined with ⟨number, _⟩ | ⟨a, b, rfl, rfl, whole, rfl⟩
    · exact absurd number (by simp [plain])
    · refine .inr ⟨a, ?_⟩
      rcases ih rfl further with ⟨rfl, rfl⟩ | ⟨joined, texts, same, others, rfl⟩
      · exact ⟨[b], rfl, .cons ⟨whole, given⟩ .nil, rfl⟩
      · obtain rfl := Value.text.inj same
        exact ⟨b :: texts, rfl, .cons ⟨whole, given⟩ others, rfl⟩

/-- Without instances there is no total. A total is a number made of numbers, or it is passed on. -/
theorem gathered_cases {found : List Instance} {result? : Option Value}
    (succeeds : m.gathered env featureValue kind feature none found = .ok result?) :
    (found = [] ∧ result? = none) ∨ ∃ total, result? = some total ∧
      ((total.isNumber = true ∧ ∀ next ∈ found, m.NumberIn featureValue kind feature next) ∨
        m.PassedOn featureValue kind feature found total) := by
  cases found with
  | nil => exact .inl ⟨rfl, (Except.ok.inj succeeds).symm⟩
  | cons next rest =>
    obtain ⟨value, first, given, combined, further⟩ := gathered_cons_eq_ok succeeds
    rcases combine_first_cases totals combined with ⟨number, counted⟩ | ⟨plain, whole, rfl⟩
    · obtain ⟨⟨total, rfl, still⟩, others⟩ := gathered_number totals number further
      exact .inr ⟨total, rfl, .inl ⟨still, List.forall_mem_cons.mpr ⟨⟨value, given, counted⟩, others⟩⟩⟩
    · rcases gathered_plain totals plain further with ⟨rfl, rfl⟩ | ⟨a, texts, rfl, others, rfl⟩
      · exact .inr ⟨value, rfl, .inr (.single ⟨whole, given⟩ plain)⟩
      · refine .inr ⟨_, rfl, .inr ?_⟩
        -- One text alone is the value of a single instance, only several are joined.
        cases others with
        | nil => exact .single ⟨whole, given⟩ plain
        | @cons second b rest texts other others =>
          have joined : (b :: texts).foldl (· ++ ·) a = String.join (a :: b :: texts) := by simp [String.join]
          rw [joined]
          exact .texts (by simp) (.cons ⟨whole, given⟩ (.cons other others))

/-- Texts are put one behind the other. -/
theorem gathered_texts {rest : List Instance} {texts : List String}
    (given : List.Forall₂ (fun next text => m.GivenBy featureValue kind feature next (.text text)) rest texts)
    (a : String) :
    m.gathered env featureValue kind feature (some (.text a)) rest = .ok (some (.text (texts.foldl (· ++ ·) a))) := by
  induction given generalizing a with
  | nil => rfl
  | @cons next b rest texts given _ ih =>
    have added : binary .add (.text a) (.text b) env.conversions = .ok (.text (a ++ b)) := rfl
    rw [gathered_cons, given.2, ok_bind, combine_next totals, weighted_one given.1, ok_bind, added, ok_bind, ih,
      List.foldl_cons]

theorem gathered_passed {found : List Instance} {value : Value}
    (passed : m.PassedOn featureValue kind feature found value) :
    m.gathered env featureValue kind feature none found = .ok (some value) := by
  have first : ∀ {next : Instance} {value : Value} (rest : List Instance), m.GivenBy featureValue kind feature next value →
      m.gathered env featureValue kind feature none (next :: rest) =
        m.gathered env featureValue kind feature (some value) rest := by
    intro next value rest given
    rw [gathered_cons, given.2, ok_bind, combine_first totals, weighted_one given.1, ok_bind]
  cases passed with
  | single given => exact first [] given
  | texts several given =>
    cases given with
    | nil => simp at several
    | cons given others =>
      rw [first _ given, gathered_texts totals others]
      simp [String.join]

end gathering

/-- The instances of the type that an aggregate names, and the feature that it names. -/
def Ranges (m : Model) (frame : Frame) (kind : Aggregate) (typeName featureName : Expr) (found : List Instance)
    (feature : String) : Prop :=
  ∃ type, m.typeArgument frame (Builtin.aggregate kind).name typeName = .ok type ∧
    featureArgument (Builtin.aggregate kind).name featureName = .ok feature ∧ found = m.instances type frame.scope

section outcome

variable {m : Model} {env : Environment} {featureValue : ElementId → ElementId → Evaluated Value} {frame : Frame}
  {typeName featureName : Expr} {value : Value}

theorem aggregate_eq_ok (kind : Aggregate)
    (succeeds : m.evaluateWith env featureValue frame (.call (Builtin.aggregate kind).name [typeName, featureName]) =
      .ok value) :
    ∃ found feature result? type, m.Ranges frame kind typeName featureName found feature ∧
      m.gathered env featureValue kind feature none found = .ok result? ∧
      kind.conclude m env.conversions type frame.scope found result? = .ok value := by
  rw [evaluateWith_aggregate _ (Builtin.ofName?_name _), aggregate_pair] at succeeds
  obtain ⟨type, typed, succeeds⟩ := bind_eq_ok succeeds
  obtain ⟨feature, named, succeeds⟩ := bind_eq_ok succeeds
  obtain ⟨result?, gathered, concluded⟩ := bind_eq_ok succeeds
  exact ⟨_, feature, result?, type, ⟨type, typed, named, rfl⟩, gathered, concluded⟩

theorem avg_number
    (succeeds : m.evaluateWith env featureValue frame (.call "avg" [typeName, featureName]) = .ok value) :
    value.isNumber = true ∧ ∃ found feature, m.Ranges frame .avg typeName featureName found feature ∧
      ∀ next ∈ found, m.NumberIn featureValue .avg feature next := by
  obtain ⟨found, feature, result?, type, ranges, gathered, concluded⟩ := aggregate_eq_ok .avg succeeds
  rcases gathered_cases (.inr rfl) gathered with ⟨_, rfl⟩ | ⟨total, rfl, made⟩
  · cases concluded
  · obtain ⟨number, still⟩ := isNumber_of_scaled (.inr rfl) concluded
    rcases made with ⟨_, given⟩ | passed
    · exact ⟨still, found, feature, ranges, given⟩
    · exact absurd number (by simp [passed.plain])

theorem sum_cases
    (succeeds : m.evaluateWith env featureValue frame (.call "sum" [typeName, featureName]) = .ok value) :
    ∃ found feature, m.Ranges frame .sum typeName featureName found feature ∧
      ((value.isNumber = true ∧ ∀ next ∈ found, m.NumberIn featureValue .sum feature next) ∨
        m.PassedOn featureValue .sum feature found value) := by
  obtain ⟨found, feature, result?, type, ranges, gathered, concluded⟩ := aggregate_eq_ok .sum succeeds
  refine ⟨found, feature, ranges, ?_⟩
  rcases gathered_cases (.inl rfl) gathered with ⟨rfl, rfl⟩ | ⟨total, rfl, made⟩
  · obtain rfl := Except.ok.inj concluded
    exact .inl ⟨rfl, nofun⟩
  · obtain rfl := Except.ok.inj concluded
    exact made

theorem sum_passed {found : List Instance} {feature : String} (ranges : m.Ranges frame .sum typeName featureName found feature)
    (passed : m.PassedOn featureValue .sum feature found value) :
    m.evaluateWith env featureValue frame (.call "sum" [typeName, featureName]) = .ok value := by
  obtain ⟨type, typed, named, rfl⟩ := ranges
  have called : Builtin.ofName? "sum" = some (.aggregate .sum) := Builtin.ofName?_name (.aggregate .sum)
  have total : m.aggregateOver env.conversions featureValue .sum (Builtin.aggregate .sum).name feature
      (m.instances type frame.scope) = .ok (some value) := gathered_passed (.inl rfl) passed
  rw [evaluateWith_aggregate _ called, aggregate_pair, typed, ok_bind, named, ok_bind, total]
  rfl

end outcome

/-- Means are numbers, and so are sums in general, and in every part that they are made of the feature is a number. A
sum that is none is what a single part of one instance gives, or the texts of several such parts. -/
theorem totals_of_numbers (m : Model) (env : Environment) (featureValue : ElementId → ElementId → Evaluated Value)
    (frame : Frame) (typeName featureName : Expr) (value : Value) :
    (m.evaluateWith env featureValue frame (.call "avg" [typeName, featureName]) = .ok value →
      value.isNumber = true ∧ ∃ found feature, m.Ranges frame .avg typeName featureName found feature ∧
        ∀ next ∈ found, m.NumberIn featureValue .avg feature next) ∧
    (value.isNumber = true → m.evaluateWith env featureValue frame (.call "sum" [typeName, featureName]) = .ok value →
      ∃ found feature, m.Ranges frame .sum typeName featureName found feature ∧
        ∀ next ∈ found, m.NumberIn featureValue .sum feature next) ∧
    (value.isNumber = false →
      (m.evaluateWith env featureValue frame (.call "sum" [typeName, featureName]) = .ok value ↔
        ∃ found feature, m.Ranges frame .sum typeName featureName found feature ∧
          m.PassedOn featureValue .sum feature found value)) := by
  refine ⟨avg_number, fun number succeeds => ?_, fun plain => ⟨fun succeeds => ?_, ?_⟩⟩
  · obtain ⟨found, feature, ranges, ⟨_, given⟩ | passed⟩ := sum_cases succeeds
    · exact ⟨found, feature, ranges, given⟩
    · exact absurd number (by simp [passed.plain])
  · obtain ⟨found, feature, ranges, ⟨number, _⟩ | passed⟩ := sum_cases succeeds
    · exact absurd number (by simp [plain])
    · exact ⟨found, feature, ranges, passed⟩
  · rintro ⟨found, feature, ranges, passed⟩
    exact sum_passed ranges passed

section room

/-- A room with a lamp that is lit. -/
def room : List Edit := [
  .add none .partDefinition (some "Lamp"), .add (some 0) .feature (some "lit"), .setValue 1 (.literal (.boolean true)),
  .add none .partDefinition (some "Room"), .add (some 2) .partUsage (some "lamp"), .addGeneral 3 0]

theorem ranges_room : (ofEdits room).Ranges ⟨2, none⟩ .sum (.reference ⟨"Lamp", []⟩) (.reference ⟨"lit", []⟩)
    [⟨3, 1 * Float.ofNat 1⟩] "lit" := by
  have typed : (ofEdits room).typeArgument ⟨2, none⟩ (Builtin.aggregate .sum).name (.reference ⟨"Lamp", []⟩) = .ok 0 := by
    cbv
  have seen : (ofEdits room).visibleFeatures 2 = [3] ∧ (ofEdits room).visibleFeatures 3 = [1] := ⟨by cbv, by cbv⟩
  have kinds : (ofEdits room).kind 1 = .feature ∧ (ofEdits room).kind 3 = .partUsage := ⟨by cbv, by cbv⟩
  have ends : (ofEdits room).specializes 3 0 = true := by cbv
  have count : ((ofEdits room).element 3).multiplicity = 1 := by cbv
  have below (weight : Float) : (ofEdits room).instancesBelow 0 [3, 2] 3 weight = [] := by
    rw [instancesBelow_eq]
    simp [seen, kinds]
  refine ⟨0, typed, rfl, ?_⟩
  rw [instances, instancesBelow_eq, seen.1]
  simp [kinds, ends, count, below]

theorem passedOn_room (depth : Nat) : (ofEdits room).PassedOn ((ofEdits room).featureValue {} (depth + 1) []) .sum "lit"
    [⟨3, 1 * Float.ofNat 1⟩] (.boolean true) := by
  have found : (ofEdits room).feature? 3 "lit" = some 1 := by cbv
  have kind : (ofEdits room).kind 1 = .feature := by cbv
  have inherited : (ofEdits room).isInherited 1 3 = true := by cbv
  have effective : (ofEdits room).effective 1 3 = .ok 1 := by cbv
  have valued : (ofEdits room).value? 1 = some (.literal (.boolean true)) := by cbv
  refine .single ⟨by decide +kernel, ?_⟩ rfl
  simp [valueInPart, found, elementValue, kind, inherited, featureValue_eq, effective, expressedValue, valued, evaluateWith]

/-- The one lamp of the room makes up the sum. -/
theorem totals_of_numbers_room : (Value.boolean true).isNumber = false ∧
    (ofEdits room).evaluate {} (.call "sum" [.reference ⟨"Lamp", []⟩, .reference ⟨"lit", []⟩]) 2 =
      .ok (.boolean true) :=
  ⟨rfl, ((totals_of_numbers (ofEdits room) {} ((ofEdits room).featureValue {} 256 []) ⟨2, none⟩ (.reference ⟨"Lamp", []⟩)
    (.reference ⟨"lit", []⟩) (.boolean true)).2.2 rfl).mpr ⟨_, "lit", ranges_room, passedOn_room 255⟩⟩

/-- A sum need not be a number. -/
theorem sum_lit : ¬ ∀ (edits : List Edit) (env : Environment) (scope : ElementId) (typeName featureName : Expr)
    (value : Value), (ofEdits edits).evaluate env (.call "sum" [typeName, featureName]) scope = .ok value →
      value.isNumber = true := by
  intro claim
  have number := claim room {} 2 (.reference ⟨"Lamp", []⟩) (.reference ⟨"lit", []⟩) (.boolean true)
    (sum_passed ranges_room (passedOn_room 255))
  cases number

end room

end Model
end StructuralModel
