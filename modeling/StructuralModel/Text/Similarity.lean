/-! Words that look alike, to tell a misspelt word from an unknown one. -/

namespace StructuralModel.Text

/-- The characters of the first word that occur in the second, each with the place of an occurrence
that is at most `reach` away and was not taken before. `position` is the place of the first
character. -/
def pairings (reach : Nat) (second : List Char) (position : Nat) (taken : List Nat) :
    List Char → List (Char × Nat)
  | [] => []
  | c :: first =>
    let near := second.zipIdx.find? fun (other, place) =>
      other = c && position ≤ place + reach && place ≤ position + reach && !taken.contains place
    match near with
    | some (_, place) => (c, place) :: pairings reach second (position + 1) (place :: taken) first
    | none => pairings reach second (position + 1) taken first

/-- Whether the words share most characters in about the same order: the mean of the shared parts of
either word and of the shared characters that keep their order is above seven tenths. -/
def isSimilar (first second : List Char) : Bool :=
  let a := first.length
  let b := second.length
  let pairs := pairings (max a b / 2 - 1) second 0 [] first
  let places := pairs.map Prod.snd
  let inOrder := (second.zipIdx.filter fun (_, place) => places.contains place).map Prod.fst
  let displaced := ((pairs.map Prod.fst).zip inOrder).countP fun (c, other) => c != other
  let shared := pairs.length
  21 * shared * a * b < 10 * (shared * shared * (a + b) + (shared - displaced / 2) * a * b)

end StructuralModel.Text
