/-! Classes of characters given as ranges of code points. -/

namespace StructuralModel.Text

/-- Whether a character lies in one of the ranges, both ends included. -/
def within (ranges : List (Nat × Nat)) (c : Char) : Bool :=
  ranges.any fun (low, high) => low ≤ c.toNat && c.toNat ≤ high

end StructuralModel.Text
