import StructuralModel.PhysicalUnit.ConversionTable

/-! What evaluation depends on besides the model. -/

namespace StructuralModel

structure Environment where
  quantities : Bool := true
  /-- How many features may be under evaluation at a time. -/
  maxDepth : Nat := 256
  conversions : ConversionTable := .standard

instance : Inhabited Environment := ⟨{}⟩

end StructuralModel
