import StructuralModel.Expr.Basic

/-! Types of the standard libraries. They can be used without being declared, and they have no
features. -/

namespace StructuralModel.LibraryTypes

structure Library where
  name : String
  types : List String

def standard : List Library := [
  ⟨"Base", ["Anything", "DataValue"]⟩,
  ⟨"ScalarValues",
    ["ScalarValue", "NumericalValue", "Number", "Real", "Rational", "Integer", "Natural",
     "Positive", "Complex", "Boolean", "String"]⟩,
  ⟨"ISQ",
    ["MassValue", "LengthValue", "DurationValue", "TimeValue", "SpeedValue", "AccelerationValue",
     "ForceValue", "PowerValue", "EnergyValue", "AreaValue", "VolumeValue", "TemperatureValue",
     "ThermodynamicTemperatureValue", "ElectricCurrentValue", "FrequencyValue", "PressureValue"]⟩,
  ⟨"Parts", ["Part"]⟩,
  ⟨"Items", ["Item"]⟩]

/-- Whether a name denotes a library type, by itself or after the name of its library. -/
def has : Path → Bool
  | ⟨name, []⟩ => standard.any fun library => library.types.contains name
  | ⟨library, [name]⟩ => standard.any fun l => l.name == library && l.types.contains name
  | _ => false

end StructuralModel.LibraryTypes
