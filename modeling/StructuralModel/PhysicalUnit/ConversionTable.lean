import StructuralModel.PhysicalUnit.Basic
import StructuralModel.Decimal.Dyadic

/-! Derived unit symbols and the conversion between units of one dimension. -/

namespace StructuralModel

/-- A derived symbol stands for `factor` times the symbol `base`. -/
structure Conversion where
  factor : Float
  base : String

/-- The conversions of derived symbols, at most one for each symbol. A base is never looked up
again. -/
structure ConversionTable where
  conversions : List (String × Conversion)

namespace ConversionTable

def empty : ConversionTable := ⟨[]⟩

instance : Inhabited ConversionTable := ⟨empty⟩

def find? (table : ConversionTable) (name : String) : Option Conversion :=
  table.conversions.lookup name

/-- Adds a conversion in place of an earlier one of the same symbol. -/
def insert (table : ConversionTable) (name : String) (conversion : Conversion) : ConversionTable :=
  ⟨(name, conversion) :: table.conversions.filter fun entry => entry.1 != name⟩

def size (table : ConversionTable) : Nat :=
  table.conversions.length

def isEmpty (table : ConversionTable) : Bool :=
  table.conversions.isEmpty

def insertAll (table : ConversionTable) (conversions : List (String × Conversion)) : ConversionTable :=
  conversions.foldl (fun table entry => table.insert entry.1 entry.2) table

/-- Multiples of kilogram, metre, watt, newton and joule, and the units of time. -/
def standard : ConversionTable :=
  empty.insertAll
    [("g", ⟨1e-3, "kg"⟩), ("mg", ⟨1e-6, "kg"⟩), ("t", ⟨1e3, "kg"⟩),
     ("mm", ⟨1e-3, "m"⟩), ("cm", ⟨1e-2, "m"⟩), ("km", ⟨1e3, "m"⟩),
     ("ms", ⟨1e-3, "s"⟩), ("min", ⟨60, "s"⟩), ("h", ⟨3600, "s"⟩),
     ("kW", ⟨1e3, "W"⟩), ("MW", ⟨1e6, "W"⟩), ("kN", ⟨1e3, "N"⟩),
     ("kJ", ⟨1e3, "J"⟩), ("MJ", ⟨1e6, "J"⟩)]

/-- The symbol that a factor has after one replacement. -/
def baseOf (table : ConversionTable) (name : String) : String :=
  match table.find? name with
  | some conversion => conversion.base
  | none => name

/-- The scale that replacing a factor by its base brings with it. -/
def scaleBy (table : ConversionTable) (scale : Float) (factor : Factor) : Float :=
  match table.find? factor.1 with
  | some conversion => scale * powInt conversion.factor factor.2
  | none => scale

/-- The unit in base symbols, unless merging symbols takes an exponent out of the range. -/
def base? (table : ConversionTable) (u : PhysicalUnit) : Option PhysicalUnit :=
  u.factors.foldlM (fun base factor => base.times? (table.baseOf factor.1) factor.2) .dimensionless

/-- What one of the unit measures in base symbols. -/
def scale (table : ConversionTable) (u : PhysicalUnit) : Float :=
  u.factors.foldl table.scaleBy 1

/-- The unit as a number of base units. -/
def normalize? (table : ConversionTable) (u : PhysicalUnit) : Option (Float × PhysicalUnit) :=
  (table.base? u).map fun base => (table.scale u, base)

/-- What a number of the first unit is multiplied by to become a number of the second; none if the
two measure different things. -/
def factor? (table : ConversionTable) (source target : PhysicalUnit) : Option Float :=
  if source = target then some 1
  else do
    let (sourceScale, sourceBase) ← table.normalize? source
    let (targetScale, targetBase) ← table.normalize? target
    if sourceBase = targetBase then some (sourceScale / targetScale) else none

end ConversionTable
end StructuralModel
