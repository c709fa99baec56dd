import StructuralModel.Model.Element
import StructuralModel.PhysicalUnit.Text
import StructuralModel.Decimal.Shortest

/-! Results of evaluating an expression. -/

namespace StructuralModel

inductive Value
  | scalar (number : Float)
  | quantity (number : Float) (unit : PhysicalUnit)
  | boolean (value : Bool)
  | text (value : String)
  /-- An enumeration literal, told apart by its element. -/
  | literal (element : ElementId) (name : String)
  /-- An element whose own features can be evaluated on request, and the scope in which it was
  reached. Nothing inside it is computed beforehand. -/
  | composite (element origin : ElementId)
  | absent

namespace Value

/-- A number with a unit, or a plain number if the unit is dimensionless. -/
def measured (number : Float) (unit : PhysicalUnit) : Value :=
  if unit.isDimensionless then .scalar number else .quantity number unit

def kindName : Value → String
  | .scalar _ => "scalar"
  | .quantity .. => "quantity"
  | .boolean _ => "boolean"
  | .text _ => "string"
  | .literal .. => "enum"
  | .composite .. => "composite"
  | .absent => "absent"

def number? : Value → Option Float
  | .scalar number => some number
  | .quantity number _ => some number
  | _ => none

/-- The unit of a number; plain numbers are dimensionless. -/
def unit : Value → PhysicalUnit
  | .quantity _ unit => unit
  | _ => .dimensionless

def isAbsent (value : Value) : Bool :=
  value matches .absent

def printed : Value → String
  | .scalar number => Decimal.text number
  | .quantity number unit => Decimal.text number ++ " [" ++ unit.text ++ "]"
  | .boolean value => if value then "true" else "false"
  | .text value => value
  | .literal _ name => name
  | .composite element _ => "<composite #" ++ toString element ++ ">"
  | .absent => "absent"

end Value
end StructuralModel
