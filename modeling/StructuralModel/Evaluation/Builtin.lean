/-! The functions that expressions can call. -/

namespace StructuralModel

/-- Functions of one number that keep its unit. -/
inductive NumericFunction
  | abs
  | floor
  | ceil
  | round
deriving Repr, DecidableEq

/-- A half is rounded away from zero. -/
def NumericFunction.apply : NumericFunction → Float → Float
  | .abs, x => x.abs
  | .floor, x => x.floor
  | .ceil, x => x.ceil
  | .round, x => x.round

/-- What is made of the values that a feature has in several parts. -/
inductive Aggregate
  | sum
  | avg
  | min
  | max
deriving Repr, DecidableEq

inductive Builtin
  | count
  | size
  | aggregate (kind : Aggregate)
  | numeric (function : NumericFunction)
  | sqrt
deriving Repr, DecidableEq

namespace Builtin

def name : Builtin → String
  | .count => "count"
  | .size => "size"
  | .aggregate .sum => "sum"
  | .aggregate .avg => "avg"
  | .aggregate .min => "min"
  | .aggregate .max => "max"
  | .numeric .abs => "abs"
  | .numeric .floor => "floor"
  | .numeric .ceil => "ceil"
  | .numeric .round => "round"
  | .sqrt => "sqrt"

def all : List Builtin :=
  [.count, .size, .aggregate .sum, .aggregate .avg, .aggregate .min, .aggregate .max,
   .numeric .abs, .sqrt, .numeric .floor, .numeric .ceil, .numeric .round]

def ofName? (name : String) : Option Builtin :=
  all.find? fun builtin => builtin.name == name

theorem ofName?_name (builtin : Builtin) : ofName? builtin.name = some builtin := by
  cases builtin with
  | aggregate kind => cases kind <;> rfl
  | numeric function => cases function <;> rfl
  | _ => rfl

end Builtin
end StructuralModel
