/-!
# Types of values

Every value has one of six types. Their names are what annotations are written
with and what a program sees.
-/

namespace Guion

/-- The type of a value. -/
inductive ValueType where
  | null
  | boolean
  | number
  | text
  | object
  | function
  deriving DecidableEq, Repr, Inhabited

namespace ValueType

/-- The name of a type in a program. -/
def name : ValueType → String
  | null => "Nulo"
  | boolean => "Booleano"
  | number => "Numero"
  | text => "Texto"
  | object => "Objeto"
  | function => "Funcion"

/-- Every type. -/
def all : List ValueType := [null, boolean, number, text, object, function]

/-- The type with a given name. -/
def ofName? (name : String) : Option ValueType :=
  all.find? (·.name == name)

end ValueType

end Guion
