import Guion.Run.ValueType

/-!
# Values

Objects and functions are shared: a value holds only which one it is, and two of
them are equal if they are the same one. The fields of an object are kept in the
order of their keys, each key once, so that two objects with the same fields are
kept alike however they were filled.
-/

namespace Guion

/-- The functions that every program finds in its outermost scope. -/
inductive Builtin where
  | print
  | typeOf
  | toNumber
  | toText
  | toBoolean
  deriving DecidableEq, Repr, Inhabited

namespace Builtin

/-- The name of a built-in function in a program. -/
def name : Builtin → String
  | print => "imprimir"
  | typeOf => "tipo_de"
  | toNumber => "Numero"
  | toText => "Texto"
  | toBoolean => "Booleano"

/-- What a built-in function is for. -/
def documentation : Builtin → String
  | print => "Escribe los argumentos, separados por espacios, en la salida"
  | typeOf => "Devuelve el nombre del tipo del valor como Texto"
  | toNumber => "Convierte un valor a Numero"
  | toText => "Convierte un valor a Texto"
  | toBoolean => "Convierte un valor a Booleano"

/-- Every built-in function, in the order of installation. -/
def all : List Builtin := [print, typeOf, toNumber, toText, toBoolean]

/-- The built-in function with a given name. -/
def ofName? (name : String) : Option Builtin :=
  all.find? (·.name == name)

end Builtin

/-- A value of a running program. Objects and functions are given by where the
store keeps them. -/
inductive Value where
  | null
  | boolean (b : Bool)
  | number (x : Float)
  | text (s : String)
  | object (id : Nat)
  | builtin (f : Builtin)
  | function (id : Nat)
  deriving Repr, Inhabited, DecidableEq

namespace Value

/-- The type of a value. -/
def type : Value → ValueType
  | null => .null
  | boolean _ => .boolean
  | number _ => .number
  | text _ => .text
  | object _ => .object
  | builtin _ => .function
  | function _ => .function

/-- Equality as a program sees it. Values of different types are never equal,
and what is not a number differs from itself. -/
def equals : Value → Value → Bool
  | null, null => true
  | boolean a, boolean b => a == b
  | number a, number b => a == b
  | text a, text b => a == b
  | object a, object b => a == b
  | builtin a, builtin b => a == b
  | function a, function b => a == b
  | _, _ => false

/-- The truth value that a value is. -/
def asBoolean? : Value → Option Bool
  | boolean b => some b
  | _ => none

/-- Whether a value counts as true where it is converted. -/
def isTruthy : Value → Bool
  | null => false
  | boolean b => b
  | number x => x != 0 && !x.isNaN
  | text s => !s.isEmpty
  | object _ | builtin _ | function _ => true

end Value

/-- The fields of an object, by ascending key. -/
abbrev Fields := List (String × Value)

namespace Fields

/-- The value under a key. -/
def get? (fields : Fields) (key : String) : Option Value :=
  List.lookup key fields

/-- Puts a value under a key, in place of one that is there already. -/
def insert (key : String) (value : Value) : Fields → Fields
  | [] => [(key, value)]
  | (k, v) :: rest =>
    if key < k then (key, value) :: (k, v) :: rest
    else if key = k then (key, value) :: rest
    else (k, v) :: insert key value rest

end Fields

end Guion
