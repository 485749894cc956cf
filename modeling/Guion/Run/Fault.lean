import Guion.Token.Keyword
import Guion.Tree.Operator
import Guion.Run.ValueType

/-!
# Faults of a running program

A fault is a cause, without a place: the same fault can come from many places of a
program, and the evaluator adds the place. The wording depends on the cause alone.
-/

namespace Guion

/-- The sort of trouble that a diagnostic reports. -/
inductive Category where
  | syntactic
  | reference
  | type
  | internal
  deriving DecidableEq, Repr, Inhabited

/-- How a category is announced. -/
def Category.description : Category → String
  | syntactic => "Error de sintaxis"
  | reference => "Error de referencia"
  | type => "Error de tipo"
  | internal => "Error interno"

/-- Why a program could not go on. -/
inductive Fault where
  | alreadyDeclared (name : String)
  | missingType (name : String)
  | constantWithoutValue (name : String)
  | undeclared (name : String)
  | uninitialized (name : String)
  | assignToConstant (name : String)
  | typeMismatch (name : String) (expected found : ValueType)
  | unknownType (name : String)
  | arityMismatch (name : String) (expected found : Nat)
  | argumentTypeMismatch (parameter : String) (expected found : ValueType)
  | notCallable (found : ValueType)
  | notAnObject (found : ValueType)
  | invalidPropertyKey (found : ValueType)
  | missingProperty (key : String)
  | invalidOperands (operator : Operator) (lhs rhs : ValueType)
  | conditionNotBoolean (found : ValueType)
  | returnOutsideFunction
  | controlOutsideLoop (keyword : Keyword)
  | notANumeral (text : String)
  | invalidConversion (found target : ValueType)
  | callDepthExceeded (limit : Nat)
  | invalidTarget
  | outputFailed (reason : String)
  deriving DecidableEq, Repr

namespace Fault

/-- The wording of a fault. -/
def message : Fault → String
  | alreadyDeclared name => "La variable `" ++ name ++ "` ya ha sido declarada"
  | missingType name => "No se puede declarar `" ++ name ++ "` sin un tipo ni un valor"
  | constantWithoutValue name =>
    "No se puede declarar la constante `" ++ name ++ "` sin un valor"
  | undeclared name => "No se puede resolver la variable `" ++ name ++ "`"
  | uninitialized name =>
    "No se puede acceder a la variable `" ++ name ++ "` porque no ha sido inicializada"
  | assignToConstant name => "No se puede reasignar la constante `" ++ name ++ "`"
  | typeMismatch name expected found =>
    "No se puede asignar un valor de diferente tipo. La variable `" ++ name
      ++ "` tiene el tipo " ++ expected.name ++ " pero se intenta asignar un valor de tipo "
      ++ found.name
  | unknownType name =>
    "Tipo desconocido `" ++ name
      ++ "`; los tipos válidos son Nulo, Booleano, Numero, Texto, Objeto y Funcion"
  | arityMismatch name expected found =>
    "La función `" ++ name ++ "` espera " ++ toString expected ++ " argumento(s), pero recibió "
      ++ toString found
  | argumentTypeMismatch parameter expected found =>
    "El parámetro `" ++ parameter ++ "` es de tipo " ++ expected.name
      ++ ", pero recibió un valor de tipo " ++ found.name
  | notCallable found => "Un valor de tipo " ++ found.name ++ " no se puede llamar como función"
  | notAnObject found =>
    "Se esperaba un Objeto, pero se encontró un valor de tipo " ++ found.name
  | invalidPropertyKey found =>
    "La clave de una propiedad debe ser Texto, pero es de tipo " ++ found.name
  | missingProperty key => "El objeto no tiene la propiedad `" ++ key ++ "`"
  | invalidOperands operator lhs rhs =>
    "El operador `" ++ operator.spelling ++ "` no admite operandos de tipo " ++ lhs.name
      ++ " y " ++ rhs.name
  | conditionNotBoolean found =>
    "La condición debe ser de tipo Booleano, pero es de tipo " ++ found.name
  | returnOutsideFunction => "No se puede usar `devolver` fuera de una función"
  | controlOutsideLoop keyword =>
    "No se puede usar `" ++ keyword.spelling ++ "` fuera de un bucle `mientras`"
  | notANumeral text => "No se puede convertir \"" ++ text ++ "\" a Numero"
  | invalidConversion found target =>
    "No se puede convertir un valor de tipo " ++ found.name ++ " a " ++ target.name
  | callDepthExceeded limit =>
    "Se superó la profundidad máxima de llamadas (" ++ toString limit ++ ")"
  | invalidTarget => "No se puede asignar a esta expresión"
  | outputFailed reason => "No se pudo escribir la salida: " ++ reason

/-- The category of a fault. -/
def category : Fault → Category
  | undeclared _ | uninitialized _ | missingProperty _ => .reference
  | callDepthExceeded _ | invalidTarget | outputFailed _ => .internal
  | _ => .type

/-- Advice on how to mend a program, for the faults that have some. -/
def hint? : Fault → Option String
  | undeclared name => some ("declara `" ++ name ++ "` con `var` o `const` antes de usarla")
  | assignToConstant _ => some "usa `var` en lugar de `const` si el valor debe cambiar"
  | _ => none

end Fault

end Guion
