import Guion.Token.Basic

/-!
# What a parser complains about

A complaint names the expectation that was not met and the token found instead.
The wording is a function of the complaint alone, and positions do not enter it.
-/

namespace Guion

/-- The part of the program that a missing token would have belonged to. -/
inductive Context where
  | si
  | peroSi
  | sino
  | mientras
  | hacer
  | funcion
  | condition
  | functionName
  | signature
  | parameter
  | parameterList
  | parameterName
  | parameterType
  | returnType
  | variableName
  | variableType
  | property
  | period
  | key
  | argument
  | arguments
  | expression
  | block
  deriving DecidableEq, Repr

/-- How a message refers to a part of the program. -/
def Context.phrase : Context → String
  | si => "`si`"
  | peroSi => "`pero_si`"
  | sino => "`sino`"
  | mientras => "`mientras`"
  | hacer => "`hacer`"
  | funcion => "`fun`"
  | condition => "la condición"
  | functionName => "el nombre de la función"
  | signature => "la firma de la función"
  | parameter => "un parámetro"
  | parameterList => "la lista de parámetros"
  | parameterName => "el nombre del parámetro"
  | parameterType => "el tipo del parámetro"
  | returnType => "el tipo de retorno"
  | variableName => "el nombre de la variable"
  | variableType => "el tipo de la variable"
  | property => "una propiedad del objeto"
  | period => "el punto `.`"
  | key => "la clave"
  | argument => "un argumento"
  | arguments => "los argumentos"
  | expression => "la expresión"
  | block => "el bloque"

/-- The first expectation that a token list does not meet. -/
inductive Complaint (ρ : Type) where
  | expectedLeftParen (context : Context) (found : Token ρ)
  | expectedRightParen (context : Context) (found : Token ρ)
  | expectedLeftBrace (context : Context) (found : Token ρ)
  | expectedRightBrace (context : Context) (found : Token ρ)
  | expectedRightBracket (context : Context) (found : Token ρ)
  | expectedColon (context : Context) (found : Token ρ)
  | expectedComma (context : Context) (found : Token ρ)
  | expectedSemicolon (found : Token ρ)
  | expectedName (context : Context) (found : Token ρ)
  | expectedHacer (found : Token ρ)
  | unknownStart (found : Token ρ)
  | invalidTarget (equals : Token ρ) (target : ρ)
  | danglingAlternate (found : Token ρ)
  | missingType (name : Located ρ String)
  | constantWithoutValue (name : Located ρ String)
  | invalidNumber (found : Token ρ)
  deriving DecidableEq, Repr

namespace Complaint

variable {ρ σ : Type}

/-- Where a complaint points. -/
def range : Complaint ρ → ρ
  | expectedLeftParen _ found | expectedRightParen _ found | expectedLeftBrace _ found
  | expectedRightBrace _ found | expectedRightBracket _ found | expectedColon _ found
  | expectedComma _ found | expectedSemicolon found | expectedName _ found
  | expectedHacer found | unknownStart found | danglingAlternate found
  | invalidNumber found => found.range
  | invalidTarget _ target => target
  | missingType name | constantWithoutValue name => name.range

/-- A sentence about a token found in place of another. -/
def butFound (expectation : String) (found : Token ρ) : String :=
  expectation ++ ", pero se encontró: " ++ found.lexeme.display

/-- The wording of a complaint. -/
def message : Complaint ρ → String
  | expectedLeftParen context found =>
    butFound ("Se esperaba un paréntesis de apertura `(` después de " ++ context.phrase) found
  | expectedRightParen context found =>
    butFound ("Se esperaba un paréntesis de cierre `)` después de " ++ context.phrase) found
  | expectedLeftBrace context found =>
    butFound ("Se esperaba una llave de apertura `\x7b` después de " ++ context.phrase) found
  | expectedRightBrace context found =>
    butFound ("Se esperaba una llave de cierre `\x7d` al final de " ++ context.phrase) found
  | expectedRightBracket context found =>
    butFound ("Se esperaba un corchete de cierre `]` después de " ++ context.phrase) found
  | expectedColon context found =>
    butFound ("Se esperaban dos puntos `:` después de " ++ context.phrase) found
  | expectedComma context found =>
    butFound ("Se esperaba una coma `,` después de " ++ context.phrase) found
  | expectedSemicolon found =>
    butFound "Se esperaba un punto y coma `;` al final de la declaración" found
  | expectedName context found =>
    butFound ("Se esperaba un identificador para " ++ context.phrase) found
  | expectedHacer found =>
    butFound "Se esperaba `hacer` después de la condición de `mientras`" found
  | unknownStart found =>
    butFound "Se esperaba un literal, un identificador o un paréntesis" found
  | invalidTarget _ _ => "Solo se puede asignar a una variable o a una propiedad de un objeto"
  | danglingAlternate found =>
    "No se permite usar `" ++ found.lexeme.display
      ++ "` fuera de una declaración condicional `si`"
  | missingType name =>
    "No se puede declarar la variable `" ++ name.value ++ "` sin valor y sin tipo"
  | constantWithoutValue name =>
    "No se puede declarar la constante `" ++ name.value ++ "` sin un valor"
  | invalidNumber found => "Número no válido: " ++ found.lexeme.display

/-- Advice on how to mend a program, for the complaints that have some. -/
def hint? : Complaint ρ → Option String
  | expectedSemicolon _ => some "termina la declaración con `;`"
  | missingType name => some ("escribe el tipo, por ejemplo `var " ++ name.value ++ ": Numero;`")
  | _ => none

end Complaint

end Guion
