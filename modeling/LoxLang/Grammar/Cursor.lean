import LoxLang.Token.Basic
import LoxLang.Tree.Basic

/-!
# Reading tokens one by one

A cursor stands between the token read last and the tokens still to come, and
hands out the numbers of places.  It never moves past the end mark, and at the
end of a list without an end mark it shows the last token.  A reading action may
fail, and leaves the cursor where it failed.
-/

namespace LoxLang

inductive FunctionRole where
  | function
  | method
deriving DecidableEq, Repr

def FunctionRole.word : FunctionRole → String
  | .function => "function"
  | .method => "method"

namespace ParseError

/-- What the grammar asks for at a place where something else stands. -/
inductive Expectation where
  | className
  | superclassName
  | classBodyStart
  | classBodyEnd
  | functionName (role : FunctionRole)
  | parametersStart (role : FunctionRole)
  | parameterName
  | parametersEnd
  | functionBodyStart (role : FunctionRole)
  | variableName
  | variableEnd
  | forStart
  | loopConditionEnd
  | forClausesEnd
  | printedValueEnd
  | expressionEnd
  | ifStart
  | conditionEnd
  | whileStart
  | returnedValueEnd
  | blockEnd
  | argumentsEnd
  | propertyName
  | superDot
  | superMethodName
  | groupEnd
deriving DecidableEq, Repr

def Expectation.message : Expectation → String
  | .className => "Expected class name"
  | .superclassName => "Expected superclass name"
  | .classBodyStart => "Expected '\x7b' before class body"
  | .classBodyEnd => "Expected '\x7d' after class body"
  | .functionName role => "Expected " ++ role.word ++ " name"
  | .parametersStart role => "Expected '(' after " ++ role.word ++ " name"
  | .parameterName => "Expected parameter name"
  | .parametersEnd => "Expected ')' after parameters"
  | .functionBodyStart role => "Expected '\x7b' before " ++ role.word ++ " body"
  | .variableName => "Expected variable name"
  | .variableEnd => "Expected ';' after variable declaration"
  | .forStart => "Expected '(' after 'for'"
  | .loopConditionEnd => "Expected ';' after loop condition"
  | .forClausesEnd => "Expected ')' after for clauses"
  | .printedValueEnd => "Expected ';' after value"
  | .expressionEnd => "Expected ';' after expression"
  | .ifStart => "Expected '(' after 'if'"
  | .conditionEnd => "Expected ')' after condition"
  | .whileStart => "Expected '(' after 'while'"
  | .returnedValueEnd => "Expected ';' after return value"
  | .blockEnd => "Expected '\x7d' after block"
  | .argumentsEnd => "Expected ')' after arguments"
  | .propertyName => "Expected property name after '.'"
  | .superDot => "Expected '.' after 'super'"
  | .superMethodName => "Expected superclass method name"
  | .groupEnd => "Expected ')' after expression"

/-- Why tokens do not follow the grammar. -/
inductive Cause where
  | expected (what : Expectation)
  /-- No expression starts with the token that has this lexeme. -/
  | expectedExpression (lexeme : String)
  /-- The tokens end where an expression should start. -/
  | expectedExpressionAtEnd
  | tooManyParameters
  | tooManyArguments
  | invalidTarget
  /-- The bound on nesting was too low for the tokens. -/
  | tooDeep
deriving DecidableEq, Repr

def Cause.message : Cause → String
  | .expected what => what.message
  | .expectedExpression lexeme =>
      "Error at '" ++ lexeme ++ "': Expected expression"
  | .expectedExpressionAtEnd => "Error at end: Expected expression"
  | .tooManyParameters => "Can't have more than 255 parameters"
  | .tooManyArguments => "Can't have more than 255 arguments"
  | .invalidTarget => "Invalid assignment target"
  | .tooDeep => "Nesting too deep"

end ParseError

/-- A place at which tokens stop following the grammar. -/
structure ParseError where
  cause : ParseError.Cause
  line : Nat
deriving DecidableEq, Repr

namespace Grammar

structure Cursor where
  previous : Token
  rest : List Token
  /-- The number of the next place that needs one. -/
  nextId : PlaceId
deriving Repr

def Cursor.start (tokens : List Token) (firstId : PlaceId) : Cursor :=
  ⟨⟨.eof, "", 0⟩, tokens, firstId⟩

/-- Nothing is left but, possibly, the end mark. -/
def Cursor.atEnd (cursor : Cursor) : Bool :=
  match cursor.rest with
  | [] => true
  | token :: _ => token.kind = .eof

/-- The next token, or the last one where there is no next one. -/
def Cursor.here (cursor : Cursor) : Token :=
  cursor.rest.headD cursor.previous

def Cursor.advance (cursor : Cursor) : Cursor :=
  match cursor.rest with
  | [] => cursor
  | token :: rest =>
      if token.kind = .eof then cursor
      else { cursor with previous := token, rest := rest }

def Cursor.sees (cursor : Cursor) (kind : Token.Kind) : Bool :=
  !cursor.atEnd && cursor.here.kind = kind

/-- More than the number of nested readings that the tokens still to come can
cause. -/
def Cursor.depthBound (cursor : Cursor) : Nat :=
  16 * cursor.rest.length + 16

abbrev Parse := EStateM ParseError Cursor

/-- Fails at the next token. -/
def failHere (cause : ParseError.Cause) : Parse α := fun cursor =>
  .error ⟨cause, cursor.here.line⟩ cursor

def sees (kind : Token.Kind) : Parse Bool := fun cursor =>
  .ok (cursor.sees kind) cursor

def atEnd : Parse Bool := fun cursor =>
  .ok cursor.atEnd cursor

/-- Reads the next token if it is of the given kind, and tells whether it
was. -/
def accept (kind : Token.Kind) : Parse Bool := fun cursor =>
  if cursor.sees kind then .ok true cursor.advance else .ok false cursor

/-- Reads the next token, which has to be of the given kind. -/
def expect (kind : Token.Kind) (what : ParseError.Expectation) :
    Parse Token := fun cursor =>
  if cursor.sees kind then .ok cursor.here cursor.advance
  else .error ⟨.expected what, cursor.here.line⟩ cursor

def identifier (what : ParseError.Expectation) : Parse Ident := do
  let token ← expect .identifier what
  return ⟨token.lexeme, token.line⟩

def previousLine : Parse Nat := fun cursor =>
  .ok cursor.previous.line cursor

/-- A number that no other place has. -/
def freshId : Parse PlaceId := fun cursor =>
  .ok cursor.nextId { cursor with nextId := cursor.nextId + 1 }

end Grammar
end LoxLang
