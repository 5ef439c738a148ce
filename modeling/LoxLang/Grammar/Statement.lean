import LoxLang.Grammar.Expression

/-!
# Programs from tokens

    program      →  declaration* end
    declaration  →  class | "fun" function | variable | statement
    class        →  "class" name ( "<" name )? "{" function* "}"
    function     →  name "(" names? ")" block
    variable     →  ( "var" | "val" ) name ( "=" expression )? ";"
    statement    →  for | if | while | return | block | print | expression ";"

A `for` loop is read as a `while` loop in a block.  A declaration that fails is
skipped up to the end of a statement or the start of the next one, so that one
reading reports every failure of a program.
-/

namespace LoxLang
namespace Grammar

/-- The token can start a statement of its own. -/
def startsStatement : Token.Kind → Bool
  | .classWord | .funWord | .varWord | .valWord | .forWord | .ifWord
  | .whileWord | .printWord
  | .returnWord => true
  | _ => false

/-- The place up to which tokens are skipped: behind a semicolon, in front of
the start of a statement, or at the end. -/
def skipToBoundary (previous : Token) : List Token → Token × List Token
  | [] => (previous, [])
  | token :: rest =>
      if token.kind = .eof ∨ previous.kind = .semicolon ∨
          startsStatement token.kind then
        (previous, token :: rest)
      else skipToBoundary token rest

/-- The cursor at the place where reading goes on after a failure: the token at
fault is skipped, and then all tokens up to a boundary. -/
def Cursor.resume (cursor : Cursor) : Cursor :=
  let next := cursor.advance
  let (previous, rest) := skipToBoundary next.previous next.rest
  { next with previous := previous, rest := rest }

/-- Reads as `action` does, but moves on to a boundary when that fails. -/
def resuming (action : Parse α) : Parse α := fun cursor =>
  match action cursor with
  | .ok a cursor => .ok a cursor
  | .error e cursor => .error e cursor.resume

/-- An expression up to the semicolon behind it. -/
def terminated (what : ParseError.Expectation) : Parse Expr := do
  let expr ← expression
  let _ ← expect .semicolon what
  return expr

/-- An expression, unless the token that would follow it is already there. -/
def unlessSees (kind : Token.Kind) : Parse (Option Expr) := do
  if ← sees kind then return none
  else return some (← expression)

def variableDecl : Parse Stmt := do
  let name ← identifier .variableName
  let initializer ← if ← accept .equal then some <$> expression else pure none
  let _ ← expect .semicolon .variableEnd
  return .var name initializer

def printStmt : Parse Stmt := do
  let value ← terminated .printedValueEnd
  return .print value

def expressionStmt : Parse Stmt := do
  let expr ← terminated .expressionEnd
  return .expression expr

def returnStmt : Parse Stmt := do
  let line ← previousLine
  let value ← unlessSees .semicolon
  let _ ← expect .semicolon .returnedValueEnd
  return .ret line value

def condition (start : ParseError.Expectation) : Parse Expr := do
  let _ ← expect .leftParen start
  let expr ← expression
  let _ ← expect .rightParen .conditionEnd
  return expr

def acceptVariable : Parse Bool := do
  if ← accept .varWord then return true
  else accept .valWord

structure ForClauses where
  initializer : Option Stmt
  condition : Option Expr
  increment : Option Expr

/-- The first clause of a `for` loop and the semicolon behind it. -/
def forInitializer : Parse (Option Stmt) := do
  if ← accept .semicolon then return none
  else if ← acceptVariable then return some (← variableDecl)
  else return some (← expressionStmt)

def forClauses : Parse ForClauses := do
  let _ ← expect .leftParen .forStart
  let initializer ← forInitializer
  let condition ← unlessSees .semicolon
  let _ ← expect .semicolon .loopConditionEnd
  let increment ← unlessSees .rightParen
  let _ ← expect .rightParen .forClausesEnd
  return ⟨initializer, condition, increment⟩

/-- A `for` loop as a `while` loop: the increment ends each round, a missing
condition holds, and the initializer has a block around the loop. -/
def ForClauses.loop (clauses : ForClauses) (body : Stmt) : Stmt :=
  let round := match clauses.increment with
    | some increment => .block [body, .expression increment]
    | none => body
  let loop := .loop (clauses.condition.getD (.literal .yes)) round
  match clauses.initializer with
  | some initializer => .block [initializer, loop]
  | none => loop

/-- The parameters of a function, `count` of them having been read; `bound`
limits the rounds. -/
def parameters : Nat → Nat → Parse (List Ident)
  | 0, _ => failHere .tooDeep
  | bound + 1, count => do
      if maxArity ≤ count then
        failHere .tooManyParameters
      else
        let name ← identifier .parameterName
        if ← accept .comma then
          let names ← parameters bound (count + 1)
          return name :: names
        else
          return [name]

/-- The head of a function up to the brace in front of its body. -/
def functionHead (role : FunctionRole) : Parse (Ident × List Ident) := do
  let name ← identifier (.functionName role)
  let _ ← expect .leftParen (.parametersStart role)
  let params ←
    if ← sees .rightParen then pure []
    else fun cursor => parameters cursor.depthBound 0 cursor
  let _ ← expect .rightParen .parametersEnd
  let _ ← expect .leftBrace (.functionBodyStart role)
  return (name, params)

/-- The head of a class up to the brace in front of its body. -/
def classHead : Parse (Ident × Option Expr) := do
  let name ← identifier .className
  let superclass ←
    if ← accept .less then
      let superName ← identifier .superclassName
      let id ← freshId
      pure (some (.read id superName))
    else pure none
  let _ ← expect .leftBrace .classBodyStart
  return (name, superclass)

mutual

/-- A declaration; where it fails, reading goes on at the next boundary. -/
def declaration : Nat → Parse Stmt
  | 0 => failHere .tooDeep
  | depth + 1 => resuming do
      if ← accept .classWord then
        let (name, superclass) ← classHead
        let methods ← methods depth
        let _ ← expect .rightBrace .classBodyEnd
        return .classDecl name superclass methods
      else if ← accept .funWord then
        let declaration ← function depth .function
        return .function declaration
      else if ← acceptVariable then
        variableDecl
      else
        statement depth

/-- The methods up to the end of a class body. -/
def methods : Nat → Parse (List FunctionDecl)
  | 0 => failHere .tooDeep
  | depth + 1 => do
      if ← sees .rightBrace then return []
      else if ← atEnd then return []
      else
        let method ← function depth .method
        let rest ← methods depth
        return method :: rest

def function : Nat → FunctionRole → Parse FunctionDecl
  | 0, _ => failHere .tooDeep
  | depth + 1, role => do
      let (name, params) ← functionHead role
      let body ← block depth
      return ⟨name, params, body⟩

def statement : Nat → Parse Stmt
  | 0 => failHere .tooDeep
  | depth + 1 => do
      if ← accept .forWord then
        let clauses ← forClauses
        let body ← statement depth
        return clauses.loop body
      else if ← accept .ifWord then
        let test ← condition .ifStart
        let thenBranch ← statement depth
        if ← accept .elseWord then
          let elseBranch ← statement depth
          return .branch test thenBranch (some elseBranch)
        else
          return .branch test thenBranch none
      else if ← accept .whileWord then
        let test ← condition .whileStart
        let body ← statement depth
        return .loop test body
      else if ← accept .returnWord then
        returnStmt
      else if ← accept .leftBrace then
        let body ← block depth
        return .block body
      else if ← accept .printWord then
        printStmt
      else
        expressionStmt

def block : Nat → Parse (List Stmt)
  | 0 => failHere .tooDeep
  | depth + 1 => do
      let body ← blockItems depth
      let _ ← expect .rightBrace .blockEnd
      return body

def blockItems : Nat → Parse (List Stmt)
  | 0 => failHere .tooDeep
  | depth + 1 => do
      if ← sees .rightBrace then return []
      else if ← atEnd then return []
      else
        let stmt ← declaration depth
        let rest ← blockItems depth
        return stmt :: rest

end

/-- What a reading of a whole token list gives: the statements that were read,
the failures, and the number after those of all places. -/
structure Reading where
  statements : List Stmt
  errors : List ParseError
  nextId : PlaceId

/-- Reads declarations up to the end; `bound` limits their number. -/
def declarations : Nat → Cursor → Reading
  | 0, cursor => ⟨[], [], cursor.nextId⟩
  | bound + 1, cursor =>
      if cursor.atEnd then ⟨[], [], cursor.nextId⟩
      else match declaration cursor.depthBound cursor with
        | .ok stmt next =>
            let rest := declarations bound next
            { rest with statements := stmt :: rest.statements }
        | .error e next =>
            let rest := declarations bound next
            { rest with errors := e :: rest.errors }

/-- Reads a whole token list, numbering places from `firstId` on. -/
def read (tokens : List Token) (firstId : PlaceId) : Reading :=
  declarations tokens.length (Cursor.start tokens firstId)

/-- The program that was read, or all failures. -/
def Reading.program (reading : Reading) : Except (List ParseError) Program :=
  match reading.errors with
  | [] => .ok reading.statements
  | errors => .error errors

end Grammar
end LoxLang
