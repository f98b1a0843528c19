import Rdbms.Library.Parsing
import Rdbms.Sql.Lexer

/-!
# The parser

A recursive-descent parser over the tokens of one statement. Its state is the
list of tokens from the current one on. The last token is the end of the text,
which nothing consumes; looking past it shows it again.
-/

namespace Rdbms

open Library

namespace Sql

/-- A parser that reads and takes tokens. -/
abbrev Parser := Db (List Token)

namespace Parser

def peekN (n : Nat) : Parser Token := fun ts => (.ok (ts.getD n .eof), ts)

def peek : Parser Token := peekN 0

/-- Go on to the next token. -/
def advance : Parser Unit := Exec.modify List.tail

def consumeToken (token : Token) : Parser Bool := do
  if (← peek) = token then
    advance
    return true
  else return false

def expectToken (token : Token) (message : String) : Parser Unit := do
  if ← consumeToken token then return ()
  else Exec.lift (DbResult.user message)

def consumeKeyword (keyword : String) : Parser Bool := do
  match ← peek with
  | .ident value =>
      if eqIgnoreAsciiCase value keyword then
        advance
        return true
      else return false
  | _ => return false

def expectKeyword (keyword : String) : Parser Unit := do
  if ← consumeKeyword keyword then return ()
  else Exec.lift (DbResult.user s!"expected keyword {keyword}")

def expectIdentifier (description : String) : Parser String := do
  match ← peek with
  | .ident value =>
      advance
      return value
  | _ => Exec.lift (DbResult.user s!"expected {description}")

def peekIsFunctionCall : Parser Bool := do
  match ← peek, ← peekN 1 with
  | .ident _, .lParen => return true
  | _, _ => return false

def normalizeIdentifier (identifier : String) : String := toAsciiLowercase identifier

/-- The column types of the SQL subset. -/
def typeNames : List String := ["INT", "INTEGER", "TEXT", "DOUBLE", "REAL", "FLOAT"]

def normalizeTypeName (typeName : String) : DbResult String :=
  if toAsciiUppercase typeName ∈ typeNames then .ok (toAsciiUppercase typeName)
  else DbResult.user s!"unsupported SQL type: {typeName}"

/-- Read items for as long as a comma follows. No more items can follow than there
are tokens. -/
def commaSeparated {α : Type} (item : Parser α) : Parser (List α) := fun ts =>
  Parsing.separated item (consumeToken .comma) .outOfFuel (ts.length + 1) ts

variable (host : Host)

def parseLiteral : Parser Value := do
  match ← peek with
  | .ident value =>
      if eqIgnoreAsciiCase value "NULL" then
        advance
        return .null
      else Exec.lift (DbResult.user "expected literal value")
  | .string value =>
      advance
      return .text value
  | .number value =>
      advance
      if '.' ∈ value.toList then
        match host.parseF64 value with
        | some bits => return .double bits
        | none => Exec.lift (DbResult.user s!"invalid double literal: {value}")
      else
        match parseI64 value with
        | some n => return .integer n
        | none => Exec.lift (DbResult.user s!"invalid integer literal: {value}")
  | _ => Exec.lift (DbResult.user "expected literal value")

/-- Literals up to a closing parenthesis. -/
def parseLiterals (message : String) : Parser (List Value) := do
  if ← consumeToken .rParen then return []
  else
    let values ← commaSeparated (parseLiteral host)
    expectToken .rParen message
    return values

def parseColumn : Parser ColumnDef := do
  let columnName := normalizeIdentifier (← expectIdentifier "column name")
  let typeName ← Exec.lift (normalizeTypeName (← expectIdentifier "column type"))
  return ⟨columnName, typeName⟩

def parseCreateTable : Parser Statement := do
  let name := normalizeIdentifier (← expectIdentifier "table name")
  expectToken .lParen "expected '(' after table name"
  let columns ← commaSeparated parseColumn
  expectToken .rParen "expected ')' after column list"
  return .createTable name columns

def parseCreateIndex : Parser Statement := do
  let name := normalizeIdentifier (← expectIdentifier "index name")
  expectKeyword "ON"
  let table := normalizeIdentifier (← expectIdentifier "table name")
  expectToken .lParen "expected '(' before indexed column"
  let column := normalizeIdentifier (← expectIdentifier "indexed column")
  expectToken .rParen "expected ')' after indexed column"
  return .createIndex name table column

def parseInsert : Parser Statement := do
  expectKeyword "INTO"
  let table := normalizeIdentifier (← expectIdentifier "table name")
  expectKeyword "VALUES"
  expectToken .lParen "expected '(' before VALUES list"
  let values ← parseLiterals host "expected ')' after VALUES list"
  return .insert table values

def parseLoadExtension : Parser Statement := do
  expectKeyword "EXTENSION"
  let name := normalizeIdentifier (← expectIdentifier "extension name")
  return .loadExtension name

def parseSelectFunction : Parser Statement := do
  let name := normalizeIdentifier (← expectIdentifier "function name")
  expectToken .lParen "expected '(' after function name"
  let args ← parseLiterals host "expected ')' after function arguments"
  return .selectFunction name args

def parseSelectedColumn : Parser String := do
  return normalizeIdentifier (← expectIdentifier "selected column")

def parseProjection : Parser Projection := do
  if ← consumeToken .star then return .all
  else return .columns (← commaSeparated parseSelectedColumn)

def parseSelection : Parser (Option Selection) := do
  if ← consumeKeyword "WHERE" then
    let column := normalizeIdentifier (← expectIdentifier "predicate column")
    expectToken .eq "expected '=' in WHERE predicate"
    let value ← parseLiteral host
    return some ⟨column, value⟩
  else return none

def parseSelect : Parser Statement := do
  if ← peekIsFunctionCall then parseSelectFunction host
  else
    let projection ← parseProjection
    expectKeyword "FROM"
    let table := normalizeIdentifier (← expectIdentifier "table name")
    let selection ← parseSelection host
    return .select projection table selection

def parseStatement : Parser Statement := do
  if ← consumeKeyword "CREATE" then
    if ← consumeKeyword "TABLE" then parseCreateTable
    else if ← consumeKeyword "INDEX" then parseCreateIndex
    else Exec.lift (DbResult.user "expected TABLE or INDEX after CREATE")
  else if ← consumeKeyword "INSERT" then parseInsert host
  else if ← consumeKeyword "LOAD" then parseLoadExtension
  else if ← consumeKeyword "SELECT" then parseSelect host
  else Exec.lift (DbResult.user "expected CREATE, INSERT, LOAD or SELECT")

/-- Take every semicolon. -/
def skipSemicolons : Parser Unit := Exec.modify (List.dropWhile (· = .semicolon))

def finish : Parser Unit := do
  skipSemicolons
  match ← peek with
  | .eof => return ()
  | token =>
      let shown := token.debug host
      Exec.lift (DbResult.user s!"unexpected token after SQL statement: {shown}")

end Parser

/-- Parse one SQL statement. -/
def parseStatement (host : Host) (sql : String) : DbResult Statement := do
  let tokens ← Lexer.tokenize sql.toList
  let (statement, _) ← Exec.toExcept (do
    let statement ← Parser.parseStatement host
    Parser.finish host
    return statement) tokens
  return statement

end Sql

end Rdbms
