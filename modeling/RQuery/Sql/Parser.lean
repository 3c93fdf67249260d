import RQuery.Sql.Tokenizer
import RQuery.Datatypes.FloatModel

/-!
# The parser

The syntax tree of SQL and `SqlParser`, a Pratt parser: `parse` reads a prefix and then the infix
operators that bind tighter than the given precedence. The functions of the parser are written over
the function that parses an expression, and `parse` ties the knot. Every call of it is made behind a
token that was consumed, so the number of tokens bounds their nesting.
-/

namespace RQuery

section

variable [FloatModel]

mutual

/-- A SQL abstract-syntax-tree node. -/
inductive SqlExpr
  | identifier (id : String)
  | binaryExpr (l : SqlExpr) (op : String) (r : SqlExpr)
  | string (value : String)
  | long (value : Int64)
  | double (value : F64)
  | date (value : String)
  | interval (value : String)
  | function (id : String) (args : List SqlExpr)
  /-- `expr AS name`. -/
  | aliased (expr : SqlExpr) (name : String)
  /-- `CAST(expr AS type)`, with the type as plain text. -/
  | cast (expr : SqlExpr) (dataType : String)
  /-- Sort key `expr ASC|DESC`. -/
  | sort (expr : SqlExpr) (asc : Bool)
  | select (statement : SqlSelect)

/-- A parsed `SELECT` statement. -/
structure SqlSelect where
  projection : List SqlExpr
  selection : Option SqlExpr
  groupBy : List SqlExpr
  orderBy : List SqlExpr
  having : Option SqlExpr
  limit : Option Int32
  tableName : String

end

end

/-- The tokens from the cursor on. -/
abbrev TokenStream := List Token

/-- A computation that moves the cursor. -/
abbrev Parser := StateT TokenStream Result

namespace TokenStream

/-- The kind of the current token. -/
def peekType : Parser (Option TokenType) := do
  return (← get).head?.map Token.tokenType

/-- The current token, advancing past it. -/
def next : Parser (Option Token) := do
  let tokens ← get
  set tokens.tail
  return tokens.head?

/-- Consume the next token if it is the given keyword. -/
def consumeKeyword (s : String) : Parser Bool := do
  match ← get with
  | ⟨text, .keyword _, _⟩ :: rest =>
    if Text.eqIgnoreAsciiCase text s then
      set rest
      return true
    else
      return false
  | _ => return false

/-- Consume a sequence of keywords, restoring the cursor if one fails to match. -/
def consumeKeywords (keywords : List String) : Parser Bool := do
  let save ← get
  if ← keywords.allM consumeKeyword then
    return true
  else
    set save
    return false

/-- Consume the next token if its type matches. -/
def consumeTokenType (t : TokenType) : Parser Bool := do
  match ← get with
  | token :: rest =>
    if token.tokenType = t then
      set rest
      return true
    else
      return false
  | [] => return false

/-- Consume the next token, requiring its type. -/
def expectTokenType (t : TokenType) (message : String) : Parser PUnit := do
  if ← consumeTokenType t then return ⟨⟩ else throw (.other message)

end TokenStream

open TokenStream

variable [FloatModel]

namespace SqlParser

/-- How tight an infix token binds. -/
def precedence : TokenType → ℕ
  | .keyword .as | .keyword .asc | .keyword .desc => 10
  | .keyword .or => 20
  | .keyword .and => 30
  | .symbol .lt | .symbol .ltEq | .symbol .eq | .symbol .bangEq | .symbol .gtEq | .symbol .gt => 40
  | .symbol .plus | .symbol .sub => 50
  | .symbol .star | .symbol .slash => 60
  | .symbol .leftParen => 70
  | _ => 0

omit [FloatModel] in
/-- Precedence of the next token, 0 if there is none or it is no operator. -/
def nextPrecedence : Parser ℕ := do
  match ← peekType with
  | some t => return precedence t
  | none => return 0

omit [FloatModel] in
/-- The loop of `parse_expr_list` and `parse_order`: items up to the first that no comma follows. -/
def commaSeparated {α : Type} (item : Parser (Option α)) : ℕ → Parser (List α)
  | 0 => throw (.other "out of fuel")
  | fuel + 1 => do
    match ← item with
    | none => return []
    | some a =>
      if (← peekType) = some (.symbol .comma) then
        let _ ← next
        return a :: (← commaSeparated item fuel)
      else
        return [a]

omit [FloatModel] in
/-- The loop with a bound that it does not reach: every item takes a token. -/
def commaList {α : Type} (item : Parser (Option α)) : Parser (List α) := do
  commaSeparated item ((← get).length + 1)

/-- A key of `ORDER BY`: a bare name is sorted in ascending order. -/
def normalizeSort : SqlExpr → Result SqlExpr
  | .identifier name => .ok (.sort (.identifier name) true)
  | .sort e asc => .ok (.sort e asc)
  | _ => .error (.other "Unexpected expression after order by.")

omit [FloatModel] in
/-- `parse_date` and `parse_interval`: the text of a string literal. -/
def parseText (message : String) : Parser String := do
  match ← next with
  | some ⟨text, .literal .string, _⟩ => return text
  | _ => throw (.other message)

section

-- the function that parses an expression
variable (parse : ℕ → Parser (Option SqlExpr))

def parseExpr (message : String) : Parser SqlExpr := do
  match ← parse 0 with
  | some e => return e
  | none => throw (.other message)

def parseExprList : Parser (List SqlExpr) := commaList (parse 0)

def parseSort : Parser (Option SqlExpr) := do
  match ← parse 0 with
  | some e => return some (← normalizeSort e)
  | none => return none

def parseOrder : Parser (List SqlExpr) := commaList (parseSort parse)

/-- Parse the next expression, requiring it to be an identifier. -/
def parseIdentifier : Parser String := do
  match ← parseExpr parse "Expected identifier, found EOF" with
  | .identifier id => return id
  | _ => throw (.other "Expected identifier")

def parseCast : Parser SqlExpr := do
  expectTokenType (.symbol .leftParen) "Expected '(' after CAST"
  match ← parseExpr parse "Expected expression in CAST" with
  | .aliased inner dataType =>
    expectTokenType (.symbol .rightParen) "Expected ')' after CAST expression"
    return .cast inner dataType
  | _ => throw (.other "Expected 'AS type' in CAST expression")

/-- A parenthesized expression, behind the left parenthesis. -/
def parseParenthesized : Parser SqlExpr := do
  let e ← parseExpr parse "Expected expression after '('"
  expectTokenType (.symbol .rightParen) "Expected ')' after expression"
  return e

/-- The name after `FROM`. -/
def parseTableName : Parser String := do
  match ← parseExpr parse "Expected table name after FROM" with
  | .identifier id => return id
  | _ => throw (.other "Expected table name after FROM")

/-- The value after `LIMIT`, `as i32`. -/
def parseLimit : Parser Int32 := do
  match ← parseExpr parse "Expected limit value after LIMIT" with
  | .long v => return v.toInt32
  | _ => throw (.other "LIMIT must be a numeric value")

omit [FloatModel] in
/-- An optional clause. -/
def optionalClause {α : Type} (keywords : List String) (absent : α) (clause : Parser α) :
    Parser α := do
  if ← consumeKeywords keywords then clause else return absent

def parseSelect : Parser SqlSelect := do
  let projection ← parseExprList parse
  if !(← consumeKeyword "FROM") then
    throw (.other "Expected FROM keyword")
  let tableName ← parseTableName parse
  let selection ← optionalClause ["WHERE"] none (parse 0)
  let groupBy ← optionalClause ["GROUP", "BY"] [] (parseExprList parse)
  let having ← optionalClause ["HAVING"] none (parse 0)
  let orderBy ← optionalClause ["ORDER", "BY"] [] (parseOrder parse)
  let limit ← optionalClause ["LIMIT"] none (some <$> parseLimit parse)
  return ⟨projection, selection, groupBy, orderBy, having, limit, tableName⟩

/-- The expression that starts with a token. -/
def parsePrefixToken (token : Token) : Parser SqlExpr :=
  match token.tokenType with
  | .keyword .select => .select <$> parseSelect parse
  | .keyword .cast => parseCast parse
  | .keyword .date => .date <$> parseText "Expected date string after DATE keyword"
  | .keyword .interval => .interval <$> parseText "Expected interval string after INTERVAL keyword"
  | .keyword .min | .keyword .max | .keyword .sum | .keyword .avg | .keyword .count
  | .keyword .int | .keyword .double | .literal .identifier => return .identifier token.text
  | .literal .string => return .string token.text
  | .literal .long =>
    match Text.parseInt64 token.text with
    | some v => return .long v
    | none => throw (.parseFailed token.text)
  | .literal .double =>
    match FloatModel.double.parse token.text with
    | some v => return .double v
    | none => throw (.parseFailed token.text)
  | .symbol .leftParen => parseParenthesized parse
  | .symbol .star => return .identifier "*"
  | _ => throw (.other "Unexpected token")

def parsePrefix : Parser (Option SqlExpr) := do
  match ← next with
  | none => return none
  | some token => some <$> parsePrefixToken parse token

/-- The arguments of a function call, behind the left parenthesis. -/
def parseArguments : Parser (List SqlExpr) := do
  let args ←
    if (← peekType) = some (.symbol .rightParen) then pure [] else parseExprList parse
  expectTokenType (.symbol .rightParen) "Expected ')' after function arguments"
  return args

/-- A two-operand operator and its right operand. -/
def parseBinary (left : SqlExpr) (op : String) (precedence : ℕ) : Parser SqlExpr := do
  let _ ← next
  match ← parse precedence with
  | some r => return .binaryExpr left op r
  | none => throw (.other "Error parsing infix")

/-- `AS` and a name. -/
def parseAlias (left : SqlExpr) : Parser SqlExpr := do
  let _ ← next
  return .aliased left (← parseIdentifier parse)

/-- A sort direction. -/
def parseDirection (left : SqlExpr) (asc : Bool) : Parser SqlExpr := do
  let _ ← next
  return .sort left asc

/-- A function call, whose name was read as an operand. -/
def parseCall : SqlExpr → Parser SqlExpr
  | .identifier id => do
    let _ ← next
    return .function id (← parseArguments parse)
  | _ => throw (.other "Unexpected LPAREN")

/-- What an infix token makes of the expression to its left. -/
def parseInfixToken (token : Token) (left : SqlExpr) (precedence : ℕ) : Parser SqlExpr :=
  match token.tokenType with
  | .symbol .plus | .symbol .sub | .symbol .star | .symbol .slash | .symbol .eq | .symbol .gt
  | .symbol .lt | .symbol .gtEq | .symbol .ltEq | .symbol .bangEq | .symbol .ltGt =>
    parseBinary parse left token.text precedence
  | .keyword .as => parseAlias parse left
  | .keyword .and | .keyword .or => parseBinary parse left token.text precedence
  | .keyword .asc => parseDirection left true
  | .keyword .desc => parseDirection left false
  | .symbol .leftParen => parseCall parse left
  | _ => throw (.other "Unexpected infix token")

def parseInfix (left : SqlExpr) (precedence : ℕ) : Parser SqlExpr := do
  match (← get).head? with
  | some token => parseInfixToken parse token left precedence
  | none => throw (.other "infix token")

/-- The loop of `parse`: the infix operators that bind tighter than `precedence`. -/
def infixLoop (precedence : ℕ) : ℕ → SqlExpr → Parser SqlExpr
  | 0, _ => throw (.other "out of fuel")
  | fuel + 1, expr => do
    let next ← nextPrecedence
    if precedence < next then
      infixLoop precedence fuel (← parseInfix parse expr next)
    else
      return expr

end

/-- `parse`, with at most `fuel` nested calls. Every round of the loop takes a token. -/
def parseFuel : ℕ → ℕ → Parser (Option SqlExpr)
  | 0, _ => throw (.other "out of fuel")
  | fuel + 1, precedence => do
    match ← parsePrefix (parseFuel fuel) with
    | none => return none
    | some expr => do
      return some (← infixLoop (parseFuel fuel) precedence ((← get).length + 1) expr)

/-- `SqlParser::new(tokens).parse(precedence)`. -/
def parse (precedence : ℕ) : Parser (Option SqlExpr) := do
  parseFuel ((← get).length + 1) precedence

end SqlParser

end RQuery
