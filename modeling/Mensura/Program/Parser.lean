import Mensura.Program.Refusal
import Mensura.UnitExpr.Algebra

/-!
Reading a program from its tokens, with one token of foresight. Moving behind a token looks at the next one
already, so a fault in the text is reported as soon as it comes next, before anything that the tokens in front
of it may break.

Reading takes a bound, which is never less than the number of tokens that are left. It limits how deep
expressions and blocks may nest and how long a list may be, and as both use up tokens it is never felt: where
the bound is zero no token is left, and what is answered there is what any expression or statement answers at
the end of the text.
-/

namespace Mensura

namespace TokenStream

/-- The token that comes next: at the end of the text the mark of it. -/
def peek (s : TokenStream) : Token :=
  match s.tokens, s.ending with
  | token :: _, _ => token
  | [], .ok position => .etx position
  | [], .error error => .etx error.position

/-- The stream behind its first token, unless the text turns out to be faulty there. -/
def behind (s : TokenStream) : Except Refusal TokenStream :=
  match s.tokens, s.ending with
  | [_], .error error => .error (.lexical error)
  | tokens, ending => .ok ⟨tokens.tail, ending⟩

end TokenStream

/-- Reads something from the tokens that are left. -/
abbrev Parser := StateT TokenStream (Except Refusal)

namespace Parser

open Token (Kind)

variable {α : Type}

def refuse (r : Refusal) : Parser α := fun _ => .error r

def peek : Parser Token := fun s => .ok (s.peek, s)

def peekKind : Parser Kind := fun s => .ok (s.peek.kind, s)

/-- Moves behind the next token and gives it back. -/
def advance : Parser Token := fun s => s.behind.map fun rest => (s.peek, rest)

/-- Refuses the next token, which is of none of the kinds that may stand here. -/
def mismatch (expected : List Kind) : Parser α := fun s => .error (.syntactic (.mismatch expected s.peek))

/-- Moves behind the next token if it is of the given kind. -/
def take (kind : Kind) : Parser Bool := do
  if (← peekKind) = kind then
    let _ ← advance
    return true
  return false

/-- Moves behind the next token, which has to be of the given kind. -/
def expect (kind : Kind) : Parser Token := do
  if (← peekKind) = kind then advance else mismatch [kind]

/-- Reads items until there is none, at most `n` of them. -/
def many (item : Parser (Option α)) : (n : Nat) → Parser (List α)
  | 0 => return []
  | n + 1 => do
    match ← item with
    | none => return []
    | some a => return a :: (← many item n)

/-! ### Names, units and types -/

def identifier : Parser Symbol := do
  let token ← expect .identifier
  match token.value with
  | some (.text name) => return ⟨name, token.position⟩
  | value => refuse (.malformed (.identifier value))

/-- The power behind a caret. It has to fit 32 bits with and without the minus in front of it. -/
def power : Parser Int32 := do
  let negative ← take .minus
  let token ← expect .intLiteral
  match token.value with
  | some (.int n) =>
    match int32? n.toInt with
    | none => refuse (.syntactic (.powerOutOfRange token.position))
    | some p =>
      if !negative then return p
      match negatePower p with
      | some opposite => return opposite
      | none => refuse (.malformed .powerWithoutOpposite)
  | _ => refuse (.malformed .power)

def factor : Parser Factor := do
  let name ← identifier
  if ← take .caret then return ⟨name.name, ← power⟩
  return ⟨name.name, 1⟩

/-- A unit, from behind its opening bracket. -/
def unitExpr (n : Nat) : Parser UnitExpr := do
  if ← take .rightBracket then return .dimensionless
  let first ← factor
  let others ← many (do if ← take .star then return some (← factor) else return none) n
  let _ ← expect .rightBracket
  return ⟨first :: others⟩

def typeStart : List Kind := [.stringType, .boolType, .voidType, .leftBracket]

def type (n : Nat) : Parser Ty := do
  match ← peekKind with
  | .stringType => let _ ← advance; return .text
  | .boolType => let _ ← advance; return .bool
  | .voidType => let _ ← advance; return .void
  | .leftBracket => let _ ← advance; return .quantity (← unitExpr n)
  | _ => mismatch typeStart

/-! ### Expressions -/

/-- The arguments behind the first one, up to the closing parenthesis. -/
def argumentsAfter (nested : Parser Expr) (n : Nat) (first : Expr) : Parser (List Expr) := do
  let others ← many (do if ← take .comma then return some (← nested) else return none) n
  let _ ← expect .rightParen
  return first :: others

/-- Arguments, from behind their opening parenthesis. -/
def arguments (nested : Parser Expr) (n : Nat) : Parser (List Expr) := do
  if ← take .rightParen then return []
  argumentsAfter nested n (← nested)

/-- A name is a call if a parenthesis follows, else a variable. -/
def named (nested : Parser Expr) (n : Nat) (name : Symbol) : Parser Expr := do
  if ← take .leftParen then return .call name (← arguments nested n)
  return .var name

def primaryStart : List Kind :=
  [.intLiteral, .floatLiteral, .trueWord, .falseWord, .stringLiteral, .identifier, .leftParen]

/-- A number with the unit that may follow it. -/
def number (n : Nat) : Parser Expr := do
  let token ← advance
  let unit ← if ← take .leftBracket then some <$> unitExpr n else pure none
  match token.value with
  | some (.int value) => return .literal (.int value unit) token.position
  | some (.float value) => return .literal (.float value unit) token.position
  | value => refuse (.malformed (.number value))

def text : Parser Expr := do
  let token ← advance
  match token.value with
  | some (.text value) => return .literal (.text value) token.position
  | value => refuse (.malformed (.text value))

/-- An expression without operators outside of parentheses. Its first name may have been read already. -/
def primary (nested : Parser Expr) (n : Nat) : Option Symbol → Parser Expr
  | some name => named nested n name
  | none => do
    match ← peekKind with
    | .intLiteral | .floatLiteral => number n
    | .trueWord => return .literal (.bool true) (← advance).position
    | .falseWord => return .literal (.bool false) (← advance).position
    | .stringLiteral => text
    | .identifier => named nested n (← identifier)
    | .leftParen =>
      let _ ← advance
      let e ← nested
      let _ ← expect .rightParen
      return e
    | _ => mismatch primaryStart

def unaryOp? : Kind → Option UnaryOp
  | .minus => some .minus
  | .not => some .not
  | _ => none

/-- At most one unary operator and its operand. -/
def unary (operand : Option Symbol → Parser Expr) : Option Symbol → Parser Expr
  | some name => operand (some name)
  | none => do
    match unaryOp? (← peekKind) with
    | some op =>
      let token ← advance
      return .unary op token.position (← operand none)
    | none => operand none

/-- Operands with operators of one rank between them, grouped from the left. -/
def tier (operator? : Kind → Option BinaryOp) (operand : Option Symbol → Parser Expr) (n : Nat)
    (seed : Option Symbol) : Parser Expr := do
  let first ← operand seed
  let others ← many (do
    match operator? (← peekKind) with
    | some op =>
      let token ← advance
      return some (op, token.position, ← operand none)
    | none => return none) n
  return others.foldl (fun left (op, position, right) => .binary left op position right) first

def or? : Kind → Option BinaryOp
  | .or => some .or
  | _ => none

def and? : Kind → Option BinaryOp
  | .and => some .and
  | _ => none

def comparison? : Kind → Option BinaryOp
  | .greater => some .greater
  | .greaterEqual => some .greaterEqual
  | .less => some .less
  | .lessEqual => some .lessEqual
  | .equal => some .equal
  | .notEqual => some .notEqual
  | _ => none

def sum? : Kind → Option BinaryOp
  | .plus => some .plus
  | .minus => some .minus
  | _ => none

def product? : Kind → Option BinaryOp
  | .star => some .star
  | .slash => some .slash
  | _ => none

/-- The ranks of the operators, from the one that binds least to the one that binds most. -/
def ladder (operand : Option Symbol → Parser Expr) (n : Nat) : Option Symbol → Parser Expr :=
  tier or? (tier and? (tier comparison? (tier sum? (tier product? (unary operand) n) n) n) n) n

/-- An expression, of which the first name may have been read already. -/
def expressionFrom : (n : Nat) → Option Symbol → Parser Expr
  | 0 => ladder (primary (mismatch primaryStart) 0) 0
  | n + 1 => ladder (primary (expressionFrom n none) (n + 1)) (n + 1)

def expression (n : Nat) : Parser Expr := expressionFrom n none

/-! ### Statements -/

/-- Statements up to the closing brace, from behind the opening one. -/
def block (nested : Parser Stmt) (n : Nat) : Parser (List Stmt) := do
  let body ← many (do
    let kind ← peekKind
    if kind = .rightBrace ∨ kind = .etx then return none else return some (← nested)) n
  let _ ← expect .rightBrace
  return body

/-- What follows the first branch of an `if`, for at most `n` further branches. -/
def alternatives (condition : Parser Expr) (body : Parser (List Stmt)) : (n : Nat) → Parser Else
  | 0 => return .none
  | n + 1 => do
    if ← take .elseWord then
      if ← take .ifWord then
        let c ← condition
        let _ ← expect .leftBrace
        let b ← body
        return .elseIf c b (← alternatives condition body n)
      let _ ← expect .leftBrace
      return .last (← body)
    return .none

def statementStart : List Kind :=
  [.letWord, .ifWord, .whileWord, .returnWord, .leftBrace, .identifier]

/-- A declaration, from behind its first word. -/
def declaration (n : Nat) : Parser Stmt := do
  let name ← identifier
  let _ ← expect .colon
  let type ← type n
  let _ ← expect .assign
  return .declare name type (← expression n)

/-- A statement that begins with a name, from behind it. -/
def namedStatement (n : Nat) (name : Symbol) : Parser Stmt := do
  if ← take .assign then return .assign name (← expression n)
  if ← take .leftParen then return .call name (← arguments (expression n) n)
  mismatch [.assign, .leftParen]

/-- A `return` stands inside a function only. It has no value if a closing brace follows. -/
def returnStatement (inFunction : Bool) (n : Nat) : Parser Stmt := do
  let token ← advance
  if !inFunction then refuse (.syntactic (.returnOutsideFunction token.position))
  if (← peekKind) = .rightBrace then return .ret token.position none
  return .ret token.position (some (← expression n))

def statement (inFunction : Bool) : (n : Nat) → Parser Stmt
  | 0 => mismatch statementStart
  | n + 1 => do
    let body : Parser (List Stmt) := block (statement inFunction n) n
    match ← peekKind with
    | .letWord =>
      let _ ← advance
      declaration n
    | .ifWord =>
      let _ ← advance
      let condition ← expression n
      let _ ← expect .leftBrace
      let first ← body
      return .ifElse condition first (← alternatives (expression n) body n)
    | .whileWord =>
      let _ ← advance
      let condition ← expression n
      let _ ← expect .leftBrace
      return .loop condition (← body)
    | .returnWord => returnStatement inFunction n
    | .leftBrace =>
      let _ ← advance
      return .block (← body)
    | .identifier => namedStatement n (← identifier)
    | _ => mismatch statementStart

/-! ### Programs -/

/-- What may stand outside of functions and blocks. -/
inductive Item where
  | unit (declaration : UnitDeclaration)
  | function (definition : Function)
  | statement (statement : Stmt)

def parameter (n : Nat) : Parser Param := do
  let name ← identifier
  let _ ← expect .colon
  return ⟨name, ← type n⟩

/-- A function, from behind the arrow. -/
def functionFrom (n : Nat) (name : Symbol) (params : List Param) : Parser Item := do
  let returnType ← type n
  let _ ← expect .leftBrace
  return .function ⟨name, params, returnType, ← block (statement true n) n⟩

/-- A call or a function, from behind its name and a parenthesis. Parameters are told from arguments by a
name and a colon, an empty list by the arrow behind it. -/
def callOrFunction (n : Nat) (name : Symbol) : Parser Item := do
  if ← take .rightParen then
    if ← take .arrow then functionFrom n name []
    else return .statement (.call name [])
  else if (← peekKind) = .identifier then
    let first ← identifier
    if ← take .colon then
      let type ← type n
      let others ← many (do if ← take .comma then return some (← parameter n) else return none) n
      let _ ← expect .rightParen
      let _ ← expect .arrow
      functionFrom n name (⟨first, type⟩ :: others)
    else
      let arg ← expressionFrom n (some first)
      return .statement (.call name (← argumentsAfter (expression n) n arg))
  else return .statement (.call name (← arguments (expression n) n))

def item (n : Nat) : Parser Item := do
  match ← peekKind with
  | .unitWord =>
    let _ ← advance
    let name ← identifier
    let _ ← expect .colon
    let _ ← expect .leftBracket
    return .unit ⟨name, ← unitExpr n⟩
  | .identifier =>
    let name ← identifier
    if ← take .leftParen then callOrFunction n name
    else return .statement (← namedStatement n name)
  | _ => return .statement (← statement false n)

/-- Adds an item to a program. No function and no unit may be defined twice. -/
def add (p : Program) : Item → Parser Program
  | .unit d =>
    if p.declaresUnit d.name.name then refuse (.syntactic (.unitRedefined d.name))
    else return { p with units := p.units ++ [d] }
  | .function f =>
    if (p.function? f.name.name).isSome then refuse (.syntactic (.functionRedefined f.name))
    else return { p with functions := p.functions ++ [f] }
  | .statement s => return { p with statements := p.statements ++ [s] }

/-- Adds items until the end, at most `rounds` of them. -/
def items (n : Nat) : (rounds : Nat) → Program → Parser Program
  | 0, p => return p
  | rounds + 1, p => do
    if (← peekKind) = .etx then return p
    items n rounds (← add p (← item n))

end Parser

namespace Program

/-- Reads a program from tokens. Comments are left out first. -/
def ofTokens (stream : TokenStream) : Except Refusal Program :=
  let s := stream.withoutComments
  let n := s.tokens.length
  match s.tokens, s.ending with
  | [], .error error => .error (.lexical error)
  | _, _ => (Parser.items n n .empty s).map Prod.fst

/-- Reads a program from its text. -/
def ofText (limits : Limits) (text : String) : Except Refusal Program :=
  ofTokens (.ofText limits text)

end Program

end Mensura
