import Mensura.Program.Parser

/-!
The grammar. Every rule relates the tokens that are ahead to the tree that the first of them spell and to the tokens
behind those; trees keep the places of their tokens. Operators of one rank group from the left, as their rule is
recursive on the left. Nothing is said here of how a program is read.
-/

namespace Mensura

/-- How loosely an operator binds, from 0 for the ones that bind most. -/
def BinaryOp.rank : BinaryOp → Nat
  | star | slash => 0
  | plus | minus => 1
  | equal | notEqual | greater | greaterEqual | less | lessEqual => 2
  | and => 3
  | or => 4

/-- The kind of token that an operator is written as. -/
def BinaryOp.kind : BinaryOp → Token.Kind
  | or => .or
  | and => .and
  | equal => .equal
  | notEqual => .notEqual
  | greater => .greater
  | greaterEqual => .greaterEqual
  | less => .less
  | lessEqual => .lessEqual
  | plus => .plus
  | minus => .minus
  | star => .star
  | slash => .slash

def UnaryOp.kind : UnaryOp → Token.Kind
  | minus => .minus
  | not => .not

/-- The token is neither a comment nor a mark of the end, and its value fits its kind. -/
def Token.isProper (t : Token) : Bool :=
  match t.kind with
  | .comment | .etx => false
  | .identifier | .stringLiteral => (t.value matches some (.text _))
  | .intLiteral => match t.value with
    | some (.int n) => decide (0 ≤ n)
    | _ => false
  | .floatLiteral => (t.value matches some (.float _))
  | _ => true

namespace Grammar

/-- The token is a name, and the symbol is that name in its place. -/
structure Names (token : Token) (symbol : Symbol) : Prop where
  kind : token.kind = .identifier
  value : token.value = some (.text symbol.name)
  position : token.position = symbol.position

/-- The token is an integer literal. -/
structure Counts (token : Token) (n : Int64) : Prop where
  kind : token.kind = .intLiteral
  value : token.value = some (.int n)

/-- A power behind a caret. The literal has to fit 32 bits; a minus may stand in front of it. -/
inductive Power : List Token → Int32 → List Token → Prop where
  | positive {token : Token} {n : Int64} {p : Int32} {rest : List Token} (counts : Counts token n)
      (fits : p.toInt = n.toInt) : Power (token :: rest) p rest
  | negative {minus token : Token} {n : Int64} {p q : Int32} {rest : List Token} (sign : minus.kind = .minus)
      (counts : Counts token n) (fits : p.toInt = n.toInt) (opposite : q.toInt = -p.toInt) :
      Power (minus :: token :: rest) q rest

/-- The name of a unit, with a power or without. -/
inductive Factor : List Token → Mensura.Factor → List Token → Prop where
  | plain {token : Token} {symbol : Symbol} {rest : List Token} (named : Names token symbol) :
      Factor (token :: rest) ⟨symbol.name, 1⟩ rest
  | raised {token caret : Token} {symbol : Symbol} {p : Int32} {ts rest : List Token} (named : Names token symbol)
      (isCaret : caret.kind = .caret) (power : Power ts p rest) :
      Factor (token :: caret :: ts) ⟨symbol.name, p⟩ rest

/-- One or more factors with stars between them. -/
inductive Factors : List Token → List Mensura.Factor → List Token → Prop where
  | one {u : Mensura.Factor} {ts rest : List Token} (factor : Factor ts u rest) : Factors ts [u] rest
  | more {star : Token} {u : Mensura.Factor} {us : List Mensura.Factor} {ts mid rest : List Token}
      (factor : Factor ts u (star :: mid)) (isStar : star.kind = .star) (others : Factors mid us rest) :
      Factors ts (u :: us) rest

/-- A unit in its brackets. -/
inductive Unit : List Token → UnitExpr → List Token → Prop where
  | dimensionless {opening closing : Token} {rest : List Token} (opens : opening.kind = .leftBracket)
      (closes : closing.kind = .rightBracket) : Unit (opening :: closing :: rest) ⟨[]⟩ rest
  | product {opening closing : Token} {us : List Mensura.Factor} {ts rest : List Token}
      (opens : opening.kind = .leftBracket) (factors : Factors ts us (closing :: rest))
      (closes : closing.kind = .rightBracket) : Unit (opening :: ts) ⟨us⟩ rest

inductive Annotation : List Token → Ty → List Token → Prop where
  | text {token : Token} {rest : List Token} (word : token.kind = .stringType) : Annotation (token :: rest) .text rest
  | bool {token : Token} {rest : List Token} (word : token.kind = .boolType) : Annotation (token :: rest) .bool rest
  | void {token : Token} {rest : List Token} (word : token.kind = .voidType) : Annotation (token :: rest) .void rest
  | quantity {u : UnitExpr} {ts rest : List Token} (unit : Unit ts u rest) : Annotation ts (.quantity u) rest

/-! ### Expressions -/

/-- The unit that may follow a number. -/
inductive Suffix : List Token → Option UnitExpr → List Token → Prop where
  | none {ts : List Token} : Suffix ts none ts
  | unit {u : UnitExpr} {ts rest : List Token} (unit : Unit ts u rest) : Suffix ts (some u) rest

mutual

/-- An expression with operators of a rank below `r` outside of parentheses. -/
inductive Tier : (r : Nat) → List Token → Expr → List Token → Prop where
  | operand {e : Expr} {ts rest : List Token} (operand : Operand ts e rest) : Tier 0 ts e rest
  | tighter {r : Nat} {e : Expr} {ts rest : List Token} (tier : Tier r ts e rest) : Tier (r + 1) ts e rest
  | binary {op : BinaryOp} {token : Token} {left right : Expr} {ts mid rest : List Token}
      (first : Tier (op.rank + 1) ts left (token :: mid)) (operator : token.kind = op.kind)
      (second : Tier op.rank mid right rest) : Tier (op.rank + 1) ts (.binary left op token.position right) rest

/-- At most one unary operator in front of a primary expression. -/
inductive Operand : List Token → Expr → List Token → Prop where
  | plain {e : Expr} {ts rest : List Token} (primary : Primary ts e rest) : Operand ts e rest
  | unary {op : UnaryOp} {token : Token} {e : Expr} {ts rest : List Token} (operator : token.kind = op.kind)
      (primary : Primary ts e rest) : Operand (token :: ts) (.unary op token.position e) rest

inductive Primary : List Token → Expr → List Token → Prop where
  | int {token : Token} {n : Int64} {unit : Option UnitExpr} {ts rest : List Token} (counts : Counts token n)
      (suffix : Suffix ts unit rest) : Primary (token :: ts) (.literal (.int n unit) token.position) rest
  | float {token : Token} {x : Float} {unit : Option UnitExpr} {ts rest : List Token}
      (kind : token.kind = .floatLiteral) (value : token.value = some (.float x)) (suffix : Suffix ts unit rest) :
      Primary (token :: ts) (.literal (.float x unit) token.position) rest
  | yes {token : Token} {rest : List Token} (word : token.kind = .trueWord) :
      Primary (token :: rest) (.literal (.bool true) token.position) rest
  | no {token : Token} {rest : List Token} (word : token.kind = .falseWord) :
      Primary (token :: rest) (.literal (.bool false) token.position) rest
  | text {token : Token} {s : String} {rest : List Token} (kind : token.kind = .stringLiteral)
      (value : token.value = some (.text s)) : Primary (token :: rest) (.literal (.text s) token.position) rest
  | var {token : Token} {symbol : Symbol} {rest : List Token} (named : Names token symbol) :
      Primary (token :: rest) (.var symbol) rest
  | call {token opening : Token} {symbol : Symbol} {es : List Expr} {ts rest : List Token}
      (named : Names token symbol) (opens : opening.kind = .leftParen) (arguments : Arguments ts es rest) :
      Primary (token :: opening :: ts) (.call symbol es) rest
  | group {opening closing : Token} {e : Expr} {ts rest : List Token} (opens : opening.kind = .leftParen)
      (inner : Tier 5 ts e (closing :: rest)) (closes : closing.kind = .rightParen) :
      Primary (opening :: ts) e rest

/-- Arguments, from behind the opening parenthesis to behind the closing one. -/
inductive Arguments : List Token → List Expr → List Token → Prop where
  | none {closing : Token} {rest : List Token} (closes : closing.kind = .rightParen) :
      Arguments (closing :: rest) [] rest
  | some {e : Expr} {es : List Expr} {ts mid rest : List Token} (first : Tier 5 ts e mid)
      (others : MoreArguments mid es rest) : Arguments ts (e :: es) rest

/-- The arguments behind another one, each with a comma in front of it. -/
inductive MoreArguments : List Token → List Expr → List Token → Prop where
  | none {closing : Token} {rest : List Token} (closes : closing.kind = .rightParen) :
      MoreArguments (closing :: rest) [] rest
  | some {comma : Token} {e : Expr} {es : List Expr} {ts mid rest : List Token} (isComma : comma.kind = .comma)
      (first : Tier 5 ts e mid) (others : MoreArguments mid es rest) : MoreArguments (comma :: ts) (e :: es) rest

end

/-- An expression: the operators outside of parentheses may be of any rank. -/
abbrev Expression : List Token → Expr → List Token → Prop := Tier 5

/-! ### Statements -/

mutual

/-- A statement. Only inside a function may it be a `return`, and only directly before a closing brace may that have
no value. -/
inductive Statement (inFunction : Bool) : List Token → Stmt → List Token → Prop where
  | declare {word token colon equals : Token} {symbol : Symbol} {τ : Ty} {e : Expr} {ts us rest : List Token}
      (isLet : word.kind = .letWord) (named : Names token symbol) (isColon : colon.kind = .colon)
      (type : Annotation ts τ (equals :: us)) (isAssign : equals.kind = .assign) (value : Expression us e rest) :
      Statement inFunction (word :: token :: colon :: ts) (.declare symbol τ e) rest
  | assign {token equals : Token} {symbol : Symbol} {e : Expr} {ts rest : List Token} (named : Names token symbol)
      (isAssign : equals.kind = .assign) (value : Expression ts e rest) :
      Statement inFunction (token :: equals :: ts) (.assign symbol e) rest
  | call {token opening : Token} {symbol : Symbol} {es : List Expr} {ts rest : List Token}
      (named : Names token symbol) (opens : opening.kind = .leftParen) (arguments : Arguments ts es rest) :
      Statement inFunction (token :: opening :: ts) (.call symbol es) rest
  | ifElse {word : Token} {c : Expr} {body : List Stmt} {o : Else} {ts us vs rest : List Token}
      (isIf : word.kind = .ifWord) (condition : Expression ts c us) (first : Block inFunction us body vs)
      (otherwise : Otherwise inFunction vs o rest) : Statement inFunction (word :: ts) (.ifElse c body o) rest
  | loop {word : Token} {c : Expr} {body : List Stmt} {ts us rest : List Token} (isWhile : word.kind = .whileWord)
      (condition : Expression ts c us) (repeated : Block inFunction us body rest) :
      Statement inFunction (word :: ts) (.loop c body) rest
  | ret {word : Token} {e : Expr} {ts rest : List Token} (allowed : inFunction = true)
      (isReturn : word.kind = .returnWord) (value : Expression ts e rest) :
      Statement inFunction (word :: ts) (.ret word.position (some e)) rest
  | retBare {word closing : Token} {rest : List Token} (allowed : inFunction = true)
      (isReturn : word.kind = .returnWord) (closes : closing.kind = .rightBrace) :
      Statement inFunction (word :: closing :: rest) (.ret word.position none) (closing :: rest)
  | block {body : List Stmt} {ts rest : List Token} (block : Block inFunction ts body rest) :
      Statement inFunction ts (.block body) rest

/-- Statements in their braces. -/
inductive Block (inFunction : Bool) : List Token → List Stmt → List Token → Prop where
  | braces {opening : Token} {body : List Stmt} {ts rest : List Token} (opens : opening.kind = .leftBrace)
      (inside : Body inFunction ts body rest) : Block inFunction (opening :: ts) body rest

/-- Statements up to a closing brace, and that brace. -/
inductive Body (inFunction : Bool) : List Token → List Stmt → List Token → Prop where
  | close {closing : Token} {rest : List Token} (closes : closing.kind = .rightBrace) :
      Body inFunction (closing :: rest) [] rest
  | more {s : Stmt} {ss : List Stmt} {ts mid rest : List Token} (first : Statement inFunction ts s mid)
      (others : Body inFunction mid ss rest) : Body inFunction ts (s :: ss) rest

/-- The further branches of an `if`. -/
inductive Otherwise (inFunction : Bool) : List Token → Else → List Token → Prop where
  | none {ts : List Token} : Otherwise inFunction ts .none ts
  | last {word : Token} {body : List Stmt} {ts rest : List Token} (isElse : word.kind = .elseWord)
      (block : Block inFunction ts body rest) : Otherwise inFunction (word :: ts) (.last body) rest
  | elseIf {word further : Token} {c : Expr} {body : List Stmt} {o : Else} {ts us vs rest : List Token}
      (isElse : word.kind = .elseWord) (isIf : further.kind = .ifWord) (condition : Expression ts c us)
      (block : Block inFunction us body vs) (otherwise : Otherwise inFunction vs o rest) :
      Otherwise inFunction (word :: further :: ts) (.elseIf c body o) rest

end

/-! ### Programs -/

inductive Parameter : List Token → Param → List Token → Prop where
  | mk {token colon : Token} {symbol : Symbol} {τ : Ty} {ts rest : List Token} (named : Names token symbol)
      (isColon : colon.kind = .colon) (type : Annotation ts τ rest) : Parameter (token :: colon :: ts) ⟨symbol, τ⟩ rest

/-- The parameters behind another one, each with a comma in front of it, and the closing parenthesis. -/
inductive MoreParameters : List Token → List Param → List Token → Prop where
  | none {closing : Token} {rest : List Token} (closes : closing.kind = .rightParen) :
      MoreParameters (closing :: rest) [] rest
  | some {comma : Token} {a : Param} {as : List Param} {ts mid rest : List Token} (isComma : comma.kind = .comma)
      (first : Parameter ts a mid) (others : MoreParameters mid as rest) : MoreParameters (comma :: ts) (a :: as) rest

/-- Parameters, from behind the opening parenthesis to behind the closing one. -/
inductive Parameters : List Token → List Param → List Token → Prop where
  | none {closing : Token} {rest : List Token} (closes : closing.kind = .rightParen) :
      Parameters (closing :: rest) [] rest
  | some {a : Param} {as : List Param} {ts mid rest : List Token} (first : Parameter ts a mid)
      (others : MoreParameters mid as rest) : Parameters ts (a :: as) rest

/-- A unit, a function, or a statement that stands outside of functions. -/
inductive Item : List Token → Parser.Item → List Token → Prop where
  | unit {word token colon : Token} {symbol : Symbol} {u : UnitExpr} {ts rest : List Token}
      (isUnit : word.kind = .unitWord) (named : Names token symbol) (isColon : colon.kind = .colon)
      (definition : Unit ts u rest) : Item (word :: token :: colon :: ts) (.unit ⟨symbol, u⟩) rest
  | function {token opening arrow : Token} {symbol : Symbol} {params : List Param} {τ : Ty} {body : List Stmt}
      {ts us vs rest : List Token} (named : Names token symbol) (opens : opening.kind = .leftParen)
      (parameters : Parameters ts params (arrow :: us)) (isArrow : arrow.kind = .arrow)
      (returnType : Annotation us τ vs) (block : Block true vs body rest) :
      Item (token :: opening :: ts) (.function ⟨symbol, params, τ, body⟩) rest
  | statement {s : Stmt} {ts rest : List Token} (statement : Statement false ts s rest) :
      Item ts (.statement s) rest

/-- All the tokens of a program, cut into its items. -/
inductive Items : List Token → List Parser.Item → Prop where
  | none : Items [] []
  | some {i : Parser.Item} {is : List Parser.Item} {ts rest : List Token} (first : Item ts i rest)
      (others : Items rest is) : Items ts (i :: is)

end Grammar

end Mensura
