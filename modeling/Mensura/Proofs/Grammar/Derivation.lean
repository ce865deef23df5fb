import Mensura.Proofs.Grammar.Reading

/-!
Derivations. Whatever is derived takes tokens away from the front, and which token that can be tells the rules
apart. A rule that is recursive on the left is also one first part and a repetition.
-/

namespace Mensura

open Token (Kind)
open Mensura.Parser (nextKind Repeats)

theorem UnaryOp.kind_ne_identifier (op : UnaryOp) : op.kind ≠ .identifier := by
  cases op <;> decide

theorem BinaryOp.kind_ne_colon (op : BinaryOp) : op.kind ≠ .colon := by
  cases op <;> decide

theorem BinaryOp.kind_injective {op op' : BinaryOp} (same : op.kind = op'.kind) : op = op' := by
  cases op <;> cases op' <;> first | rfl | cases same

namespace Grammar

variable {ts mid rest : List Token} {t : Token}

/-- At least one token is taken from the front of `ts`, and `rest` is what is left. -/
structure Passes (ts rest : List Token) : Prop where
  suffix : rest <:+ ts
  shorter : rest.length < ts.length

namespace Passes

theorem head (t : Token) (rest : List Token) : Passes (t :: rest) rest := ⟨List.suffix_cons t rest, Nat.lt_succ_self _⟩

theorem trans (h : Passes ts mid) (next : Passes mid rest) : Passes ts rest :=
  ⟨next.suffix.trans h.suffix, Nat.lt_trans next.shorter h.shorter⟩

theorem cons (t : Token) (h : Passes ts rest) : Passes (t :: ts) rest := (head t ts).trans h

theorem subset (h : Passes ts rest) : rest ⊆ ts := h.suffix.subset

end Passes

/-- A token of the given kind, and behind it what `step` says. -/
def Behind {α : Type} (kind : Kind) (step : List Token → α → List Token → Prop) (ts : List Token) (a : α)
    (rest : List Token) : Prop :=
  ∃ t mid, ts = t :: mid ∧ t.kind = kind ∧ step mid a rest

theorem Behind.passes {α : Type} {kind : Kind} {step : List Token → α → List Token → Prop} {a : α}
    (takes : ∀ {ts a rest}, step ts a rest → Passes ts rest) (h : Behind kind step ts a rest) : Passes ts rest := by
  obtain ⟨t, mid, rfl, -, next⟩ := h
  exact (takes next).cons t

/-- In front of the closing token a separator or that token itself comes next. -/
theorem Behind.nextKind_eq {α : Type} {kind closing : Kind} {step : List Token → α → List Token → Prop} {as : List α}
    (h : Repeats (Behind kind step) ts as rest) (stop : nextKind rest = closing) :
    nextKind ts = kind ∨ nextKind ts = closing := by
  cases h with
  | nil => exact .inr stop
  | cons first _ =>
    obtain ⟨t, us, rfl, same, -⟩ := first
    exact .inl same

/-! ### Units and types -/

theorem Power.passes {p : Int32} (h : Power ts p rest) : Passes ts rest := by
  cases h with
  | positive => exact .head _ _
  | negative => exact (Passes.head _ _).cons _

theorem Factor.passes {u : Mensura.Factor} (h : Factor ts u rest) : Passes ts rest := by
  cases h with
  | plain => exact .head _ _
  | raised _ _ power => exact (power.passes.cons _).cons _

theorem Factors.passes {us : List Mensura.Factor} (h : Factors ts us rest) : Passes ts rest := by
  induction h with
  | one factor => exact factor.passes
  | more factor _ _ ih => exact factor.passes.trans (ih.cons _)

theorem Factors.of_repeats {u : Mensura.Factor} {us : List Mensura.Factor} (first : Factor ts u mid)
    (others : Repeats (Behind .star Factor) mid us rest) : Factors ts (u :: us) rest := by
  induction others generalizing ts u with
  | nil => exact .one first
  | cons next _ ih =>
    obtain ⟨star, us, rfl, isStar, factor⟩ := next
    exact .more first isStar (ih factor)

theorem Factors.repeats {us : List Mensura.Factor} (h : Factors ts us rest) :
    ∃ u others mid, us = u :: others ∧ Factor ts u mid ∧ Repeats (Behind .star Factor) mid others rest := by
  induction h with
  | one factor => exact ⟨_, [], _, rfl, factor, .nil⟩
  | more factor isStar _ ih =>
    obtain ⟨u, others, mid, rfl, next, repeated⟩ := ih
    exact ⟨_, u :: others, _, rfl, factor, .cons ⟨_, _, rfl, isStar, next⟩ repeated⟩

theorem Unit.passes {u : UnitExpr} (h : Unit ts u rest) : Passes ts rest := by
  cases h with
  | dimensionless => exact (Passes.head _ _).cons _
  | product _ factors _ => exact (factors.passes.trans (.head _ _)).cons _

theorem Unit.nextKind_eq {u : UnitExpr} (h : Unit ts u rest) : nextKind ts = .leftBracket := by
  cases h with
  | dimensionless opens => exact opens
  | product opens => exact opens

theorem Annotation.passes {τ : Ty} (h : Annotation ts τ rest) : Passes ts rest := by
  cases h with
  | text | bool | void => exact .head _ _
  | quantity unit => exact unit.passes

/-! ### Expressions -/

/-- With the number in front of it, a suffix takes a token. -/
theorem Suffix.passes {unit : Option UnitExpr} (h : Suffix ts unit rest) (t : Token) : Passes (t :: ts) rest := by
  cases h with
  | none => exact .head _ _
  | unit unit => exact unit.passes.cons _

mutual

theorem Tier.passes {r : Nat} {ts rest : List Token} {e : Expr} : Tier r ts e rest → Passes ts rest
  | .operand operand => operand.passes
  | .tighter tier => tier.passes
  | .binary first _ second => first.passes.trans (second.passes.cons _)

theorem Operand.passes {ts rest : List Token} {e : Expr} : Operand ts e rest → Passes ts rest
  | .plain primary => primary.passes
  | .unary _ primary => primary.passes.cons _

theorem Primary.passes {ts rest : List Token} {e : Expr} : Primary ts e rest → Passes ts rest
  | .int _ suffix => suffix.passes _
  | .float _ _ suffix => suffix.passes _
  | .yes _ | .no _ | .text _ _ | .var _ => .head _ _
  | .call _ _ arguments => (arguments.passes.cons _).cons _
  | .group _ inner _ => (inner.passes.trans (.head _ _)).cons _

theorem Arguments.passes {ts rest : List Token} {es : List Expr} : Arguments ts es rest → Passes ts rest
  | .none _ => .head _ _
  | .some first others => first.passes.trans others.passes

theorem MoreArguments.passes {ts rest : List Token} {es : List Expr} : MoreArguments ts es rest → Passes ts rest
  | .none _ => .head _ _
  | .some _ first others => (first.passes.trans others.passes).cons _

end

theorem MoreArguments.of_repeats {es : List Expr} {closing : Token} (closes : closing.kind = .rightParen)
    (others : Repeats (Behind .comma Expression) ts es (closing :: rest)) : MoreArguments ts es rest := by
  generalize split : closing :: rest = mid at others
  induction others with
  | nil => exact split ▸ .none closes
  | cons first _ ih =>
    obtain ⟨comma, us, rfl, isComma, e⟩ := first
    exact .some isComma e (ih split)

theorem MoreArguments.repeats {ts rest : List Token} {es : List Expr} : MoreArguments ts es rest →
    ∃ closing, closing.kind = .rightParen ∧ Repeats (Behind .comma Expression) ts es (closing :: rest)
  | .none closes => ⟨_, closes, .nil⟩
  | .some isComma first others => by
    obtain ⟨closing, closes, repeated⟩ := others.repeats
    exact ⟨closing, closes, .cons ⟨_, _, rfl, isComma, first⟩ repeated⟩

theorem Primary.nextKind_mem {e : Expr} (h : Primary ts e rest) : nextKind ts ∈ Parser.primaryStart := by
  cases h with
  | int counts => simp [nextKind, counts.kind, Parser.primaryStart]
  | float kind | text kind => simp [nextKind, kind, Parser.primaryStart]
  | yes word | no word => simp [nextKind, word, Parser.primaryStart]
  | var named | call named => simp [nextKind, named.kind, Parser.primaryStart]
  | group opens => simp [nextKind, opens, Parser.primaryStart]

/-- What an expression can begin with. -/
def expressionStart : List Kind := .minus :: .not :: Parser.primaryStart

theorem Operand.nextKind_mem {e : Expr} (h : Operand ts e rest) : nextKind ts ∈ expressionStart := by
  cases h with
  | plain primary => exact List.mem_cons_of_mem _ (List.mem_cons_of_mem _ primary.nextKind_mem)
  | @unary op _ _ _ _ operator _ => cases op <;> simp [nextKind, operator, UnaryOp.kind, expressionStart]

theorem Tier.nextKind_mem {ts : List Token} : {r : Nat} → {rest : List Token} → {e : Expr} → Tier r ts e rest →
    nextKind ts ∈ expressionStart
  | _, _, _, .operand h => h.nextKind_mem
  | _, _, _, .tighter h => h.nextKind_mem
  | _, _, _, .binary first _ _ => first.nextKind_mem

theorem Tier.of_primary {r : Nat} {e : Expr} (h : Primary ts e rest) : Tier r ts e rest := by
  induction r with
  | zero => exact .operand (.plain h)
  | succ r ih => exact .tighter ih

/-- An operator of the rank `r` with its right operand. -/
def Operation (r : Nat) (ts : List Token) (o : BinaryOp × Position × Expr) (rest : List Token) : Prop :=
  ∃ t mid, ts = t :: mid ∧ t.kind = o.1.kind ∧ o.1.rank = r ∧ t.position = o.2.1 ∧ Tier r mid o.2.2 rest

/-- An expression with operations to its right, grouped from the left. -/
def grouped (e : Expr) (os : List (BinaryOp × Position × Expr)) : Expr :=
  os.foldl (fun left (op, position, right) => .binary left op position right) e

/-- Operations on a first operand, grouped from the left. -/
theorem Tier.of_repeats {r : Nat} {e : Expr} {os : List (BinaryOp × Position × Expr)}
    (first : Tier (r + 1) ts e mid) (others : Repeats (Operation r) mid os rest) :
    Tier (r + 1) ts (grouped e os) rest := by
  induction others generalizing e with
  | nil => exact first
  | @cons o _ _ _ _ next _ ih =>
    obtain ⟨op, position, right⟩ := o
    obtain ⟨t, us, rfl, same, rfl, rfl, second⟩ := next
    exact ih (.binary first same second)

theorem Tier.repeats : {r : Nat} → {ts rest : List Token} → {e : Expr} → Tier (r + 1) ts e rest →
    ∃ first os mid, Tier r ts first mid ∧ Repeats (Operation r) mid os rest ∧ e = grouped first os
  | _, _, rest, e, .tighter tier => ⟨e, [], rest, tier, .nil, rfl⟩
  | _, _, _, _, .binary left operator second => by
    obtain ⟨first, os, mid, tier, others, rfl⟩ := left.repeats
    refine ⟨first, os ++ [(_, _, _)], mid, tier, others.snoc ⟨_, _, rfl, operator, rfl, rfl, second⟩, ?_⟩
    simp only [grouped, List.foldl_append, List.foldl_cons, List.foldl_nil]

theorem Operation.passes {r : Nat} {o : BinaryOp × Position × Expr} (h : Operation r ts o rest) :
    Passes ts rest := by
  obtain ⟨t, us, rfl, -, -, -, second⟩ := h
  exact second.passes.cons t

theorem Primary.of_name {e : Expr} (h : Primary (t :: ts) e rest) (name : t.kind = .identifier) :
    (∃ symbol, Names t symbol) ∧ (nextKind rest ≠ .colon → nextKind ts ≠ .colon) := by
  cases h with
  | var named => exact ⟨⟨_, named⟩, fun stop => stop⟩
  | call named opens => exact ⟨⟨_, named⟩, fun _ => by simp [nextKind, opens]⟩
  | int counts => simp [counts.kind] at name
  | float kind | text kind => simp [kind] at name
  | yes word | no word => simp [word] at name
  | group opens => simp [opens] at name

/-- A name that an expression begins with has no colon behind it. -/
theorem Tier.of_name : {r : Nat} → {rest : List Token} → {e : Expr} → Tier r (t :: ts) e rest → t.kind = .identifier →
    (∃ symbol, Names t symbol) ∧ (nextKind rest ≠ .colon → nextKind ts ≠ .colon)
  | _, _, _, .operand (.plain primary), name => primary.of_name name
  | _, _, _, .operand (.unary operator _), name => absurd (operator.symm.trans name) (UnaryOp.kind_ne_identifier _)
  | _, _, _, .tighter tier, name => tier.of_name name
  | _, _, _, .binary first operator _, name => by
    obtain ⟨named, stop⟩ := first.of_name name
    exact ⟨named, fun _ => stop fun colon => BinaryOp.kind_ne_colon _ (operator.symm.trans colon)⟩

/-! ### Statements -/

section
variable {inFunction : Bool}

mutual

theorem Statement.passes {ts rest : List Token} {s : Stmt} : Statement inFunction ts s rest → Passes ts rest
  | .declare _ _ _ type _ value => ((((type.passes.trans (.head _ _)).trans value.passes).cons _).cons _).cons _
  | .assign _ _ value => (value.passes.cons _).cons _
  | .call _ _ arguments => (arguments.passes.cons _).cons _
  | .ifElse _ condition first otherwise => (condition.passes.trans (otherwise.passes first.passes)).cons _
  | .loop _ condition repeated => (condition.passes.trans repeated.passes).cons _
  | .ret _ _ value => value.passes.cons _
  | .retBare _ _ _ => .head _ _
  | .block block => block.passes

theorem Block.passes {ts rest : List Token} {ss : List Stmt} : Block inFunction ts ss rest → Passes ts rest
  | .braces _ inside => inside.passes.cons _

theorem Body.passes {ts rest : List Token} {ss : List Stmt} : Body inFunction ts ss rest → Passes ts rest
  | .close _ => .head _ _
  | .more first others => first.passes.trans others.passes

/-- With a block in front of them, further branches take a token. -/
theorem Otherwise.passes {us ts rest : List Token} {o : Else} : Otherwise inFunction ts o rest → Passes us ts →
    Passes us rest
  | .none, block => block
  | .last _ last, block => block.trans (last.passes.cons _)
  | .elseIf _ _ condition next otherwise, block =>
    block.trans (((condition.passes.trans (otherwise.passes next.passes)).cons _).cons _)

end

theorem Body.of_repeats {ss : List Stmt} {closing : Token} (closes : closing.kind = .rightBrace)
    (statements : Repeats (Statement inFunction) ts ss (closing :: rest)) : Body inFunction ts ss rest := by
  generalize split : closing :: rest = mid at statements
  induction statements with
  | nil => exact split ▸ .close closes
  | cons first _ ih => exact .more first (ih split)

theorem Body.repeats {ts rest : List Token} {ss : List Stmt} : Body inFunction ts ss rest →
    ∃ closing, closing.kind = .rightBrace ∧ Repeats (Statement inFunction) ts ss (closing :: rest)
  | .close closes => ⟨_, closes, .nil⟩
  | .more first others => by
    obtain ⟨closing, closes, repeated⟩ := others.repeats
    exact ⟨closing, closes, .cons first repeated⟩

theorem Statement.nextKind_mem {s : Stmt} (h : Statement inFunction ts s rest) :
    nextKind ts ∈ Parser.statementStart := by
  cases h with
  | declare word => simp [nextKind, word, Parser.statementStart]
  | assign named | call named => simp [nextKind, named.kind, Parser.statementStart]
  | ifElse word | loop word => simp [nextKind, word, Parser.statementStart]
  | ret _ word | retBare _ word => simp [nextKind, word, Parser.statementStart]
  | block block =>
    cases block with
    | braces opens => simp [nextKind, opens, Parser.statementStart]

end

/-! ### Items -/

theorem Parameter.passes {a : Param} (h : Parameter ts a rest) : Passes ts rest := by
  cases h with
  | mk _ _ type => exact (type.passes.cons _).cons _

theorem MoreParameters.passes {as : List Param} (h : MoreParameters ts as rest) : Passes ts rest := by
  induction h with
  | none => exact .head _ _
  | some _ first _ ih => exact (first.passes.trans ih).cons _

theorem MoreParameters.of_repeats {as : List Param} {closing : Token} (closes : closing.kind = .rightParen)
    (others : Repeats (Behind .comma Parameter) ts as (closing :: rest)) : MoreParameters ts as rest := by
  generalize split : closing :: rest = mid at others
  induction others with
  | nil => exact split ▸ .none closes
  | cons first _ ih =>
    obtain ⟨comma, us, rfl, isComma, a⟩ := first
    exact .some isComma a (ih split)

theorem MoreParameters.repeats {as : List Param} (h : MoreParameters ts as rest) :
    ∃ closing, closing.kind = .rightParen ∧ Repeats (Behind .comma Parameter) ts as (closing :: rest) := by
  induction h with
  | none closes => exact ⟨_, closes, .nil⟩
  | some isComma first _ ih =>
    obtain ⟨closing, closes, repeated⟩ := ih
    exact ⟨closing, closes, .cons ⟨_, _, rfl, isComma, first⟩ repeated⟩

theorem Parameters.passes {as : List Param} (h : Parameters ts as rest) : Passes ts rest := by
  cases h with
  | none => exact .head _ _
  | some first others => exact first.passes.trans others.passes

theorem Item.passes {i : Parser.Item} (h : Item ts i rest) : Passes ts rest := by
  cases h with
  | unit _ _ _ definition => exact ((definition.passes.cons _).cons _).cons _
  | function _ _ parameters _ returnType block =>
    exact (((parameters.passes.trans (.head _ _)).trans (returnType.passes.trans block.passes)).cons _).cons _
  | statement statement => exact statement.passes

theorem Item.nextKind_mem {i : Parser.Item} (h : Item ts i rest) :
    nextKind ts ∈ Kind.unitWord :: Parser.statementStart := by
  cases h with
  | unit word => simp [nextKind, word]
  | function named => simp [nextKind, named.kind, Parser.statementStart]
  | statement statement => exact List.mem_cons_of_mem _ statement.nextKind_mem

end Grammar

end Mensura
