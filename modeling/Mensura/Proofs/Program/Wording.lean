import Mensura.Program.Parser
import Mensura.Proofs.Grammar.Basic
import Mensura.Proofs.Result

/-!
Where the names in a program come from. Something may be asked of all tokens, from which something else follows for
the names among them. Main statement: what is asked of the tokens holds for the token that reading is refused with,
and what follows for names holds for a name that is refused and for every name in the program that is read.
-/

namespace Mensura

open Token (Kind)

/-! ### Names in trees

Every name in a tree is as `P` says. -/

def UnitExpr.Named (P : String → Prop) (u : UnitExpr) : Prop := ∀ f ∈ u.factors, P f.name

def Ty.Named (P : String → Prop) : Ty → Prop
  | .quantity u => u.Named P
  | _ => True

def Literal.Named (P : String → Prop) : Literal → Prop
  | .int _ (some u) | .float _ (some u) => u.Named P
  | _ => True

mutual

def Expr.Named (P : String → Prop) : Expr → Prop
  | .literal value _ => value.Named P
  | .unary _ _ operand => operand.Named P
  | .binary left _ _ right => left.Named P ∧ right.Named P
  | .call callee args => P callee.name ∧ Expr.AllNamed P args
  | .var name => P name.name

def Expr.AllNamed (P : String → Prop) : List Expr → Prop
  | [] => True
  | e :: es => e.Named P ∧ Expr.AllNamed P es

end

mutual

def Stmt.Named (P : String → Prop) : Stmt → Prop
  | .declare name type value => P name.name ∧ type.Named P ∧ value.Named P
  | .assign name value => P name.name ∧ value.Named P
  | .ifElse condition body otherwise => condition.Named P ∧ Stmt.AllNamed P body ∧ otherwise.Named P
  | .loop condition body => condition.Named P ∧ Stmt.AllNamed P body
  | .ret _ (some value) => value.Named P
  | .ret _ none => True
  | .call callee args => P callee.name ∧ Expr.AllNamed P args
  | .block body => Stmt.AllNamed P body

def Stmt.AllNamed (P : String → Prop) : List Stmt → Prop
  | [] => True
  | s :: ss => s.Named P ∧ Stmt.AllNamed P ss

def Else.Named (P : String → Prop) : Else → Prop
  | .none => True
  | .last body => Stmt.AllNamed P body
  | .elseIf condition body otherwise => condition.Named P ∧ Stmt.AllNamed P body ∧ otherwise.Named P

end

structure Param.Named (P : String → Prop) (a : Param) : Prop where
  name : P a.name.name
  type : a.type.Named P

structure Function.Named (P : String → Prop) (f : Function) : Prop where
  name : P f.name.name
  params : ∀ a ∈ f.params, a.Named P
  returnType : f.returnType.Named P
  body : Stmt.AllNamed P f.body

structure UnitDeclaration.Named (P : String → Prop) (d : UnitDeclaration) : Prop where
  name : P d.name.name
  unit : d.unit.Named P

structure Program.Named (P : String → Prop) (p : Program) : Prop where
  functions : ∀ f ∈ p.functions, f.Named P
  units : ∀ d ∈ p.units, d.Named P
  statements : Stmt.AllNamed P p.statements

section
variable {P : String → Prop}

theorem Expr.allNamed_iff {es : List Expr} : Expr.AllNamed P es ↔ ∀ e ∈ es, e.Named P := by
  induction es with
  | nil => simp [Expr.AllNamed]
  | cons e es ih => simp [Expr.AllNamed, ih]

theorem Stmt.allNamed_iff {ss : List Stmt} : Stmt.AllNamed P ss ↔ ∀ s ∈ ss, s.Named P := by
  induction ss with
  | nil => simp [Stmt.AllNamed]
  | cons s ss ih => simp [Stmt.AllNamed, ih]

def Parser.Item.Named (P : String → Prop) : Parser.Item → Prop
  | .unit d => d.Named P
  | .function f => f.Named P
  | .statement s => s.Named P

/-- Operations that are grouped from the left have the names of their operands. -/
theorem Expr.named_foldl {first : Expr} {others : List (BinaryOp × Position × Expr)} (left : first.Named P)
    (rights : ∀ o ∈ others, o.2.2.Named P) :
    (others.foldl (fun left (op, position, right) => .binary left op position right) first).Named P := by
  induction others generalizing first with
  | nil => exact left
  | cons o others ih =>
    obtain ⟨right, rights⟩ := List.forall_mem_cons.mp rights
    exact ih (show (Expr.binary first o.1 o.2.1 o.2.2).Named P from ⟨left, right⟩) rights

end

/-- What is asked of tokens, the mark of the end among them, and what follows for names. -/
structure Wording where
  token : Token → Prop
  name : String → Prop
  etx : ∀ p, token (.etx p)
  named : ∀ {t symbol}, token t → Grammar.Names t symbol → name symbol.name

namespace Wording

def stream (w : Wording) (s : TokenStream) : Prop := ∀ t ∈ s.tokens, w.token t

/-- What a refusal points at. -/
def refusal (w : Wording) : Refusal → Prop
  | .syntactic (.mismatch _ found) => w.token found
  | .syntactic (.functionRedefined name) | .syntactic (.unitRedefined name) => w.name name.name
  | _ => True

variable {w : Wording} {s : TokenStream}

theorem peek (h : w.stream s) : w.token s.peek := by
  obtain ⟨tokens, ending⟩ := s
  cases tokens with
  | nil => cases ending <;> exact w.etx _
  | cons t ts => cases ending <;> exact h t List.mem_cons_self

theorem behind (h : w.stream s) : Ends w.refusal w.stream s.behind := by
  unfold TokenStream.behind
  split
  · exact trivial
  · exact fun t mem => h t (List.mem_of_mem_tail mem)

end Wording

namespace Parser

variable {α β : Type} {w : Wording} {good : α → Prop} {better : β → Prop}

/-- From tokens as `w` asks for, what is read is as `good` says and such tokens are left, or what is refused is as
`w` says. -/
def Keeps (w : Wording) (x : Parser α) (good : α → Prop) : Prop :=
  ∀ s, w.stream s → Ends w.refusal (fun r => good r.1 ∧ w.stream r.2) (x s)

namespace Keeps

theorem pure {a : α} (h : good a) : Keeps w (Pure.pure a) good := fun _ kept => ⟨h, kept⟩

theorem refuse {r : Refusal} (h : w.refusal r) : Keeps w (Parser.refuse r) good := fun _ _ => h

theorem mismatch (expected : List Kind) : Keeps w (Parser.mismatch expected) good := fun _ kept => Wording.peek kept

theorem bind {x : Parser α} {f : α → Parser β} (first : Keeps w x good) (rest : ∀ a, good a → Keeps w (f a) better) :
    Keeps w (x >>= f) better :=
  fun s kept => Ends.bind ((first s kept).mono fun r h => rest r.1 h.1 r.2 h.2)

theorem peekKind : Keeps w Parser.peekKind fun _ => True := fun _ kept => ⟨trivial, kept⟩

theorem advance_from {s : TokenStream} (kept : w.stream s) :
    Ends w.refusal (fun r => (w.token r.1 ∧ r.1 = s.peek) ∧ w.stream r.2) (Parser.advance s) := by
  have moved := Wording.behind kept
  unfold Parser.advance
  generalize s.behind = r at moved
  cases r with
  | error r => exact moved
  | ok t => exact ⟨⟨Wording.peek kept, rfl⟩, moved⟩

theorem advance : Keeps w Parser.advance w.token :=
  fun _ kept => (advance_from kept).mono fun _ h => ⟨h.1.1, h.2⟩

theorem take (kind : Kind) : Keeps w (Parser.take kind) fun _ => True := by
  apply peekKind.bind
  intro found _
  split
  · exact advance.bind fun _ _ => .pure trivial
  · exact .pure trivial

theorem ifTake {kind : Kind} {yes no : Parser β} (taken : Keeps w yes better) (left : Keeps w no better) :
    Keeps w (do if ← Parser.take kind then yes else no) better := by
  apply (take kind).bind
  rintro (_ | _) _
  · exact left
  · exact taken

theorem expect (kind : Kind) : Keeps w (Parser.expect kind) fun t => w.token t ∧ t.kind = kind := by
  intro s kept
  change Ends _ _ ((if s.peek.kind = kind then Parser.advance else Parser.mismatch [kind]) s)
  split
  · rename_i same
    exact (advance_from kept).mono fun r h => ⟨⟨h.1.1, h.1.2 ▸ same⟩, h.2⟩
  · exact Wording.peek kept

/-- A token that has to be there, and nothing is kept of it. -/
theorem skip {kind : Kind} {x : Parser β} (next : Keeps w x better) :
    Keeps w (Parser.expect kind >>= fun _ => x) better := (expect kind).bind fun _ _ => next

theorem pass {x : Parser β} (next : Keeps w x better) : Keeps w (Parser.advance >>= fun _ => x) better :=
  advance.bind fun _ _ => next

theorem many {item : Parser (Option α)} (h : Keeps w item fun o => ∀ a, o = some a → good a) (n : Nat) :
    Keeps w (Parser.many item n) fun as => ∀ a ∈ as, good a := by
  induction n with
  | zero => exact .pure nofun
  | succ n ih =>
    apply h.bind
    intro o found
    cases o with
    | none => exact .pure nofun
    | some a =>
      apply ih.bind
      intro as rest
      exact .pure (List.forall_mem_cons.mpr ⟨found a rfl, rest⟩)

theorem many_behind {x : Parser α} (kind : Kind) (h : Keeps w x good) (n : Nat) :
    Keeps w (Parser.many (do if ← Parser.take kind then return some (← x) else return none) n)
      fun as => ∀ a ∈ as, good a := by
  apply many
  apply ifTake
  · apply h.bind
    rintro a holds
    apply pure
    rintro _ ⟨⟩
    exact holds
  · exact .pure nofun

/-! ### Names, units and types -/

theorem identifier : Keeps w Parser.identifier fun name => w.name name.name := by
  apply (expect .identifier).bind
  rintro t ⟨holds, kind⟩
  split
  · rename_i name value
    exact .pure (w.named holds ⟨kind, value, rfl⟩)
  · exact .refuse trivial

theorem power : Keeps w Parser.power fun _ => True := by
  apply (take .minus).bind
  intro negative _
  apply (expect .intLiteral).bind
  intro t _
  split
  · split
    · exact .refuse trivial
    · split
      · exact .pure trivial
      · split
        · exact .pure trivial
        · exact .refuse trivial
  · exact .refuse trivial

theorem factor : Keeps w Parser.factor fun u => w.name u.name := by
  apply identifier.bind
  intro name holds
  apply ifTake
  · exact power.bind fun _ _ => .pure holds
  · exact .pure holds

theorem unitExpr (n : Nat) : Keeps w (Parser.unitExpr n) (UnitExpr.Named w.name) := by
  apply ifTake
  · exact .pure nofun
  · apply factor.bind
    intro first holds
    apply (many_behind .star factor n).bind
    intro others rest
    exact skip (.pure (List.forall_mem_cons.mpr ⟨holds, rest⟩))

theorem type (n : Nat) : Keeps w (Parser.type n) (Ty.Named w.name) := by
  apply peekKind.bind
  intro kind _
  split
  · exact pass (.pure trivial)
  · exact pass (.pure trivial)
  · exact pass (.pure trivial)
  · exact pass ((unitExpr n).bind fun u named => .pure named)
  · exact mismatch _

/-! ### Expressions -/

section
variable {nested : Parser Expr} (inner : Keeps w nested (Expr.Named w.name))
include inner

theorem argumentsAfter (n : Nat) {first : Expr} (holds : first.Named w.name) :
    Keeps w (Parser.argumentsAfter nested n first) (Expr.AllNamed w.name) := by
  apply (many_behind .comma inner n).bind
  intro others rest
  exact skip (.pure ⟨holds, Expr.allNamed_iff.mpr rest⟩)

theorem arguments (n : Nat) : Keeps w (Parser.arguments nested n) (Expr.AllNamed w.name) := by
  apply ifTake
  · exact .pure trivial
  · exact inner.bind fun first holds => argumentsAfter inner n holds

theorem named (n : Nat) {name : Symbol} (holds : w.name name.name) :
    Keeps w (Parser.named nested n name) (Expr.Named w.name) := by
  apply ifTake
  · exact (arguments inner n).bind fun es args => .pure ⟨holds, args⟩
  · exact .pure holds

omit inner in
/-- The unit that may follow a number. -/
theorem suffix (n : Nat) {f : Option UnitExpr → Parser α}
    (next : ∀ unit, (∀ u, unit = some u → u.Named w.name) → Keeps w (f unit) good) :
    Keeps w
      (do if ← Parser.take .leftBracket then f (← some <$> Parser.unitExpr n) else f (← Pure.pure none)) good := by
  apply ifTake
  · rw [map_eq_pure_bind, bind_assoc]
    apply (unitExpr n).bind
    intro u holds
    apply next
    rintro _ ⟨⟩
    exact holds
  · exact next none nofun

omit inner in
theorem number (n : Nat) : Keeps w (Parser.number n) (Expr.Named w.name) := by
  apply advance.bind
  intro t _
  apply suffix
  intro unit holds
  cases unit with
  | none => split <;> first | exact .pure trivial | exact .refuse trivial
  | some u => split <;> first | exact .pure (holds u rfl) | exact .refuse trivial

omit inner in
theorem text : Keeps w Parser.text (Expr.Named w.name) := by
  apply advance.bind
  intro t _
  split
  · exact .pure trivial
  · exact .refuse trivial

theorem primary (n : Nat) {seed : Option Symbol} (holds : ∀ name, seed = some name → w.name name.name) :
    Keeps w (Parser.primary nested n seed) (Expr.Named w.name) := by
  cases seed with
  | some name => exact named inner n (holds name rfl)
  | none =>
    apply peekKind.bind
    intro kind _
    split
    · exact number n
    · exact number n
    · exact advance.bind fun t _ => .pure trivial
    · exact advance.bind fun t _ => .pure trivial
    · exact text
    · exact identifier.bind fun name holds => named inner n holds
    · exact pass (inner.bind fun e holds => skip (.pure holds))
    · exact mismatch _

end

/-- From any name that may have been read before, an operand is read with names as `w` says. -/
def Operand (w : Wording) (operand : Option Symbol → Parser Expr) : Prop :=
  ∀ seed : Option Symbol, (∀ name, seed = some name → w.name name.name) → Keeps w (operand seed) (Expr.Named w.name)

section
variable {operand : Option Symbol → Parser Expr}

theorem unary (inner : Operand w operand) : Operand w (Parser.unary operand) := by
  intro seed holds
  cases seed with
  | some name => exact inner (some name) holds
  | none =>
    apply peekKind.bind
    intro kind _
    split
    · apply advance.bind
      intro t _
      exact (inner none nofun).bind fun e named => .pure named
    · exact inner none nofun

theorem tier (operator? : Kind → Option BinaryOp) (inner : Operand w operand) (n : Nat) :
    Operand w (Parser.tier operator? operand n) := by
  intro seed holds
  apply (inner seed holds).bind
  intro first left
  refine Keeps.bind (show Keeps w _ fun others => ∀ o ∈ others, o.2.2.Named w.name from many ?item n) ?next
  case next =>
    intro others rights
    exact .pure (Expr.named_foldl left rights)
  case item =>
    apply peekKind.bind
    intro kind _
    split
    · apply advance.bind
      intro t _
      apply (inner none nofun).bind
      intro e named
      apply pure
      rintro _ ⟨⟩
      exact named
    · exact .pure nofun

theorem ladder (inner : Operand w operand) (n : Nat) : Operand w (Parser.ladder operand n) :=
  tier _ (tier _ (tier _ (tier _ (tier _ (unary inner) n) n) n) n) n

end

theorem expressionFrom (n : Nat) : Operand w (Parser.expressionFrom n) := by
  induction n with
  | zero =>
    apply ladder
    intro seed holds
    exact primary (mismatch _) 0 holds
  | succ n ih =>
    apply ladder
    intro seed holds
    exact primary (ih none nofun) (n + 1) holds

theorem expression (n : Nat) : Keeps w (Parser.expression n) (Expr.Named w.name) := expressionFrom n none nofun

/-! ### Statements -/

theorem block {nested : Parser Stmt} (inner : Keeps w nested (Stmt.Named w.name)) (n : Nat) :
    Keeps w (Parser.block nested n) (Stmt.AllNamed w.name) := by
  have next : Keeps w (do
      let kind ← Parser.peekKind
      if kind = .rightBrace ∨ kind = .etx then return none else return some (← nested))
      fun o => ∀ s, o = some s → s.Named w.name := by
    apply peekKind.bind
    intro kind _
    split
    · exact .pure nofun
    · apply inner.bind
      intro s named
      apply pure
      rintro _ ⟨⟩
      exact named
  apply (many next n).bind
  intro body all
  exact skip (.pure (Stmt.allNamed_iff.mpr all))

theorem alternatives {condition : Parser Expr} {body : Parser (List Stmt)}
    (tested : Keeps w condition (Expr.Named w.name)) (inside : Keeps w body (Stmt.AllNamed w.name)) (n : Nat) :
    Keeps w (Parser.alternatives condition body n) (Else.Named w.name) := by
  induction n with
  | zero => exact .pure trivial
  | succ n ih =>
    apply ifTake
    · apply ifTake
      · apply tested.bind
        intro c tested
        apply skip
        apply inside.bind
        intro b inside
        exact ih.bind fun o others => .pure ⟨tested, inside, others⟩
      · exact skip (inside.bind fun b inside => .pure inside)
    · exact .pure trivial

theorem declaration (n : Nat) : Keeps w (Parser.declaration n) (Stmt.Named w.name) := by
  apply identifier.bind
  intro name holds
  apply skip
  apply (type n).bind
  intro τ annotated
  exact skip ((expression n).bind fun e value => .pure ⟨holds, annotated, value⟩)

theorem namedStatement (n : Nat) {name : Symbol} (holds : w.name name.name) :
    Keeps w (Parser.namedStatement n name) (Stmt.Named w.name) := by
  apply ifTake
  · exact (expression n).bind fun e value => .pure ⟨holds, value⟩
  · apply ifTake
    · exact (arguments (expression n) n).bind fun es args => .pure ⟨holds, args⟩
    · exact mismatch _

theorem returnStatement (inFunction : Bool) (n : Nat) :
    Keeps w (Parser.returnStatement inFunction n) (Stmt.Named w.name) := by
  apply advance.bind
  intro t _
  cases inFunction with
  | false => exact .refuse trivial
  | true =>
    apply peekKind.bind
    intro kind _
    split
    · exact .pure trivial
    · exact (expression n).bind fun e value => .pure value

theorem statement (inFunction : Bool) (n : Nat) : Keeps w (Parser.statement inFunction n) (Stmt.Named w.name) := by
  induction n with
  | zero => exact mismatch _
  | succ n ih =>
    have body := block ih n
    apply peekKind.bind
    intro kind _
    split
    · exact pass (declaration n)
    · apply pass
      apply (expression n).bind
      intro c tested
      apply skip
      apply body.bind
      intro first inside
      exact (alternatives (expression n) body n).bind fun o others => .pure ⟨tested, inside, others⟩
    · apply pass
      apply (expression n).bind
      intro c tested
      exact skip (body.bind fun b inside => .pure ⟨tested, inside⟩)
    · exact returnStatement inFunction n
    · exact pass (body.bind fun b inside => .pure inside)
    · exact identifier.bind fun name holds => namedStatement n holds
    · exact mismatch _

/-! ### Programs -/

theorem parameter (n : Nat) : Keeps w (Parser.parameter n) (Param.Named w.name) := by
  apply identifier.bind
  intro name holds
  exact skip ((type n).bind fun τ annotated => .pure ⟨holds, annotated⟩)

theorem functionFrom (n : Nat) {name : Symbol} (holds : w.name name.name) {params : List Param}
    (all : ∀ a ∈ params, a.Named w.name) :
    Keeps w (Parser.functionFrom n name params) (Item.Named w.name) := by
  apply (type n).bind
  intro τ annotated
  apply skip
  exact (block (statement true n) n).bind fun body inside => .pure ⟨holds, all, annotated, inside⟩

theorem callOrFunction (n : Nat) {name : Symbol} (holds : w.name name.name) :
    Keeps w (Parser.callOrFunction n name) (Item.Named w.name) := by
  have call (es : List Expr) (args : Expr.AllNamed w.name es) :
      Keeps w (Pure.pure (.statement (.call name es))) (Item.Named w.name) := .pure ⟨holds, args⟩
  apply ifTake
  · apply ifTake
    · exact functionFrom n holds nofun
    · exact call [] trivial
  · apply peekKind.bind
    intro kind _
    split
    · apply identifier.bind
      intro first here
      apply ifTake
      · apply (type n).bind
        intro τ annotated
        apply (many_behind .comma (parameter n) n).bind
        intro others rest
        apply skip
        apply skip
        exact functionFrom n holds (List.forall_mem_cons.mpr ⟨⟨here, annotated⟩, rest⟩)
      · have seed : ∀ name, some first = some name → w.name name.name := by
          rintro _ ⟨⟩
          exact here
        apply (expressionFrom n (some first) seed).bind
        intro e arg
        exact (argumentsAfter (expression n) n arg).bind call
    · exact (arguments (expression n) n).bind call

theorem item (n : Nat) : Keeps w (Parser.item n) (Item.Named w.name) := by
  apply peekKind.bind
  intro kind _
  split
  · apply pass
    apply identifier.bind
    intro name holds
    apply skip
    apply skip
    exact (unitExpr n).bind fun u named => .pure ⟨holds, named⟩
  · apply identifier.bind
    intro name holds
    apply ifTake
    · exact callOrFunction n holds
    · exact (namedStatement n holds).bind fun s named => .pure named
  · exact (statement false n).bind fun s named => .pure named

theorem add {p : Program} (named : p.Named w.name) {i : Item} (h : i.Named w.name) :
    Keeps w (Parser.add p i) (Program.Named w.name) := by
  obtain ⟨functions, units, statements⟩ := named
  cases i with
  | unit d =>
    simp only [Parser.add]
    split
    · exact .refuse h.name
    · exact .pure ⟨functions, List.forall_mem_append.mpr ⟨units, List.forall_mem_singleton.mpr h⟩, statements⟩
  | function f =>
    simp only [Parser.add]
    split
    · exact .refuse h.name
    · exact .pure ⟨List.forall_mem_append.mpr ⟨functions, List.forall_mem_singleton.mpr h⟩, units, statements⟩
  | statement s =>
    have both := List.forall_mem_append.mpr ⟨Stmt.allNamed_iff.mp statements, List.forall_mem_singleton.mpr h⟩
    exact .pure ⟨functions, units, Stmt.allNamed_iff.mpr both⟩

theorem items (n rounds : Nat) {p : Program} (named : p.Named w.name) :
    Keeps w (Parser.items n rounds p) (Program.Named w.name) := by
  induction rounds generalizing p with
  | zero => exact .pure named
  | succ rounds ih =>
    apply peekKind.bind
    intro kind _
    split
    · exact .pure named
    · apply (item n).bind
      intro i holds
      exact (add named holds).bind fun q named => ih named

end Keeps

end Parser

/-- From tokens that are as they are asked to be, comments apart, reading gives a program with names as they follow
from it, or what is refused is as they say. -/
theorem Program.ofTokens_ends (w : Wording) {s : TokenStream} (kept : w.stream s.withoutComments) :
    Ends w.refusal (Program.Named w.name) (ofTokens s) := by
  unfold ofTokens
  dsimp only
  generalize s.withoutComments = s at kept
  split
  · exact trivial
  · have empty : empty.Named w.name := ⟨nofun, nofun, trivial⟩
    have read := Parser.Keeps.items s.tokens.length s.tokens.length empty s kept
    generalize Parser.items s.tokens.length s.tokens.length .empty s = r at read
    cases r with
    | error r => exact read
    | ok r => exact read.1

end Mensura
