import Mensura.Proofs.Foresight.Basic

/-!
The parser looks one token ahead. Each part of it is taken on its own, with two bounds that both suffice: an expression
in parentheses, a statement in braces and a further item of a list stand behind a token, so that one less is enough for
them. Main statement: the items of a program are read alike by all bounds that are no less than the number of tokens.
-/

namespace Mensura

open Token (Kind)

namespace Parser

variable {α β : Type} {owed : β → Nat} {b b' n m : Nat}

namespace Foresight

/-! ### Names, units and types -/

theorem identifier : Foresight (fun _ => 1) b b' Parser.identifier Parser.identifier := by
  apply (expect (by decide)).bind
  intro t
  split
  · exact .pure rfl
  · exact .refuse fun _ _ => nofun

theorem power : Foresight free b b' Parser.power Parser.power := by
  apply (take (by decide)).bind
  intro negative
  apply (expect (by decide)).bind
  intro t
  split
  · split
    · exact .refuse fun _ _ => nofun
    · split
      · exact .pure (by simp only [Nat.zero_sub])
      · split
        · exact .pure (by simp only [Nat.zero_sub])
        · exact .refuse fun _ _ => nofun
  · exact .refuse fun _ _ => nofun

theorem factor : Foresight (fun _ => 1) b b' Parser.factor Parser.factor := by
  apply identifier.bind
  intro name
  apply ifTake (by decide)
  · exact power.seq fun p => .pure rfl
  · exact .pure rfl

theorem unitExpr (room : b ≤ n + 1) (room' : b' ≤ m + 1) :
    Foresight free b b' (Parser.unitExpr n) (Parser.unitExpr m) := by
  apply ifTake (by decide)
  · exact .pure rfl
  · apply factor.bind
    intro first
    apply (many_behind (by decide) (factor.mono (Nat.le_refl _) (Nat.le_refl _) fun _ => Nat.zero_le 1) (by omega)
      (by omega)).seq
    intro others
    exact skip (by decide) (.pure rfl)

theorem type (room : b ≤ n + 1) (room' : b' ≤ m + 1) : Foresight free b b' (Parser.type n) (Parser.type m) := by
  apply peekKind
  intro kind s seen enough found
  split
  · exact Sees.pass (by rw [found]; decide) enough fun _ => .pure rfl
  · exact Sees.pass (by rw [found]; decide) enough fun _ => .pure rfl
  · exact Sees.pass (by rw [found]; decide) enough fun _ => .pure rfl
  · apply Sees.pass (by rw [found]; decide) enough
    intro t
    apply (unitExpr (by omega) (by omega)).seq
    intro u
    exact .pure rfl
  · exact mismatch _ s seen enough

/-! ### Expressions -/

section
variable {nested nested' : Parser Expr} (room : b ≤ n + 1) (room' : b' ≤ m + 1)
include room room'

theorem argumentsAfter (inner : Foresight free (b - 1) (b' - 1) nested nested') (first : Expr) :
    Foresight free b b' (Parser.argumentsAfter nested n first) (Parser.argumentsAfter nested' m first) := by
  apply (many_behind (by decide) inner room room').seq
  intro others
  exact skip (by decide) (.pure rfl)

theorem arguments (inner : Foresight free b b' nested nested') :
    Foresight free b b' (Parser.arguments nested n) (Parser.arguments nested' m) := by
  apply ifTake (by decide)
  · exact .pure rfl
  · apply inner.seq
    intro first
    exact argumentsAfter room room' (inner.fewer (by omega) (by omega)) first

theorem named (inner : Foresight free (b - 1) (b' - 1) nested nested') (name : Symbol) :
    Foresight free b b' (Parser.named nested n name) (Parser.named nested' m name) := by
  apply ifTake (by decide)
  · apply (arguments (by omega) (by omega) inner).seq
    intro es
    exact .pure rfl
  · exact .pure rfl

/-- There may be a unit behind a number, and what comes next is told of it. -/
theorem suffix {f g : Option UnitExpr → Parser β} (next : ∀ unit, Foresight free b b' (f unit) (g unit)) :
    Foresight free b b'
      (do if ← Parser.take .leftBracket then f (← some <$> Parser.unitExpr n) else f (← Pure.pure none))
      (do if ← Parser.take .leftBracket then g (← some <$> Parser.unitExpr m) else g (← Pure.pure none)) := by
  apply ifTake (by decide)
  · rw [map_eq_pure_bind, map_eq_pure_bind, bind_assoc, bind_assoc]
    apply (unitExpr (by omega) (by omega)).seq
    intro u
    exact (next (some u)).mono (by omega) (by omega) fun _ => Nat.zero_le _
  · exact next none

theorem number {s : TokenStream} (enough : s.tokens.length < b) (more : s.peek.kind ≠ .etx) :
    Sees free b' (Parser.number n) (Parser.number m) s := by
  apply Sees.pass more enough
  intro t
  apply suffix (by omega) (by omega)
  intro unit
  split
  · exact .pure rfl
  · exact .pure rfl
  · exact .refuse fun _ _ => nofun

omit room room' in
theorem text {s : TokenStream} (enough : s.tokens.length < b) (more : s.peek.kind ≠ .etx) :
    Sees free b' Parser.text Parser.text s := by
  apply Sees.pass more enough
  intro t
  split
  · exact .pure rfl
  · exact .refuse fun _ _ => nofun

theorem primary (inner : Foresight free (b - 1) (b' - 1) nested nested') (seed : Option Symbol) :
    Foresight free b b' (Parser.primary nested n seed) (Parser.primary nested' m seed) := by
  cases seed with
  | some name => exact named room room' inner name
  | none =>
    apply peekKind
    intro kind s seen enough found
    split
    · exact number room room' enough (by rw [found]; decide)
    · exact number room room' enough (by rw [found]; decide)
    · exact Sees.pass (by rw [found]; decide) enough fun _ => .pure rfl
    · exact Sees.pass (by rw [found]; decide) enough fun _ => .pure rfl
    · exact text enough (by rw [found]; decide)
    · refine Foresight.bind identifier ?_ s seen enough
      intro name
      exact named (by omega) (by omega) (inner.fewer (by omega) (by omega)) name
    · apply Sees.pass (by rw [found]; decide) enough
      intro t
      apply inner.seq
      intro e
      exact skip (by decide) (.pure rfl)
    · exact mismatch _ s seen enough

end

section
variable {operand operand' : Option Symbol → Parser Expr}

theorem unary (inner : ∀ seed, Foresight free b b' (operand seed) (operand' seed)) (seed : Option Symbol) :
    Foresight free b b' (Parser.unary operand seed) (Parser.unary operand' seed) := by
  cases seed with
  | some name => exact inner (some name)
  | none =>
    apply peekKind
    rintro kind s seen enough rfl
    split
    · rename_i op found
      have more : s.peek.kind ≠ .etx := by
        rw [← unaryOp?_eq_some_iff.mp found]
        cases op <;> decide
      apply Sees.pass more enough
      intro t
      apply ((inner none).fewer (Nat.sub_le b 1) (Nat.sub_le b' 1)).seq
      intro e
      exact .pure rfl
    · exact inner none s seen enough

theorem tier {operator? : Kind → Option BinaryOp} {r : Nat} (table : Operators operator? r)
    (inner : ∀ seed, Foresight free b b' (operand seed) (operand' seed)) (room : b ≤ n + 1) (room' : b' ≤ m + 1)
    (seed : Option Symbol) :
    Foresight free b b' (Parser.tier operator? operand n seed) (Parser.tier operator? operand' m seed) := by
  have none_of_end : operator? .etx = none := by
    rw [Option.eq_none_iff_forall_ne_some]
    intro op found
    have last := ((table _ _).mp found).2
    cases op <;> cases last
  apply (inner seed).seq
  intro first
  refine (many ?items ?idle ?idle' room room').seq ?next
  case next =>
    intro others
    exact .pure rfl
  case idle | idle' =>
    intro s last
    rw [peekKind_bind, TokenStream.kind_of_glance last, none_of_end]
    rfl
  case items =>
    apply peekKind
    rintro kind s seen enough rfl
    split
    · rename_i op found
      have more : s.peek.kind ≠ .etx := by
        rw [← ((table _ _).mp found).2]
        cases op <;> decide
      apply Sees.pass more enough
      intro t
      apply ((inner none).fewer (Nat.sub_le b 1) (Nat.sub_le b' 1)).seq
      intro right
      exact .pure rfl
    · exact .pure seen rfl

theorem ladder (inner : ∀ seed, Foresight free b b' (operand seed) (operand' seed)) (room : b ≤ n + 1)
    (room' : b' ≤ m + 1) (seed : Option Symbol) :
    Foresight free b b' (Parser.ladder operand n seed) (Parser.ladder operand' m seed) := by
  have products := tier product_operators (unary inner) room room'
  have sums := tier sum_operators products room room'
  have comparisons := tier comparison_operators sums room room'
  have conjunctions := tier and_operators comparisons room room'
  exact tier or_operators conjunctions room room' seed

end

/-- Inside of parentheses the bound is one less, and no expression is read there if no token is left. -/
theorem expressionFrom (room : b ≤ n + 1) (room' : b' ≤ m + 1) (seed : Option Symbol) :
    Foresight free b b' (Parser.expressionFrom n seed) (Parser.expressionFrom m seed) := by
  have climb {n m : Nat} {nested nested' : Parser Expr} (inner : Foresight free n m nested nested')
      (seed : Option Symbol) :
      Foresight free (n + 1) (m + 1) (Parser.ladder (Parser.primary nested n) n seed)
        (Parser.ladder (Parser.primary nested' m) m seed) :=
    ladder (primary (Nat.le_refl _) (Nat.le_refl _) inner) (Nat.le_refl _) (Nat.le_refl _) seed
  have whole (n m : Nat) (seed : Option Symbol) :
      Foresight free (n + 1) (m + 1) (Parser.expressionFrom n seed) (Parser.expressionFrom m seed) := by
    induction n generalizing m seed with
    | zero =>
      have outside {x y : Parser Expr} : Foresight free 0 m x y := fun _ _ room => absurd room (Nat.not_lt_zero _)
      cases m with
      | zero => exact climb outside seed
      | succ m => exact climb outside seed
    | succ n ih =>
      cases m with
      | zero => exact climb (ih 0 none).alone seed
      | succ m => exact climb (ih m none) seed
  exact (whole n m seed).mono room room' fun _ => Nat.le_refl _

theorem expression (room : b ≤ n + 1) (room' : b' ≤ m + 1) :
    Foresight free b b' (Parser.expression n) (Parser.expression m) := expressionFrom room room' none

/-! ### Statements -/

theorem block {nested nested' : Parser Stmt} (inner : Foresight (fun _ => 1) b b' nested nested')
    (room : b ≤ n + 1) (room' : b' ≤ m + 1) :
    Foresight free b b' (Parser.block nested n) (Parser.block nested' m) := by
  have idle (nested : Parser Stmt) : Idle (do
      let kind ← Parser.peekKind
      if kind = .rightBrace ∨ kind = .etx then return none else return some (← nested)) := by
    intro s last
    rw [peekKind_bind, TokenStream.kind_of_glance last]
    rfl
  apply (many _ (idle nested) (idle nested') room room').seq
  · intro body
    exact skip (by decide) (.pure rfl)
  · apply peekKind
    intro kind s seen enough _
    split
    · exact .pure seen rfl
    · refine Foresight.bind inner ?_ s seen enough
      intro a
      exact .pure rfl

theorem alternatives_idle {condition : Parser Expr} {body : Parser (List Stmt)} (n : Nat) {s : TokenStream}
    (last : s.glance = .ok .etx) : Parser.alternatives condition body n s = .ok (.none, s) := by
  cases n with
  | zero => rfl
  | succ n =>
    have other : ¬ s.peek.kind = .elseWord := by
      rw [TokenStream.kind_of_glance last]
      decide
    rw [Parser.alternatives, Parser.take, bind_assoc, peekKind_bind, if_neg other]
    rfl

theorem alternatives {condition condition' : Parser Expr} {body body' : Parser (List Stmt)}
    (tested : Foresight free b b' condition condition') (inside : Foresight free b b' body body')
    (room : b ≤ n + 1) (room' : b' ≤ m + 1) :
    Foresight free b b' (Parser.alternatives condition body n) (Parser.alternatives condition' body' m) := by
  refine of_round (x := Parser.alternatives condition body) (y := Parser.alternatives condition' body') ?_ ?_ room room'
  · intro n m s s' last last'
    rw [alternatives_idle n last, alternatives_idle m last']
    exact .read (Nat.le_refl 0) ⟨_, last⟩
  · intro n m c c' left right _ _ ih
    apply ifTake (by decide)
    · apply ifTake (by decide)
      · apply (tested.fewer (by omega) (by omega)).seq
        intro e
        apply skip (by decide)
        apply (inside.fewer (by omega) (by omega)).seq
        intro ss
        apply (ih.fewer (by omega) (by omega)).seq
        intro o
        exact .pure rfl
      · apply skip (by decide)
        apply (inside.fewer (by omega) (by omega)).seq
        intro ss
        exact .pure rfl
    · exact .pure rfl

section
variable (room : b ≤ n + 1) (room' : b' ≤ m + 1)
include room room'

theorem declaration : Foresight free b b' (Parser.declaration n) (Parser.declaration m) := by
  apply identifier.bind
  intro name
  apply skip (by decide)
  apply (type (by omega) (by omega)).seq
  intro τ
  apply skip (by decide)
  apply (expression (by omega) (by omega)).seq
  intro e
  exact .pure rfl

theorem namedStatement (name : Symbol) :
    Foresight free b b' (Parser.namedStatement n name) (Parser.namedStatement m name) := by
  apply ifTake (by decide)
  · apply (expression (by omega) (by omega)).seq
    intro e
    exact .pure rfl
  · apply ifTake (by decide)
    · apply (arguments (by omega) (by omega) (expression (by omega) (by omega))).seq
      intro es
      exact .pure rfl
    · exact .mismatch _

omit room room' in
theorem returnStatement (inFunction : Bool) (room : b - 1 ≤ n + 1) (room' : b' - 1 ≤ m + 1) {s : TokenStream}
    (enough : s.tokens.length < b) (more : s.peek.kind ≠ .etx) :
    Sees (fun _ => 1) b' (Parser.returnStatement inFunction n) (Parser.returnStatement inFunction m) s := by
  apply Sees.pass more enough
  intro t
  cases inFunction with
  | false => exact .refuse fun _ _ => nofun
  | true =>
    apply peekKind
    intro kind s seen enough _
    split
    · exact .pure seen rfl
    · refine Foresight.seq (expression (by omega) (by omega)) ?_ s seen enough
      intro e
      exact .pure rfl

end

theorem statement_idle (inFunction : Bool) (n : Nat) {s : TokenStream} (last : s.glance = .ok .etx) :
    Parser.statement inFunction n s = Parser.mismatch statementStart s := by
  cases n with
  | zero => rfl
  | succ n => rw [Parser.statement, peekKind_bind, TokenStream.kind_of_glance last]

theorem statement (inFunction : Bool) (room : b ≤ n + 1) (room' : b' ≤ m + 1) :
    Foresight (fun _ => 1) b b' (Parser.statement inFunction n) (Parser.statement inFunction m) := by
  refine of_round (x := Parser.statement inFunction) (y := Parser.statement inFunction) ?_ ?_ room room'
  · intro n m s s' last last'
    rw [statement_idle inFunction n last, statement_idle inFunction m last']
    exact .mismatch ⟨_, last⟩
  · intro n m c c' _ _ room room' ih
    have body (d d' : Nat) (left : d ≤ c - 1) (right : d' ≤ c' - 1) :
        Foresight free d d' (Parser.block (Parser.statement inFunction n) n)
          (Parser.block (Parser.statement inFunction m) m) :=
      block (ih.fewer left right) (by omega) (by omega)
    apply peekKind
    intro kind s seen enough found
    split
    · apply Sees.pass (by rw [found]; decide) enough
      intro t
      exact declaration (by omega) (by omega)
    · apply Sees.pass (by rw [found]; decide) enough
      intro t
      apply (expression (by omega) (by omega)).seq
      intro e
      apply skip (by decide)
      apply (body _ _ (by omega) (by omega)).seq
      intro first
      apply (alternatives (expression (by omega) (by omega)) (body _ _ (by omega) (by omega)) (by omega)
        (by omega)).seq
      intro o
      exact .pure rfl
    · apply Sees.pass (by rw [found]; decide) enough
      intro t
      apply (expression (by omega) (by omega)).seq
      intro e
      apply skip (by decide)
      apply (body _ _ (by omega) (by omega)).seq
      intro ss
      exact .pure rfl
    · exact returnStatement inFunction (by omega) (by omega) enough (by rw [found]; decide)
    · apply Sees.pass (by rw [found]; decide) enough
      intro t
      apply (body _ _ (by omega) (by omega)).seq
      intro ss
      exact .pure rfl
    · refine Foresight.bind identifier ?_ s seen enough
      intro name
      exact namedStatement (by omega) (by omega) name
    · exact mismatch _ s seen enough

/-! ### Programs -/

section
variable (room : b ≤ n + 1) (room' : b' ≤ m + 1)
include room room'

theorem parameter : Foresight free b b' (Parser.parameter n) (Parser.parameter m) := by
  apply identifier.bind
  intro name
  apply skip (by decide)
  apply (type (by omega) (by omega)).seq
  intro τ
  exact .pure rfl

theorem functionFrom (name : Symbol) (params : List Param) :
    Foresight free b b' (Parser.functionFrom n name params) (Parser.functionFrom m name params) := by
  apply (type room room').seq
  intro τ
  apply skip (by decide)
  apply (block (statement true (by omega) (by omega)) (by omega) (by omega)).seq
  intro body
  exact .pure rfl

theorem callOrFunction (name : Symbol) :
    Foresight free b b' (Parser.callOrFunction n name) (Parser.callOrFunction m name) := by
  apply ifTake (by decide)
  · apply ifTake (by decide)
    · exact functionFrom (by omega) (by omega) name []
    · exact .pure rfl
  · apply peekKind
    intro kind s seen enough _
    split
    · refine Foresight.bind identifier ?_ s seen enough
      intro first
      apply ifTake (by decide)
      · apply (type (by omega) (by omega)).seq
        intro τ
        apply (many_behind (by decide) (parameter (by omega) (by omega)) (by omega) (by omega)).seq
        intro others
        apply skip (by decide)
        apply skip (by decide)
        exact functionFrom (by omega) (by omega) name _
      · apply (expressionFrom (by omega) (by omega) (some first)).seq
        intro e
        apply (argumentsAfter (by omega) (by omega) (expression (by omega) (by omega)) e).seq
        intro es
        exact .pure rfl
    · refine Foresight.seq (arguments (by omega) (by omega) (expression (by omega) (by omega))) ?_ s seen enough
      intro es
      exact .pure rfl

theorem item : Foresight (fun _ => 1) b b' (Parser.item n) (Parser.item m) := by
  apply peekKind
  intro kind s seen enough found
  split
  · apply Sees.pass (by rw [found]; decide) enough
    intro t
    apply identifier.bind
    intro name
    apply skip (by decide)
    apply skip (by decide)
    apply (unitExpr (by omega) (by omega)).seq
    intro u
    exact .pure rfl
  · refine Foresight.bind identifier ?_ s seen enough
    intro name
    apply ifTake (by decide)
    · exact callOrFunction (by omega) (by omega) name
    · apply (namedStatement (by omega) (by omega) name).seq
      intro s
      exact .pure rfl
  · refine Foresight.bind (statement false room room') ?_ s seen enough
    intro s
    exact .pure rfl

end

theorem add (p : Program) (i : Item) : Foresight free b b' (Parser.add p i) (Parser.add p i) := by
  cases i with
  | unit d =>
    rw [Parser.add]
    split
    · exact .refuse fun _ _ => nofun
    · exact .pure rfl
  | function f =>
    rw [Parser.add]
    split
    · exact .refuse fun _ _ => nofun
    · exact .pure rfl
  | statement s => exact .pure rfl

theorem items_idle (n rounds : Nat) (p : Program) {s : TokenStream} (last : s.glance = .ok .etx) :
    Parser.items n rounds p s = .ok (p, s) := by
  cases rounds with
  | zero => rfl
  | succ rounds =>
    rw [Parser.items, peekKind_bind, if_pos (TokenStream.kind_of_glance last)]
    rfl

/-- Neither of the bounds makes a difference if there are not more tokens. -/
theorem items {k l : Nat} (p : Program) (room : b ≤ n + 1) (room' : b' ≤ m + 1) (rounds : b ≤ k + 1)
    (rounds' : b' ≤ l + 1) : Foresight free b b' (Parser.items n k p) (Parser.items m l p) := by
  refine of_rounds (x := fun p k => Parser.items n k p) (y := fun p l => Parser.items m l p) ?_ ?_ rounds rounds' p
  · intro p k l s s' last last'
    rw [items_idle n k p last, items_idle m l p last']
    exact .read (Nat.le_refl 0) ⟨_, last⟩
  · intro p k l c c' left right _ _ ih
    apply peekKind
    intro kind s seen enough _
    split
    · exact .pure seen rfl
    · refine Foresight.bind (item (by omega) (by omega)) ?_ s seen enough
      intro i
      apply (add p i).seq
      intro q
      exact ih q

end Foresight

end Parser

end Mensura
