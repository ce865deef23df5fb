import Mensura.Proofs.Grammar.Derivation

/-!
What is read is what the grammar says. Each part of the parser is taken on its own: if it reads a tree from proper
tokens, then a rule of the grammar relates them. An expression whose first name has been read already is the
expression that begins with that name, so this needs no rules of its own.
-/

namespace Mensura

open Token (Kind)
open Grammar (Behind Operation)

theorem Token.number_value {t : Token} (proper : t.isProper = true)
    (number : t.kind = .intLiteral ∨ t.kind = .floatLiteral) :
    (∃ n, Grammar.Counts t n) ∨ (t.kind = .floatLiteral ∧ ∃ x, t.value = some (.float x)) := by
  obtain kind | kind := number
  · simp only [isProper, kind] at proper
    split at proper
    · rename_i n value
      exact .inl ⟨n, kind, value⟩
    · cases proper
  · simp only [isProper, kind] at proper
    split at proper
    · rename_i x value
      exact .inr ⟨kind, x, value⟩
    · cases proper

namespace Parser

theorem After.many_behind {α : Type} {kind : Kind} {x : Parser α} {step : List Token → α → List Token → Prop}
    (more : kind ≠ .etx) (h : ∀ ts, After ts x (step ts)) (n : Nat) (ts : List Token) :
    After ts (Parser.many (do if ← Parser.take kind then return some (← x) else return none) n)
      (Repeats (Behind kind step) ts) := by
  refine .many (Behind kind step) (fun ts => ?_) n ts
  refine .ifTake more ?_ ?_
  · rintro t mid rfl same
    refine (h mid).seq ?_
    intro a rest read
    exact .pure ⟨t, mid, rfl, same, read⟩
  · intro _
    exact .pure rfl

/-! ### Units and types -/

theorem power_after (ts : List Token) : After ts power (Grammar.Power ts) := by
  refine .take (by decide) ?_ ?_
  · rintro minus us rfl sign
    refine .expect (by decide) ?_
    rintro t rest rfl kind
    split
    · rename_i n value
      split
      · exact .refuse
      · rename_i p fits
        rw [if_neg (by decide)]
        split
        · rename_i q opposite
          exact .pure (.negative sign ⟨kind, value⟩ (int32?_eq_some_iff.mp fits) (int32?_eq_some_iff.mp opposite))
        · exact .refuse
    · exact .refuse
  · intro _
    refine .expect (by decide) ?_
    rintro t rest rfl kind
    split
    · rename_i n value
      split
      · exact .refuse
      · rename_i p fits
        exact .pure (.positive ⟨kind, value⟩ (int32?_eq_some_iff.mp fits))
    · exact .refuse

theorem factor_after (ts : List Token) : After ts factor (Grammar.Factor ts) := by
  refine .identifier ?_
  rintro t symbol us rfl named
  refine .ifTake (by decide) ?_ ?_
  · rintro caret vs rfl isCaret
    refine (power_after vs).seq ?_
    intro p rest power
    exact .pure (.raised named isCaret power)
  · intro _
    exact .pure (.plain named)

/-- A unit is read from behind its opening bracket. -/
theorem unitExpr_after {opening : Token} (opens : opening.kind = .leftBracket) (n : Nat) (ts : List Token) :
    After ts (unitExpr n) (Grammar.Unit (opening :: ts)) := by
  refine .ifTake (by decide) ?_ ?_
  · rintro closing rest rfl closes
    exact .pure (.dimensionless opens closes)
  · intro _
    refine (factor_after ts).seq ?_
    intro u us first
    refine (After.many_behind (by decide) factor_after n us).seq ?_
    intro others vs repeated
    refine .expect (by decide) ?_
    rintro closing rest rfl closes
    exact .pure (.product opens (.of_repeats first repeated) closes)

theorem type_after (n : Nat) (ts : List Token) : After ts (type n) (Grammar.Annotation ts) := by
  refine .peekKind ?_
  split
  · rename_i kind
    refine .advance kind (by decide) ?_
    rintro t rest rfl word
    exact .pure (.text word)
  · rename_i kind
    refine .advance kind (by decide) ?_
    rintro t rest rfl word
    exact .pure (.bool word)
  · rename_i kind
    refine .advance kind (by decide) ?_
    rintro t rest rfl word
    exact .pure (.void word)
  · rename_i kind
    refine .advance kind (by decide) ?_
    rintro t us rfl opens
    refine (unitExpr_after opens n us).seq ?_
    intro u rest unit
    exact .pure (.quantity unit)
  · exact .mismatch

/-! ### Expressions -/

section
variable {nested : Parser Expr} (inner : ∀ ts, After ts nested (Grammar.Tier 5 ts))
include inner

theorem argumentsAfter_after (n : Nat) (ts : List Token) (e : Expr) :
    After ts (argumentsAfter nested n e) fun es rest =>
      ∃ others, es = e :: others ∧ Grammar.MoreArguments ts others rest := by
  refine (After.many_behind (by decide) inner n ts).seq ?_
  intro others mid repeated
  refine .expect (by decide) ?_
  rintro closing rest rfl closes
  exact .pure ⟨others, rfl, .of_repeats closes repeated⟩

theorem arguments_after (n : Nat) (ts : List Token) : After ts (arguments nested n) (Grammar.Arguments ts) := by
  refine .ifTake (by decide) ?_ ?_
  · rintro closing rest rfl closes
    exact .pure (.none closes)
  · intro _
    refine (inner ts).seq ?_
    intro e mid first
    refine (argumentsAfter_after inner n mid e).mono ?_
    rintro _ rest ⟨others, rfl, more⟩
    exact .some first more

theorem named_after {t : Token} {symbol : Symbol} (isName : Grammar.Names t symbol) (n : Nat) (ts : List Token) :
    After ts (named nested n symbol) (Grammar.Primary (t :: ts)) := by
  refine .ifTake (by decide) ?_ ?_
  · rintro opening us rfl opens
    refine (arguments_after inner n us).seq ?_
    intro es rest arguments
    exact .pure (.call isName opens arguments)
  · intro _
    exact .pure (.var isName)

omit inner in
/-- There may be a unit behind a number, and what comes next is told of it. -/
theorem suffix_after {β : Type} {f : Option UnitExpr → Parser β} {good : β → List Token → Prop} (n : Nat)
    (ts : List Token) (next : ∀ unit rest, Grammar.Suffix ts unit rest → After rest (f unit) good) :
    After ts (do if ← take .leftBracket then f (← some <$> unitExpr n) else f (← pure none)) good := by
  refine .ifTake (by decide) ?_ ?_
  · rintro opening us rfl opens
    refine After.seq ((unitExpr_after opens n us).map fun u rest unit => ?_) next
    exact .unit unit
  · intro _
    exact next none ts .none

omit inner in
/-- The kind of a number is that of its value. -/
theorem number_after (n : Nat) {ts : List Token}
    (number : nextKind ts = .intLiteral ∨ nextKind ts = .floatLiteral) :
    After ts (Parser.number n) (Grammar.Primary ts) := by
  obtain ⟨t, us, rfl⟩ : ∃ t us, ts = t :: us := by
    cases ts with
    | nil => simp [nextKind] at number
    | cons t us => exact ⟨t, us, rfl⟩
  refine .of_head fun proper => ?_
  refine .advance_cons ?_
  obtain ⟨m, counts⟩ | ⟨kind, x, value⟩ := t.number_value proper number
  · simp only [counts.value]
    exact suffix_after n us fun unit rest suffix => .pure (.int counts suffix)
  · simp only [value]
    exact suffix_after n us fun unit rest suffix => .pure (.float kind value suffix)

omit inner in
theorem text_after {ts : List Token} (kind : nextKind ts = .stringLiteral) :
    After ts text (Grammar.Primary ts) := by
  refine .advance kind (by decide) ?_
  rintro t rest rfl kind
  split
  · rename_i s value
    exact .pure (.text kind value)
  · exact .refuse

theorem primary_after (n : Nat) (ts : List Token) : After ts (primary nested n none) (Grammar.Primary ts) := by
  refine .peekKind ?_
  split
  · rename_i kind
    exact number_after n (.inl kind)
  · rename_i kind
    exact number_after n (.inr kind)
  · rename_i kind
    refine .advance kind (by decide) ?_
    rintro t rest rfl word
    exact .pure (.yes word)
  · rename_i kind
    refine .advance kind (by decide) ?_
    rintro t rest rfl word
    exact .pure (.no word)
  · rename_i kind
    exact text_after kind
  · refine .identifier ?_
    rintro t symbol us rfl isName
    exact named_after inner isName n us
  · rename_i kind
    refine .advance kind (by decide) ?_
    rintro opening us rfl opens
    refine (inner us).seq ?_
    intro e mid expression
    refine .expect (by decide) ?_
    rintro closing rest rfl closes
    exact .pure (.group opens expression closes)
  · exact .mismatch

end

theorem unaryOp?_eq_some_iff {kind : Kind} {op : UnaryOp} : unaryOp? kind = some op ↔ op.kind = kind := by
  cases op <;> cases kind <;> decide

theorem unary_after {operand : Option Symbol → Parser Expr}
    (primary : ∀ ts, After ts (operand none) (Grammar.Primary ts)) (ts : List Token) :
    After ts (unary operand none) (Grammar.Operand ts) := by
  refine .peekKind ?_
  split
  · rename_i op found
    have kind := unaryOp?_eq_some_iff.mp found
    refine .advance kind.symm (by cases op <;> decide) ?_
    rintro t us rfl same
    refine (primary us).seq ?_
    intro e rest operand
    exact .pure (.unary same operand)
  · exact (primary ts).mono fun e rest operand => .plain operand

/-- The table holds just the operators of the rank `r`. -/
def Operators (operator? : Kind → Option BinaryOp) (r : Nat) : Prop :=
  ∀ kind op, operator? kind = some op ↔ op.rank = r ∧ op.kind = kind

theorem product_operators : Operators product? 0 := by
  intro kind op
  cases op <;> cases kind <;> decide

theorem sum_operators : Operators sum? 1 := by
  intro kind op
  cases op <;> cases kind <;> decide

theorem comparison_operators : Operators comparison? 2 := by
  intro kind op
  cases op <;> cases kind <;> decide

theorem and_operators : Operators and? 3 := by
  intro kind op
  cases op <;> cases kind <;> decide

theorem or_operators : Operators or? 4 := by
  intro kind op
  cases op <;> cases kind <;> decide

theorem tier_after {operator? : Kind → Option BinaryOp} {r : Nat} (table : Operators operator? r)
    {operand : Option Symbol → Parser Expr} (tighter : ∀ ts, After ts (operand none) (Grammar.Tier r ts)) (n : Nat)
    (ts : List Token) : After ts (tier operator? operand n none) (Grammar.Tier (r + 1) ts) := by
  refine (tighter ts).seq ?_
  intro e mid first
  refine (After.many (Operation r) ?_ n mid).seq ?_
  · intro us
    refine .peekKind ?_
    split
    · rename_i op found
      obtain ⟨rank, kind⟩ := (table _ _).mp found
      refine .advance kind.symm (by cases op <;> decide) ?_
      rintro t vs rfl same
      refine (tighter vs).seq ?_
      intro right rest second
      exact .pure ⟨t, vs, rfl, same, rank, rfl, second⟩
    · exact .pure rfl
  · intro os rest others
    exact .pure (Grammar.Tier.of_repeats (.tighter first) others)

theorem ladder_after {operand : Option Symbol → Parser Expr}
    (primary : ∀ ts, After ts (operand none) (Grammar.Primary ts)) (n : Nat) (ts : List Token) :
    After ts (ladder operand n none) (Grammar.Tier 5 ts) := by
  have operands (ts : List Token) : After ts (unary operand none) (Grammar.Tier 0 ts) :=
    (unary_after primary ts).mono fun e rest h => .operand h
  have products := tier_after product_operators operands n
  have sums := tier_after sum_operators products n
  have comparisons := tier_after comparison_operators sums n
  have conjunctions := tier_after and_operators comparisons n
  exact tier_after or_operators conjunctions n ts

theorem expression_after (n : Nat) (ts : List Token) : After ts (expression n) (Grammar.Expression ts) := by
  unfold expression
  induction n generalizing ts with
  | zero => exact ladder_after (primary_after (fun _ => .mismatch) 0) 0 ts
  | succ n ih => exact ladder_after (primary_after ih (n + 1)) (n + 1) ts

/-! ### A name that has been read already -/

/-- It makes no difference whether a name that comes first is read before. -/
def Seeded (x : Option Symbol → Parser Expr) : Prop :=
  ∀ s : TokenStream, s.peek.kind = .identifier → x none s = (identifier >>= fun name => x (some name)) s

theorem peekKind_bind {α : Type} (f : Kind → Parser α) (s : TokenStream) :
    (peekKind >>= f) s = f s.peek.kind s := rfl

theorem Seeded.bind {x : Option Symbol → Parser Expr} (seeded : Seeded x) (f : Expr → Parser Expr) :
    Seeded fun seed => x seed >>= f := by
  intro s name
  calc (x none >>= f) s
      = ((identifier >>= fun name => x (some name)) s).bind fun r => f r.1 r.2 := by rw [bind_apply, seeded s name]
    _ = ((identifier >>= fun name => x (some name)) >>= f) s := rfl
    _ = (identifier >>= fun name => x (some name) >>= f) s := by rw [bind_assoc]

theorem primary_seeded (nested : Parser Expr) (n : Nat) : Seeded (primary nested n) := by
  intro s name
  simp only [primary, peekKind_bind, name]

theorem unary_seeded {operand : Option Symbol → Parser Expr} (seeded : Seeded operand) : Seeded (unary operand) := by
  intro s name
  simp only [unary, peekKind_bind, name]
  exact seeded s name

theorem tier_seeded (operator? : Kind → Option BinaryOp) {operand : Option Symbol → Parser Expr}
    (seeded : Seeded operand) (n : Nat) : Seeded (tier operator? operand n) :=
  seeded.bind _

theorem expressionFrom_seeded (n : Nat) : Seeded (expressionFrom n) := by
  have ladder {operand : Option Symbol → Parser Expr} (seeded : Seeded operand) (n : Nat) :
      Seeded (ladder operand n) :=
    tier_seeded _ (tier_seeded _ (tier_seeded _ (tier_seeded _ (tier_seeded _ (unary_seeded seeded) n) n) n) n) n
  cases n with
  | zero => exact ladder (primary_seeded _ _) 0
  | succ n => exact ladder (primary_seeded _ _) (n + 1)

theorem expressionFrom_apply {t : Token} {name : Symbol} (named : Grammar.Names t name) (n : Nat) {ts : List Token}
    {ending : Except LexicalError Position} (ends : ts = [] → ∃ position, ending = .ok position) :
    expressionFrom n (some name) ⟨ts, ending⟩ = expression n ⟨t :: ts, ending⟩ := by
  have begins : (TokenStream.mk (t :: ts) ending).peek.kind = .identifier := by
    cases ending <;> exact named.kind
  refine ((expressionFrom_seeded n _ begins).trans ?_).symm
  rw [bind_apply, identifier_apply named ends]
  rfl

theorem expressionFrom_after {t : Token} {name : Symbol} (named : Grammar.Names t name) (n : Nat)
    (ts : List Token) : After ts (expressionFrom n (some name)) (Grammar.Expression (t :: ts)) := by
  intro ending regular e s read
  rw [expressionFrom_apply named n regular.ends] at read
  refine expression_after n (t :: ts) ending ⟨?_, nofun⟩ e s read
  rw [List.forall_mem_cons]
  exact ⟨by simp [Token.isProper, named.kind, named.value], regular.proper⟩

/-! ### Statements -/

section
variable {inFunction : Bool}

theorem block_after {nested : Parser Stmt} (inner : ∀ ts, After ts nested (Grammar.Statement inFunction ts)) (n : Nat)
    (ts : List Token) : After ts (block nested n) (Grammar.Body inFunction ts) := by
  refine (After.many (Grammar.Statement inFunction) ?_ n ts).seq ?_
  · intro us
    refine .peekKind ?_
    split
    · exact .pure rfl
    · refine (inner us).seq ?_
      intro s rest statement
      exact .pure statement
  · intro ss mid statements
    refine .expect (by decide) ?_
    rintro closing rest rfl closes
    exact .pure (.of_repeats closes statements)

section
variable {condition : Parser Expr} {body : Parser (List Stmt)}
  (expression : ∀ ts, After ts condition (Grammar.Expression ts))
  (inside : ∀ ts, After ts body (Grammar.Body inFunction ts))
include expression inside

theorem alternatives_after (n : Nat) (ts : List Token) :
    After ts (alternatives condition body n) (Grammar.Otherwise inFunction ts) := by
  induction n generalizing ts with
  | zero => exact .pure .none
  | succ n ih =>
    refine .ifTake (by decide) ?_ ?_
    · rintro word us rfl isElse
      refine .ifTake (by decide) ?_ ?_
      · rintro further vs rfl isIf
        refine (expression vs).seq ?_
        intro c mid first
        refine .expect (by decide) ?_
        rintro opening ws rfl opens
        refine (inside ws).seq ?_
        intro ss xs statements
        refine (ih xs).seq ?_
        intro o rest otherwise
        exact .pure (.elseIf isElse isIf first (.braces opens statements) otherwise)
      · intro _
        refine .expect (by decide) ?_
        rintro opening ws rfl opens
        refine (inside ws).seq ?_
        intro ss rest statements
        exact .pure (.last isElse (.braces opens statements))
    · intro _
      exact .pure .none

end

theorem declaration_after {word : Token} (isLet : word.kind = .letWord) (n : Nat) (ts : List Token) :
    After ts (declaration n) (Grammar.Statement inFunction (word :: ts)) := by
  refine .identifier ?_
  rintro t symbol us rfl named
  refine .expect (by decide) ?_
  rintro colon vs rfl isColon
  refine (type_after n vs).seq ?_
  intro τ mid annotation
  refine .expect (by decide) ?_
  rintro equals ws rfl isAssign
  refine (expression_after n ws).seq ?_
  intro e rest value
  exact .pure (.declare isLet named isColon annotation isAssign value)

theorem namedStatement_after {t : Token} {symbol : Symbol} (named : Grammar.Names t symbol) (n : Nat)
    (ts : List Token) : After ts (namedStatement n symbol) (Grammar.Statement inFunction (t :: ts)) := by
  refine .ifTake (by decide) ?_ ?_
  · rintro equals us rfl isAssign
    refine (expression_after n us).seq ?_
    intro e rest value
    exact .pure (.assign named isAssign value)
  · intro _
    refine .ifTake (by decide) ?_ ?_
    · rintro opening us rfl opens
      refine (arguments_after (expression_after n) n us).seq ?_
      intro es rest arguments
      exact .pure (.call named opens arguments)
    · intro _
      exact .mismatch

theorem returnStatement_after (n : Nat) {ts : List Token} (kind : nextKind ts = .returnWord) :
    After ts (returnStatement inFunction n) (Grammar.Statement inFunction ts) := by
  refine .advance kind (by decide) ?_
  rintro word us rfl isReturn
  cases inFunction with
  | false => exact .bind .refuse
  | true =>
    refine .peekKind ?_
    split
    · rename_i same
      obtain ⟨closing, rest, rfl, closes⟩ := exists_of_nextKind same (by decide)
      exact .pure (.retBare rfl isReturn closes)
    · refine (expression_after n us).seq ?_
      intro e rest value
      exact .pure (.ret rfl isReturn value)

theorem statement_after (n : Nat) (ts : List Token) :
    After ts (statement inFunction n) (Grammar.Statement inFunction ts) := by
  induction n generalizing ts with
  | zero => exact .mismatch
  | succ n ih =>
    have inside (ts : List Token) : After ts (block (statement inFunction n) n) (Grammar.Body inFunction ts) :=
      block_after ih n ts
    refine .peekKind ?_
    split
    · rename_i kind
      refine .advance kind (by decide) ?_
      rintro word us rfl isLet
      exact declaration_after isLet n us
    · rename_i kind
      refine .advance kind (by decide) ?_
      rintro word us rfl isIf
      refine (expression_after n us).seq ?_
      intro c mid condition
      refine .expect (by decide) ?_
      rintro opening vs rfl opens
      refine (inside vs).seq ?_
      intro ss ws statements
      refine (alternatives_after (expression_after n) inside n ws).seq ?_
      intro o rest otherwise
      exact .pure (.ifElse isIf condition (.braces opens statements) otherwise)
    · rename_i kind
      refine .advance kind (by decide) ?_
      rintro word us rfl isWhile
      refine (expression_after n us).seq ?_
      intro c mid condition
      refine .expect (by decide) ?_
      rintro opening vs rfl opens
      refine (inside vs).seq ?_
      intro ss rest statements
      exact .pure (.loop isWhile condition (.braces opens statements))
    · rename_i kind
      exact returnStatement_after n kind
    · rename_i kind
      refine .advance kind (by decide) ?_
      rintro opening us rfl opens
      refine (inside us).seq ?_
      intro ss rest statements
      exact .pure (.block (.braces opens statements))
    · refine .identifier ?_
      rintro t symbol us rfl named
      exact namedStatement_after named n us
    · exact .mismatch

end

/-! ### Items -/

theorem parameter_after (n : Nat) (ts : List Token) : After ts (parameter n) (Grammar.Parameter ts) := by
  refine .identifier ?_
  rintro t symbol us rfl named
  refine .expect (by decide) ?_
  rintro colon vs rfl isColon
  refine (type_after n vs).seq ?_
  intro τ rest annotation
  exact .pure (.mk named isColon annotation)

section
variable {t opening : Token} {name : Symbol} (named : Grammar.Names t name) (opens : opening.kind = .leftParen)
include named opens

theorem functionFrom_after {arrow : Token} {params : List Param} {ts us : List Token}
    (parameters : Grammar.Parameters ts params (arrow :: us)) (isArrow : arrow.kind = .arrow) (n : Nat) :
    After us (functionFrom n name params) (Grammar.Item (t :: opening :: ts)) := by
  refine (type_after n us).seq ?_
  intro τ vs returnType
  refine .expect (by decide) ?_
  rintro brace ws rfl braces
  refine (block_after (statement_after n) n ws).seq ?_
  intro body rest inside
  exact .pure (.function named opens parameters isArrow returnType (.braces braces inside))

theorem callOrFunction_after (n : Nat) (ts : List Token) :
    After ts (callOrFunction n name) (Grammar.Item (t :: opening :: ts)) := by
  have call (es : List Expr) (rest : List Token) (arguments : Grammar.Arguments ts es rest) :
      Grammar.Item (t :: opening :: ts) (.statement (.call name es)) rest :=
    .statement (.call named opens arguments)
  refine .ifTake (by decide) ?_ ?_
  · rintro closing us rfl closes
    refine .ifTake (by decide) ?_ ?_
    · rintro arrow vs rfl isArrow
      exact functionFrom_after named opens (.none closes) isArrow n
    · intro _
      exact .pure (call [] us (.none closes))
  intro _
  refine .peekKind ?_
  split
  · refine .identifier ?_
    rintro first symbol us rfl isName
    refine .ifTake (by decide) ?_ ?_
    · rintro colon vs rfl isColon
      refine (type_after n vs).seq ?_
      intro τ ws annotation
      refine (After.many_behind (by decide) (parameter_after n) n ws).seq ?_
      intro others mid repeated
      refine .expect (by decide) ?_
      rintro closing xs rfl closes
      refine .expect (by decide) ?_
      rintro arrow ys rfl isArrow
      have first : Grammar.Parameter (first :: colon :: vs) ⟨symbol, τ⟩ ws := .mk isName isColon annotation
      exact functionFrom_after named opens (.some first (.of_repeats closes repeated)) isArrow n
    · intro _
      refine (expressionFrom_after isName n us).seq ?_
      intro e mid argument
      refine (argumentsAfter_after (expression_after n) n mid e).seq ?_
      rintro _ rest ⟨others, rfl, more⟩
      exact .pure (call (e :: others) rest (.some argument more))
  · refine (arguments_after (expression_after n) n ts).seq ?_
    intro es rest arguments
    exact .pure (call es rest arguments)

end

theorem item_after (n : Nat) (ts : List Token) : After ts (item n) (Grammar.Item ts) := by
  refine .peekKind ?_
  split
  · rename_i kind
    refine .advance kind (by decide) ?_
    rintro word us rfl isUnit
    refine .identifier ?_
    rintro t symbol vs rfl named
    refine .expect (by decide) ?_
    rintro colon ws rfl isColon
    refine .expect (by decide) ?_
    rintro opening xs rfl opens
    refine (unitExpr_after opens n xs).seq ?_
    intro u rest unit
    exact .pure (.unit isUnit named isColon unit)
  · refine .identifier ?_
    rintro t symbol us rfl named
    refine .ifTake (by decide) ?_ ?_
    · rintro opening vs rfl opens
      exact callOrFunction_after named opens n vs
    · intro _
      have read : After us (namedStatement n symbol) (Grammar.Statement false (t :: us)) :=
        namedStatement_after named n us
      refine read.seq ?_
      intro s rest statement
      exact .pure (.statement statement)
  · refine (statement_after n ts).seq ?_
    intro s rest statement
    exact .pure (.statement statement)

end Parser

end Mensura
