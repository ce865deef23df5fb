import Mensura.Proofs.Grammar.Soundness

/-!
What the grammar says is read. Each part of the parser is taken on its own again: a tree that is derived from tokens
which are within the bound is read from them, if what follows cannot belong to it. As each rule says which tokens
can follow its parts, this condition goes through to the end of the program.
-/

namespace Mensura

open Token (Kind)
open Grammar (Behind Operation)

namespace Parser

variable {ts mid rest : List Token} {n bound : Nat}

/-- Items with separators in front of them are read up to the closing token. -/
theorem Reads.many_behind {α : Type} {kind : Kind} (closing : Kind) (apart : closing ≠ kind) {x : Parser α}
    {step : List Token → α → List Token → Prop} {as : List α}
    (takes : ∀ {ts a rest}, step ts a rest → Grammar.Passes ts rest)
    (reads : ∀ {ts a rest}, step ts a rest → ts.length < bound → nextKind rest = kind ∨ nextKind rest = closing →
      Reads x ts a rest)
    (repeated : Repeats (Behind kind step) ts as rest) (room : ts.length ≤ bound) (enough : ts.length ≤ n)
    (stop : nextKind rest = closing) :
    Reads (Parser.many (do if ← take kind then return some (← x) else return none) n) ts as rest := by
  refine .many (fun ts => nextKind ts = kind ∨ nextKind ts = closing) (fun h => (h.passes takes).shorter)
    ?_ ?_ repeated room enough (.inr stop) (.ifTake_no (stop ▸ apart) (.pure _ _))
  · rintro ts a rest ⟨t, us, rfl, same, -⟩
    exact .inl same
  · rintro ts a rest ⟨t, us, rfl, same, next⟩ room follows
    exact .ifTake_yes same ((reads next room follows).bind (.pure _ _))

/-! ### Units and types -/

theorem power_reads {p : Int32} (h : Grammar.Power ts p rest) : Reads power ts p rest := by
  cases h with
  | positive counts fits =>
    refine (take_reads_none (by simp [nextKind, counts.kind])).bind ?_
    refine (expect_reads counts.kind _).bind ?_
    simp only [counts.value, int32?_eq_some_iff.mpr fits]
    exact .pure _ _
  | negative sign counts fits opposite =>
    refine (take_reads sign _).bind ?_
    refine (expect_reads counts.kind _).bind ?_
    simp only [counts.value, int32?_eq_some_iff.mpr fits]
    rw [if_neg (by decide), negatePower, int32?_eq_some_iff.mpr opposite]
    exact .pure _ _

theorem factor_reads {u : Factor} (h : Grammar.Factor ts u rest) (stop : nextKind rest ≠ .caret) :
    Reads factor ts u rest := by
  cases h with
  | plain named => exact (identifier_reads named _).bind (.ifTake_no stop (.pure _ _))
  | raised named isCaret power =>
    refine (identifier_reads named _).bind (.ifTake_yes isCaret ?_)
    exact (power_reads power).bind (.pure _ _)

theorem unitExpr_reads {opening : Token} {u : UnitExpr} (h : Grammar.Unit (opening :: ts) u rest)
    (room : ts.length ≤ n) : Reads (unitExpr n) ts u rest := by
  cases h with
  | dimensionless _ closes => exact .ifTake_yes closes (.pure _ _)
  | product _ factors closes =>
    obtain ⟨u, others, mid, rfl, first, repeated⟩ := factors.repeats
    have begins : nextKind ts ≠ .rightBracket := by
      cases first with
      | plain named | raised named => simp [nextKind, named.kind]
    have follows := Behind.nextKind_eq repeated closes
    have shorter := first.passes.shorter
    refine .ifTake_no begins ?_
    refine (factor_reads first (by obtain same | same := follows <;> simp [same])).bind ?_
    refine (Reads.many_behind .rightBracket (by decide) Grammar.Factor.passes ?_ repeated (Nat.le_refl _)
      (by omega) closes).bind ?_
    · intro us u' rest next _ follows
      exact factor_reads next (by obtain same | same := follows <;> simp [same])
    · exact (expect_reads closes _).bind (.pure _ _)

theorem type_reads {τ : Ty} (h : Grammar.Annotation ts τ rest) (room : ts.length ≤ n) : Reads (type n) ts τ rest := by
  refine (peekKind_reads ts).bind ?_
  cases h with
  | text word =>
    rw [show nextKind (_ :: rest) = .stringType from word]
    exact (advance_reads _ _).bind (.pure _ _)
  | bool word =>
    rw [show nextKind (_ :: rest) = .boolType from word]
    exact (advance_reads _ _).bind (.pure _ _)
  | void word =>
    rw [show nextKind (_ :: rest) = .voidType from word]
    exact (advance_reads _ _).bind (.pure _ _)
  | quantity unit =>
    rw [unit.nextKind_eq]
    cases ts with
    | nil => cases unit
    | cons t ts =>
      refine (advance_reads _ _).bind ?_
      exact (unitExpr_reads unit (Nat.le_of_succ_le room)).bind (.pure _ _)

/-! ### Expressions -/

/-- No token of the kind can belong to an expression of the rank `r` that stands in front of it. -/
structure Stops (r : Nat) (kind : Kind) : Prop where
  call : kind ≠ .leftParen
  unit : kind ≠ .leftBracket
  looser : ∀ op : BinaryOp, op.kind = kind → r ≤ op.rank

theorem Stops.mono {r r' : Nat} {kind : Kind} (h : Stops r kind) (less : r' ≤ r) : Stops r' kind :=
  ⟨h.call, h.unit, fun op same => Nat.le_trans less (h.looser op same)⟩

/-- An operator stops the expressions that bind more. -/
theorem Stops.operator (op : BinaryOp) : Stops op.rank op.kind where
  call := by cases op <;> decide
  unit := by cases op <;> decide
  looser := fun op' same => Nat.le_of_eq (by rw [BinaryOp.kind_injective same])

/-- What can follow a statement. -/
def statementEnd : List Kind := .rightBrace :: .etx :: .unitWord :: statementStart

/-- What can follow an expression. -/
def expressionEnd : List Kind := .comma :: .rightParen :: statementEnd

theorem Stops.of_mem {kind : Kind} (h : kind ∈ expressionEnd) : Stops 5 kind where
  call := by rintro rfl; exact absurd h (by decide)
  unit := by rintro rfl; exact absurd h (by decide)
  looser := by rintro op rfl; exact absurd h (by cases op <;> decide)

theorem Stops.of_brace {t : Token} (opens : t.kind = .leftBrace) : Stops 5 (nextKind (t :: ts)) :=
  .of_mem (by rw [nextKind, opens]; decide)

theorem Stops.of_statementEnd {kind : Kind} (h : kind ∈ statementEnd) : Stops 5 kind :=
  .of_mem (List.mem_cons_of_mem _ (List.mem_cons_of_mem _ h))

theorem Stops.of_argument {kind : Kind} (h : kind = .comma ∨ kind = .rightParen) : Stops 5 kind :=
  .of_mem (by obtain rfl | rfl := h <;> decide)

/-- The parser reads the expressions of the rank `r` that are derived from fewer than `bound` tokens. -/
def Complete (r bound : Nat) (x : Parser Expr) : Prop :=
  ∀ ts e rest, Grammar.Tier r ts e rest → ts.length < bound → Stops r (nextKind rest) → Reads x ts e rest

section
variable {nested : Parser Expr} (inner : Complete 5 bound nested)
include inner

theorem argumentsAfter_reads {e : Expr} {es : List Expr} (h : Grammar.MoreArguments ts es rest)
    (room : ts.length ≤ bound) (enough : ts.length ≤ n) : Reads (argumentsAfter nested n e) ts (e :: es) rest := by
  obtain ⟨closing, closes, repeated⟩ := h.repeats
  refine (Reads.many_behind .rightParen (by decide) Grammar.Tier.passes ?_ repeated room enough closes).bind ?_
  · intro us e' rest next room follows
    exact inner us e' rest next room (.of_argument follows)
  · exact (expect_reads closes _).bind (.pure _ _)

theorem arguments_reads {es : List Expr} (h : Grammar.Arguments ts es rest) (room : ts.length < bound)
    (enough : ts.length ≤ n) : Reads (arguments nested n) ts es rest := by
  cases h with
  | none closes => exact .ifTake_yes closes (.pure _ _)
  | some first others =>
    obtain ⟨closing, closes, repeated⟩ := others.repeats
    have begins : nextKind ts ≠ .rightParen := fun same => absurd (same ▸ first.nextKind_mem) (by decide)
    have follows := Behind.nextKind_eq repeated closes
    have shorter := first.passes.shorter
    refine .ifTake_no begins ((inner _ _ _ first room (.of_argument follows)).bind ?_)
    exact argumentsAfter_reads inner others (by omega) (by omega)

omit inner in
/-- A unit is read behind a number if there is one. -/
theorem suffix_reads {β : Type} {f : Option UnitExpr → Parser β} {unit : Option UnitExpr} {b : β}
    (h : Grammar.Suffix ts unit mid) (stop : nextKind mid ≠ .leftBracket) (room : ts.length ≤ n)
    (next : Reads (f unit) mid b rest) :
    Reads (do if ← take .leftBracket then f (← some <$> unitExpr n) else f (← pure none)) ts b rest := by
  cases h with
  | none => exact .ifTake_no stop next
  | unit unit =>
    obtain ⟨opening, us, rfl, opens⟩ := exists_of_nextKind unit.nextKind_eq (by decide)
    exact .ifTake_yes opens ((unitExpr_reads unit (Nat.le_of_succ_le room)).map.bind next)

theorem primary_reads {e : Expr} (h : Grammar.Primary ts e rest) (room : ts.length ≤ bound) (enough : ts.length ≤ n)
    (stop : Stops 0 (nextKind rest)) : Reads (primary nested n none) ts e rest := by
  refine (peekKind_reads ts).bind ?_
  cases h with
  | int counts suffix =>
    rw [show nextKind (_ :: _) = .intLiteral from counts.kind]
    refine (advance_reads _ _).bind (suffix_reads suffix stop.unit (Nat.le_of_succ_le enough) ?_)
    simp only [counts.value]
    exact .pure _ _
  | float kind value suffix =>
    rw [show nextKind (_ :: _) = .floatLiteral from kind]
    refine (advance_reads _ _).bind (suffix_reads suffix stop.unit (Nat.le_of_succ_le enough) ?_)
    simp only [value]
    exact .pure _ _
  | yes word =>
    rw [show nextKind (_ :: rest) = .trueWord from word]
    exact (advance_reads _ _).bind (.pure _ _)
  | no word =>
    rw [show nextKind (_ :: rest) = .falseWord from word]
    exact (advance_reads _ _).bind (.pure _ _)
  | text kind value =>
    rw [show nextKind (_ :: rest) = .stringLiteral from kind]
    refine (advance_reads _ _).bind ?_
    rw [value]
    exact .pure _ _
  | var isName =>
    rw [show nextKind (_ :: rest) = .identifier from isName.kind]
    exact (identifier_reads isName _).bind (.ifTake_no stop.call (.pure _ _))
  | call isName opens arguments =>
    rw [show nextKind (_ :: _) = .identifier from isName.kind]
    refine (identifier_reads isName _).bind (.ifTake_yes opens ?_)
    simp only [List.length_cons] at room enough
    exact (arguments_reads inner arguments (by omega) (by omega)).bind (.pure _ _)
  | group opens expression closes =>
    rw [show nextKind (_ :: _) = .leftParen from opens]
    refine (advance_reads _ _).bind ?_
    refine (inner _ _ _ expression (Nat.lt_of_succ_le room) (.of_argument (.inr closes))).bind ?_
    exact (expect_reads closes _).bind (.pure _ _)

end

theorem unary_reads {operand : Option Symbol → Parser Expr}
    (primary : ∀ ts e rest, Grammar.Primary ts e rest → ts.length < bound → Stops 0 (nextKind rest) →
      Reads (operand none) ts e rest) : Complete 0 bound (unary operand none) := by
  rintro ts e rest (h | _ | _) room stop
  refine (peekKind_reads ts).bind ?_
  cases h with
  | plain h =>
    have none : unaryOp? (nextKind ts) = none := by
      rw [Option.eq_none_iff_forall_ne_some]
      intro op found
      rw [unaryOp?_eq_some_iff] at found
      exact absurd (found ▸ h.nextKind_mem) (by cases op <;> decide)
    rw [none]
    exact primary ts e rest h room stop
  | unary operator h =>
    rw [unaryOp?_eq_some_iff.mpr (show _ = nextKind (_ :: _) from operator.symm)]
    exact (advance_reads _ _).bind ((primary _ _ _ h (Nat.lt_of_succ_lt room) stop).bind (.pure _ _))

theorem tier_reads {operator? : Kind → Option BinaryOp} {r : Nat} (table : Operators operator? r)
    {operand : Option Symbol → Parser Expr} (tighter : Complete r bound (operand none)) (fits : bound ≤ n + 1) :
    Complete (r + 1) bound (tier operator? operand n none) := by
  intro ts e rest h room stop
  obtain ⟨first, os, mid, left, others, rfl⟩ := h.repeats
  have begins {ts o rest} (h : Operation r ts o rest) : Stops r (nextKind ts) := by
    obtain ⟨t, us, rfl, same, rfl, -⟩ := h
    rw [nextKind, same]
    exact .operator o.1
  have loose := stop.mono (Nat.le_succ r)
  have shorter := left.passes.shorter
  refine (tighter _ _ _ left room (others.begins begins loose)).bind ?_
  refine (Reads.many (fun ts => Stops r (nextKind ts)) (fun h => h.passes.shorter) begins ?_ others (Nat.le_refl _)
    (by omega) loose ?_).bind (.pure _ _)
  · rintro us ⟨op, position, e⟩ rest ⟨t, vs, rfl, same, rank, rfl, right⟩ fits follows
    refine (peekKind_reads _).bind ?_
    rw [(table _ _).mpr ⟨rank, show op.kind = nextKind (t :: vs) from same.symm⟩]
    refine (advance_reads t vs).bind ?_
    exact (tighter _ _ _ right (by simp only [List.length_cons] at fits; omega) follows).bind (.pure _ _)
  · refine (peekKind_reads _).bind ?_
    have none : operator? (nextKind rest) = none := by
      rw [Option.eq_none_iff_forall_ne_some]
      intro op found
      obtain ⟨rank, kind⟩ := (table _ _).mp found
      have := stop.looser op kind
      omega
    rw [none]
    exact .pure _ _

theorem ladder_reads {operand : Option Symbol → Parser Expr}
    (primary : ∀ ts e rest, Grammar.Primary ts e rest → ts.length < n + 1 → Stops 0 (nextKind rest) →
      Reads (operand none) ts e rest) : Complete 5 (n + 1) (ladder operand n none) := by
  have products := tier_reads product_operators (unary_reads primary) (Nat.le_refl _)
  have sums := tier_reads sum_operators products (Nat.le_refl _)
  have comparisons := tier_reads comparison_operators sums (Nat.le_refl _)
  have conjunctions := tier_reads and_operators comparisons (Nat.le_refl _)
  exact tier_reads or_operators conjunctions (Nat.le_refl _)

theorem expression_reads (n : Nat) : Complete 5 (n + 1) (expression n) := by
  unfold expression
  induction n with
  | zero =>
    refine ladder_reads ?_
    intro ts e rest h room stop
    exact absurd h.passes.shorter (by omega)
  | succ n ih =>
    refine ladder_reads ?_
    intro ts e rest h room stop
    exact primary_reads ih h (Nat.le_of_lt_succ room) (Nat.le_of_lt_succ room) stop

/-! ### Statements -/

section
variable {inFunction : Bool}

theorem block_reads {nested : Parser Stmt}
    (inner : ∀ ts s rest, Grammar.Statement inFunction ts s rest → ts.length ≤ n → nextKind rest ∈ statementEnd →
      Reads nested ts s rest) {ss : List Stmt} (h : Grammar.Body inFunction ts ss rest) (room : ts.length ≤ n) :
    Reads (block nested n) ts ss rest := by
  obtain ⟨closing, closes, repeated⟩ := h.repeats
  have closed : nextKind (closing :: rest) = .rightBrace := closes
  refine (Reads.many (fun ts => nextKind ts ∈ statementEnd) (fun h => h.passes.shorter) ?_ ?_ repeated room room
    (closed ▸ by decide) ?_).bind ?_
  · intro us s vs h
    exact List.mem_append_right [.rightBrace, .etx, .unitWord] h.nextKind_mem
  · intro us s vs h room follows
    refine (peekKind_reads us).bind ?_
    rw [if_neg]
    · exact (inner us s vs h room follows).bind (.pure _ _)
    · rintro (same | same) <;> exact absurd (same ▸ h.nextKind_mem) (by decide)
  · refine (peekKind_reads _).bind ?_
    rw [if_pos (.inl closed)]
    exact .pure _ _
  · exact (expect_reads closes _).bind (.pure _ _)

theorem alternatives_reads {condition : Parser Expr} {body : Parser (List Stmt)} (inner : Complete 5 bound condition)
    (inside : ∀ ts ss rest, Grammar.Body inFunction ts ss rest → ts.length < bound → Reads body ts ss rest)
    {o : Else} (h : Grammar.Otherwise inFunction ts o rest) (room : ts.length ≤ bound) (enough : ts.length ≤ n)
    (stop : nextKind rest ∈ statementEnd) : Reads (alternatives condition body n) ts o rest := by
  induction n generalizing ts o with
  | zero =>
    cases h with
    | none => exact .pure _ _
    | last | elseIf => cases enough
  | succ n ih =>
    cases h with
    | none => exact .ifTake_no (fun same => absurd (same ▸ stop) (by decide)) (.pure _ _)
    | last isElse block =>
      cases block with
      | braces opens statements =>
        refine .ifTake_yes isElse (.ifTake_no (by simp [nextKind, opens]) ?_)
        refine (expect_reads opens _).bind ?_
        exact (inside _ _ _ statements (Nat.lt_of_succ_lt room)).bind (.pure _ _)
    | elseIf isElse isIf first block otherwise =>
      cases block with
      | braces opens statements =>
        have shorter := first.passes.shorter
        have rests := statements.passes.shorter
        simp only [List.length_cons] at room enough shorter
        refine .ifTake_yes isElse (.ifTake_yes isIf ?_)
        refine (inner _ _ _ first (by omega) (.of_brace opens)).bind ?_
        refine (expect_reads opens _).bind ?_
        refine (inside _ _ _ statements (by omega)).bind ?_
        exact (ih otherwise (by omega) (by omega)).bind (.pure _ _)

theorem declaration_reads {t colon equals : Token} {symbol : Symbol} {τ : Ty} {e : Expr} {us : List Token}
    (named : Grammar.Names t symbol) (isColon : colon.kind = .colon)
    (annotated : Grammar.Annotation ts τ (equals :: us)) (isAssign : equals.kind = .assign)
    (value : Grammar.Expression us e rest) (room : ts.length ≤ n) (stop : nextKind rest ∈ statementEnd) :
    Reads (declaration n) (t :: colon :: ts) (.declare symbol τ e) rest := by
  have shorter := annotated.passes.shorter
  simp only [List.length_cons] at shorter
  refine (identifier_reads named _).bind ?_
  refine (expect_reads isColon _).bind ?_
  refine (type_reads annotated room).bind ?_
  refine (expect_reads isAssign _).bind ?_
  exact (expression_reads n _ _ _ value (by omega) (.of_statementEnd stop)).bind (.pure _ _)

theorem assign_reads {equals : Token} (name : Symbol) (isAssign : equals.kind = .assign) {e : Expr}
    (value : Grammar.Expression ts e rest) (room : ts.length ≤ n) (stop : nextKind rest ∈ statementEnd) :
    Reads (namedStatement n name) (equals :: ts) (.assign name e) rest :=
  .ifTake_yes isAssign
    ((expression_reads n _ _ _ value (Nat.lt_succ_of_le room) (.of_statementEnd stop)).bind (.pure _ _))

theorem call_reads {opening : Token} (name : Symbol) (opens : opening.kind = .leftParen) {es : List Expr}
    (arguments : Grammar.Arguments ts es rest) (room : ts.length ≤ n) :
    Reads (namedStatement n name) (opening :: ts) (.call name es) rest := by
  refine .ifTake_no (by simp [nextKind, opens]) (.ifTake_yes opens ?_)
  exact (arguments_reads (expression_reads n) arguments (Nat.lt_succ_of_le room) room).bind (.pure _ _)

theorem returnStatement_reads {word : Token} {e : Expr} (value : Grammar.Expression ts e rest) (room : ts.length ≤ n)
    (stop : nextKind rest ∈ statementEnd) :
    Reads (returnStatement true n) (word :: ts) (.ret word.position (some e)) rest := by
  refine (advance_reads word ts).bind ((peekKind_reads ts).bind ?_)
  rw [if_neg fun same => absurd (same ▸ value.nextKind_mem) (by decide)]
  exact (expression_reads n _ _ _ value (Nat.lt_succ_of_le room) (.of_statementEnd stop)).bind (.pure _ _)

theorem statement_reads {s : Stmt} (h : Grammar.Statement inFunction ts s rest) (room : ts.length ≤ n)
    (stop : nextKind rest ∈ statementEnd) : Reads (statement inFunction n) ts s rest := by
  induction n generalizing ts s rest with
  | zero => exact absurd h.passes.shorter (by omega)
  | succ n ih =>
    have inside (ts ss rest) (h : Grammar.Body inFunction ts ss rest) (room : ts.length < n + 1) :
        Reads (block (statement inFunction n) n) ts ss rest :=
      block_reads (fun _ _ _ h room stop => ih h room stop) h (Nat.le_of_lt_succ room)
    refine (peekKind_reads ts).bind ?_
    cases h with
    | declare isLet named isColon annotation isAssign value =>
      rw [show nextKind (_ :: _) = .letWord from isLet]
      simp only [List.length_cons] at room
      exact (advance_reads _ _).bind (declaration_reads named isColon annotation isAssign value (by omega) stop)
    | assign named isAssign value =>
      rw [show nextKind (_ :: _) = .identifier from named.kind]
      simp only [List.length_cons] at room
      exact (identifier_reads named _).bind (assign_reads _ isAssign value (by omega) stop)
    | call named opens arguments =>
      rw [show nextKind (_ :: _) = .identifier from named.kind]
      simp only [List.length_cons] at room
      exact (identifier_reads named _).bind (call_reads _ opens arguments (by omega))
    | ifElse isIf condition first otherwise =>
      rw [show nextKind (_ :: _) = .ifWord from isIf]
      cases first with
      | braces opens statements =>
        have shorter := condition.passes.shorter
        have rests := statements.passes.shorter
        simp only [List.length_cons] at room shorter
        refine (advance_reads _ _).bind ?_
        refine (expression_reads n _ _ _ condition (by omega) (.of_brace opens)).bind ?_
        refine (expect_reads opens _).bind ?_
        refine (inside _ _ _ statements (by omega)).bind ?_
        refine Reads.bind ?_ (.pure _ _)
        exact alternatives_reads (expression_reads n) inside otherwise (by omega) (by omega) stop
    | loop isWhile condition repeated =>
      rw [show nextKind (_ :: _) = .whileWord from isWhile]
      cases repeated with
      | braces opens statements =>
        have shorter := condition.passes.shorter
        simp only [List.length_cons] at room shorter
        refine (advance_reads _ _).bind ?_
        refine (expression_reads n _ _ _ condition (by omega) (.of_brace opens)).bind ?_
        refine (expect_reads opens _).bind ?_
        exact (inside _ _ _ statements (by omega)).bind (.pure _ _)
    | ret allowed isReturn value =>
      rw [show nextKind (_ :: _) = .returnWord from isReturn, allowed]
      exact returnStatement_reads value (Nat.le_of_succ_le_succ room) stop
    | retBare allowed isReturn closes =>
      rw [show nextKind (_ :: _) = .returnWord from isReturn, allowed]
      refine (advance_reads _ _).bind ((peekKind_reads _).bind ?_)
      rw [if_pos (show nextKind (_ :: _) = .rightBrace from closes)]
      exact .pure _ _
    | block block =>
      cases block with
      | braces opens statements =>
        rw [show nextKind (_ :: _) = .leftBrace from opens]
        exact (advance_reads _ _).bind ((inside _ _ _ statements (Nat.lt_of_succ_le room)).bind (.pure _ _))

end

/-! ### Items -/

theorem parameter_reads {a : Param} (h : Grammar.Parameter ts a rest) (room : ts.length ≤ n) :
    Reads (parameter n) ts a rest := by
  cases h with
  | mk named isColon annotation =>
    simp only [List.length_cons] at room
    refine (identifier_reads named _).bind ?_
    refine (expect_reads isColon _).bind ?_
    exact (type_reads annotation (by omega)).bind (.pure _ _)

theorem functionFrom_reads {name : Symbol} {params : List Param} {τ : Ty} {body : List Stmt}
    (returnType : Grammar.Annotation ts τ mid) (block : Grammar.Block true mid body rest) (room : ts.length ≤ n) :
    Reads (functionFrom n name params) ts (.function ⟨name, params, τ, body⟩) rest := by
  have shorter := returnType.passes.shorter
  refine (type_reads returnType room).bind ?_
  cases block with
  | braces opens statements =>
    simp only [List.length_cons] at shorter
    refine (expect_reads opens _).bind ?_
    refine (block_reads ?_ statements (by omega)).bind (.pure _ _)
    exact fun _ _ _ h room stop => statement_reads h room stop

theorem callOrFunction_reads_function {name : Symbol} {params : List Param} {τ : Ty} {body : List Stmt}
    {arrow : Token} {us : List Token} (parameters : Grammar.Parameters ts params (arrow :: us))
    (isArrow : arrow.kind = .arrow) (returnType : Grammar.Annotation us τ mid)
    (block : Grammar.Block true mid body rest) (room : ts.length ≤ n) :
    Reads (callOrFunction n name) ts (.function ⟨name, params, τ, body⟩) rest := by
  have shorter := parameters.passes.shorter
  simp only [List.length_cons] at shorter
  have function : Reads (functionFrom n name params) us (.function ⟨name, params, τ, body⟩) rest :=
    functionFrom_reads returnType block (by omega)
  cases parameters with
  | none closes => exact .ifTake_yes closes (.ifTake_yes isArrow function)
  | some first others =>
    cases first with
    | mk named isColon annotation =>
      obtain ⟨closing, closes, repeated⟩ := others.repeats
      have fewer := annotation.passes.shorter
      simp only [List.length_cons] at room
      refine .ifTake_no (by simp [nextKind, named.kind]) ((peekKind_reads _).bind ?_)
      rw [if_pos (show nextKind (_ :: _) = .identifier from named.kind)]
      refine (identifier_reads named _).bind (.ifTake_yes isColon ?_)
      refine (type_reads annotation (by omega)).bind ?_
      refine (Reads.many_behind .rightParen (by decide) Grammar.Parameter.passes ?_ repeated (Nat.le_refl _) (by omega)
        closes).bind ?_
      · intro vs a rest next fits _
        exact parameter_reads next (by omega)
      · refine (expect_reads closes _).bind ?_
        exact (expect_reads isArrow _).bind function

/-- A call is told from a function by what stands behind its first argument, or behind its parentheses if it has
none. -/
theorem callOrFunction_reads_call {name : Symbol} {es : List Expr} (h : Grammar.Arguments ts es rest)
    (room : ts.length ≤ n) (stop : nextKind rest ∈ statementEnd) :
    Reads (callOrFunction n name) ts (.statement (.call name es)) rest := by
  have plain := arguments_reads (expression_reads n) h (Nat.lt_succ_of_le room) room
  cases h with
  | none closes => exact .ifTake_yes closes (.ifTake_no (fun same => absurd (same ▸ stop) (by decide)) (.pure _ _))
  | some first others =>
    refine .ifTake_no (fun same => absurd (same ▸ first.nextKind_mem) (by decide)) ((peekKind_reads _).bind ?_)
    split
    · rename_i same
      obtain ⟨t, us, rfl, kind⟩ := exists_of_nextKind same (by decide)
      obtain ⟨⟨symbol, named⟩, noColon⟩ := first.of_name kind
      obtain ⟨closing, closes, repeated⟩ := others.repeats
      have follows := Behind.nextKind_eq repeated closes
      have shorter := first.passes.shorter
      have argument := expression_reads n _ _ _ first (Nat.lt_succ_of_le room) (.of_argument follows)
      refine (identifier_reads named us).bind (.ifTake_no (noColon ?_) ?_)
      · obtain same | same := follows <;> simp [same]
      · have seeded : Reads (expressionFrom n (some symbol)) us _ _ := fun ending =>
          (expressionFrom_apply named n fun _ => ⟨ending, rfl⟩).trans (argument ending)
        refine seeded.bind ?_
        exact (argumentsAfter_reads (expression_reads n) others (by omega) (by omega)).bind (.pure _ _)
    · exact plain.bind (.pure _ _)

theorem item_reads {i : Item} (h : Grammar.Item ts i rest) (room : ts.length ≤ n)
    (stop : nextKind rest ∈ statementEnd) : Reads (item n) ts i rest := by
  refine (peekKind_reads ts).bind ?_
  cases h with
  | unit isUnit named isColon definition =>
    rw [show nextKind (_ :: _) = .unitWord from isUnit]
    obtain ⟨opening, us, rfl, opens⟩ := exists_of_nextKind definition.nextKind_eq (by decide)
    simp only [List.length_cons] at room
    refine (advance_reads _ _).bind ?_
    refine (identifier_reads named _).bind ?_
    refine (expect_reads isColon _).bind ?_
    refine (expect_reads opens _).bind ?_
    exact (unitExpr_reads definition (by omega)).bind (.pure _ _)
  | function named opens parameters isArrow returnType block =>
    rw [show nextKind (_ :: _) = .identifier from named.kind]
    simp only [List.length_cons] at room
    refine (identifier_reads named _).bind (.ifTake_yes opens ?_)
    exact callOrFunction_reads_function parameters isArrow returnType block (by omega)
  | statement h =>
    have read := statement_reads h room stop
    cases h with
    | assign named isAssign value =>
      rw [show nextKind (_ :: _) = .identifier from named.kind]
      simp only [List.length_cons] at room
      refine (identifier_reads named _).bind (.ifTake_no (by simp [nextKind, isAssign]) ?_)
      exact (assign_reads _ isAssign value (by omega) stop).bind (.pure _ _)
    | call named opens arguments =>
      rw [show nextKind (_ :: _) = .identifier from named.kind]
      simp only [List.length_cons] at room
      refine (identifier_reads named _).bind (.ifTake_yes opens ?_)
      exact callOrFunction_reads_call arguments (by omega) stop
    | declare word | ifElse word | loop word =>
      rw [show nextKind (_ :: _) = _ from word]
      exact read.bind (.pure _ _)
    | ret allowed | retBare allowed => cases allowed
    | block block =>
      cases block with
      | braces opens =>
        rw [show nextKind (_ :: _) = _ from opens]
        exact read.bind (.pure _ _)

end Parser

end Mensura
