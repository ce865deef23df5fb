import Mensura.Proofs.Foresight.Due
import Mensura.Proofs.Foresight.Viable

/-!
The parser refuses a token only where what it has read can be continued, and it can be by what the parser says to be
expected. Each part of the parser is taken on its own, with the rule of the grammar that it reads by; where a branch is
taken, one of the others would have been another way to go on. A `return` without a value is read only in front of a
closing brace, so statements are told what comes next; and as it is expected outside of functions too, it is excused
where a statement is due there. Main statement: the tokens of a program that have been read when a token is refused are
the beginning of a list of items.
-/

namespace Mensura

open Token (Kind)
open Grammar (Behind Operation Names Due DueInBody DueInOtherwise)

namespace Parser

variable {α β : Type} {good : Context → Kind → β → Prop} {L : Goal} {c : Context}
  {G : List Token → α → List Token → Prop}

namespace Completes

/-- From behind a token of the kind `opening`. -/
def Inside (opening : Kind) (G : List Token → α → List Token → Prop) (ts : List Token) (a : α)
    (rest : List Token) : Prop :=
  ∀ t : Token, t.kind = opening → G (t :: ts) a rest

/-- From behind the name `name`. -/
def Named (name : Symbol) (G : List Token → α → List Token → Prop) (ts : List Token) (a : α)
    (rest : List Token) : Prop :=
  ∀ t, Names t name → G (t :: ts) a rest

/-- From behind a name, if there is one that has been read already. -/
def Begun : Option Symbol → (List Token → α → List Token → Prop) → List Token → α → List Token → Prop
  | some name, G => Named name G
  | none, G => G

theorem Begun.imp {seed : Option Symbol} {H : List Token → β → List Token → Prop} {ts mid rest : List Token} {a : α}
    {b : β} (h : Begun seed G ts a mid) (implies : ∀ {ts}, G ts a mid → H ts b rest) : Begun seed H ts b rest := by
  cases seed with
  | some name => exact fun t named => implies (h t named)
  | none => exact implies h

/-! ### Units and types -/

theorem power : Completes Grammar.Power Parser.power := by
  apply Leads.take rfl
  · intro minus sign
    refine .expect_of rfl ?_ ?_
    · intro t kind _ ts
      split
      · rename_i n value
        split
        · exact .refuse fun _ _ => nofun
        · rename_i p fits
          rw [if_neg (by decide)]
          split
          · rename_i q opposite
            refine .pure fun rest => ?_
            exact .negative sign ⟨kind, value⟩ (int32?_eq_some_iff.mp fits) (int32?_eq_some_iff.mp opposite)
          · exact .refuse fun _ _ => nofun
      · exact .refuse fun _ _ => nofun
    · refine .here ⟨0, fun rest => ?_⟩
      exact .negative sign ⟨rfl, rfl⟩ (p := 0) (by decide) (by decide)
  · refine .expect_of rfl ?_ ?_
    · intro t kind _ ts
      split
      · rename_i n value
        split
        · exact .refuse fun _ _ => nofun
        · rename_i p fits
          exact .pure fun rest => .positive ⟨kind, value⟩ (int32?_eq_some_iff.mp fits)
      · exact .refuse fun _ _ => nofun
    · refine .here ⟨0, fun rest => ?_⟩
      exact .positive ⟨rfl, rfl⟩ (by decide)

theorem factor : Completes Grammar.Factor Parser.factor := by
  apply Leads.identifier
  intro t name named
  apply Leads.ifTake rfl
  · intro caret isCaret
    apply power.seq
    intro k p power
    exact .spelled fun rest => .raised named isCaret (power rest)
  · exact .spelled fun rest => .plain named

theorem unitExpr (n : Nat) : Completes (Inside .leftBracket Grammar.Unit) (Parser.unitExpr n) := by
  apply Leads.ifTake rfl
  · intro closing closes
    exact .spelled fun rest opening opens => .dimensionless opens closes
  · apply factor.seq
    intro k u first
    apply (factor.many_behind rfl n).seq
    intro l us others
    apply Leads.expect rfl
    intro closing closes _
    refine .spelled fun rest opening opens => ?_
    exact .product opens (.of_repeats (first _) (others (closing :: rest))) closes

theorem type_starts : ∀ kind ∈ typeStart, Viable (Spelled Grammar.Annotation) fun rest => Token.sample kind :: rest := by
  simp only [typeStart, List.forall_mem_cons]
  have unit : Viable (Spelled Grammar.Annotation) fun rest => Token.sample .leftBracket :: rest :=
    .of_kind .rightBracket rfl fun t closes _ => .here ⟨_, fun rest => .quantity (.dimensionless rfl closes)⟩
  exact ⟨.here ⟨_, fun rest => .text rfl⟩, .here ⟨_, fun rest => .bool rfl⟩, .here ⟨_, fun rest => .void rfl⟩, unit,
    List.forall_mem_nil _⟩

theorem type (n : Nat) : Completes Grammar.Annotation (Parser.type n) := by
  have start : Viable (Spelled Grammar.Annotation) fun rest => rest := .of_cons rfl (type_starts .stringType (by decide))
  refine .peekKind ?_ start
  intro kind ts found
  split
  · exact .advance found (by decide) fun t word _ _ => .pure fun rest => .text word
  · exact .advance found (by decide) fun t word _ _ => .pure fun rest => .bool word
  · exact .advance found (by decide) fun t word _ _ => .pure fun rest => .void word
  · refine .advance found (by decide) fun t opens _ => Leads.follows ?_
    apply (unitExpr n).seq
    intro k u unit
    exact .spelled fun rest => .quantity (unit rest t opens)
  · exact .mismatch start fun kind mem => .inl (type_starts kind mem)

/-! ### Expressions -/

theorem primary_starts :
    ∀ kind ∈ primaryStart, Viable (Spelled Grammar.Primary) fun rest => Token.sample kind :: rest := by
  simp only [primaryStart, List.forall_mem_cons]
  have name : Grammar.Names (Token.sample .identifier) ⟨"", .start⟩ := ⟨rfl, rfl, rfl⟩
  have group : Viable (Spelled Grammar.Primary) fun rest => Token.sample .leftParen :: rest := by
    refine .of_kind .trueWord rfl fun t word _ => .of_kind .rightParen rfl fun u closes _ =>
      .here ⟨.literal (.bool true) t.position, fun rest => ?_⟩
    exact .group rfl (.of_primary (.yes word)) closes
  refine ⟨.here ⟨_, fun rest => .int ⟨rfl, rfl⟩ .none⟩, .here ⟨_, fun rest => .float rfl rfl .none⟩,
    .here ⟨_, fun rest => .yes rfl⟩, .here ⟨_, fun rest => .no rfl⟩, .here ⟨_, fun rest => .text rfl rfl⟩,
    .here ⟨_, fun rest => .var name⟩, group, List.forall_mem_nil _⟩

section
variable {nested : Parser Expr} (inner : Completes Grammar.Expression nested) (n : Nat)
include inner

/-- The arguments behind another one, with that one in front of them. -/
theorem argumentsAfter (first : Expr) :
    Completes (fun ts es rest => ∃ others, es = first :: others ∧ Grammar.MoreArguments ts others rest)
      (Parser.argumentsAfter nested n first) := by
  apply (inner.many_behind rfl n).seq
  intro k others repeated
  apply Leads.expect rfl
  intro closing closes _
  exact .spelled fun rest => ⟨others, rfl, .of_repeats closes (repeated (closing :: rest))⟩

theorem arguments : Completes Grammar.Arguments (Parser.arguments nested n) := by
  apply Leads.ifTake rfl
  · intro closing closes
    exact .spelled fun rest => .none closes
  · apply inner.seq
    intro k e first
    apply (argumentsAfter inner n e).last
    rintro ts es rest ⟨others, rfl, more⟩
    exact .some (first ts) more

theorem named (name : Symbol) : Completes (Named name Grammar.Primary) (Parser.named nested n name) := by
  apply Leads.ifTake rfl
  · intro opening opens
    apply (arguments inner n).seq
    intro k es arguments
    exact .spelled fun rest t named => .call named opens (arguments rest)
  · exact .spelled fun rest t named => .var named

omit inner in
/-- There may be a unit behind a number, and what comes next is told of it. -/
theorem suffix {f : Option UnitExpr → Parser β}
    (next : ∀ k unit, Spells Grammar.Suffix k unit → Leads good L (fun rest => c (k rest)) (f unit)) :
    Leads good L c
      (do if ← Parser.take .leftBracket then f (← some <$> Parser.unitExpr n) else f (← Pure.pure none)) := by
  apply Leads.ifTake rfl
  · intro opening opens
    rw [map_eq_pure_bind, bind_assoc]
    apply (unitExpr n).seq
    intro k u unit
    exact next (fun rest => opening :: k rest) (some u) fun rest => .unit (unit rest opening opens)
  · exact next (fun rest => rest) none fun rest => .none

omit inner in
theorem number {ts : List Token} (number : nextKind ts = .intLiteral ∨ nextKind ts = .floatLiteral) :
    Follows (Spelling Grammar.Primary) (Spelled Grammar.Primary) (fun rest => rest) (Parser.number n) ts := by
  have etx : nextKind ts ≠ .etx := by
    obtain kind | kind := number <;> rw [kind] <;> decide
  refine .advance rfl etx fun t kind proper => Leads.follows ?_
  apply suffix
  intro k unit suffix
  obtain ⟨m, counts⟩ | ⟨kind, x, value⟩ := Token.number_value proper (kind ▸ number)
  · simp only [counts.value]
    exact .spelled fun rest => .int counts (suffix rest)
  · simp only [value]
    exact .spelled fun rest => .float kind value (suffix rest)

omit inner in
theorem text {ts : List Token} (kind : nextKind ts = .stringLiteral) :
    Follows (Spelling Grammar.Primary) (Spelled Grammar.Primary) (fun rest => rest) Parser.text ts := by
  refine .advance kind (by decide) fun t kind _ ts => ?_
  split
  · rename_i x value
    exact .pure fun rest => .text kind value
  · exact .refuse fun _ _ => nofun

theorem primary (seed : Option Symbol) :
    Completes (Begun seed Grammar.Primary) (Parser.primary nested n seed) := by
  cases seed with
  | some name => exact named inner n name
  | none =>
    have start : Viable (Spelled Grammar.Primary) fun rest => rest :=
      .of_cons rfl (primary_starts .trueWord (by decide))
    refine .peekKind ?_ start
    intro kind ts found
    split
    · exact number n (.inl found)
    · exact number n (.inr found)
    · exact .advance found (by decide) fun t word _ _ => .pure fun rest => .yes word
    · exact .advance found (by decide) fun t word _ _ => .pure fun rest => .no word
    · exact text found
    · refine Leads.follows (Leads.identifier fun t name isName => ?_) ts
      apply (named inner n name).last
      intro ts e rest primary
      exact primary t isName
    · refine .advance found (by decide) fun opening opens _ => Leads.follows ?_
      apply inner.seq
      intro k e inside
      apply Leads.expect rfl
      intro closing closes _
      exact .spelled fun rest => .group opens (inside (closing :: rest)) closes
    · exact .mismatch start fun kind mem => .inl (primary_starts kind mem)

end

section
variable {operand : Option Symbol → Parser Expr}

theorem unary (inner : ∀ seed, Completes (Begun seed Grammar.Primary) (operand seed)) (seed : Option Symbol) :
    Completes (Begun seed Grammar.Operand) (Parser.unary operand seed) := by
  cases seed with
  | some name => exact (inner (some name)).last fun primary t named => .plain (primary t named)
  | none =>
    refine .peekKind ?_ (.of_kind .trueWord rfl fun t word _ => .here ⟨_, fun rest => .plain (.yes word)⟩)
    rintro kind ts rfl
    split
    · rename_i op found
      have operator := unaryOp?_eq_some_iff.mp found
      refine .advance operator.symm (by cases op <;> decide) fun t operator _ => Leads.follows ?_
      apply (inner none).seq
      intro k e primary
      exact .spelled fun rest => .unary operator (primary rest)
    · exact ((inner none).last fun primary => .plain primary).follows ts

theorem operations {operator? : Kind → Option BinaryOp} {r : Nat} (table : Operators operator? r)
    (inner : Completes (Grammar.Tier r) (operand none)) (n : Nat) :
    Completes (Repeats (Operation r)) (Parser.many (do
      match operator? (← Parser.peekKind) with
      | some op =>
        let token ← Parser.advance
        return some (op, token.position, ← operand none)
      | none => return none) n) := by
  apply many
  intro c os before
  refine .peekKind ?_ (.here ⟨os, before⟩)
  rintro kind ts rfl
  split
  · rename_i op found
    obtain ⟨rank, operator⟩ := (table _ _).mp found
    refine .advance operator.symm (by cases op <;> decide) fun t operator _ => Leads.follows ?_
    apply inner.seq
    intro k right second
    have longer : Spells (Repeats (Operation r)) (fun rest => c (t :: k rest)) (os ++ [(op, t.position, right)]) :=
      fun rest => (before (t :: k rest)).snoc ⟨t, k rest, rfl, operator, rank, rfl, second rest⟩
    exact .pure (fun _ => longer) ⟨_, longer⟩
  · exact .pure (by simpa using before)

theorem tier {operator? : Kind → Option BinaryOp} {r : Nat} (table : Operators operator? r)
    (inner : ∀ seed, Completes (Begun seed (Grammar.Tier r)) (operand seed)) (n : Nat) (seed : Option Symbol) :
    Completes (Begun seed (Grammar.Tier (r + 1))) (Parser.tier operator? operand n seed) := by
  apply (inner seed).seq
  intro k e first
  apply (operations table (inner none) n).seq
  intro l os others
  refine .spelled fun rest => (first (l rest)).imp fun first => ?_
  exact .of_repeats (.tighter first) (others rest)

theorem ladder (inner : ∀ seed, Completes (Begun seed Grammar.Primary) (operand seed)) (n : Nat)
    (seed : Option Symbol) : Completes (Begun seed Grammar.Expression) (Parser.ladder operand n seed) := by
  have operands (seed : Option Symbol) : Completes (Begun seed (Grammar.Tier 0)) (Parser.unary operand seed) :=
    (unary inner seed).last fun operand => operand.imp .operand
  have products := tier product_operators operands n
  have sums := tier sum_operators products n
  have comparisons := tier comparison_operators sums n
  have conjunctions := tier and_operators comparisons n
  exact tier or_operators conjunctions n seed

end

theorem expressionFrom (n : Nat) (seed : Option Symbol) :
    Completes (Begun seed Grammar.Expression) (Parser.expressionFrom n seed) := by
  induction n generalizing seed with
  | zero =>
    have starts (kind : Kind) (mem : kind ∈ primaryStart) :
        Viable (Spelled Grammar.Expression) fun rest => Token.sample kind :: rest := by
      obtain ⟨more, proper, e, holds⟩ := primary_starts kind mem
      exact ⟨more, proper, e, fun rest => .of_primary (holds rest)⟩
    have start : Viable (Spelled Grammar.Expression) fun rest => rest := .of_cons rfl (starts .trueWord (by decide))
    exact ladder (primary (.mismatch start fun kind mem => .inl (starts kind mem)) 0) 0 seed
  | succ n ih => exact ladder (primary (ih none) (n + 1)) (n + 1) seed

theorem expression (n : Nat) : Completes Grammar.Expression (Parser.expression n) := expressionFrom n none

end Completes

/-! ### Statements -/

/-- A step that stands behind what has been read, unless it is a `return` without a value that something else than a
closing brace follows: that is read only in front of such a brace, which is of the kind `kind`. -/
def Precedes (inFunction : Bool) (G : List Token → α → List Token → Prop) (c : Context) (kind : Kind) (a : α) : Prop :=
  ∀ rest, (inFunction = true → kind = .rightBrace → nextKind rest = .rightBrace) → G (c rest) a rest

/-- As `D` says, and not in a function. -/
def Outside (inFunction : Bool) (D : List Token → List Token → Prop) (ts rest : List Token) : Prop :=
  inFunction = false ∧ D ts rest

/-- Of statements every beginning that is read can be continued, as it is expected but for a `return` that is due
outside of functions. -/
def CompletesStatement (inFunction : Bool) (x : Parser Stmt) : Prop :=
  Leads (Precedes inFunction (Grammar.Statement inFunction))
    (SpelledBut (Outside inFunction Due) (Grammar.Statement inFunction)) (fun rest => rest) x

/-- Most statements may stand in front of anything. -/
theorem Leads.precedes {inFunction : Bool} {L : Goal} {c : Context} {x : Parser Stmt}
    (h : Leads (Spelling (Grammar.Statement inFunction)) L c x) :
    Leads (Precedes inFunction (Grammar.Statement inFunction)) L c x where
  follows ts :=
    (h.follows ts).imp (fun _ _ _ holds rest _ => holds rest) (fun _ viable => viable) fun _ excused => excused
  viable := h.viable

namespace Completes

section
variable {inFunction : Bool} (n : Nat)

theorem block {nested : Parser Stmt} (inner : CompletesStatement inFunction nested) :
    CompletesBut (Outside inFunction DueInBody) (Grammar.Body inFunction) (Parser.block nested n) := by
  have close {c : Context} {kind : Kind} {ss : List Stmt}
      (before : Precedes inFunction (Repeats (Grammar.Statement inFunction)) c kind ss) {t : Token}
      (closes : t.kind = .rightBrace) : Spells (Grammar.Body inFunction) (fun rest => c (t :: rest)) ss :=
    fun rest => .of_repeats closes (before (t :: rest) fun _ _ => closes)
  refine ⟨fun ts => ?_, .of_kind .rightBrace rfl fun t closes _ => .here ⟨[], fun rest => .close closes⟩⟩
  refine Follows.bind (Follows.many (Precedes inFunction (Repeats (Grammar.Statement inFunction))) ?_ n
    fun _ _ => .nil) ?_
  · intro c ss ts before
    refine .peekKind ?_
    split
    · exact .pure (by simpa using before)
    · rename_i other
      -- as a statement follows, none of those before it needs a closing brace
      have longer {k : Context} {kind : Kind} {s : Stmt}
          (next : Precedes inFunction (Grammar.Statement inFunction) k kind s) :
          Precedes inFunction (Repeats (Grammar.Statement inFunction)) (fun rest => c (k rest)) kind (ss ++ [s]) :=
        fun rest stop => (before (k rest) fun _ closes => absurd (.inl closes) other).snoc (next rest stop)
      refine Follows.bind (inner.behind ?_ ?_ ts) ?_
      · rintro k ⟨more, proper, s, holds⟩
        refine .of_append proper (.of_kind .rightBrace rfl fun t closes _ => .here ⟨ss ++ [s], ?_⟩)
        have next : Precedes inFunction (Repeats (Grammar.Statement inFunction)) _ .rightBrace (ss ++ [s]) :=
          longer fun rest _ => holds rest
        exact close next closes
      · intro k outside rest
        obtain ⟨rfl, due⟩ := outside rest
        exact ⟨rfl, ss, _, before (k rest) nofun, due⟩
      · rintro w rest s - ⟨k, same, next⟩
        rw [same]
        exact .pure (longer next)
  · intro w rest ss _ before
    refine (Leads.expect rfl fun closing closes _ => ?_ : Leads _ _ _ _).follows rest
    exact .spelled (close before closes)

theorem alternatives {condition : Parser Expr} {body : Parser (List Stmt)}
    (tested : Completes Grammar.Expression condition)
    (inside : CompletesBut (Outside inFunction DueInBody) (Grammar.Body inFunction) body) :
    CompletesBut (Outside inFunction DueInOtherwise) (Grammar.Otherwise inFunction)
      (Parser.alternatives condition body n) := by
  induction n with
  | zero => exact .spelled fun rest => .none
  | succ n ih =>
    apply Leads.ifTake rfl
    · intro word isElse
      apply Leads.ifTake rfl
      · intro further isIf
        apply tested.seq
        intro k e condition
        apply Leads.expect rfl
        intro opening opens _
        apply inside.seq
        · intro l outside rest
          obtain ⟨rfl, ss, mid, before, due⟩ := outside rest
          exact ⟨rfl, mid, .elseIf isElse isIf (condition _) (.mk opens before), due⟩
        intro l ss statements
        apply ih.seq
        · intro m outside rest
          obtain ⟨rfl, mid, alternative, due⟩ := outside rest
          exact ⟨rfl, mid, .later isElse isIf (condition _) (.braces opens (statements (m rest))) alternative, due⟩
        intro m o otherwise
        refine .spelled fun rest => ?_
        exact .elseIf isElse isIf (condition _) (.braces opens (statements (m rest))) (otherwise rest)
      · apply Leads.expect rfl
        intro opening opens _
        apply inside.seq
        · intro k outside rest
          obtain ⟨rfl, ss, mid, before, due⟩ := outside rest
          exact ⟨rfl, mid, .last isElse (.mk opens before), due⟩
        intro k ss statements
        exact .spelled fun rest => .last isElse (.braces opens (statements rest))
    · exact .spelled fun rest => .none

theorem declaration :
    Completes (Inside .letWord (Grammar.Statement inFunction)) (Parser.declaration n) := by
  apply Leads.identifier
  intro t name named
  apply Leads.expect rfl
  intro colon isColon _
  apply (type n).seq
  intro k τ annotated
  apply Leads.expect rfl
  intro equals isAssign _
  apply (expression n).seq
  intro l e value
  refine .spelled fun rest word isLet => ?_
  exact .declare isLet named isColon (annotated (equals :: l rest)) isAssign (value rest)

theorem namedStatement (name : Symbol) :
    Completes (Named name (Grammar.Statement inFunction)) (Parser.namedStatement n name) := by
  have assigned (equals : Token) (isAssign : equals.kind = .assign) :
      Leads (Spelling (Named name (Grammar.Statement inFunction))) (Spelled (Named name (Grammar.Statement inFunction)))
        (fun rest => equals :: rest) (do return .assign name (← Parser.expression n)) := by
    apply (expression n).seq
    intro k e value
    exact .spelled fun rest t named => .assign named isAssign (value rest)
  have called (opening : Token) (opens : opening.kind = .leftParen) :
      Leads (Spelling (Named name (Grammar.Statement inFunction))) (Spelled (Named name (Grammar.Statement inFunction)))
        (fun rest => opening :: rest) (do return .call name (← Parser.arguments (Parser.expression n) n)) := by
    apply (arguments (expression n) n).seq
    intro k es arguments
    exact .spelled fun rest t named => .call named opens (arguments rest)
  apply Leads.ifTake rfl assigned
  apply Leads.ifTake rfl called
  refine .mismatch (.of_cons rfl (assigned (Token.sample .assign) rfl).viable) ?_
  simp only [Truthful, List.forall_mem_cons]
  exact ⟨.inl (assigned _ rfl).viable, .inl (called _ rfl).viable, List.forall_mem_nil _⟩

/-- Outside of functions a `return` is refused as such. -/
theorem returnStatement {D : List Token → List Token → Prop} {ts : List Token} (word : nextKind ts = .returnWord) :
    Follows (Precedes inFunction (Grammar.Statement inFunction)) (SpelledBut D (Grammar.Statement inFunction))
      (fun rest => rest) (Parser.returnStatement inFunction n) ts := by
  refine .advance word (by decide) fun t isReturn _ ts => ?_
  cases inFunction with
  | false => exact .refuse fun _ _ => nofun
  | true =>
    apply Follows.peekKind
    split
    · rename_i same
      apply Follows.pure
      intro rest stop
      obtain ⟨closing, rest, rfl, closes⟩ := exists_of_nextKind (stop rfl same) (by decide)
      exact .retBare rfl isReturn closes
    · refine Leads.follows (Leads.precedes ?_) ts
      apply (expression n).seq
      intro k e value
      exact .spelled fun rest => .ret rfl isReturn (value rest)

end

theorem statement_starts (inFunction : Bool) :
    Truthful (SpelledBut (Outside inFunction Due) (Grammar.Statement inFunction)) (fun rest => rest) statementStart := by
  have name : Names (Token.sample .identifier) ⟨"", .start⟩ := ⟨rfl, rfl, rfl⟩
  have yes (rest : List Token) : Grammar.Expression (Token.sample .trueWord :: rest) _ rest := .of_primary (.yes rfl)
  have braces (rest : List Token) :
      Grammar.Block inFunction (Token.sample .leftBrace :: Token.sample .rightBrace :: rest) [] rest :=
    .braces rfl (.close rfl)
  simp only [Truthful, statementStart, List.forall_mem_cons]
  refine ⟨.inl ?_, .inl ?_, .inl ?_, ?_, .inl ?_, .inl ?_, List.forall_mem_nil _⟩
  · exact ⟨[.sample .identifier, .sample .colon, .sample .stringType, .sample .assign, .sample .trueWord], by decide, _,
      fun rest => .declare rfl name rfl (.text rfl) rfl (yes rest)⟩
  · exact ⟨[.sample .trueWord, .sample .leftBrace, .sample .rightBrace], by decide, _,
      fun rest => .ifElse rfl (yes _) (braces rest) .none⟩
  · exact ⟨[.sample .trueWord, .sample .leftBrace, .sample .rightBrace], by decide, _,
      fun rest => .loop rfl (yes _) (braces rest)⟩
  · cases inFunction with
    | false => exact .inr ⟨trivial, fun rest => ⟨rfl, .here⟩⟩
    | true => exact .inl ⟨[.sample .trueWord], by decide, _, fun rest => .ret rfl rfl (yes rest)⟩
  · exact ⟨[.sample .rightBrace], by decide, _, fun rest => .block (braces rest)⟩
  · exact ⟨[.sample .assign, .sample .trueWord], by decide, _, fun rest => .assign name rfl (yes rest)⟩

theorem statement (inFunction : Bool) (n : Nat) :
    CompletesStatement inFunction (Parser.statement inFunction n) := by
  have starts := statement_starts inFunction
  have start : Viable (SpelledBut (Outside inFunction Due) (Grammar.Statement inFunction)) fun rest => rest := by
    obtain next | ⟨other, -⟩ := starts .leftBrace (by decide)
    · exact .of_cons rfl next
    · cases other
  induction n with
  | zero => exact .mismatch start starts
  | succ n ih =>
    have inside := block n ih
    refine .peekKind ?_ start
    intro kind ts found
    split
    · refine .advance found (by decide) fun word isLet _ => Leads.follows (.precedes ?_)
      apply (declaration n).last
      intro ts s rest declaration
      exact declaration word isLet
    · refine .advance found (by decide) fun word isIf _ => Leads.follows (.precedes ?_)
      apply (expression n).seq
      intro k e condition
      apply Leads.expect rfl
      intro opening opens _
      apply inside.seq
      · intro l outside rest
        obtain ⟨rfl, ss, mid, before, due⟩ := outside rest
        exact ⟨rfl, .inside (.branch isIf (condition _) (.mk opens before)) due⟩
      intro l ss statements
      apply (alternatives n (expression n) inside).seq
      · intro m outside rest
        obtain ⟨rfl, mid, alternative, due⟩ := outside rest
        exact ⟨rfl, .inside (.further isIf (condition _) (.braces opens (statements (m rest))) alternative) due⟩
      intro m o otherwise
      refine .spelled fun rest => ?_
      exact .ifElse isIf (condition _) (.braces opens (statements (m rest))) (otherwise rest)
    · refine .advance found (by decide) fun word isWhile _ => Leads.follows (.precedes ?_)
      apply (expression n).seq
      intro k e condition
      apply Leads.expect rfl
      intro opening opens _
      apply inside.seq
      · intro l outside rest
        obtain ⟨rfl, ss, mid, before, due⟩ := outside rest
        exact ⟨rfl, .inside (.loop isWhile (condition _) (.mk opens before)) due⟩
      intro l ss statements
      exact .spelled fun rest => .loop isWhile (condition _) (.braces opens (statements rest))
    · exact returnStatement n found
    · refine .advance found (by decide) fun opening opens _ => Leads.follows (.precedes ?_)
      apply inside.seq
      · intro k outside rest
        obtain ⟨rfl, ss, mid, before, due⟩ := outside rest
        exact ⟨rfl, .inside (.block (.mk opens before)) due⟩
      intro k ss statements
      exact .spelled fun rest => .block (.braces opens (statements rest))
    · refine Leads.follows (.precedes (Leads.identifier fun t name named => ?_)) ts
      apply (namedStatement n name).last
      intro ts s rest statement
      exact statement t named
    · exact .mismatch start starts

/-! ### Items -/

theorem parameter (n : Nat) : Completes Grammar.Parameter (Parser.parameter n) := by
  apply Leads.identifier
  intro t name named
  apply Leads.expect rfl
  intro colon isColon _
  apply (type n).seq
  intro k τ annotated
  exact .spelled fun rest => .mk named isColon (annotated rest)

/-- The type of a function and its body, from behind the arrow. -/
theorem functionFrom (n : Nat) (name : Symbol) (params : List Param) :
    Completes (fun ts i rest => ∃ τ body mid, i = .function ⟨name, params, τ, body⟩ ∧ Grammar.Annotation ts τ mid ∧
      Grammar.Block true mid body rest) (Parser.functionFrom n name params) := by
  apply (type n).seq
  intro k τ annotated
  apply Leads.expect rfl
  intro opening opens _
  apply (block n (statement true n)).seq
  · intro l outside
    cases (outside []).1
  intro l body inside
  exact .spelled fun rest => ⟨τ, body, _, rfl, annotated _, .braces opens (inside rest)⟩

theorem callOrFunction (n : Nat) (name : Symbol) :
    Completes (Inside .leftParen (Named name Grammar.Item)) (Parser.callOrFunction n name) := by
  have arguments : Completes Grammar.Arguments (Parser.arguments (Parser.expression n) n) :=
    arguments (expression n) n
  apply Leads.ifTake rfl
  · intro closing closes
    apply Leads.ifTake rfl
    · intro arrow isArrow
      apply (functionFrom n name []).last
      rintro ts i rest ⟨τ, body, mid, rfl, returnType, block⟩ opening opens t named
      exact .function named opens (.none closes) isArrow returnType block
    · exact .spelled fun rest opening opens t named => .statement (.call named opens (.none closes))
  have call : Completes (Inside .leftParen (Named name Grammar.Item))
      (do return .statement (.call name (← Parser.arguments (Parser.expression n) n))) := by
    apply arguments.seq
    intro k es arguments
    exact .spelled fun rest opening opens t named => .statement (.call named opens (arguments rest))
  refine .peekKind ?_ call.viable
  intro kind ts _
  split
  · refine Leads.follows (Leads.identifier fun u first isName => ?_) ts
    apply Leads.ifTake rfl
    · intro colon isColon
      apply (type n).seq
      intro k τ annotated
      apply ((parameter n).many_behind rfl n).seq
      intro l others repeated
      apply Leads.expect rfl
      intro closing closes _
      apply Leads.expect rfl
      intro arrow isArrow _
      apply (functionFrom n name _).last
      rintro ts i rest ⟨τ, body, mid, rfl, returnType, block⟩ opening opens t named
      refine .function named opens (.some (.mk isName isColon (annotated _)) ?_) isArrow returnType block
      exact .of_repeats closes (repeated (closing :: arrow :: ts))
    · apply (expressionFrom n (some first)).seq
      intro k e argument
      apply (argumentsAfter (expression n) n e).seq
      intro l es arguments
      refine .spelled fun rest opening opens t named => ?_
      obtain ⟨others, same, more⟩ := arguments rest
      rw [same]
      exact .statement (.call named opens (.some (argument _ u isName) more))
  · exact call.follows ts

theorem item (n : Nat) : CompletesBut Due Grammar.Item (Parser.item n) := by
  have statements := statement false n
  have start : Viable (SpelledBut Due Grammar.Item) fun rest => rest := by
    obtain ⟨more, proper, s, statement⟩ := statements.viable
    exact ⟨more, proper, .statement s, fun rest => .statement (statement rest)⟩
  refine .peekKind ?_ start
  intro kind ts found
  split
  · refine .advance found (by decide) fun word isUnit _ => Leads.follows ?_
    apply Leads.identifier
    intro t name named
    apply Leads.expect rfl
    intro colon isColon _
    apply Leads.expect rfl
    intro opening opens _
    apply (unitExpr n).seq
    intro k u definition
    exact .spelled fun rest => .unit isUnit named isColon (definition rest opening opens)
  · refine Leads.follows (Leads.identifier fun t name named => ?_) ts
    apply Leads.ifTake rfl
    · intro opening opens
      apply (callOrFunction n name).last
      intro ts i rest item
      exact item opening opens t named
    · have read : Completes (Named name (Grammar.Statement false)) (Parser.namedStatement n name) :=
        namedStatement n name
      apply read.seq
      intro k s statement
      exact .spelled fun rest => .statement (statement rest t named)
  · refine Follows.bind (statements.behind ?_ ?_ ts) ?_
    · rintro k ⟨more, proper, s, statement⟩
      exact ⟨more, proper, .statement s, fun rest => .statement (statement rest)⟩
    · exact fun k outside rest => (outside rest).2
    · rintro w rest s - ⟨k, same, statement⟩
      rw [same]
      exact .pure fun rest => .statement (statement rest nofun)

end Completes

/-- Items are to be read to the end. A `return` is excused where it is due outside of functions and the items before it
define no name twice. -/
def Listed : Goal where
  reached c := ∃ is, Grammar.Items (c []) is
  excused c := ∃ is, (Program.ofItems is).Distinct ∧ ∀ rest, ∃ mid, Repeats Grammar.Item (c rest) is mid ∧ Due mid rest

theorem items_of_repeats {ts rest : List Token} {is js : List Item} (before : Repeats Grammar.Item ts is rest)
    (others : Grammar.Items rest js) : Grammar.Items ts (is ++ js) := by
  induction before with
  | nil => exact others
  | cons first _ ih => exact .some first (ih others)

/-- An item is put behind others, unless it redefines something. -/
theorem add_ofItems {is : List Item} (distinct : (Program.ofItems is).Distinct) (i : Item) :
    (∃ r : SyntaxFault, r.Redefines ∧ add (Program.ofItems is) i = refuse (.syntactic r)) ∨
      (Program.ofItems (is ++ [i])).Distinct ∧ add (Program.ofItems is) i = Pure.pure (Program.ofItems (is ++ [i])) := by
  have same : Program.ofItems (is ++ [i]) = (Program.ofItems is).extend [i] := by
    simp only [Program.ofItems, Program.extend, List.filterMap_append, List.append_assoc]
  rw [same]
  obtain ⟨q, added⟩ | redefined := add_cases (Program.ofItems is) i
  · obtain kept | ⟨-, r, refused⟩ := add_eq distinct i
    · exact .inr kept
    · rw [refused] at added
      cases congrFun added ⟨[], .ok .start⟩
  · exact .inl redefined

/-- The items that have been read can be followed by others. -/
theorem items_follows (n rounds : Nat) {is : List Item} (distinct : (Program.ofItems is).Distinct) {c : Context}
    {ts : List Token} (before : Spells (Repeats Grammar.Item) c is) :
    Follows (fun _ _ _ => True) Listed c (items n rounds (Program.ofItems is)) ts := by
  induction rounds generalizing is c ts with
  | zero => exact .pure trivial
  | succ rounds ih =>
    have reach (k : Context) (h : Viable (SpelledBut Due Grammar.Item) k) : Viable Listed fun rest => c (k rest) := by
      obtain ⟨more, proper, i, item⟩ := h
      exact ⟨more, proper, _, items_of_repeats (before _) (.some (item []) .none)⟩
    refine .peekKind ?_
    split
    · exact .pure trivial
    · refine Follows.bind ((Completes.item n).behind reach ?_ ts) ?_
      · intro k due
        exact ⟨is, distinct, fun rest => ⟨k rest, before (k rest), due rest⟩⟩
      rintro w rest i - ⟨k, same, item⟩
      rw [same]
      obtain ⟨r, redefines, refused⟩ | ⟨still, added⟩ := add_ofItems distinct i
      · rw [refused]
        refine fun _ _ => .refused ?_
        cases redefines <;> exact fun _ _ => nofun
      · rw [added, pure_bind]
        exact ih still fun rest => (before (k rest)).snoc (item rest)

/-- Tokens that are cut into items are read to the end, unless a definition is repeated. -/
theorem items_ends {ts : List Token} {is : List Item} (h : Grammar.Items ts is) {n rounds : Nat}
    (room : ts.length ≤ n) (enough : ts.length ≤ rounds) (p : Program) (position : Position) :
    (∃ q, (items n rounds p ⟨ts, .ok position⟩).map Prod.fst = .ok q) ∨
      ∃ r : SyntaxFault, r.Redefines ∧
        (items n rounds p ⟨ts, .ok position⟩).map Prod.fst = .error (.syntactic r) := by
  induction h generalizing rounds p with
  | none =>
    refine .inl ⟨p, ?_⟩
    cases rounds <;> rfl
  | @some i is ts rest first others ih =>
    have shorter := first.passes.shorter
    obtain ⟨rounds, rfl⟩ : ∃ k, rounds = k + 1 := ⟨rounds - 1, by omega⟩
    have more : nextKind ts ≠ .etx := fun same => absurd (same ▸ first.nextKind_mem) (by decide)
    have read := item_reads first room (nextKind_mem_statementEnd others) position
    rw [items, bind_apply, peekKind_apply]
    dsimp only [Except.bind]
    rw [if_neg more, bind_apply, read]
    dsimp only [Except.bind]
    obtain ⟨q, added⟩ | ⟨r, redefines, refused⟩ := add_cases p i
    · rw [added, pure_bind]
      exact ih (by omega) (by omega) q
    · rw [refused]
      exact .inr ⟨r, redefines, rfl⟩

end Parser

end Mensura
