import Mensura.Proofs.Grammar.Program

/-!
Statements that are due outside of functions. Such a place is reached from the beginning of a statement through the
blocks that stand open in it, behind statements that are complete. Main statement: a `return` that stands there is
refused as one outside of functions, whatever comes behind it.
-/

namespace Mensura

open Token (Kind)
open Mensura.Parser (Repeats nextKind statementStart)

/-- Steps leave no more tokens than they have found. -/
theorem Parser.Repeats.length_le {α : Type} {step : List Token → α → List Token → Prop} {as : List α}
    {ts rest : List Token} (h : Repeats step ts as rest)
    (takes : ∀ {ts a rest}, step ts a rest → rest.length < ts.length) : rest.length ≤ ts.length := by
  induction h with
  | nil => exact Nat.le_refl _
  | cons first _ ih => exact Nat.le_trans ih (Nat.le_of_lt (takes first))

namespace Grammar

/-- From an opening brace to a place behind complete statements, outside of functions. -/
inductive Enters : List Token → List Token → Prop where
  | mk {opening : Token} {ss : List Stmt} {ts mid : List Token} (opens : opening.kind = .leftBrace)
      (before : Repeats (Statement false) ts ss mid) : Enters (opening :: ts) mid

/-- From behind a branch of an `if` into a further one. -/
inductive Alternative : List Token → List Token → Prop where
  | last {word : Token} {ts mid : List Token} (isElse : word.kind = .elseWord) (enters : Enters ts mid) :
      Alternative (word :: ts) mid
  | elseIf {word further : Token} {c : Expr} {ts us mid : List Token} (isElse : word.kind = .elseWord)
      (isIf : further.kind = .ifWord) (condition : Expression ts c us) (enters : Enters us mid) :
      Alternative (word :: further :: ts) mid
  | later {word further : Token} {c : Expr} {body : List Stmt} {ts us vs mid : List Token}
      (isElse : word.kind = .elseWord) (isIf : further.kind = .ifWord) (condition : Expression ts c us)
      (block : Block false us body vs) (alternative : Alternative vs mid) : Alternative (word :: further :: ts) mid

/-- From the beginning of a statement into one of its blocks. -/
inductive Nests : List Token → List Token → Prop where
  | block {ts mid : List Token} (enters : Enters ts mid) : Nests ts mid
  | loop {word : Token} {c : Expr} {ts us mid : List Token} (isWhile : word.kind = .whileWord)
      (condition : Expression ts c us) (enters : Enters us mid) : Nests (word :: ts) mid
  | branch {word : Token} {c : Expr} {ts us mid : List Token} (isIf : word.kind = .ifWord)
      (condition : Expression ts c us) (enters : Enters us mid) : Nests (word :: ts) mid
  | further {word : Token} {c : Expr} {body : List Stmt} {ts us vs mid : List Token} (isIf : word.kind = .ifWord)
      (condition : Expression ts c us) (first : Block false us body vs) (alternative : Alternative vs mid) :
      Nests (word :: ts) mid

/-- From the beginning of a statement to where one is due in it, be it that statement itself. -/
inductive Due : List Token → List Token → Prop where
  | here {ts : List Token} : Due ts ts
  | inside {ts mid rest : List Token} (nests : Nests ts mid) (due : Due mid rest) : Due ts rest

theorem Enters.shorter {ts mid : List Token} (h : Enters ts mid) : mid.length < ts.length := by
  cases h with
  | mk _ before => exact Nat.lt_succ_of_le (before.length_le fun h => h.passes.shorter)

theorem Alternative.shorter {ts mid : List Token} (h : Alternative ts mid) : mid.length < ts.length := by
  induction h with
  | last _ enters => exact Nat.lt_succ_of_lt enters.shorter
  | elseIf _ _ condition enters =>
    have := condition.passes.shorter
    have := enters.shorter
    simp only [List.length_cons]
    omega
  | later _ _ condition block _ ih =>
    have := condition.passes.shorter
    have := block.passes.shorter
    simp only [List.length_cons]
    omega

theorem Due.nextKind_mem {ts rest : List Token} (h : Due ts rest) (begins : nextKind rest = .returnWord) :
    nextKind ts ∈ [Kind.returnWord, .leftBrace, .whileWord, .ifWord] := by
  cases h with
  | here => simp [begins]
  | inside nests due =>
    cases nests with
    | block enters =>
      cases enters with
      | mk opens _ => simp [nextKind, opens]
    | loop word | branch word | further word => simp [nextKind, word]

theorem Due.nextKind_mem_statementStart {ts rest : List Token} (h : Due ts rest)
    (begins : nextKind rest = .returnWord) : nextKind ts ∈ statementStart := by
  have starts : ∀ kind ∈ [Kind.returnWord, .leftBrace, .whileWord, .ifWord], kind ∈ statementStart := by decide
  exact starts _ (h.nextKind_mem begins)

/-- From behind an opening brace to where a statement is due. -/
def DueInBody (ts rest : List Token) : Prop := ∃ ss mid, Repeats (Statement false) ts ss mid ∧ Due mid rest

/-- From behind a branch of an `if` to where a statement is due in a further one. -/
def DueInOtherwise (ts rest : List Token) : Prop := ∃ mid, Alternative ts mid ∧ Due mid rest

end Grammar

namespace Parser

open Grammar (Enters Alternative Nests Due)

/-- The tokens are refused for `r`. -/
def Refuses {α : Type} (x : Parser α) (ts : List Token) (r : Refusal) : Prop :=
  ∀ ending, x ⟨ts, .ok ending⟩ = .error r

section
variable {α β : Type} {x : Parser α} {f : α → Parser β} {ts mid rest : List Token} {a : α} {r : Refusal}

theorem Refuses.bind (first : Refuses x ts r) : Refuses (x >>= f) ts r := by
  intro ending
  rw [bind_apply, first ending]
  rfl

theorem Reads.refuses (first : Reads x ts a mid) (next : Refuses (f a) mid r) : Refuses (x >>= f) ts r := by
  intro ending
  rw [bind_apply, first ending]
  exact next ending

theorem Refuses.ifTake_yes {kind : Kind} {yes no : Parser β} {t : Token} (same : t.kind = kind) (h : Refuses yes ts r) :
    Refuses (do if ← take kind then yes else no) (t :: ts) r :=
  (take_reads same ts).refuses h

theorem Refuses.ifTake_no {kind : Kind} {yes no : Parser β} (other : nextKind ts ≠ kind) (h : Refuses no ts r) :
    Refuses (do if ← take kind then yes else no) ts r :=
  (take_reads_none other).refuses h

/-- Behind items that are read the next one is refused. -/
theorem Refuses.many {step : List Token → α → List Token → Prop} {item : Parser (Option α)} {as : List α}
    (good : List Token → Prop) {bound : Nat} (takes : ∀ {ts a rest}, step ts a rest → rest.length < ts.length)
    (begins : ∀ {ts a rest}, step ts a rest → good ts)
    (reads : ∀ {ts a rest}, step ts a rest → ts.length ≤ bound → good rest → Reads item ts (some a) rest)
    (repeated : Repeats step ts as mid) (room : ts.length ≤ bound) {n : Nat} (enough : ts.length ≤ n)
    (more : 0 < mid.length) (stop : good mid) (refused : Refuses item mid r) : Refuses (many item n) ts r := by
  induction repeated generalizing n with
  | nil =>
    obtain ⟨n, rfl⟩ : ∃ k, n = k + 1 := ⟨n - 1, by omega⟩
    exact refused.bind
  | cons first others ih =>
    have shorter := takes first
    obtain ⟨n, rfl⟩ : ∃ k, n = k + 1 := ⟨n - 1, by omega⟩
    have follows := others.begins begins stop
    exact (reads first room follows).refuses (ih (by omega) (by omega) more stop refused).bind

end

section
variable {ts mid rest : List Token} {r : Refusal} {n bound : Nat}

theorem block_refuses {nested : Parser Stmt}
    (inner : ∀ ts s rest, Grammar.Statement false ts s rest → ts.length ≤ n → nextKind rest ∈ statementEnd →
      Reads nested ts s rest) {ss : List Stmt} (before : Repeats (Grammar.Statement false) ts ss mid)
    (room : ts.length ≤ n) (begins : nextKind mid ∈ statementStart)
    (refused : Refuses nested mid r) : Refuses (block nested n) ts r := by
  have more : 0 < mid.length := by
    cases mid with
    | nil => exact absurd begins (by decide)
    | cons => exact Nat.succ_pos _
  have goesOn {ts : List Token} (begins : nextKind ts ∈ statementStart) :
      ¬ (nextKind ts = .rightBrace ∨ nextKind ts = .etx) := by
    rintro (same | same) <;> exact absurd (same ▸ begins) (by decide)
  have stops {ts : List Token} (begins : nextKind ts ∈ statementStart) : nextKind ts ∈ statementEnd :=
    List.mem_append_right [Kind.rightBrace, .etx, .unitWord] begins
  apply Refuses.bind
  apply Refuses.many (fun ts => nextKind ts ∈ statementEnd) (fun h => h.passes.shorter) (fun h => stops h.nextKind_mem)
    ?_ before room room more (stops begins)
  · apply (peekKind_reads mid).refuses
    rw [if_neg (goesOn begins)]
    exact refused.bind
  · intro us s vs h room follows
    apply (peekKind_reads us).bind
    rw [if_neg (goesOn h.nextKind_mem)]
    exact (inner us s vs h room follows).bind (.pure _ _)

/-- Behind a condition and the brace that opens a block. -/
theorem condition_refuses {β : Type} {condition : Parser Expr} {f : Expr → Parser β} {c : Expr} {opening : Token}
    (inner : Complete 5 bound condition) (h : Grammar.Expression ts c (opening :: mid)) (room : ts.length < bound)
    (opens : opening.kind = .leftBrace) (next : Refuses (f c) mid r) :
    Refuses (do let c ← condition; let _ ← expect .leftBrace; f c) ts r := by
  apply (inner _ _ _ h room (.of_brace opens)).refuses
  exact (expect_reads opens _).refuses next

/-- A branch in which a statement is refused. -/
theorem alternatives_refuses {condition : Parser Expr} {body : Parser (List Stmt)} (inner : Complete 5 bound condition)
    (inside : ∀ ts ss rest, Grammar.Body false ts ss rest → ts.length < bound → Reads body ts ss rest)
    (entered : ∀ ts ss, Repeats (Grammar.Statement false) ts ss mid → ts.length < bound → Refuses body ts r)
    (h : Alternative ts mid) (room : ts.length ≤ bound) (enough : ts.length ≤ n) :
    Refuses (alternatives condition body n) ts r := by
  induction n generalizing ts with
  | zero => exact absurd h.shorter (by omega)
  | succ n ih =>
    cases h with
    | last isElse enters =>
      obtain ⟨opens, before⟩ := enters
      apply Refuses.ifTake_yes isElse
      apply Refuses.ifTake_no (by simp [nextKind, opens])
      apply (expect_reads opens _).refuses
      exact (entered _ _ before (Nat.lt_of_succ_lt room)).bind
    | elseIf isElse isIf condition enters =>
      have shorter := condition.passes.shorter
      obtain ⟨opens, before⟩ := enters
      simp only [List.length_cons] at room shorter
      apply Refuses.ifTake_yes isElse
      apply Refuses.ifTake_yes isIf
      apply condition_refuses inner condition (by omega) opens
      exact (entered _ _ before (by omega)).bind
    | later isElse isIf condition block alternative =>
      have shorter := condition.passes.shorter
      obtain ⟨opens, statements⟩ := block
      have rests := statements.passes.shorter
      simp only [List.length_cons] at room enough shorter
      apply Refuses.ifTake_yes isElse
      apply Refuses.ifTake_yes isIf
      apply condition_refuses inner condition (by omega) opens
      apply (inside _ _ _ statements (by omega)).refuses
      exact (ih alternative (by omega) (by omega)).bind

/-- Wherever a statement is due in another one a `return` is refused. Each block that stands open takes one of the
rounds. -/
theorem statement_refuses {word : Token} (isReturn : word.kind = .returnWord) (due : Due ts (word :: rest))
    (room : ts.length ≤ n) :
    Refuses (statement false n) ts (.syntactic (.returnOutsideFunction word.position)) := by
  induction n generalizing ts with
  | zero =>
    obtain rfl := List.length_eq_zero_iff.mp (Nat.le_zero.mp room)
    exact absurd (due.nextKind_mem isReturn) (by decide)
  | succ n ih =>
    apply (peekKind_reads ts).refuses
    cases due with
    | here =>
      rw [show nextKind (_ :: _) = .returnWord from isReturn]
      apply (advance_reads _ _).refuses
      exact fun _ => rfl
    | @inside _ mid _ nests due =>
      have tested : Complete 5 (n + 1) (expression n) := expression_reads n
      have inside (ts ss rest) (h : Grammar.Body false ts ss rest) (room : ts.length < n + 1) :
          Reads (block (statement false n) n) ts ss rest :=
        block_reads (fun _ _ _ h room stop => statement_reads h room stop) h (Nat.le_of_lt_succ room)
      have entered (ts ss) (before : Repeats (Grammar.Statement false) ts ss mid) (room : ts.length < n + 1) :
          Refuses (block (statement false n) n) ts (.syntactic (.returnOutsideFunction word.position)) := by
        have fewer := before.length_le fun h => h.passes.shorter
        exact block_refuses (fun _ _ _ h room stop => statement_reads h room stop) before (Nat.le_of_lt_succ room)
          (due.nextKind_mem_statementStart isReturn) (ih due (by omega))
      cases nests with
      | block enters =>
        obtain ⟨opens, before⟩ := enters
        rw [show nextKind (_ :: _) = .leftBrace from opens]
        apply (advance_reads _ _).refuses
        exact (entered _ _ before (Nat.lt_of_succ_le room)).bind
      | loop isWhile condition enters =>
        have shorter := condition.passes.shorter
        obtain ⟨opens, before⟩ := enters
        simp only [List.length_cons] at room shorter
        rw [show nextKind (_ :: _) = .whileWord from isWhile]
        apply (advance_reads _ _).refuses
        apply condition_refuses tested condition (by omega) opens
        exact (entered _ _ before (by omega)).bind
      | branch isIf condition enters =>
        have shorter := condition.passes.shorter
        obtain ⟨opens, before⟩ := enters
        simp only [List.length_cons] at room shorter
        rw [show nextKind (_ :: _) = .ifWord from isIf]
        apply (advance_reads _ _).refuses
        apply condition_refuses tested condition (by omega) opens
        exact (entered _ _ before (by omega)).bind
      | further isIf condition first alternative =>
        have shorter := condition.passes.shorter
        obtain ⟨opens, statements⟩ := first
        have rests := statements.passes.shorter
        simp only [List.length_cons] at room shorter
        rw [show nextKind (_ :: _) = .ifWord from isIf]
        apply (advance_reads _ _).refuses
        apply condition_refuses tested condition (by omega) opens
        apply (inside _ _ _ statements (by omega)).refuses
        exact (alternatives_refuses tested inside entered alternative (by omega) (by omega)).bind

theorem item_refuses {word : Token} (isReturn : word.kind = .returnWord) (due : Due ts (word :: rest))
    (room : ts.length ≤ n) : Refuses (item n) ts (.syntactic (.returnOutsideFunction word.position)) := by
  have refused := statement_refuses isReturn due room
  have begins := due.nextKind_mem isReturn
  apply (peekKind_reads ts).refuses
  simp only [List.mem_cons, List.not_mem_nil, or_false] at begins
  obtain same | same | same | same := begins <;> rw [same] <;> exact refused.bind

/-- Behind items that can be added a `return` is refused wherever a statement is due. -/
theorem items_refuses {is : List Item} {p : Program} {word : Token} {rounds : Nat}
    (before : Repeats Grammar.Item ts is mid) (distinct : (p.extend is).Distinct) (isReturn : word.kind = .returnWord)
    (due : Due mid (word :: rest)) (room : ts.length ≤ n) (enough : ts.length ≤ rounds) :
    Refuses (items n rounds p) ts (.syntactic (.returnOutsideFunction word.position)) := by
  have begins := due.nextKind_mem_statementStart isReturn
  induction before generalizing p rounds with
  | @nil ts =>
    have more : ts ≠ [] := by
      rintro rfl
      exact absurd begins (by decide)
    have := List.length_pos_iff.mpr more
    obtain ⟨rounds, rfl⟩ : ∃ k, rounds = k + 1 := ⟨rounds - 1, by omega⟩
    apply (peekKind_reads ts).refuses
    rw [if_neg fun same => absurd (same ▸ begins) (by decide)]
    exact (item_refuses isReturn due room).bind
  | @cons i is ts us mid first others ih =>
    have shorter := first.passes.shorter
    obtain ⟨rounds, rfl⟩ : ∃ k, rounds = k + 1 := ⟨rounds - 1, by omega⟩
    have item {ts rest : List Token} {i : Item} (h : Grammar.Item ts i rest) : nextKind ts ∈ statementEnd :=
      List.mem_append_right [Kind.rightBrace, .etx] h.nextKind_mem
    have follows : nextKind us ∈ statementEnd :=
      others.begins item (List.mem_append_right [Kind.rightBrace, .etx, .unitWord] begins)
    rw [Program.extend_cons] at distinct
    apply (peekKind_reads ts).refuses
    rw [if_neg fun same => absurd (same ▸ first.nextKind_mem) (by decide)]
    apply (item_reads first room follows).refuses
    apply (add_reads distinct.of_extend us).refuses
    exact ih distinct due (by omega) (by omega) begins

end

end Parser

end Mensura
