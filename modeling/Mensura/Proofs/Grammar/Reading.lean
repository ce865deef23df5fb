import Mensura.Proofs.Grammar.Basic

/-!
What a parser does with tokens behind which the text ends, from both sides: that it reads a given tree from them,
and what must be true of the tokens if it reads anything. Both follow the parser step by step, and repetition is a
relation of its own.
-/

namespace Mensura

open Token (Kind)

/-- The tokens are proper, and if none is left then the text has ended, without a fault. -/
structure TokenStream.Regular (s : TokenStream) : Prop where
  proper : ∀ t ∈ s.tokens, t.isProper
  ends : s.tokens = [] → ∃ position, s.ending = .ok position

namespace Parser

variable {α β : Type}

/-- From the tokens `ts`, behind which the text ends, `a` is read, and the tokens `rest` are left. -/
def Reads (x : Parser α) (ts : List Token) (a : α) (rest : List Token) : Prop :=
  ∀ ending, x ⟨ts, .ok ending⟩ = .ok (a, ⟨rest, .ok ending⟩)

/-- Whatever is read from the tokens `ts` of a regular stream, it and the tokens that are left are as `good` says.
What is left is regular again: where a fault ends the text, reading does not get to its end. -/
def After (ts : List Token) (x : Parser α) (good : α → List Token → Prop) : Prop :=
  ∀ ending, TokenStream.Regular ⟨ts, ending⟩ → ∀ a s, x ⟨ts, ending⟩ = .ok (a, s) →
    ∃ rest, s = ⟨rest, ending⟩ ∧ s.Regular ∧ good a rest

/-- The kind of the token that comes next. Behind the last token it is that of the mark of the end. -/
def nextKind : List Token → Kind
  | [] => .etx
  | t :: _ => t.kind

theorem exists_of_nextKind {ts : List Token} {kind : Kind} (h : nextKind ts = kind) (more : kind ≠ .etx) :
    ∃ t rest, ts = t :: rest ∧ t.kind = kind := by
  cases ts with
  | nil => exact absurd h.symm more
  | cons t rest => exact ⟨t, rest, rfl, h⟩

section
variable {x : Parser α} {f : α → Parser β} {ts mid rest : List Token} {a : α} {b : β}

/-! ### Reading -/

theorem bind_apply (s : TokenStream) : (x >>= f) s = (x s).bind fun r => f r.1 r.2 := rfl

theorem Reads.pure (a : α) (ts : List Token) : Reads (Pure.pure a) ts a ts := fun _ => rfl

theorem Reads.bind (first : Reads x ts a mid) (next : Reads (f a) mid b rest) : Reads (x >>= f) ts b rest := by
  intro ending
  rw [bind_apply, first ending]
  exact next ending

theorem Reads.map {g : α → β} (h : Reads x ts a rest) : Reads (g <$> x) ts (g a) rest := by
  rw [map_eq_pure_bind]
  exact h.bind (.pure _ _)

theorem Reads.unique {a' : α} {rest' : List Token} (h : Reads x ts a rest) (h' : Reads x ts a' rest') :
    a = a' ∧ rest = rest' := by
  have same := (h Position.start).symm.trans (h' Position.start)
  cases same
  exact ⟨rfl, rfl⟩

theorem peekKind_reads (ts : List Token) : Reads peekKind ts (nextKind ts) ts := by
  intro ending
  cases ts <;> rfl

theorem advance_reads (t : Token) (ts : List Token) : Reads advance (t :: ts) t ts := by
  intro ending
  cases ts <;> rfl

theorem take_reads {kind : Kind} {t : Token} (same : t.kind = kind) (ts : List Token) :
    Reads (take kind) (t :: ts) true ts := by
  refine (peekKind_reads _).bind ?_
  rw [if_pos (show nextKind (t :: ts) = kind from same)]
  exact (advance_reads t ts).bind (.pure _ _)

/-- Another token stays where it is. -/
theorem take_reads_none {kind : Kind} (other : nextKind ts ≠ kind) : Reads (take kind) ts false ts := by
  refine (peekKind_reads _).bind ?_
  rw [if_neg other]
  exact .pure _ _

theorem expect_reads {kind : Kind} {t : Token} (same : t.kind = kind) (ts : List Token) :
    Reads (expect kind) (t :: ts) t ts := by
  refine (peekKind_reads _).bind ?_
  rw [if_pos (show nextKind (t :: ts) = kind from same)]
  exact advance_reads t ts

/-! ### What has been read -/

variable {good better : α → List Token → Prop}

theorem After.pure {a : α} (h : good a ts) : After ts (Pure.pure a) good := by
  intro ending regular b s read
  cases read
  exact ⟨ts, rfl, regular, h⟩

theorem After.refuse {r : Refusal} : After ts (Parser.refuse r) good := nofun

theorem After.mismatch {expected : List Kind} : After ts (Parser.mismatch expected) good := nofun

theorem After.bind {good : β → List Token → Prop} (h : After ts x fun a mid => After mid (f a) good) :
    After ts (x >>= f) good := by
  intro ending regular b s read
  rw [bind_apply] at read
  cases first : x ⟨ts, ending⟩ with
  | error r => rw [first] at read; cases read
  | ok r =>
    obtain ⟨a, u⟩ := r
    rw [first] at read
    obtain ⟨mid, rfl, regular, next⟩ := h ending regular a u first
    exact next ending regular b s read

theorem After.mono (h : After ts x good) (implies : ∀ a rest, good a rest → better a rest) : After ts x better := by
  intro ending regular a s read
  obtain ⟨rest, same, regular, holds⟩ := h ending regular a s read
  exact ⟨rest, same, regular, implies a rest holds⟩

/-- First one parser, then another from where the first one has stopped. -/
theorem After.seq {good : α → List Token → Prop} {better : β → List Token → Prop} (first : After ts x good)
    (next : ∀ a mid, good a mid → After mid (f a) better) : After ts (x >>= f) better :=
  .bind (first.mono next)

theorem After.map {g : α → β} {better : β → List Token → Prop} (h : After ts x good)
    (implies : ∀ a rest, good a rest → better (g a) rest) : After ts (g <$> x) better := by
  rw [map_eq_pure_bind]
  exact h.seq fun a rest holds => .pure (implies a rest holds)

/-- What holds of proper tokens may be used. -/
theorem After.of_head {t : Token} (h : t.isProper = true → After (t :: rest) x good) : After (t :: rest) x good :=
  fun ending regular => h (regular.proper t List.mem_cons_self) ending regular

end

/-! ### One token -/

section
variable {f : Token → Parser β} {yes no : Parser β} {kind : Kind} {t : Token} {ts rest : List Token} {b : β}
  {good : β → List Token → Prop}

theorem Reads.ifTake_yes (same : t.kind = kind) (h : Reads yes ts b rest) :
    Reads (do if ← take kind then yes else no) (t :: ts) b rest :=
  (take_reads same ts).bind h

theorem Reads.ifTake_no (other : nextKind ts ≠ kind) (h : Reads no ts b rest) :
    Reads (do if ← take kind then yes else no) ts b rest :=
  (take_reads_none other).bind h

theorem peekKind_apply (ts : List Token) (ending : Except LexicalError Position) :
    Parser.peekKind ⟨ts, ending⟩ = .ok (nextKind ts, ⟨ts, ending⟩) := by
  cases ts <;> cases ending <;> rfl

theorem After.peekKind {g : Kind → Parser β} (next : After ts (g (nextKind ts)) good) :
    After ts (Parser.peekKind >>= g) good := by
  intro ending regular b s read
  rw [bind_apply, peekKind_apply] at read
  exact next ending regular b s read

theorem After.advance_cons (next : After rest (f t) good) : After (t :: rest) (Parser.advance >>= f) good := by
  intro ending regular b s read
  have proper : ∀ u ∈ rest, u.isProper := fun u mem => regular.proper u (List.mem_cons_of_mem t mem)
  cases rest with
  | cons u rest => exact next ending ⟨proper, nofun⟩ b s (by cases ending <;> exact read)
  | nil =>
    cases ending with
    | error fault => cases read
    | ok position => exact next (.ok position) ⟨proper, fun _ => ⟨position, rfl⟩⟩ b s read

theorem After.advance (same : nextKind ts = kind) (more : kind ≠ .etx)
    (next : ∀ t rest, ts = t :: rest → t.kind = kind → After rest (f t) good) :
    After ts (Parser.advance >>= f) good := by
  obtain ⟨t, rest, rfl, same⟩ := exists_of_nextKind same more
  exact .advance_cons (next t rest rfl same)

theorem After.take {g : Bool → Parser β} (more : kind ≠ .etx)
    (taken : ∀ t rest, ts = t :: rest → t.kind = kind → After rest (g true) good)
    (left : nextKind ts ≠ kind → After ts (g false) good) : After ts (Parser.take kind >>= g) good := by
  refine .bind (.peekKind ?_)
  split
  · rename_i same
    refine .advance same more ?_
    intro t rest split same
    exact .pure (taken t rest split same)
  · rename_i other
    exact .pure (left other)

theorem After.ifTake (more : kind ≠ .etx)
    (taken : ∀ t rest, ts = t :: rest → t.kind = kind → After rest yes good)
    (left : nextKind ts ≠ kind → After ts no good) : After ts (do if ← Parser.take kind then yes else no) good :=
  .take more taken left

theorem After.expect (more : kind ≠ .etx)
    (next : ∀ t rest, ts = t :: rest → t.kind = kind → After rest (f t) good) :
    After ts (Parser.expect kind >>= f) good := by
  refine .bind (.peekKind ?_)
  split
  · rename_i same
    rw [← bind_pure Parser.advance]
    refine .advance same more ?_
    intro t rest split same
    exact .pure (next t rest split same)
  · exact .mismatch

end

/-! ### Repetition -/

/-- One step after the other, from the tokens `ts` to the tokens that are left behind the last one. -/
inductive Repeats (step : List Token → α → List Token → Prop) : List Token → List α → List Token → Prop where
  | nil {ts : List Token} : Repeats step ts [] ts
  | cons {a : α} {as : List α} {ts mid rest : List Token} (first : step ts a mid) (others : Repeats step mid as rest) :
      Repeats step ts (a :: as) rest

section
variable {step : List Token → α → List Token → Prop} {item : Parser (Option α)} {ts mid rest : List Token}
  {as : List α} {a : α}

theorem Repeats.snoc (h : Repeats step ts as mid) (last : step mid a rest) : Repeats step ts (as ++ [a]) rest := by
  induction h with
  | nil => exact .cons last .nil
  | cons first _ ih => exact .cons first (ih last)

theorem Repeats.begins {good : List Token → Prop} (h : Repeats step ts as rest)
    (begins : ∀ {ts a rest}, step ts a rest → good ts) (stop : good rest) : good ts := by
  cases h with
  | nil => exact stop
  | cons first _ => exact begins first

/-- A repetition is read if each of its steps is. What follows a step is the next one or the end, and the tokens in
front of a step are no more than at the start. -/
theorem Reads.many (good : List Token → Prop) {bound : Nat}
    (takes : ∀ {ts a rest}, step ts a rest → rest.length < ts.length)
    (begins : ∀ {ts a rest}, step ts a rest → good ts)
    (reads : ∀ {ts a rest}, step ts a rest → ts.length ≤ bound → good rest → Reads item ts (some a) rest)
    (repeated : Repeats step ts as rest) (room : ts.length ≤ bound) {n : Nat} (enough : ts.length ≤ n)
    (stop : good rest) (stops : Reads item rest none rest) : Reads (many item n) ts as rest := by
  induction repeated generalizing n with
  | nil =>
    cases n with
    | zero => exact .pure _ _
    | succ n => exact stops.bind (.pure _ _)
  | cons first others ih =>
    have shorter := takes first
    obtain ⟨n, rfl⟩ : ∃ k, n = k + 1 := ⟨n - 1, by omega⟩
    have follows := others.begins begins stop
    exact (reads first room follows).bind ((ih (by omega) (by omega) stop stops).bind (.pure _ _))

theorem After.many (step : List Token → α → List Token → Prop) (h : ∀ ts, After ts item fun o rest => match o with
      | none => rest = ts
      | some a => step ts a rest) (n : Nat) (ts : List Token) :
    After ts (many item n) fun as rest => Repeats step ts as rest := by
  induction n generalizing ts with
  | zero => exact .pure .nil
  | succ n ih =>
    refine (h ts).seq ?_
    intro o mid read
    cases o with
    | none =>
      cases read
      exact .pure .nil
    | some a =>
      refine (ih mid).seq ?_
      intro as rest others
      exact .pure (.cons read others)

end

/-! ### Names -/

/-- A name is read if no fault comes next behind it. -/
theorem identifier_apply {t : Token} {symbol : Symbol} (named : Grammar.Names t symbol) {ts : List Token}
    {ending : Except LexicalError Position} (ends : ts = [] → ∃ position, ending = .ok position) :
    identifier ⟨t :: ts, ending⟩ = .ok (symbol, ⟨ts, ending⟩) := by
  have moves : advance ⟨t :: ts, ending⟩ = .ok (t, ⟨ts, ending⟩) := by
    cases ts with
    | nil =>
      obtain ⟨position, rfl⟩ := ends rfl
      rfl
    | cons u ts => cases ending <;> rfl
  have found : expect .identifier ⟨t :: ts, ending⟩ = .ok (t, ⟨ts, ending⟩) := by
    rw [expect, bind_apply, peekKind_apply]
    exact (congrFun (if_pos named.kind) _).trans moves
  rw [identifier, bind_apply, found]
  simp only [Except.bind, named.value, named.position]
  rfl

theorem identifier_reads {t : Token} {symbol : Symbol} (named : Grammar.Names t symbol) (ts : List Token) :
    Reads identifier (t :: ts) symbol ts :=
  fun ending => identifier_apply named fun _ => ⟨ending, rfl⟩

theorem After.identifier {f : Symbol → Parser β} {ts : List Token} {good : β → List Token → Prop}
    (next : ∀ t symbol rest, ts = t :: rest → Grammar.Names t symbol → After rest (f symbol) good) :
    After ts (Parser.identifier >>= f) good := by
  refine .bind (.expect (by decide) fun t rest split kind => ?_)
  split
  · rename_i name value
    exact .pure (next t _ rest split ⟨kind, value, rfl⟩)
  · exact .refuse

end Parser

end Mensura
