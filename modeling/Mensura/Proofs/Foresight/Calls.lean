import Mensura.Proofs.Foresight.Settled

/-!
Calls outside of functions. There a name and a parenthesis may begin a function as well as a call, and what tells them
apart is the token behind the next one. So a name is taken before it is known what it belongs to, and an argument that
begins with it is read from behind it. Main statement: unless a function begins there, this comes to what a block
reads from the same tokens, to the same rest or to the same refusal.
-/

namespace Mensura

open Token (Kind)

namespace TokenStream

/-- A function begins behind a name and an opening parenthesis: an arrow stands behind the closing parenthesis, or a
colon behind a name. -/
def BeginsFunction (s : TokenStream) : Prop :=
  ∃ t u rest, s.tokens = t :: u :: rest ∧
    (t.kind = .rightParen ∧ u.kind = .arrow ∨ t.kind = .identifier ∧ u.kind = .colon)

/-- A function begins with the name that comes next. -/
def DefinesFunction (s : TokenStream) : Prop :=
  ∃ name opening r, s = prepend [name, opening] r ∧ opening.kind = .leftParen ∧ r.BeginsFunction

theorem BeginsFunction.of_peek {t : Token} {r : TokenStream}
    (h : t.kind = .rightParen ∧ r.peek.kind = .arrow ∨ t.kind = .identifier ∧ r.peek.kind = .colon) :
    (r.prepend [t]).BeginsFunction := by
  have more : r.peek.kind ≠ .etx := by
    obtain ⟨-, same⟩ | ⟨-, same⟩ := h
    · rw [same]; decide
    · rw [same]; decide
  obtain ⟨rest, split⟩ := exists_of_peek more
  refine ⟨t, r.peek, rest.tokens, ?_, h⟩
  rw [split, peek_prepend]
  rfl

end TokenStream

namespace Parser

variable {α β : Type} {s r : TokenStream} {n m : Nat}

/-! ### One step from a stream -/

/-- What is done next counts for what has been read only. -/
theorem bind_congr_at {x : Parser α} {f g : α → Parser β} (same : ∀ a r, x s = .ok (a, r) → f a r = g a r) :
    (x >>= f) s = (x >>= g) s := by
  rw [bind_apply, bind_apply]
  cases read : x s with
  | error q => rfl
  | ok result => exact same result.1 result.2 read

theorem ifTake_apply (kind : Kind) (yes no : Parser α) (s : TokenStream) :
    (do if ← take kind then yes else no) s =
      if s.peek.kind = kind then (advance >>= fun _ => yes) s else no s := by
  rw [take, bind_assoc, peekKind_bind]
  split
  · simp only [bind_assoc, pure_bind, if_true]
  · rfl

/-- A token that has been taken stood in front of what is left. -/
theorem eq_prepend_of_advance {t : Token} (more : s.peek.kind ≠ .etx) (read : advance s = .ok (t, r)) :
    s = r.prepend [t] := by
  obtain ⟨rest, split⟩ := TokenStream.exists_of_peek more
  rw [split] at read ⊢
  rw [advance, TokenStream.peek_prepend] at read
  cases seen : rest.glance with
  | error e =>
    rw [TokenStream.behind_prepend_fault seen] at read
    cases read
  | ok kind =>
    rw [TokenStream.behind_prepend ⟨kind, seen⟩] at read
    cases read
    rfl

theorem advance_of_expect {kind : Kind} {t : Token} (read : expect kind s = .ok (t, r)) :
    s.peek.kind = kind ∧ advance s = .ok (t, r) := by
  rw [expect, peekKind_bind] at read
  split at read
  · exact ⟨‹_›, read⟩
  · cases read

/-- A name that has been read was the next token. -/
theorem eq_prepend_of_identifier {name : Symbol} (read : identifier s = .ok (name, r)) :
    ∃ t, t.kind = .identifier ∧ s = r.prepend [t] := by
  rw [identifier, bind_apply] at read
  cases found : expect .identifier s with
  | error q =>
    rw [found] at read
    cases read
  | ok result =>
    obtain ⟨t, rest⟩ := result
    obtain ⟨kind, moved⟩ := advance_of_expect found
    have split := eq_prepend_of_advance (by rw [kind]; decide) moved
    rw [split, TokenStream.peek_prepend] at kind
    rw [found] at read
    obtain ⟨⟨_, _ | value⟩, place⟩ := t
    · cases read
    · cases value <;> cases read
      exact ⟨_, kind, split⟩

/-! ### Calls and statements -/

/-- What a block reads behind a name and a parenthesis. -/
def callFrom (n : Nat) (name : Symbol) : Parser Stmt := do
  return .call name (← arguments (expression n) n)

theorem namedStatement_apply (opens : s.peek.kind = .leftParen) (n : Nat) (name : Symbol) :
    namedStatement n name s = (advance >>= fun _ => callFrom n name) s := by
  have other : s.peek.kind ≠ .assign := by rw [opens]; decide
  rw [namedStatement, ifTake_apply, if_neg other, ifTake_apply, if_pos opens]
  rfl

/-- The same in the shape that reading an item has. -/
theorem statement_callFrom (n : Nat) (name : Symbol) :
    Item.statement <$> callFrom n name = (do
      if ← take .rightParen then return .statement (.call name [])
      else
        let first ← expression n
        return .statement (.call name (← argumentsAfter (expression n) n first))) := by
  rw [map_eq_pure_bind, callFrom, arguments, bind_assoc, bind_assoc]
  congr 1
  funext closed
  cases closed with
  | true => rfl
  | false => simp only [bind_assoc, pure_bind, Bool.false_eq_true, if_false]

theorem expression_bind (begins : s.peek.kind = .identifier) (f : Expr → Parser β) :
    (expression n >>= f) s = (identifier >>= fun name => expressionFrom n (some name) >>= f) s := by
  rw [bind_apply, expression, expressionFrom_seeded n s begins, ← bind_apply, bind_assoc]

/-- Where no function begins, the way that may also lead to one leads to the call. -/
theorem callOrFunction_eq_callFrom (call : ¬ s.BeginsFunction) (n : Nat) (name : Symbol) :
    callOrFunction n name s = (Item.statement <$> callFrom n name) s := by
  have shaped := congrFun (statement_callFrom n name) s
  rw [ifTake_apply] at shaped
  rw [callOrFunction, ifTake_apply]
  -- a second token is looked at behind `)` and behind a name only, and it is not the one that begins a function
  split
  · rename_i closes
    rw [shaped, if_pos closes]
    apply bind_congr_at
    intro t r read
    have split := eq_prepend_of_advance (by rw [closes]; decide) read
    have other : r.peek.kind ≠ .arrow := by
      intro arrow
      rw [split, TokenStream.peek_prepend] at closes
      exact call (split ▸ .of_peek (.inl ⟨closes, arrow⟩))
    rw [ifTake_apply, if_neg other]
  · rename_i more
    rw [peekKind_bind]
    split
    · rename_i begins
      rw [shaped, if_neg more, expression_bind begins]
      apply bind_congr_at
      intro first r read
      obtain ⟨t, kind, split⟩ := eq_prepend_of_identifier read
      have other : r.peek.kind ≠ .colon := fun colon => call (split ▸ .of_peek (.inr ⟨kind, colon⟩))
      rw [ifTake_apply, if_neg other]
    · rw [map_eq_pure_bind, callFrom, bind_assoc]
      rfl

/-- A statement that begins with a name is read outside of functions as it is read in a block, if no function begins
there. -/
theorem item_eq_statement (begins : s.peek.kind = .identifier) (noFunction : ¬ s.DefinesFunction) (inFunction : Bool)
    (n : Nat) : item n s = (Item.statement <$> statement inFunction (n + 1)) s := by
  rw [map_eq_pure_bind, statement, item, bind_assoc, peekKind_bind, peekKind_bind, begins]
  dsimp only
  rw [bind_assoc]
  apply bind_congr_at
  intro name r read
  obtain ⟨t, -, split⟩ := eq_prepend_of_identifier read
  rw [ifTake_apply]
  split
  · rename_i opens
    have called : (namedStatement n name >>= fun statement => pure (.statement statement)) r =
        (advance >>= fun _ => Item.statement <$> callFrom n name) r := by
      rw [bind_apply, namedStatement_apply opens]
      change ((advance >>= fun _ => callFrom n name) >>= fun statement => pure (Item.statement statement)) r = _
      rw [bind_assoc]
      rfl
    refine Eq.trans ?_ called.symm
    apply bind_congr_at
    intro u q taken
    apply callOrFunction_eq_callFrom
    intro function
    have next := eq_prepend_of_advance (by rw [opens]; decide) taken
    rw [next, TokenStream.peek_prepend] at opens
    exact noFunction ⟨t, u, q, by rw [split, next]; rfl, opens, function⟩
  · rfl

/-! ### Bounds -/

theorem Foresight.eq {due : α → Nat} {b b' : Nat} {x y : Parser α} (h : Foresight due b b' x y) (seen : s.Open)
    (room : s.tokens.length < b) (room' : s.tokens.length < b') : x s = y s := by
  obtain ⟨w, r, rfl, -, -, both, -⟩ := h s seen room
  rw [TokenStream.length_prepend] at room'
  exact (both r rfl room').eq

theorem Foresight.map {b b' : Nat} {x y : Parser α} (h : Foresight free b b' x y) (f : α → β) :
    Foresight free b b' (f <$> x) (f <$> y) := by
  rw [map_eq_pure_bind, map_eq_pure_bind]
  exact h.seq fun _ => .pure rfl

theorem Foresight.callFrom (name : Symbol) : Foresight free (n + 1) (m + 1) (callFrom n name) (callFrom m name) := by
  apply (arguments (Nat.le_refl _) (Nat.le_refl _) (expression (Nat.le_refl _) (Nat.le_refl _))).seq
  intro es
  exact .pure rfl

/-- Unless a function begins behind a name and a parenthesis, what stands there is read outside of functions as in a
block: as the same call with the same places, up to the same rest, or it is refused for the same reason. An expression
is read as the same from behind its first name, and so is a statement that begins with a name. Only the number of
tokens has to be within the bounds. -/
theorem call_read_alike (seen : s.Open) (room : s.tokens.length ≤ n) (room' : s.tokens.length ≤ m) :
    (¬ s.BeginsFunction → ∀ name, callOrFunction n name s = (Item.statement <$> callFrom m name) s) ∧
    (∀ first r, identifier s = .ok (first, r) → expressionFrom n (some first) r = expression m s) ∧
    (s.peek.kind = .identifier → ¬ s.DefinesFunction → ∀ inFunction,
      item n s = (Item.statement <$> statement inFunction m) s) := by
  have enough : s.tokens.length < n + 1 := Nat.lt_succ_of_le room
  have enough' : s.tokens.length < m + 1 := Nat.lt_succ_of_le room'
  refine ⟨?_, ?_, ?_⟩
  · intro call name
    rw [callOrFunction_eq_callFrom call]
    exact ((Foresight.callFrom name).map Item.statement).eq seen enough enough'
  · intro first r read
    obtain ⟨t, kind, split⟩ := eq_prepend_of_identifier read
    have begins : s.peek.kind = .identifier := by rwa [split, TokenStream.peek_prepend]
    have plain : expression n s = expressionFrom n (some first) r := by
      rw [expression, expressionFrom_seeded n s begins, bind_apply, read]
      rfl
    rw [← plain]
    exact (Foresight.expression (Nat.le_refl _) (Nat.le_refl _)).eq seen enough enough'
  · intro begins noFunction inFunction
    rw [item_eq_statement begins noFunction inFunction]
    -- a block counts a nested statement against the bound, an item does not
    have both : Foresight free (n + 1) (m + 1) (statement inFunction (n + 1)) (statement inFunction m) :=
      (Foresight.statement inFunction (Nat.le_succ _) (Nat.le_refl _)).mono (Nat.le_refl _) (Nat.le_refl _)
        fun _ => Nat.zero_le _
    exact (both.map Item.statement).eq seen enough enough'

/-- What stands behind `f(` in the line `f(a + b, c)`. -/
def sumArguments : TokenStream where
  tokens := [⟨⟨.identifier, some (.text "a")⟩, ⟨1, 3⟩⟩, ⟨⟨.plus, none⟩, ⟨1, 5⟩⟩,
    ⟨⟨.identifier, some (.text "b")⟩, ⟨1, 7⟩⟩, ⟨⟨.comma, none⟩, ⟨1, 8⟩⟩,
    ⟨⟨.identifier, some (.text "c")⟩, ⟨1, 10⟩⟩, ⟨⟨.rightParen, none⟩, ⟨1, 11⟩⟩]
  ending := .ok ⟨1, 12⟩

/-- The line `f(a + b, c)`. -/
def sumCall : TokenStream :=
  sumArguments.prepend [⟨⟨.identifier, some (.text "f")⟩, ⟨1, 1⟩⟩, ⟨⟨.leftParen, none⟩, ⟨1, 2⟩⟩]

theorem sumArguments_begin_no_function : ¬ sumArguments.BeginsFunction := by
  rintro ⟨t, u, rest, split, ⟨closes, -⟩ | ⟨-, colon⟩⟩
  · cases split
    cases closes
  · cases split
    cases colon

theorem sumCall_defines_no_function : ¬ sumCall.DefinesFunction := by
  rintro ⟨name, opening, ⟨tokens, ending⟩, split, -, begins⟩
  cases split
  exact sumArguments_begin_no_function begins

/-- The call `f(a + b, c)`, whose first argument only begins with a name. -/
theorem call_read_alike_sum :
    callOrFunction 6 ⟨"f", ⟨1, 1⟩⟩ sumArguments = (Item.statement <$> callFrom 9 ⟨"f", ⟨1, 1⟩⟩) sumArguments ∧
      expressionFrom 6 (some ⟨"a", ⟨1, 3⟩⟩) ⟨sumArguments.tokens.tail, sumArguments.ending⟩ =
        expression 9 sumArguments ∧
      ∀ inFunction, item 8 sumCall = (Item.statement <$> statement inFunction 9) sumCall := by
  obtain ⟨called, seeded, -⟩ := call_read_alike (s := sumArguments) (n := 6) (m := 9)
    (TokenStream.open_of_ok _ _) (by decide) (by decide)
  obtain ⟨-, -, whole⟩ := call_read_alike (s := sumCall) (n := 8) (m := 9)
    (TokenStream.open_of_ok _ _) (by decide) (by decide)
  exact ⟨called sumArguments_begin_no_function _, seeded _ _ rfl, whole rfl sumCall_defines_no_function⟩

end Parser

end Mensura
