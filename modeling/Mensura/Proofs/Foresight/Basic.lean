import Mensura.Proofs.Grammar.Soundness

/-!
How far a parser looks ahead. It moves behind some tokens, none of which is the mark of the end, and of what comes next
it sees the kind only. So behind that token the source may go on in any way, and the bound on the reading may be any
that suffices. Two runs are compared here, of one parser or of two that differ in their bounds; running one parser after
the other, looking at one token and repeating an item keep to this.
-/

namespace Mensura

open Token (Kind)

namespace TokenStream

/-- What the stream gives when it is asked for the next token for the `i`-th time, counted from 0. -/
def answer (s : TokenStream) (i : Nat) : Except LexicalError Token :=
  match s.tokens[i]? with
  | some token => .ok token
  | none => s.ending.map Token.etx

/-- The stream with tokens put in front of it. -/
def prepend (w : List Token) (s : TokenStream) : TokenStream := ⟨w ++ s.tokens, s.ending⟩

/-- What is seen of a stream before it is moved: the kind of the next token, unless a fault comes next. -/
def glance (s : TokenStream) : Except LexicalError Kind := (s.answer 0).map fun token => token.kind

/-- No fault comes next. -/
def Open (s : TokenStream) : Prop := ∃ kind, s.glance = .ok kind

variable {s : TokenStream} {w : List Token}

theorem prepend_nil (s : TokenStream) : s.prepend [] = s := rfl

theorem prepend_append (v w : List Token) (s : TokenStream) : s.prepend (v ++ w) = (s.prepend w).prepend v := by
  simp only [prepend, List.append_assoc]

theorem length_prepend (w : List Token) (s : TokenStream) :
    (s.prepend w).tokens.length = w.length + s.tokens.length := List.length_append

theorem open_of_ok (ts : List Token) (p : Position) : (TokenStream.mk ts (.ok p)).Open := by
  cases ts <;> exact ⟨_, rfl⟩

/-- Tokens that are the same in front of two streams hide all but what is seen of these. -/
theorem glance_prepend {r r' : TokenStream} (same : r'.glance = r.glance) (w : List Token) :
    (r'.prepend w).glance = (r.prepend w).glance := by
  cases w with
  | nil => exact same
  | cons t w => rfl

theorem Open.answer (h : s.Open) : s.answer 0 = .ok s.peek := by
  obtain ⟨kind, h⟩ := h
  obtain ⟨_ | ⟨t, ts⟩, _ | p⟩ := s
  · cases h
  all_goals rfl

theorem Open.glance (h : s.Open) : s.glance = .ok s.peek.kind := by
  rw [TokenStream.glance, h.answer]
  rfl

theorem kind_of_glance {kind : Kind} (h : s.glance = .ok kind) : s.peek.kind = kind := by
  have seen : s.Open := ⟨kind, h⟩
  exact Except.ok.inj (seen.glance.symm.trans h)

theorem glance_of_nil (h : s.Open) (last : s.tokens = []) : s.glance = .ok .etx := by
  obtain ⟨tokens, ending⟩ := s
  obtain rfl : tokens = [] := last
  obtain ⟨kind, h⟩ := h
  cases ending with
  | error e => cases h
  | ok p => rfl

/-- Any token but the mark of the end stands in front of something. -/
theorem exists_of_peek (h : s.peek.kind ≠ .etx) : ∃ r : TokenStream, s = r.prepend [s.peek] := by
  obtain ⟨_ | ⟨t, ts⟩, ending⟩ := s
  · cases ending <;> exact absurd rfl h
  · exact ⟨⟨ts, ending⟩, by cases ending <;> rfl⟩

theorem peek_prepend (t : Token) (w : List Token) (s : TokenStream) : (s.prepend (t :: w)).peek = t := by
  cases h : s.ending <;> simp only [prepend, peek, h, List.cons_append]

theorem behind_prepend (h : s.Open) (t : Token) : (s.prepend [t]).behind = .ok s := by
  obtain ⟨_ | ⟨u, ts⟩, ending⟩ := s
  · obtain ⟨kind, h⟩ := h
    cases ending with
    | error e => cases h
    | ok p => rfl
  · cases ending <;> rfl

theorem behind_prepend_fault {e : LexicalError} (h : s.glance = .error e) (t : Token) :
    (s.prepend [t]).behind = .error (.lexical e) := by
  obtain ⟨_ | ⟨u, ts⟩, ending⟩ := s
  · cases ending with
    | error fault => cases h; rfl
    | ok p => cases h
  · cases h

end TokenStream

namespace Parser

variable {α β : Type}

/-! ### Two readings that stop at the same place -/

/-- Two readings have stopped in front of `r` and of `r'`: with the same value, if at least as many tokens as are
due for it have been read, or for the same reason. A token that is refused is the next one. -/
inductive Stopped (due : α → Nat) (w : List Token) (r r' : TokenStream) :
    Except Refusal (α × TokenStream) → Except Refusal (α × TokenStream) → Prop where
  | read {a : α} (paid : due a ≤ w.length) (more : r.Open) : Stopped due w r r' (.ok (a, r)) (.ok (a, r'))
  | mismatch {expected : List Kind} (more : r.Open) :
      Stopped due w r r' (.error (.syntactic (.mismatch expected r.peek)))
        (.error (.syntactic (.mismatch expected r'.peek)))
  | refused {q : Refusal} (other : ∀ expected found, q ≠ .syntactic (.mismatch expected found)) :
      Stopped due w r r' (.error q) (.error q)

/-- From `s` the parser `x` reads some tokens and stops, and `y` does so too where these tokens are followed by
anything that looks the same, as long as there are fewer than `b` tokens. Where a fault follows them, it is told. -/
def Sees (due : α → Nat) (b : Nat) (x y : Parser α) (s : TokenStream) : Prop :=
  ∃ w r, s = TokenStream.prepend w r ∧ (∀ t ∈ w, t.kind ≠ .etx) ∧ Stopped due w r r (x s) (x s) ∧
    (∀ r' : TokenStream, r'.glance = r.glance → w.length + r'.tokens.length < b →
      Stopped due w r r' (x s) (y (r'.prepend w))) ∧
    ∀ e, w ≠ [] → w.length < b → y ⟨w, .error e⟩ = .error (.lexical e)

/-- The parsers stop at the same places, the one among fewer than `b` tokens and the other among fewer than `b'`. -/
def Foresight (due : α → Nat) (b b' : Nat) (x y : Parser α) : Prop :=
  ∀ s : TokenStream, s.Open → s.tokens.length < b → Sees due b' x y s

/-- Nothing has to be read. -/
abbrev free : α → Nat := fun _ => 0

/-- An item of a list takes a token. -/
def perItem : Option α → Nat
  | none => 0
  | some _ => 1

variable {due : α → Nat} {owed : β → Nat} {b b' n m : Nat} {x y : Parser α} {f g : α → Parser β}

theorem Stopped.again {w : List Token} {r r' : TokenStream} {out out' : Except Refusal (α × TokenStream)}
    (h : Stopped due w r r' out out') : Stopped due w r r out out := by
  cases h with
  | read paid more => exact .read paid more
  | mismatch more => exact .mismatch more
  | refused other => exact .refused other

/-- Something else may be due, if it has been read as well. -/
theorem Stopped.imp {less : α → Nat} {w v : List Token} {r r' : TokenStream}
    {out out' : Except Refusal (α × TokenStream)} (h : Stopped due w r r' out out')
    (easier : ∀ a, due a ≤ w.length → less a ≤ v.length) : Stopped less v r r' out out' := by
  cases h with
  | read paid more => exact .read (easier _ paid) more
  | mismatch more => exact .mismatch more
  | refused other => exact .refused other

/-- What has not been read is not read on. -/
theorem Stopped.bind_error {w v : List Token} {r r' : TokenStream} {q : Refusal}
    {out : Except Refusal (α × TokenStream)} (h : Stopped due w r r' (.error q) out)
    (k k' : α × TokenStream → Except Refusal (β × TokenStream)) :
    Stopped owed v r r' ((Except.error q).bind k) (out.bind k') := by
  cases h with
  | mismatch more => exact .mismatch more
  | refused other => exact .refused other

theorem Sees.pure {a : α} {s : TokenStream} (seen : s.Open) (nothing : due a = 0) :
    Sees due b (Pure.pure a) (Pure.pure a) s :=
  have paid : due a ≤ ([] : List Token).length := Nat.le_of_eq nothing
  ⟨[], s, rfl, List.forall_mem_nil _, .read paid seen, fun _ _ _ => .read paid seen, fun _ taken => absurd rfl taken⟩

namespace Foresight

theorem mono {c c' : Nat} {less : α → Nat} (h : Foresight due b b' x y) (left : c ≤ b) (right : c' ≤ b')
    (easier : ∀ a, less a ≤ due a) : Foresight less c c' x y := by
  intro s seen room
  obtain ⟨w, r, split, passed, alone, both, told⟩ := h s seen (Nat.lt_of_lt_of_le room left)
  have paid (a : α) (enough : due a ≤ w.length) : less a ≤ w.length := Nat.le_trans (easier a) enough
  refine ⟨w, r, split, passed, alone.imp paid, ?_, ?_⟩
  · intro r' same room'
    exact (both r' same (Nat.lt_of_lt_of_le room' right)).imp paid
  · intro e taken room'
    exact told e taken (Nat.lt_of_lt_of_le room' right)

theorem fewer {c c' : Nat} (h : Foresight due b b' x y) (left : c ≤ b) (right : c' ≤ b') : Foresight due c c' x y :=
  h.mono left right fun _ => Nat.le_refl _

/-- Among no tokens at all nothing is asked of the other parser. -/
theorem alone {z : Parser α} (h : Foresight due b b' x y) : Foresight due b 0 x z := by
  intro s seen room
  obtain ⟨w, r, split, passed, alone, -⟩ := h s seen room
  exact ⟨w, r, split, passed, alone, fun _ _ room' => absurd room' (Nat.not_lt_zero _),
    fun _ _ room' => absurd room' (Nat.not_lt_zero _)⟩

section
variable (ends : ∀ s s' : TokenStream, s.glance = .ok .etx → s'.glance = .ok .etx → Stopped due [] s s' (x s) (y s'))
include ends

/-- If no token is left, it is enough to know what happens at the end. -/
theorem of_end (short : b ≤ 1) : Foresight due b b' x y := by
  intro s seen room
  have last := TokenStream.glance_of_nil seen (List.length_eq_zero_iff.mp (by omega))
  refine ⟨[], s, rfl, List.forall_mem_nil _, (ends s s last last).again, ?_, fun _ taken => absurd rfl taken⟩
  intro r' same _
  exact ends s r' last (same.trans last)

theorem of_end_right {c : Nat} {z : Parser α} (h : Foresight due b c x z) (short : b' ≤ 1) :
    Foresight due b b' x y := by
  intro s seen room
  obtain ⟨w, r, rfl, passed, alone, -⟩ := h s seen room
  refine ⟨w, r, rfl, passed, alone, ?_, ?_⟩
  · intro r' same room'
    obtain rfl := List.length_eq_zero_iff.mp (show w.length = 0 by omega)
    have seen' : r'.Open := seen.imp fun kind h => same.trans h
    have last := TokenStream.glance_of_nil seen' (List.length_eq_zero_iff.mp (by omega))
    exact ends r r' (same.symm.trans last) last
  · intro e taken room'
    exact absurd (List.length_eq_zero_iff.mp (by omega)) taken

end

/-- Parsers with a number of rounds, which suffices for as many tokens and the end of these: it is enough that one
round more is good for one token more. -/
theorem of_rounds {ι : Type} {x y : ι → Nat → Parser α}
    (ends : ∀ i n m s s', TokenStream.glance s = .ok .etx → TokenStream.glance s' = .ok .etx →
      Stopped due [] s s' (x i n s) (y i m s'))
    (step : ∀ i n m c c', c ≤ b → c' ≤ b' → c ≤ n + 2 → c' ≤ m + 2 →
      (∀ j, Foresight due (c - 1) (c' - 1) (x j n) (y j m)) → Foresight due c c' (x i (n + 1)) (y i (m + 1)))
    (room : b ≤ n + 1) (room' : b' ≤ m + 1) (i : ι) : Foresight due b b' (x i n) (y i m) := by
  induction n generalizing b b' m i with
  | zero => exact of_end (ends i 0 m) room
  | succ n ih =>
    have next (m c : Nat) (less : c ≤ b') (room' : c ≤ m + 2) : Foresight due b c (x i (n + 1)) (y i (m + 1)) := by
      apply step i n m b c (Nat.le_refl b) less room room'
      refine ih ?_ (by omega) (by omega)
      intro j k l d d' left right
      exact step j k l d d' (by omega) (by omega)
    cases m with
    | zero => exact of_end_right (ends i (n + 1) 0) (next 0 0 (Nat.zero_le b') (Nat.zero_le 2)) room'
    | succ m => exact next m b' (Nat.le_refl b') room'

theorem of_round {x y : Nat → Parser α}
    (ends : ∀ n m s s', TokenStream.glance s = .ok .etx → TokenStream.glance s' = .ok .etx →
      Stopped due [] s s' (x n s) (y m s'))
    (step : ∀ n m c c', c ≤ b → c' ≤ b' → c ≤ n + 2 → c' ≤ m + 2 → Foresight due (c - 1) (c' - 1) (x n) (y m) →
      Foresight due c c' (x (n + 1)) (y (m + 1)))
    (room : b ≤ n + 1) (room' : b' ≤ m + 1) : Foresight due b b' (x n) (y m) :=
  of_rounds (x := fun _ => x) (y := fun _ => y) (fun _ => ends)
    (fun _ n m c c' left right enough enough' ih => step n m c c' left right enough enough' (ih ())) room room' ()

/-! ### One after the other -/

theorem pure {a : α} (nothing : due a = 0) : Foresight due b b' (Pure.pure a) (Pure.pure a) :=
  fun _ seen _ => .pure seen nothing

theorem refuse {q : Refusal} (other : ∀ expected found, q ≠ .syntactic (.mismatch expected found)) :
    Foresight due b b' (Parser.refuse q) (Parser.refuse q) :=
  fun s _ _ => ⟨[], s, rfl, List.forall_mem_nil _, .refused other, fun _ _ _ => .refused other, fun _ taken => absurd rfl taken⟩

theorem mismatch (expected : List Kind) :
    Foresight due b b' (Parser.mismatch expected) (Parser.mismatch expected) :=
  fun s seen _ => ⟨[], s, rfl, List.forall_mem_nil _, .mismatch seen, fun _ _ _ => .mismatch seen, fun _ taken => absurd rfl taken⟩

end Foresight

theorem Sees.bind {s : TokenStream} (first : Sees due b' x y s)
    (next : ∀ a w r, s = TokenStream.prepend w r → r.Open → due a ≤ w.length →
      Sees (fun c => owed c - due a) (b' - w.length) (f a) (g a) r) :
    Sees owed b' (x >>= f) (y >>= g) s := by
  obtain ⟨w, r, rfl, passed, alone, both, told⟩ := first
  rw [Sees]
  simp only [bind_apply]
  generalize read : x (r.prepend w) = out at alone both ⊢
  cases out with
  | error q =>
    refine ⟨w, r, rfl, passed, alone.bind_error _ _, ?_, ?_⟩
    · intro r' same room'
      exact (both r' same room').bind_error _ _
    · intro e taken room'
      rw [told e taken room']
      rfl
  | ok result =>
    cases alone with
    | @read a paid more =>
      obtain ⟨v, r, rfl, passed', alone', both', told'⟩ := next a w r rfl more paid
      have total (c : β) (rest : owed c - due a ≤ v.length) : owed c ≤ (w ++ v).length := by
        rw [List.length_append]
        omega
      refine ⟨w ++ v, r, (TokenStream.prepend_append w v r).symm, ?_, alone'.imp total, ?_, ?_⟩
      · intro t mem
        obtain mem | mem := List.mem_append.mp mem
        · exact passed t mem
        · exact passed' t mem
      · intro r' same room'
        rw [List.length_append] at room'
        rw [TokenStream.prepend_append]
        have follows := both (r'.prepend v) (TokenStream.glance_prepend same v) (by
          rw [TokenStream.length_prepend]
          omega)
        generalize y ((r'.prepend v).prepend w) = out' at follows ⊢
        cases follows with
        | read paid more => exact (both' r' same (by omega)).imp total
      · intro e taken room'
        rw [List.length_append] at room'
        cases v with
        | nil =>
          rw [List.append_nil] at taken ⊢
          rw [told e taken (by omega)]
          rfl
        | cons t v =>
          have follows := both ⟨t :: v, .error e⟩ rfl room'
          change Stopped due w _ _ _ (y ⟨w ++ t :: v, .error e⟩) at follows
          generalize y ⟨w ++ t :: v, .error e⟩ = out' at follows ⊢
          cases follows with
          | read paid more => exact told' e nofun (by omega)

namespace Foresight

/-- What is due for the first value has been read before the second parser begins. -/
theorem bind (first : Foresight due b b' x y)
    (next : ∀ a, Foresight (fun c => owed c - due a) (b - due a) (b' - due a) (f a) (g a)) :
    Foresight owed b b' (x >>= f) (y >>= g) := by
  intro s seen room
  apply (first s seen room).bind
  rintro a w r rfl more paid
  rw [TokenStream.length_prepend] at room
  have less : b' - w.length ≤ b' - due a := Nat.sub_le_sub_left paid b'
  exact (next a).fewer (Nat.le_refl _) less r more (by omega)

/-- Nothing is due for the first value. -/
theorem seq (first : Foresight free b b' x y) (next : ∀ a, Foresight owed b b' (f a) (g a)) :
    Foresight owed b b' (x >>= f) (y >>= g) := first.bind next

/-! ### One token -/

theorem peekKind {f g : Kind → Parser β}
    (next : ∀ kind s, TokenStream.Open s → s.tokens.length < b → s.peek.kind = kind →
      Sees owed b' (f kind) (g kind) s) :
    Foresight owed b b' (Parser.peekKind >>= f) (Parser.peekKind >>= g) := by
  intro s seen room
  obtain ⟨w, r, rfl, passed, alone, both, told⟩ := next _ s seen room rfl
  refine ⟨w, r, rfl, passed, alone, ?_, ?_⟩
  · intro r' same room'
    have kind : (r'.prepend w).peek.kind = (r.prepend w).peek.kind := by
      apply TokenStream.kind_of_glance
      rw [TokenStream.glance_prepend same w]
      exact seen.glance
    rw [peekKind_bind, peekKind_bind, kind]
    exact both r' same room'
  · intro e taken room'
    obtain ⟨t, v, rfl⟩ := List.exists_cons_of_ne_nil taken
    have kind : (TokenStream.mk (t :: v) (.error e)).peek.kind = (r.prepend (t :: v)).peek.kind := by
      rw [TokenStream.peek_prepend]
      rfl
    rw [peekKind_bind, kind]
    exact told e taken room'

theorem advance_from {s : TokenStream} (more : s.peek.kind ≠ .etx) :
    Sees (fun _ => 1) b' Parser.advance Parser.advance s := by
  obtain ⟨r, split⟩ := TokenStream.exists_of_peek more
  generalize s.peek = t at split more
  subst split
  have passed : ∀ u ∈ [t], u.kind ≠ .etx := by simpa using more
  have moved (r : TokenStream) : Parser.advance (r.prepend [t]) = (r.prepend [t]).behind.map fun rest => (t, rest) := by
    rw [Parser.advance, TokenStream.peek_prepend]
  have told (e : LexicalError) : Parser.advance ⟨[t], .error e⟩ = .error (.lexical e) := rfl
  cases seen : r.glance with
  | ok kind =>
    have next : r.Open := ⟨kind, seen⟩
    refine ⟨[t], r, rfl, passed, ?_, ?_, fun e _ _ => told e⟩
    · rw [moved, TokenStream.behind_prepend next]
      exact .read (Nat.le_refl _) next
    · intro r' same _
      have next' : r'.Open := ⟨kind, same.trans seen⟩
      rw [moved, moved, TokenStream.behind_prepend next, TokenStream.behind_prepend next']
      exact .read (Nat.le_refl _) next
  | error e =>
    refine ⟨[t], r, rfl, passed, ?_, ?_, fun e _ _ => told e⟩
    · rw [moved, TokenStream.behind_prepend_fault seen]
      exact .refused fun _ _ => nofun
    · intro r' same _
      rw [moved, moved, TokenStream.behind_prepend_fault seen, TokenStream.behind_prepend_fault (same.trans seen)]
      exact .refused fun _ _ => nofun

end Foresight

/-- A token that is not the mark of the end is passed. -/
theorem Sees.pass {f g : Token → Parser β} {s : TokenStream} (more : s.peek.kind ≠ .etx) (room : s.tokens.length < b)
    (next : ∀ t, Foresight (fun c => owed c - 1) (b - 1) (b' - 1) (f t) (g t)) :
    Sees owed b' (Parser.advance >>= f) (Parser.advance >>= g) s := by
  apply (Foresight.advance_from more).bind
  rintro t w r rfl seen paid
  rw [TokenStream.length_prepend] at room
  have less : b' - w.length ≤ b' - 1 := Nat.sub_le_sub_left paid b'
  exact (next t).fewer (Nat.le_refl _) less r seen (by omega)

namespace Foresight

theorem expect {kind : Kind} (more : kind ≠ .etx) :
    Foresight (fun _ => 1) b b' (Parser.expect kind) (Parser.expect kind) := by
  apply peekKind
  rintro found s seen room rfl
  split
  · rename_i same
    exact advance_from (same ▸ more)
  · exact mismatch _ s seen room

/-- A token that has to be there, and nothing is kept of it. -/
theorem skip {kind : Kind} (more : kind ≠ .etx) {x y : Parser β}
    (next : Foresight (fun c => owed c - 1) (b - 1) (b' - 1) x y) :
    Foresight owed b b' (Parser.expect kind >>= fun _ => x) (Parser.expect kind >>= fun _ => y) :=
  (expect more).bind fun _ => next

theorem take {kind : Kind} (more : kind ≠ .etx) :
    Foresight Bool.toNat b b' (Parser.take kind) (Parser.take kind) := by
  apply peekKind
  rintro found s seen room rfl
  split
  · rename_i same
    apply Sees.pass (same ▸ more) room
    intro t
    exact .pure rfl
  · exact .pure seen rfl

theorem ifTake {kind : Kind} (more : kind ≠ .etx) {yes no yes' no' : Parser β}
    (taken : Foresight (fun c => owed c - 1) (b - 1) (b' - 1) yes yes') (left : Foresight owed b b' no no') :
    Foresight owed b b' (do if ← Parser.take kind then yes else no) (do if ← Parser.take kind then yes' else no') := by
  apply (take more).bind
  rintro (_ | _)
  · exact left
  · exact taken

/-! ### Repetition -/

/-- At the end of the tokens there is no item. -/
def Idle (item : Parser (Option α)) : Prop := ∀ s : TokenStream, s.glance = .ok .etx → item s = .ok (none, s)

theorem many_idle {item : Parser (Option α)} (idle : Idle item) (n : Nat) {s : TokenStream}
    (last : s.glance = .ok .etx) : Parser.many item n s = .ok ([], s) := by
  cases n with
  | zero => rfl
  | succ n =>
    rw [Parser.many, bind_apply, idle s last]
    rfl

/-- If there are no more tokens than items may be read, then the bound makes no difference. -/
theorem many {item item' : Parser (Option α)} (h : Foresight perItem b b' item item') (idle : Idle item)
    (idle' : Idle item') (room : b ≤ n + 1) (room' : b' ≤ m + 1) :
    Foresight free b b' (Parser.many item n) (Parser.many item' m) := by
  refine of_round (x := Parser.many item) (y := Parser.many item') ?_ ?_ room room'
  · intro n m s s' last last'
    rw [many_idle idle n last, many_idle idle' m last']
    exact .read (Nat.le_refl 0) ⟨_, last⟩
  · intro n m c c' left right _ _ ih
    apply (h.fewer left right).bind
    intro o
    cases o with
    | none => exact .pure rfl
    | some a =>
      apply Foresight.seq ih
      intro as
      exact .pure rfl

/-- What is read behind a separator, as often as there is one. -/
theorem many_behind {kind : Kind} (more : kind ≠ .etx) {x y : Parser α}
    (h : Foresight free (b - 1) (b' - 1) x y) (room : b ≤ n + 1) (room' : b' ≤ m + 1) :
    Foresight free b b' (Parser.many (do if ← Parser.take kind then return some (← x) else return none) n)
      (Parser.many (do if ← Parser.take kind then return some (← y) else return none) m) := by
  have idle (x : Parser α) : Idle (do if ← Parser.take kind then return some (← x) else return none) := by
    intro s last
    have other : ¬ s.peek.kind = kind := by
      rw [TokenStream.kind_of_glance last]
      exact more.symm
    rw [Parser.take, bind_assoc, peekKind_bind, if_neg other]
    rfl
  apply many _ (idle x) (idle y) room room'
  apply ifTake more
  · exact h.seq fun a => .pure rfl
  · exact .pure rfl

end Foresight

end Parser

end Mensura
