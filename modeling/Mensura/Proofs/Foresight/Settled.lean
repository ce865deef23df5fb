import Mathlib.Data.Finset.Lattice.Fold
import Mathlib.Data.Finset.Range
import Mensura.Proofs.Foresight.Parser

/-!
What reading is settled by. A reading stops at one place, however the source goes on behind the token that is seen
there and however long it is, and comments change nothing about that: they are left out before the parser sees them.
Main statement: a stream is read as the same as any other one that begins with the same tokens and then shows the same
kind, and a fault in that place is told.
-/

namespace Mensura

open Token (Kind)

namespace Parser

variable {α : Type} {due : α → Nat} {n : Nat}

/-- Readings that stop in front of the same tokens come to the same. -/
theorem Stopped.eq {w : List Token} {r : TokenStream} {out out' : Except Refusal (α × TokenStream)}
    (h : Stopped due w r r out out') : out = out' := by
  cases h <;> rfl

/-- Reading with just as large a bound as there are tokens. -/
def itemsWithin (p : Program) : Parser Program := fun s => items s.tokens.length s.tokens.length p s

theorem items_eq_itemsWithin (p : Program) {s : TokenStream} (seen : s.Open) (room : s.tokens.length ≤ n) :
    items n n p s = itemsWithin p s := by
  have enough : s.tokens.length < n + 1 := Nat.lt_succ_of_le room
  obtain ⟨w, r, rfl, -, -, both, -⟩ := Foresight.items p (Nat.le_refl (n + 1)) (Nat.le_refl (s.tokens.length + 1))
    (Nat.le_refl (n + 1)) (Nat.le_refl (s.tokens.length + 1)) s seen enough
  have same := both r rfl
  rw [TokenStream.length_prepend] at same
  rw [itemsWithin, TokenStream.length_prepend]
  exact (same (Nat.lt_succ_self _)).eq

end Parser

/-- A bounded number that suits each of more and more demands suits all of them. -/
theorem exists_forall_of_bounded {P : Nat → Nat → Prop} {bound : Nat} (fewer : ∀ k N M, N ≤ M → P M k → P N k)
    (h : ∀ N, ∃ k ≤ bound, P N k) : ∃ k ≤ bound, ∀ N, P N k := by
  by_contra none
  push Not at none
  choose! late fails using none
  obtain ⟨k, small, holds⟩ := h ((Finset.range (bound + 1)).sup late)
  have within : late k ≤ (Finset.range (bound + 1)).sup late :=
    Finset.le_sup (Finset.mem_range.mpr (Nat.lt_succ_of_le small))
  exact fails k small (fewer k _ _ within holds)

namespace Parser

/-- However the stream goes on behind what is seen, reading stops at the same place. -/
theorem itemsWithin_stops (p : Program) {s : TokenStream} (seen : s.Open) :
    ∃ w r, s = TokenStream.prepend w r ∧ (∀ t ∈ w, t.kind ≠ .etx) ∧
      (∀ r' : TokenStream, r'.glance = r.glance →
        Stopped free w r r' (itemsWithin p s) (itemsWithin p (r'.prepend w))) ∧
      ∀ e, w ≠ [] → itemsWithin p ⟨w, .error e⟩ = .error (.lexical e) := by
  -- for every bound on the length there is such a place, and there are only finitely many
  let Suits (N k : Nat) : Prop :=
    let w := s.tokens.take k
    let r : TokenStream := ⟨s.tokens.drop k, s.ending⟩
    (∀ t ∈ w, t.kind ≠ .etx) ∧
      (∀ r' : TokenStream, r'.glance = r.glance → w.length + r'.tokens.length ≤ N →
        Stopped free w r r' (itemsWithin p s) (itemsWithin p (r'.prepend w))) ∧
      ∀ e, w ≠ [] → w.length ≤ N → itemsWithin p ⟨w, .error e⟩ = .error (.lexical e)
  have fewer (k N M : Nat) (less : N ≤ M) (h : Suits M k) : Suits N k :=
    ⟨h.1, fun r' same room => h.2.1 r' same (Nat.le_trans room less),
      fun e taken room => h.2.2 e taken (Nat.le_trans room less)⟩
  have somewhere (N : Nat) : ∃ k ≤ s.tokens.length, Suits N k := by
    obtain ⟨w, r, rfl, passed, -, both, told⟩ := Foresight.items p (Nat.le_refl _) (Nat.le_refl (N + 1))
      (Nat.le_refl _) (Nat.le_refl (N + 1)) s seen (Nat.lt_succ_self _)
    have first : (TokenStream.prepend w r).tokens.take w.length = w := List.take_left
    have others : (TokenStream.prepend w r).tokens.drop w.length = r.tokens := List.drop_left
    refine ⟨w.length, by rw [TokenStream.length_prepend]; omega, ?_⟩
    simp only [Suits, first, others]
    refine ⟨passed, fun r' same room => ?_, fun e taken room => ?_⟩
    · have seen' : (r'.prepend w).Open := by
        obtain ⟨kind, h⟩ := seen
        exact ⟨kind, (TokenStream.glance_prepend same w).trans h⟩
      have enough : (r'.prepend w).tokens.length ≤ N := by rwa [TokenStream.length_prepend]
      rw [← items_eq_itemsWithin p seen' enough]
      exact both r' same (Nat.lt_succ_of_le room)
    · have seen' : (TokenStream.mk w (.error e)).Open := by
        obtain ⟨t, v, rfl⟩ := List.exists_cons_of_ne_nil taken
        exact ⟨_, rfl⟩
      rw [← items_eq_itemsWithin p seen' room]
      exact told e taken (Nat.lt_succ_of_le room)
  obtain ⟨k, -, holds⟩ := exists_forall_of_bounded fewer somewhere
  refine ⟨_, _, ?_, (holds 0).1, fun r' same => (holds _).2.1 r' same (Nat.le_refl _),
    fun e taken => (holds _).2.2 e taken (Nat.le_refl _)⟩
  rw [TokenStream.prepend, List.take_append_drop]

end Parser

namespace TokenStream

variable {s r : TokenStream} {w : List Token}

theorem withoutComments_prepend (w : List Token) (s : TokenStream) :
    (s.prepend w).withoutComments = s.withoutComments.prepend (w.filter fun t => t.kind != .comment) := by
  simp only [withoutComments, prepend, List.filter_append]

/-- Where no comment comes next, comments make no difference to what does. -/
theorem answer_withoutComments (h : s.glance ≠ .ok .comment) : s.withoutComments.answer 0 = s.answer 0 := by
  obtain ⟨_ | ⟨t, ts⟩, ending⟩ := s
  · rfl
  · have kept : (t.kind != .comment) = true := bne_iff_ne.mpr fun same => h (congrArg Except.ok same)
    simp only [withoutComments, List.filter_cons, kept, if_true]
    rfl

theorem glance_withoutComments (h : s.glance ≠ .ok .comment) : s.withoutComments.glance = s.glance := by
  rw [glance, answer_withoutComments h, glance]

theorem peek_withoutComments (h : s.glance ≠ .ok .comment) (seen : s.Open) : s.withoutComments.peek = s.peek := by
  have seen' : s.withoutComments.Open := by rwa [Open, glance_withoutComments h]
  have same := answer_withoutComments h
  rw [seen'.answer, seen.answer] at same
  exact Except.ok.inj same

theorem answer_prepend (w : List Token) (s : TokenStream) : (s.prepend w).answer w.length = s.answer 0 := by
  simp only [answer, prepend, List.getElem?_append_right (Nat.le_refl _), Nat.sub_self]

theorem exists_mem_of_lt {i : Nat} (early : i < w.length) (s : TokenStream) :
    ∃ t ∈ w, (s.prepend w).answer i = .ok t := by
  refine ⟨w.get ⟨i, early⟩, List.get_mem w _, ?_⟩
  simp only [answer, prepend, List.getElem?_append_left early, List.getElem?_eq_getElem early, List.get_eq_getElem]

/-- Tokens that are answered with are there, and behind them what is answered next. -/
theorem exists_of_answers (passed : ∀ t ∈ w, t.kind ≠ .etx)
    (same : ∀ i ≤ w.length, s.answer i = (r.prepend w).answer i) :
    ∃ r' : TokenStream, s = r'.prepend w ∧ r'.answer 0 = r.answer 0 := by
  induction w generalizing s with
  | nil => exact ⟨s, rfl, same 0 (Nat.le_refl 0)⟩
  | cons t w ih =>
    obtain ⟨_ | ⟨u, ts⟩, ending⟩ := s
    · have first := same 0 (Nat.zero_le _)
      cases ending with
      | error e => cases first
      | ok p => exact absurd (Except.ok.inj first ▸ rfl) (passed t List.mem_cons_self)
    · obtain rfl : u = t := Except.ok.inj (same 0 (Nat.zero_le _))
      obtain ⟨r', split, next⟩ := ih (s := ⟨ts, ending⟩) (fun t mem => passed t (List.mem_cons_of_mem u mem))
        fun i le => same (i + 1) (Nat.succ_le_succ le)
      refine ⟨r', ?_, next⟩
      rw [TokenStream.mk.injEq] at split
      simp only [prepend] at split ⊢
      rw [split.1, split.2]
      rfl

theorem exists_of_withoutComments (h : s.withoutComments = r.prepend w) :
    ∃ v q, s = prepend v q ∧ v.filter (fun t => t.kind != .comment) = w ∧ q.withoutComments = r ∧
      q.glance ≠ .ok .comment := by
  obtain ⟨tokens, ending⟩ := s
  obtain ⟨ts, ending'⟩ := r
  obtain ⟨split, rfl⟩ := TokenStream.mk.inj h
  obtain ⟨front, back, rfl, rfl, rest⟩ := List.filter_eq_append_iff.mp split
  cases ts with
  | nil =>
    refine ⟨front ++ back, ⟨[], ending⟩, ?_, ?_, rfl, ?_⟩
    · simp only [prepend, List.append_nil]
    · rw [List.filter_append, rest, List.append_nil]
    · cases ending <;> simp [glance, answer, Except.map, Token.etx]
  | cons t ts =>
    obtain ⟨comments, others, rfl, dropped, kept, rfl⟩ := List.filter_eq_cons_iff.mp rest
    refine ⟨front ++ comments, ⟨t :: others, ending⟩, ?_, ?_, ?_, ?_⟩
    · simp only [prepend, List.append_assoc]
    · rw [List.filter_append, List.filter_eq_nil_iff.mpr dropped, List.append_nil]
    · simp only [withoutComments, List.filter_cons, kept, if_true]
    · exact fun same => absurd (Except.ok.inj same) (bne_iff_ne.mp kept)

end TokenStream

namespace Program

theorem ofTokens_of_open {s : TokenStream} (h : s.withoutComments.Open) :
    ofTokens s = (Parser.itemsWithin .empty s.withoutComments).map Prod.fst := by
  unfold ofTokens
  generalize s.withoutComments = u at h ⊢
  obtain ⟨_ | ⟨t, ts⟩, ending⟩ := u
  · obtain ⟨kind, h⟩ := h
    cases ending with
    | error e => cases h
    | ok p => rfl
  · rfl

theorem ofTokens_of_fault {s : TokenStream} {e : LexicalError} (h : s.withoutComments.glance = .error e) :
    ofTokens s = .error (.lexical e) := by
  unfold ofTokens
  generalize s.withoutComments = u at h ⊢
  obtain ⟨_ | ⟨t, ts⟩, ending⟩ := u
  · cases ending with
    | error fault => cases h; rfl
    | ok p => cases h
  · cases h

/-- What a stream is read as, compared with one that is the same up to `r` and `r'`: the same, but for the token that
is refused. -/
inductive Settled (r r' : TokenStream) : Except Refusal Program → Except Refusal Program → Prop where
  | mismatch {expected : List Kind} (more : r.Open) : Settled r r'
      (.error (.syntactic (.mismatch expected r.peek))) (.error (.syntactic (.mismatch expected r'.peek)))
  | same {out : Except Refusal Program}
      (other : ∀ expected found, out ≠ .error (.syntactic (.mismatch expected found))) : Settled r r' out out

/-- Reading stops in front of a token of which it sees the kind only, and none of the tokens before it is the mark of
the end. However the stream goes on from there, it is read as the same, but a fault in that place is told. -/
theorem ofTokens_settled (s : TokenStream) :
    ∃ w r, s = TokenStream.prepend w r ∧ (∀ t ∈ w, t.kind ≠ .etx) ∧ r.glance ≠ .ok .comment ∧
      (∀ r' : TokenStream, r'.glance = r.glance → Settled r r' (ofTokens s) (ofTokens (r'.prepend w))) ∧
      ∀ e, ofTokens ⟨w, .error e⟩ = .error (.lexical e) := by
  cases first : s.withoutComments.glance with
  | error e =>
    obtain ⟨w, r, rfl, comments, same, next⟩ :=
      TokenStream.exists_of_withoutComments (TokenStream.prepend_nil s.withoutComments).symm
    refine ⟨w, r, rfl, ?_, next, ?_, ?_⟩
    · intro t mem
      have comment := List.filter_eq_nil_iff.mp comments t mem
      simp_all
    · intro r' glance
      have fault : (r'.prepend w).withoutComments.glance = .error e := by
        rw [TokenStream.withoutComments_prepend, comments, TokenStream.prepend_nil,
          TokenStream.glance_withoutComments (glance ▸ next), glance, ← TokenStream.glance_withoutComments next, same,
          first]
      rw [ofTokens_of_fault first, ofTokens_of_fault fault]
      exact .same fun _ _ => nofun
    · intro e
      apply ofTokens_of_fault
      rw [TokenStream.withoutComments, comments]
      rfl
  | ok kind =>
    obtain ⟨v, q, split, passed, stops, told⟩ := Parser.itemsWithin_stops .empty ⟨kind, first⟩
    obtain ⟨w, r, rfl, rfl, rfl, next⟩ := TokenStream.exists_of_withoutComments split
    refine ⟨w, r, rfl, ?_, next, ?_, ?_⟩
    · intro t mem etx
      exact passed t (List.mem_filter.mpr ⟨mem, by rw [etx]; decide⟩) etx
    · intro r' glance
      have next' : r'.glance ≠ .ok .comment := glance ▸ next
      have later : r'.withoutComments.glance = r.withoutComments.glance := by
        rw [TokenStream.glance_withoutComments next', TokenStream.glance_withoutComments next, glance]
      have seen : (r'.prepend w).withoutComments.Open := by
        refine ⟨kind, ?_⟩
        rw [TokenStream.withoutComments_prepend, TokenStream.glance_prepend later, ← split, first]
      have stopped := stops r'.withoutComments later
      rw [← TokenStream.withoutComments_prepend] at stopped
      rw [ofTokens_of_open ⟨kind, first⟩, ofTokens_of_open seen]
      generalize Parser.itemsWithin .empty (TokenStream.prepend w r).withoutComments = out,
        Parser.itemsWithin .empty (r'.prepend w).withoutComments = out' at stopped
      cases stopped with
      | read paid more => exact .same fun _ _ => nofun
      | refused other => exact .same fun expected found same => other expected found (Except.error.inj same)
      | mismatch more =>
        have more : r.Open := by rwa [TokenStream.Open, TokenStream.glance_withoutComments next] at more
        have more' : r'.Open := by rwa [TokenStream.Open, glance]
        rw [TokenStream.peek_withoutComments next more, TokenStream.peek_withoutComments next' more']
        exact .mismatch more
    · intro e
      by_cases none : (w.filter fun t => t.kind != .comment) = []
      · apply ofTokens_of_fault
        rw [TokenStream.withoutComments, none]
        rfl
      · obtain ⟨t, v, some⟩ := List.exists_cons_of_ne_nil none
        have seen : (TokenStream.mk w (.error e)).withoutComments.Open := by
          rw [TokenStream.withoutComments, some]
          exact ⟨_, rfl⟩
        rw [ofTokens_of_open seen, TokenStream.withoutComments, told e none]
        rfl

end Program

end Mensura
