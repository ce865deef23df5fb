import Mathlib.Data.Fintype.EquivFin
import Mensura.Proofs.Foresight.Completion
import Mensura.Proofs.Foresight.Settled
import Mensura.Proofs.Program.Suiting

/-!
The first offending token. Main statement: a token that is refused is the last one that has been asked for, and
without it the tokens before it can be continued to a program; and nothing is asked for behind the mark of the end or
a fault.

What reads here is `Program.ofTokens`: the comments are left out, and the parser reads what remains. It is not the
parser alone, which would refuse a comment like any token that is out of place. So comments are among the answers that
are counted, and none of them is ever the offending token; `ofTokens_filter` says what the parser itself is given.
-/

namespace Mensura

open Token (Kind)

theorem Token.suits_sample (kind : Kind) : (sample kind).suits = true := by
  cases kind <;> rfl

namespace Program

/-- No more than the first `n` answers are asked for: whatever another stream that begins with these goes on with, be
it a fault, it is read as the same. -/
def SettledBy (s : TokenStream) (n : Nat) : Prop :=
  ∀ s' : TokenStream, (∀ i < n, s'.answer i = s.answer i) → ofTokens s' = ofTokens s

/-- By some tokens `before` can be continued to a program, or to what would be one if it did not define a name
twice. -/
def Begins (before : List Token) : Prop :=
  ∃ more : List Token, (∀ t ∈ more, t.suits = true) ∧ ∀ position,
    (∃ p, ofTokens ⟨before ++ more, .ok position⟩ = .ok p) ∨
      ∃ r : SyntaxFault, r.Redefines ∧ ofTokens ⟨before ++ more, .ok position⟩ = .error (.syntactic r)

/-- Reading stops at some place, and does so for every stream that answers in the same way up to there, unless there
is a fault. -/
theorem exists_settledBy (s : TokenStream) :
    ∃ w r, s = TokenStream.prepend w r ∧ (∀ t ∈ w, t.kind ≠ .etx) ∧ SettledBy s (w.length + 1) ∧
      (∀ e, ofTokens ⟨w, .error e⟩ = .error (.lexical e)) ∧
      ∀ expected found, ofTokens s = .error (.syntactic (.mismatch expected found)) →
        r.Open ∧ found = r.peek ∧ found.kind ≠ .comment ∧ ∀ q : TokenStream, q.glance = r.glance →
          ofTokens (q.prepend w) = .error (.syntactic (.mismatch expected q.peek)) := by
  obtain ⟨w, r, rfl, passed, next, settled, told⟩ := ofTokens_settled s
  refine ⟨w, r, rfl, passed, ?_, told, ?_⟩
  · intro s' same
    obtain ⟨r', rfl, next⟩ := TokenStream.exists_of_answers passed fun i le => same i (Nat.lt_succ_of_le le)
    have glance : r'.glance = r.glance := by rw [TokenStream.glance, next, TokenStream.glance]
    have ends := settled r' glance
    generalize ofTokens (TokenStream.prepend w r) = out, ofTokens (r'.prepend w) = out' at ends
    cases ends with
    | same other => rfl
    | mismatch more =>
      have more' : r'.Open := by rwa [TokenStream.Open, glance]
      rw [more'.answer, more.answer] at next
      rw [Except.ok.inj next]
  · intro expected found refused
    rw [refused] at settled
    have more : r.Open ∧ found = r.peek := by
      have ends := settled r rfl
      rw [refused] at ends
      cases ends with
      | mismatch more => exact ⟨more, rfl⟩
      | same other => exact absurd rfl (other _ _)
    obtain ⟨more, rfl⟩ := more
    refine ⟨more, rfl, fun comment => next (more.glance.trans (congrArg Except.ok comment)), ?_⟩
    intro q glance
    have ends := settled q glance
    generalize ofTokens (q.prepend w) = out at ends ⊢
    cases ends with
    | mismatch more => rfl
    | same other => exact absurd rfl (other _ _)

/-- Every answer up to the place where reading stops is asked for: a fault in its place is told. -/
theorem told_of_told {w : List Token} {e : LexicalError} (told : ofTokens ⟨w, .error e⟩ = .error (.lexical e))
    (i : Nat) : ofTokens ⟨w.take i, .error e⟩ = .error (.lexical e) := by
  obtain ⟨v, r, split, -, settled, sooner, -⟩ := exists_settledBy ⟨w.take i, .error e⟩
  obtain ⟨tokens, ending⟩ := r
  obtain ⟨front, rfl⟩ := TokenStream.mk.inj split
  cases tokens with
  | nil =>
    dsimp only at front
    rw [front, List.append_nil]
    exact sooner e
  | cons t ts =>
    -- reading stops before the fault, so it does not make a difference how far that is
    rw [← settled ⟨w, .error e⟩, told]
    intro j early
    have within := congrArg List.length front
    rw [List.length_take, List.length_append, List.length_cons] at within
    simp only [TokenStream.answer, List.getElem?_take_of_lt (show j < i by omega)]

/-- Comments are passed over. -/
theorem ofTokens_filter (w : List Token) (position : Position) :
    ofTokens ⟨w, .ok position⟩ =
      (Parser.itemsWithin .empty ⟨w.filter fun t => t.kind != .comment, .ok position⟩).map Prod.fst :=
  ofTokens_of_open (TokenStream.open_of_ok _ _)

/-- Comments among the first tokens are passed over. -/
theorem ofTokens_append (w : List Token) {ts : List Token} (proper : ∀ t ∈ ts, t.isProper = true)
    (position : Position) :
    ofTokens ⟨w ++ ts, .ok position⟩ =
      (Parser.itemsWithin .empty ⟨(w.filter fun t => t.kind != .comment) ++ ts, .ok position⟩).map Prod.fst := by
  have uncommented : (ts.filter fun t => t.kind != .comment) = ts :=
    (TokenStream.mk.inj (withoutComments_eq proper (.ok position))).1
  rw [ofTokens_filter, List.filter_append, uncommented]

/-- Tokens that can be continued to a list of items are the beginning of a program. -/
theorem begins_of_viable {before : List Token}
    (viable : Parser.Viable Parser.Listed fun rest => (before.filter fun t => t.kind != .comment) ++ rest) :
    Begins before := by
  obtain ⟨more, proper, is, items⟩ := viable
  simp only [List.append_nil] at items
  refine ⟨more, fun t mem => Token.suits_of_isProper (proper t mem), fun position => ?_⟩
  rw [ofTokens_append before proper]
  exact Parser.items_ends items (Nat.le_refl _) (Nat.le_refl _) .empty position

/-- If the token that is refused stands nowhere before, then it shows where reading has stopped. -/
theorem listed_of_mismatch {w ts : List Token} {position : Position} (proper : ∀ t ∈ w ++ ts, t.isProper = true)
    (single : ts = [] ∨ ∃ t, ts = [t]) (apart : (TokenStream.mk ts (.ok position)).peek ∉ w) {expected : List Kind}
    (refused : Parser.itemsWithin .empty ⟨w ++ ts, .ok position⟩ =
      .error (.syntactic (.mismatch expected (TokenStream.mk ts (.ok position)).peek))) :
    Parser.Viable Parser.Listed (fun rest => w ++ rest) ∧
      Parser.Truthful Parser.Listed (fun rest => w ++ rest) expected := by
  have distinct : (ofItems []).Distinct := ⟨List.nodup_nil, List.nodup_nil⟩
  have ended := Parser.items_follows (w ++ ts).length (w ++ ts).length distinct (c := fun rest => rest)
    (fun _ => .nil) proper position
  change Parser.Ended _ _ _ _ _ (Parser.items _ _ .empty _) at ended
  rw [Parser.itemsWithin] at refused
  generalize found : (TokenStream.mk ts (.ok position)).peek = token at refused apart
  dsimp only at refused
  rw [refused] at ended
  cases ended with
  | refused other => exact absurd rfl (other _ _)
  | @mismatch v rest _ split viable truthful =>
    have same : w = v := by
      cases rest with
      | cons u rest =>
        obtain rfl | ⟨t, rfl⟩ := single
        · rw [List.append_nil] at split
          exact absurd (split ▸ List.mem_append_right v List.mem_cons_self) apart
        · exact ((List.append_cons_inj_of_notMem apart List.not_mem_nil).mp split).1
      | nil =>
        rw [List.append_nil] at split
        obtain rfl | ⟨t, rfl⟩ := single
        · rwa [List.append_nil] at split
        · -- what is refused is no mark of the end
          have last : t = .etx position := found
          have := proper t (by simp)
          rw [last] at this
          cases this
    rw [same]
    exact ⟨viable, truthful⟩

/-- A token of the given kind that stands nowhere among the tokens `w`, or the mark of the end. -/
theorem exists_apart {w : List Token} (passed : ∀ t ∈ w, t.kind ≠ .etx) {kind : Kind} (comment : kind ≠ .comment) :
    ∃ ts : List Token, (ts = [] ∨ ∃ t, ts = [t]) ∧ (∀ t ∈ ts, t.isProper = true) ∧
      (TokenStream.mk ts (.ok .start)).peek ∉ w ∧ (TokenStream.mk ts (.ok .start)).glance = .ok kind := by
  by_cases last : kind = .etx
  · refine ⟨[], .inl rfl, List.forall_mem_nil _, ?_, congrArg Except.ok last.symm⟩
    intro mem
    exact passed _ mem rfl
  · obtain ⟨row, unused⟩ := Infinite.exists_notMem_finset (w.map fun t => t.position.row).toFinset
    refine ⟨[⟨(Token.sample kind).toContent, ⟨row, 0⟩⟩], .inr ⟨_, rfl⟩, ?_, ?_, rfl⟩
    · intro t mem
      obtain rfl := List.mem_singleton.mp mem
      exact Token.isProper_of_suits (Token.suits_sample kind) comment last
    · intro mem
      exact unused (List.mem_toFinset.mpr (List.mem_map.mpr ⟨_, mem, rfl⟩))

/-- What is read when a token is refused does not depend on that token, so it may be taken to be one that stands nowhere
before. -/
theorem listed_of_refused {w : List Token} {r : TokenStream} (suits : ∀ t ∈ w, t.suits = true)
    (passed : ∀ t ∈ w, t.kind ≠ .etx) (more : r.Open) (comment : r.peek.kind ≠ .comment) {expected : List Kind}
    (refused : ∀ q : TokenStream, q.glance = r.glance →
      ofTokens (q.prepend w) = .error (.syntactic (.mismatch expected q.peek))) :
    Parser.Viable Parser.Listed (fun rest => (w.filter fun t => t.kind != .comment) ++ rest) ∧
      Parser.Truthful Parser.Listed (fun rest => (w.filter fun t => t.kind != .comment) ++ rest) expected := by
  obtain ⟨ts, single, proper, apart, glance⟩ := exists_apart passed comment
  have elsewhere := refused ⟨ts, .ok .start⟩ (glance.trans more.glance.symm)
  rw [show TokenStream.prepend w ⟨ts, .ok .start⟩ = ⟨w ++ ts, .ok .start⟩ from rfl,
    ofTokens_append w proper] at elsewhere
  have kept : ∀ t ∈ (w.filter fun t => t.kind != .comment) ++ ts, t.isProper = true := by
    intro t mem
    obtain mem | mem := List.mem_append.mp mem
    · obtain ⟨mem, kept⟩ := List.mem_filter.mp mem
      exact Token.isProper_of_suits (suits t mem) (bne_iff_ne.mp kept) (passed t mem)
    · exact proper t mem
  exact listed_of_mismatch kept single (fun mem => apart (List.mem_filter.mp mem).1) (map_eq_error.mp elsewhere)

/-- The tokens before one that is refused are the beginning of a program. -/
theorem begins_of_mismatch {w : List Token} {r : TokenStream} (suits : ∀ t ∈ w ++ r.tokens, t.suits = true)
    (passed : ∀ t ∈ w, t.kind ≠ .etx) (more : r.Open) (comment : r.peek.kind ≠ .comment) {expected : List Kind}
    (refused : ∀ q : TokenStream, q.glance = r.glance →
      ofTokens (q.prepend w) = .error (.syntactic (.mismatch expected q.peek))) : Begins w :=
  begins_of_viable (listed_of_refused (fun t mem => suits t (List.mem_append_left _ mem)) passed more comment refused).1

/-- Errors are found at the first token that offends. Of every source the first answers are asked for, each of them,
as a fault in its place is told, and no others: whatever begins with the same answers is read as the same. None but the
last of them is the mark of the end or a fault, so nothing is asked for behind these. If it is the last one that is
refused, in a source with values that suit their kinds, then the tokens before it are the beginning of a program, or of
what is refused for a repeated definition only. -/
theorem mismatch_at_first_offence (s : TokenStream) :
    ∃ k ≤ s.tokens.length,
      (∀ i < k, ∃ t, s.answer i = .ok t ∧ t.kind ≠ .etx) ∧
      (∀ i ≤ k, ∀ e, ofTokens ⟨s.tokens.take i, .error e⟩ = .error (.lexical e)) ∧
      SettledBy s (k + 1) ∧
      ((∀ t ∈ s.tokens, t.suits = true) → ∀ expected found,
        ofTokens s = .error (.syntactic (.mismatch expected found)) →
          s.answer k = .ok found ∧ Begins (s.tokens.take k)) := by
  obtain ⟨w, r, rfl, passed, settled, told, stops⟩ := exists_settledBy s
  have taken (i : Nat) (le : i ≤ w.length) : (r.prepend w).tokens.take i = w.take i := List.take_append_of_le_length le
  refine ⟨w.length, ?_, ?_, ?_, settled, ?_⟩
  · rw [TokenStream.length_prepend]
    exact Nat.le_add_right _ _
  · intro i early
    obtain ⟨t, mem, there⟩ := TokenStream.exists_mem_of_lt early r
    exact ⟨t, there, passed t mem⟩
  · intro i le e
    rw [taken i le]
    exact told_of_told (told e) i
  · intro suits expected found refused
    obtain ⟨more, rfl, comment, elsewhere⟩ := stops expected found refused
    constructor
    · rw [TokenStream.answer_prepend, more.answer]
    · rw [taken _ (Nat.le_refl _), List.take_length]
      exact begins_of_mismatch suits passed more comment elsewhere

/-- A block with a call in it that is closed too early: a brace stands, behind a comment, where the second argument
should. What comes then is not asked for, nor is the fault behind it. -/
def unfinishedCall : TokenStream where
  tokens := [⟨⟨.leftBrace, none⟩, ⟨1, 1⟩⟩, ⟨⟨.identifier, some (.text "f")⟩, ⟨1, 3⟩⟩, ⟨⟨.leftParen, none⟩, ⟨1, 4⟩⟩,
    ⟨⟨.intLiteral, some (.int 1)⟩, ⟨1, 5⟩⟩, ⟨⟨.comma, none⟩, ⟨1, 6⟩⟩, ⟨⟨.comment, some (.text " b")⟩, ⟨1, 8⟩⟩,
    ⟨⟨.rightBrace, none⟩, ⟨2, 1⟩⟩, ⟨⟨.star, none⟩, ⟨2, 2⟩⟩]
  ending := .error ⟨.quoteMissing, ⟨2, 5⟩⟩

theorem mismatch_at_first_offence_unfinishedCall :
    (∀ t ∈ unfinishedCall.tokens, t.suits = true) ∧
      ofTokens unfinishedCall =
        .error (.syntactic (.mismatch Parser.primaryStart ⟨⟨.rightBrace, none⟩, ⟨2, 1⟩⟩)) ∧
      ∃ k ≤ unfinishedCall.tokens.length, SettledBy unfinishedCall (k + 1) ∧
        unfinishedCall.answer k = .ok ⟨⟨.rightBrace, none⟩, ⟨2, 1⟩⟩ ∧ Begins (unfinishedCall.tokens.take k) := by
  have suits : ∀ t ∈ unfinishedCall.tokens, t.suits = true := by decide
  have refused : ofTokens unfinishedCall =
      .error (.syntactic (.mismatch Parser.primaryStart ⟨⟨.rightBrace, none⟩, ⟨2, 1⟩⟩)) := rfl
  obtain ⟨k, le, -, -, settled, offence⟩ := mismatch_at_first_offence unfinishedCall
  exact ⟨suits, refused, k, le, settled, offence suits _ _ refused⟩

end Program

end Mensura
