import Mensura.Proofs.Token.Layout

/-!
What a cursor moves over. Main statement: the text that it leaves behind is made of blanks and of the characters of the
tokens that it has answered with, every one of these is read again from its own characters, only the mark of the end has
none, and so there is an end to what is read. Behind the last token the mark of the end is the answer, and the list of
all the tokens holds the answers up to there.
-/

namespace Mensura

open Token (Content Kind)
open Lexeme (isBlank)

variable {limits : Limits} {s t : Cursor} {token : Token} {content : Content} {front rest tail : List Char} {c : Char}

/-! ### Tokens read again -/

namespace Lexeme

/-- What is read of a zero that another digit follows. -/
def cutZero : Content := ⟨.invalid, some (.text "0")⟩

theorem number_alone (digit : c.isDigit = true)
    (h : number limits (c :: (front ++ tail)) = ⟨.ok content, front.length + 1⟩) (other : content ≠ cutZero) :
    number limits (c :: front) = ⟨.ok content, front.length + 1⟩ := by
  have only : c = '0' → ∀ d, (front ++ tail).head? = some d → d.isDigit = false := by
    rintro rfl d head
    obtain ⟨rest, split⟩ := List.head?_eq_some_iff.mp head
    rw [Bool.eq_false_iff]
    intro second
    rw [split, number_invalid second] at h
    exact other (Except.ok.inj (congrArg Reading.outcome h)).symm
  have replaces (tail : List Char) : Replaces [] tail := .inr nofun
  have only' (zero : c = '0') := ((replaces tail).append front).stop not_isDigit_of_isBlank (only zero)
  rw [number_eq_numeral only] at h
  rw [List.append_nil] at only'
  rw [number_eq_numeral only']
  have read := congrArg Reading.outcome h
  obtain ⟨front', tail', split, length, again⟩ := (numeral_local limits).cons read (numeral_consumed_pos digit read)
  have same : front.length = front'.length := Nat.succ.inj ((congrArg Reading.consumed h).symm.trans length)
  obtain ⟨rfl, rfl⟩ := List.append_inj split same
  rw [← h, ← again [] (replaces tail), List.append_nil]

theorem comment_alone (h : read limits (c :: (front ++ tail)) = ⟨.ok content, front.length + 1⟩)
    (slashes : c :: (front ++ tail) = '/' :: '/' :: rest) :
    read limits (c :: front) = ⟨.ok content, front.length + 1⟩ := by
  obtain ⟨rfl, split⟩ := List.cons.inj slashes
  rw [split] at h
  obtain ⟨-, body, tail', rfl, length, -, -, again⟩ := comment_local (congrArg Reading.outcome h)
  have consumed : 2 + body.length = front.length + 1 := length ▸ congrArg Reading.consumed h
  obtain ⟨rfl, rfl⟩ := List.append_inj (split.trans (List.cons_append ..).symm) (by simp only [List.length_cons]; omega)
  have alone := again [] nofun
  rw [List.append_nil] at alone
  rw [← h]
  exact congrArg (Reading.after 2) alone

/-- A token is read again from its own characters, but for a zero that is cut off from the digit behind it. -/
theorem read_alone (h : read limits (c :: (front ++ tail)) = ⟨.ok content, front.length + 1⟩)
    (other : content ≠ cutZero) : read limits (c :: front) = ⟨.ok content, front.length + 1⟩ := by
  by_cases digit : c.isDigit = true
  · rw [read_digit digit] at h ⊢
    exact number_alone digit h other
  obtain ⟨-, rest, split⟩ | ⟨d, rest, split, isDigit, -⟩ | apart := read_cases (congrArg Reading.outcome h)
  · exact comment_alone h split
  · cases split
    exact absurd isDigit digit
  · have spares : Spares content.kind [] tail := by
      refine .inr ⟨nofun, ?_, ?_⟩
      all_goals
        intro kind
        rw [kind] at apart
        cases apart
    simpa only [List.append_nil] using read_spared h spares

theorem numeral_ne_cutZero {text : List Char} : (numeral limits text).outcome ≠ .ok cutZero := by
  intro h
  obtain ⟨w, -, h⟩ := Reading.andThen_eq_ok.mp h
  obtain ⟨f, -, h⟩ := Reading.andThen_eq_ok.mp h
  obtain ⟨e, -, same⟩ := map_eq_ok.mp h
  have value := congrArg Content.value same
  cases e with
  | incomplete => exact absurd (Token.Value.text.inj (Option.some.inj value)) (by decide)
  | value e => cases value
  | missing => cases f <;> cases value

/-- Only a zero is read as one that is cut off. -/
theorem eq_of_cutZero (h : read limits (c :: (front ++ tail)) = ⟨.ok cutZero, front.length + 1⟩) :
    c = '0' ∧ front = [] := by
  obtain ⟨kind, -⟩ | ⟨d, rest, split, digit, -⟩ | apart := read_cases (congrArg Reading.outcome h)
  · cases kind
  · obtain ⟨rfl, -⟩ := List.cons.inj split
    rw [read_digit digit] at h
    unfold number at h
    split at h
    · rename_i d rest same
      obtain ⟨zero, -⟩ := List.cons.inj same
      split at h
      · have alone : 1 = front.length + 1 := congrArg Reading.consumed h
        exact ⟨zero, List.eq_nil_of_length_eq_zero (Nat.succ.inj alone).symm⟩
      · exact absurd (congrArg Reading.outcome h) numeral_ne_cutZero
    · exact absurd (congrArg Reading.outcome h) numeral_ne_cutZero
  · cases apart

/-- Here a text, a word, a number or a comment begins, which are the tokens that there are limits and endings for. -/
def Begins (c : Char) (rest : List Char) : Prop :=
  c = '"' ∨ Text.isAlphabetic c = true ∨ c.isDigit = true ∨ c = '/' ∧ rest.head? = some '/'

theorem operator_outcome (c : Char) (next : Option Char) : ∃ content, (operator c next).outcome = .ok content := by
  unfold operator
  dsimp only
  split <;> first | exact ⟨_, rfl⟩ | (split <;> exact ⟨_, rfl⟩)

/-- Every other character is read as some token. -/
theorem begins_of_read {text : List Char} {fault : LexicalFault} (h : (read limits text).outcome = .error fault) :
    ∃ c rest, text = c :: rest ∧ Begins c rest := by
  revert h
  fun_cases read limits text with
  | case1 | case3 =>
    intro h
    cases h
  | case2 rest => exact fun _ => ⟨_, _, rfl, .inr (.inr (.inr ⟨rfl, rfl⟩))⟩
  | case4 rest => exact fun _ => ⟨_, _, rfl, .inl rfl⟩
  | case5 c rest _ _ _ letter => exact fun _ => ⟨_, _, rfl, .inr (.inl letter)⟩
  | case6 c rest _ _ _ _ digit => exact fun _ => ⟨_, _, rfl, .inr (.inr (.inl digit))⟩
  | case7 c rest =>
    obtain ⟨content, read⟩ := operator_outcome c rest.head?
    intro h
    cases read.symm.trans h

end Lexeme

/-! ### Calls -/

/-- The blanks in front of a token, its own characters, and the token itself. -/
structure Portion where
  blanks : List Char
  lexeme : List Char
  token : Token

namespace Portion

def text (p : Portion) : List Char := p.blanks ++ p.lexeme

/-- The blanks are blanks, only the mark of the end has no characters of its own, and from these alone the token is read
again, unless it is a zero that was cut off from a digit, which has that zero only. -/
structure Valid (limits : Limits) (p : Portion) : Prop where
  blank : ∀ c ∈ p.blanks, isBlank c = true
  ended : p.token.kind = .etx ↔ p.lexeme = []
  again : p.token.toContent ≠ Lexeme.cutZero →
    ∃ t, (Cursor.ofText (.ofList p.lexeme)).next limits = (.ok ⟨p.token.toContent, .start⟩, t) ∧ t.rest = []
  zero : p.token.toContent = Lexeme.cutZero → p.lexeme = ['0']

end Portion

namespace Cursor

/-- What the call is answered with that `n` others precede. -/
def answer (limits : Limits) (s : Cursor) (n : Nat) : Except LexicalError Token :=
  ((s.afterCalls limits n).next limits).1

theorem afterCalls_add (limits : Limits) (m n : Nat) (s : Cursor) :
    s.afterCalls limits (m + n) = (s.afterCalls limits m).afterCalls limits n := by
  induction m generalizing s with
  | zero => rw [Nat.zero_add]; rfl
  | succ m ih => rw [Nat.succ_add]; exact ih _

theorem answer_succ (read : s.next limits = (.ok token, t)) (n : Nat) :
    s.answer limits (n + 1) = t.answer limits n := by
  rw [answer, afterCalls, read, answer]

/-- At the end the answer is the mark of the end. -/
theorem next_ended (limits : Limits) (ended : s.skipBlanks.rest = []) :
    s.next limits = (.ok (.etx s.skipBlanks.position), s.skipBlanks) := by
  rw [next, ended]
  rfl

/-- A call that is answered with a token takes the blanks in front of it and its characters. -/
theorem exists_portion (read : s.next limits = (.ok token, t)) :
    ∃ p : Portion, p.token = token ∧ p.Valid limits ∧ s.rest = p.text ++ t.rest := by
  by_cases last : token.kind = .etx
  · obtain ⟨blanks, split, blank, -⟩ := s.exists_blanks
    obtain ⟨ahead, behind⟩ := next_etx read last
    rw [next_ended limits ahead] at read
    cases read
    refine ⟨⟨blanks, [], _⟩, rfl, ⟨blank, iff_of_true rfl rfl, fun _ => ⟨_, rfl, rfl⟩, nofun⟩, ?_⟩
    rw [Portion.text, List.append_nil, ← split]
  · obtain ⟨blanks, c, front, split, blank, -, visible, taken⟩ := exists_of_next read last
    refine ⟨⟨blanks, c :: front, token⟩, rfl, ⟨blank, iff_of_false last (List.cons_ne_nil _ _), ?_, ?_⟩, ?_⟩
    · intro other
      have alone : Lexeme.read limits (c :: (front ++ [])) = ⟨.ok token.toContent, front.length + 1⟩ := by
        rw [List.append_nil]
        exact Lexeme.read_alone taken other
      have ahead : (ofText (.ofList (c :: front))).rest = c :: (front ++ []) := by
        rw [ofText, String.toList_ofList, List.append_nil]
      refine ⟨_, next_front ahead visible alone, ?_⟩
      rw [rest_advanceBy, ahead, List.append_nil, ← List.length_cons, List.drop_length]
    · intro cut
      rw [cut] at taken
      obtain ⟨rfl, rfl⟩ := Lexeme.eq_of_cutZero taken
      rfl
    · rw [split, Portion.text, List.append_assoc, List.cons_append]

/-- The text that calls leave behind which are all answered with tokens. -/
theorem exists_portions {n : Nat} (sound : ∀ m < n, ∃ token, s.answer limits m = .ok token) :
    ∃ ps : List Portion, ps.length = n ∧
      (∀ m (less : m < ps.length), s.answer limits m = .ok ps[m].token) ∧ (∀ p ∈ ps, p.Valid limits) ∧
      s.rest = ps.flatMap Portion.text ++ (s.afterCalls limits n).rest := by
  induction n generalizing s with
  | zero => exact ⟨[], rfl, nofun, List.forall_mem_nil _, rfl⟩
  | succ n ih =>
    obtain ⟨token, first⟩ := sound 0 (Nat.succ_pos n)
    have read : s.next limits = (.ok token, (s.next limits).2) := Prod.ext first rfl
    obtain ⟨p, rfl, valid, split⟩ := exists_portion read
    have later : ∀ m < n, ∃ token, (s.next limits).2.answer limits m = .ok token := by
      intro m less
      rw [← answer_succ read]
      exact sound (m + 1) (Nat.succ_lt_succ less)
    obtain ⟨ps, length, answers, valids, splits⟩ := ih later
    refine ⟨p :: ps, congrArg Nat.succ length, ?_, List.forall_mem_cons.mpr ⟨valid, valids⟩, ?_⟩
    · intro m less
      cases m with
      | zero => exact first
      | succ m =>
        rw [answer_succ read]
        exact answers m (Nat.lt_of_succ_lt_succ less)
    · rw [List.flatMap_cons, List.append_assoc, afterCalls, ← splits, split]

/-- Nothing but blanks is ahead just if nothing is left behind these. -/
theorem skipBlanks_rest_eq_nil_iff (s : Cursor) : s.skipBlanks.rest = [] ↔ ∀ c ∈ s.rest, isBlank c = true := by
  obtain ⟨blanks, split, blank, first⟩ := s.exists_blanks
  constructor
  · intro ended
    rw [split, ended, List.append_nil]
    exact blank
  · intro all
    cases ahead : s.skipBlanks.rest with
    | nil => rfl
    | cons c rest =>
      rw [ahead] at split first
      have visible := first c rfl
      rw [all c (by rw [split]; simp)] at visible
      cases visible

/-- The mark of the end is the answer just if nothing but blanks is ahead. -/
theorem etx_iff (limits : Limits) (s : Cursor) :
    (∃ token, (s.next limits).1 = .ok token ∧ token.kind = .etx) ↔ ∀ c ∈ s.rest, isBlank c = true := by
  rw [← skipBlanks_rest_eq_nil_iff]
  constructor
  · rintro ⟨token, found, last⟩
    exact (next_etx (Prod.ext found rfl) last).1
  · intro ended
    rw [next_ended limits ended]
    exact ⟨_, rfl, rfl⟩

/-- A call is refused only where a token begins that there is a limit or an ending for. -/
theorem begins_of_next {e : LexicalError} (refused : (s.next limits).1 = .error e) :
    ∃ c rest, s.skipBlanks.rest = c :: rest ∧ Lexeme.Begins c rest := by
  unfold next at refused
  dsimp only at refused
  split at refused
  · cases refused
  · rename_i fault outcome
    exact Lexeme.begins_of_read outcome

/-- Behind the mark of the end nothing is left, and every other call is answered with the same. -/
theorem answer_behind_etx (read : s.next limits = (.ok token, t)) (last : token.kind = .etx) (n : Nat) :
    (t.afterCalls limits n).rest = [] ∧ t.answer limits n = .ok token := by
  have ended := (next_etx read last).1
  rw [next_ended limits ended] at read
  cases read
  have none : s.skipBlanks.skipBlanks = s.skipBlanks := by rw [skipBlanks, ended]; rfl
  have again : s.skipBlanks.next limits = (.ok (.etx s.skipBlanks.position), s.skipBlanks) := by
    have next := next_ended limits (s := s.skipBlanks) (by rw [none, ended])
    rwa [none] at next
  have stays : s.skipBlanks.afterCalls limits n = s.skipBlanks := by
    induction n with
    | zero => rfl
    | succ n ih => rw [afterCalls, again, ih]
  rw [answer, stays, again]
  exact ⟨ended, rfl⟩

/-- Among as many calls as there are characters, and one more, is one that is answered with the mark of the end or with
a fault. -/
theorem exists_last (limits : Limits) (s : Cursor) :
    ∃ n ≤ s.rest.length, ∀ token, s.answer limits n = .ok token → token.kind = .etx := by
  induction ahead : s.rest.length using Nat.strongRecOn generalizing s with
  | ind length ih =>
    by_cases more : ∃ token, s.answer limits 0 = .ok token ∧ token.kind ≠ .etx
    · obtain ⟨token, first, more⟩ := more
      have read : s.next limits = (.ok token, (s.next limits).2) := Prod.ext first rfl
      have shorter : (s.next limits).2.rest.length < s.rest.length := next_rest_length_lt first more
      obtain ⟨n, least, last⟩ := ih _ (by omega) (s.next limits).2 rfl
      refine ⟨n + 1, by omega, ?_⟩
      rw [answer_succ read]
      exact last
    · refine ⟨0, Nat.zero_le _, ?_⟩
      intro token first
      by_contra other
      exact more ⟨token, first, other⟩

end Cursor

/-! ### Places in order -/

namespace Position

/-- Reading order, of different places. -/
def Precedes (p q : Position) : Prop := p.row < q.row ∨ p.row = q.row ∧ p.column < q.column

variable {p q r : Position}

theorem le_iff : p.le q = true ↔ p.row < q.row ∨ p.row = q.row ∧ p.column ≤ q.column := by simp [le]

theorem le_refl (p : Position) : p.le p = true := le_iff.mpr (.inr ⟨rfl, Nat.le_refl _⟩)

theorem Precedes.le (h : p.Precedes q) : p.le q = true := le_iff.mpr (h.imp_right fun h => ⟨h.1, Nat.le_of_lt h.2⟩)

theorem le_trans (h : p.le q = true) (h' : q.le r = true) : p.le r = true := by
  rw [le_iff] at *
  omega

theorem Precedes.trans_le (h : p.Precedes q) (h' : q.le r = true) : p.Precedes r := by
  rw [le_iff] at h'
  unfold Precedes at *
  omega

theorem precedes_nextColumn (p : Position) : p.Precedes p.nextColumn := .inr ⟨rfl, Nat.lt_succ_self _⟩

theorem precedes_nextRow (p : Position) : p.Precedes p.nextRow := .inl (Nat.lt_succ_self _)

end Position

namespace Cursor

theorem precedes_advance (ahead : s.rest ≠ []) : s.position.Precedes s.advance.position := by
  unfold advance
  split
  · contradiction
  · split
    · split
      · exact s.position.precedes_nextRow
      · split
        · exact s.position.precedes_nextColumn
        · exact s.position.precedes_nextRow
    · exact s.position.precedes_nextColumn

/-- A cursor never goes back. -/
theorem le_advanceBy (n : Nat) (s : Cursor) : s.position.le (advanceBy n s).position = true := by
  induction n generalizing s with
  | zero => exact Position.le_refl _
  | succ n ih =>
    by_cases ended : s.rest = []
    · have stays : s.advance = s := by
        unfold advance
        rw [ended]
      rw [advanceBy, stays]
      exact ih s
    · exact Position.le_trans (precedes_advance ended).le (ih s.advance)

theorem precedes_advanceBy {n : Nat} (positive : 0 < n) (ahead : s.rest ≠ []) :
    s.position.Precedes (advanceBy n s).position := by
  obtain ⟨k, rfl⟩ := Nat.exists_eq_add_one.mpr positive
  exact (precedes_advance ahead).trans_le (le_advanceBy k s.advance)

theorem le_of_next (read : s.next limits = (.ok token, t)) : s.position.le token.position = true := by
  unfold next at read
  dsimp only at read
  split at read <;> cases read
  exact le_advanceBy _ s

/-- A token stands before what is behind it. -/
theorem precedes_of_next (read : s.next limits = (.ok token, t)) (more : token.kind ≠ .etx) :
    token.position.Precedes t.position := by
  have ahead : s.skipBlanks.rest ≠ [] := by
    intro ended
    rw [next_ended limits ended] at read
    cases read
    exact more rfl
  unfold next at read
  dsimp only at read
  split at read
  · rename_i content outcome
    cases read
    exact precedes_advanceBy (Lexeme.read_consumed_pos ahead outcome) ahead
  · cases read

/-- The answers to the first calls, of which the last one and no other is the mark of the end. -/
structure ToEnd (limits : Limits) (s : Cursor) (tokens : List Token) : Prop where
  nonempty : tokens ≠ []
  answers : ∀ m (less : m < tokens.length), s.answer limits m = .ok tokens[m]
  ended : ∀ m (less : m < tokens.length), tokens[m].kind = .etx ↔ m + 1 = tokens.length

variable {tokens : List Token}

theorem ToEnd.exists_cons (h : s.ToEnd limits tokens) :
    ∃ token later, tokens = token :: later ∧ (s.next limits).1 = .ok token := by
  obtain ⟨token, later, rfl⟩ := List.exists_cons_of_ne_nil h.nonempty
  exact ⟨token, later, rfl, h.answers 0 (Nat.succ_pos _)⟩

theorem not_toEnd_of_error {e : LexicalError} (read : s.next limits = (.error e, t)) : ¬ s.ToEnd limits tokens := by
  intro h
  obtain ⟨token, later, rfl, first⟩ := h.exists_cons
  rw [read] at first
  cases first

theorem toEnd_iff_of_last (read : s.next limits = (.ok token, t)) (last : token.kind = .etx) :
    s.ToEnd limits tokens ↔ tokens = [token] := by
  constructor
  · intro h
    obtain ⟨u, later, rfl, first⟩ := h.exists_cons
    rw [read] at first
    obtain rfl : token = u := Except.ok.inj first
    have alone := (h.ended 0 (Nat.succ_pos _)).mp last
    rw [List.eq_nil_of_length_eq_zero (Nat.succ.inj alone).symm]
  · rintro rfl
    refine ⟨List.cons_ne_nil _ _, ?_, ?_⟩
    all_goals
      intro m less
      obtain rfl := Nat.lt_one_iff.mp less
    · exact congrArg Prod.fst read
    · exact iff_of_true last rfl

theorem toEnd_iff_of_more (read : s.next limits = (.ok token, t)) (more : token.kind ≠ .etx) :
    s.ToEnd limits tokens ↔ ∃ later, tokens = token :: later ∧ t.ToEnd limits later := by
  constructor
  · intro h
    obtain ⟨u, later, rfl, first⟩ := h.exists_cons
    rw [read] at first
    obtain rfl : token = u := Except.ok.inj first
    refine ⟨later, rfl, ?_, ?_, ?_⟩
    · rintro rfl
      exact more ((h.ended 0 (Nat.succ_pos _)).mpr rfl)
    · intro m less
      rw [← answer_succ read]
      exact h.answers (m + 1) (Nat.succ_lt_succ less)
    · intro m less
      exact (h.ended (m + 1) (Nat.succ_lt_succ less)).trans Nat.succ_inj
  · rintro ⟨later, rfl, h⟩
    refine ⟨List.cons_ne_nil _ _, ?_, ?_⟩
    · intro m less
      cases m with
      | zero => exact congrArg Prod.fst read
      | succ m =>
        rw [answer_succ read]
        exact h.answers m (Nat.lt_of_succ_lt_succ less)
    · intro m less
      cases m with
      | zero =>
        have behind : later.length ≠ 0 := fun none => h.nonempty (List.eq_nil_of_length_eq_zero none)
        exact iff_of_false more fun alone => behind (Nat.succ.inj alone).symm
      | succ m => exact (h.ended m (Nat.lt_of_succ_lt_succ less)).trans Nat.succ_inj.symm

/-- One of the calls is answered with this fault, and those before it with tokens that are not the mark of the end. -/
def FailsFirst (limits : Limits) (s : Cursor) (e : LexicalError) : Prop :=
  ∃ n, s.answer limits n = .error e ∧ ∀ m < n, ∃ token, s.answer limits m = .ok token ∧ token.kind ≠ .etx

theorem failsFirst_iff_of_error {e e' : LexicalError} (read : s.next limits = (.error e', t)) :
    s.FailsFirst limits e ↔ e' = e := by
  have first : s.answer limits 0 = .error e' := congrArg Prod.fst read
  constructor
  · rintro ⟨n, refused, before⟩
    cases n with
    | zero => exact Except.error.inj (first.symm.trans refused)
    | succ n =>
      obtain ⟨token, found, -⟩ := before 0 (Nat.succ_pos n)
      cases first.symm.trans found
  · rintro rfl
    exact ⟨0, first, fun m less => absurd less (Nat.not_lt_zero m)⟩

theorem not_failsFirst_of_last {e : LexicalError} (read : s.next limits = (.ok token, t)) (last : token.kind = .etx) :
    ¬ s.FailsFirst limits e := by
  have first : s.answer limits 0 = .ok token := congrArg Prod.fst read
  rintro ⟨n, refused, before⟩
  cases n with
  | zero => cases first.symm.trans refused
  | succ n =>
    obtain ⟨u, found, more⟩ := before 0 (Nat.succ_pos n)
    cases first.symm.trans found
    exact more last

theorem failsFirst_iff_of_more {e : LexicalError} (read : s.next limits = (.ok token, t)) (more : token.kind ≠ .etx) :
    s.FailsFirst limits e ↔ t.FailsFirst limits e := by
  have first : s.answer limits 0 = .ok token := congrArg Prod.fst read
  constructor
  · rintro ⟨n, refused, before⟩
    cases n with
    | zero => cases first.symm.trans refused
    | succ n =>
      refine ⟨n, (answer_succ read n).symm.trans refused, ?_⟩
      intro m less
      rw [← answer_succ read]
      exact before (m + 1) (Nat.succ_lt_succ less)
  · rintro ⟨n, refused, before⟩
    refine ⟨n + 1, (answer_succ read n).trans refused, ?_⟩
    intro m less
    cases m with
    | zero => exact ⟨token, first, more⟩
    | succ m =>
      rw [answer_succ read]
      exact before m (Nat.lt_of_succ_lt_succ less)

/-- Tokens that stand in order, each of them behind the cursor and before those behind it. -/
structure InOrder (s : Cursor) (tokens : List Token) : Prop where
  few : tokens.length ≤ s.rest.length + 1
  ahead : ∀ token ∈ tokens, s.position.le token.position = true
  ordered : tokens.Pairwise fun a b => a.position.Precedes b.position

theorem InOrder.last (read : s.next limits = (.ok token, t)) : s.InOrder [token] where
  few := Nat.succ_le_succ (Nat.zero_le _)
  ahead := List.forall_mem_singleton.mpr (le_of_next read)
  ordered := List.pairwise_singleton _ _

theorem InOrder.cons (read : s.next limits = (.ok token, t)) (more : token.kind ≠ .etx) (h : t.InOrder tokens) :
    s.InOrder (token :: tokens) where
  few := by
    have shorter := next_rest_length_lt (congrArg Prod.fst read) more
    have moved : (s.next limits).2 = t := congrArg Prod.snd read
    rw [moved] at shorter
    have := h.few
    rw [List.length_cons]
    omega
  ahead := by
    have moved := Position.le_trans (le_of_next read) (precedes_of_next read more).le
    exact List.forall_mem_cons.mpr ⟨le_of_next read, fun u mem => Position.le_trans moved (h.ahead u mem)⟩
  ordered := List.pairwise_cons.mpr
    ⟨fun u mem => (precedes_of_next read more).trans_le (h.ahead u mem), h.ordered⟩

theorem ToEnd.inOrder (h : s.ToEnd limits tokens) : s.InOrder tokens := by
  induction tokens generalizing s with
  | nil => exact absurd rfl h.nonempty
  | cons token later ih =>
    have read : s.next limits = (.ok token, (s.next limits).2) := Prod.ext (h.answers 0 (Nat.succ_pos _)) rfl
    by_cases last : token.kind = .etx
    · rw [(toEnd_iff_of_last read last).mp h]
      exact .last read
    · obtain ⟨later, same, behind⟩ := (toEnd_iff_of_more read last).mp h
      cases same
      exact .cons read last (ih behind)

end Cursor

namespace TokenStream

theorem listing_error (ts : List Token) (e : LexicalError) : listing ⟨ts, .error e⟩ = .error e := rfl

theorem listing_ok (ts : List Token) (p : Position) : listing ⟨ts, .ok p⟩ = .ok (ts ++ [.etx p]) := rfl

theorem listing_cons (token : Token) (later : TokenStream) :
    listing ⟨token :: later.tokens, later.ending⟩ = later.listing.map (token :: ·) := by
  obtain ⟨ts, _ | p⟩ := later <;> rfl

/-- The tokens of a text are listed just if all the calls up to the end are answered with them. -/
theorem listing_eq_ok_iff {tokens : List Token} :
    (ofCursor limits s).listing = .ok tokens ↔ s.ToEnd limits tokens := by
  fun_induction ofCursor limits s generalizing tokens with
  | case1 s e t read =>
    rw [listing_error]
    constructor
    · intro h
      cases h
    · intro h
      exact absurd h (Cursor.not_toEnd_of_error read)
  | case2 s token t read last =>
    have same : token = .etx token.position := by
      rw [Cursor.next_ended limits (Cursor.next_etx read last).1] at read
      cases read
      rfl
    rw [listing_ok, List.nil_append, ← same, Cursor.toEnd_iff_of_last read last, Except.ok.injEq, eq_comm]
  | case3 s token t read more later =>
    rename_i ih
    rw [listing_cons, map_eq_ok, Cursor.toEnd_iff_of_more read more]
    constructor
    · rintro ⟨us, listed, rfl⟩
      exact ⟨us, rfl, ih.mp listed⟩
    · rintro ⟨us, rfl, h⟩
      exact ⟨us, ih.mpr h, rfl⟩

/-- Otherwise the first fault is told, before which the end has not been reached. -/
theorem listing_eq_error_iff {e : LexicalError} :
    (ofCursor limits s).listing = .error e ↔ s.FailsFirst limits e := by
  fun_induction ofCursor limits s with
  | case1 s e' t read => rw [listing_error, Cursor.failsFirst_iff_of_error read, Except.error.injEq]
  | case2 s token t read last =>
    rw [listing_ok]
    constructor
    · intro h
      cases h
    · intro h
      exact absurd h (Cursor.not_failsFirst_of_last read last)
  | case3 s token t read more later ih =>
    rw [listing_cons, map_eq_error, Cursor.failsFirst_iff_of_more read more]
    exact ih

/-- No text is lost or read twice, and there is an end to it. When calls have been answered with tokens, the text that
they have left behind is made of the blanks in front of these tokens and of their own characters; every token is read
again from these alone, but for a zero that was cut off from the digit behind it, and that zero is all it has. The
answer is the mark of the end just if nothing but blanks is ahead, and then every other call is answered in the same way
and nothing is left; a call is refused only where a text, a word, a number or a comment begins. Among as many calls as
there are characters, and one more, is one that comes to the end or is refused. If none is refused before the end, all
the answers up to the mark of the end are listed, and else the first refusal is told. The tokens in a list are at most
one more than the characters, and each stands before those behind it. -/
theorem nothing_lost (limits : Limits) (text : String) :
    let s := Cursor.ofText text
    let listing := (ofText limits text).listing
    (∀ n, (∀ m < n, ∃ token, s.answer limits m = .ok token) →
      ∃ ps : List Portion, ps.length = n ∧ (∀ m (less : m < ps.length), s.answer limits m = .ok ps[m].token) ∧
        (∀ p ∈ ps, p.Valid limits) ∧
        text.toList = ps.flatMap Portion.text ++ (s.afterCalls limits n).rest) ∧
    (∀ n, (∃ token, s.answer limits n = .ok token ∧ token.kind = .etx) ↔
      ∀ c ∈ (s.afterCalls limits n).rest, isBlank c = true) ∧
    (∀ n token, s.answer limits n = .ok token → token.kind = .etx →
      ∀ k, (s.afterCalls limits (n + 1 + k)).rest = [] ∧ s.answer limits (n + 1 + k) = .ok token) ∧
    (∀ n e, s.answer limits n = .error e →
      ∃ c rest, (s.afterCalls limits n).skipBlanks.rest = c :: rest ∧ Lexeme.Begins c rest) ∧
    (∃ n ≤ text.length, ∀ token, s.answer limits n = .ok token → token.kind = .etx) ∧
    (∀ tokens, listing = .ok tokens ↔ s.ToEnd limits tokens) ∧
    (∀ e, listing = .error e ↔ s.FailsFirst limits e) ∧
    (∀ tokens, listing = .ok tokens →
      tokens.length ≤ text.length + 1 ∧ tokens.Pairwise fun a b => a.position.Precedes b.position) := by
  intro s listing
  constructor
  · intro n sound
    exact Cursor.exists_portions sound
  constructor
  · intro n
    exact Cursor.etx_iff limits (s.afterCalls limits n)
  constructor
  · intro n token found last k
    have read : (s.afterCalls limits n).next limits = (.ok token, ((s.afterCalls limits n).next limits).2) :=
      Prod.ext found rfl
    rw [Cursor.answer, Cursor.afterCalls_add, Cursor.afterCalls_add]
    exact Cursor.answer_behind_etx read last k
  constructor
  · intro n e refused
    exact Cursor.begins_of_next refused
  constructor
  · rw [← String.length_toList]
    exact Cursor.exists_last limits s
  constructor
  · intro tokens
    exact listing_eq_ok_iff
  constructor
  · intro e
    exact listing_eq_error_iff
  · intro tokens listed
    have inOrder := (listing_eq_ok_iff.mp listed).inOrder
    refine ⟨?_, inOrder.ordered⟩
    rw [← String.length_toList]
    exact inOrder.few

/-- A zero and an exponent that are cut off, a character of no token and a comment in front of blanks are all told, and
then the mark of the end, again and again. Of a text without an end the fault is told. -/
theorem nothing_lost_malformed :
    let text := "01 2e+ &\r\n//c\n "
    let s := Cursor.ofText text
    let tokens : List Token :=
      [⟨Lexeme.cutZero, ⟨1, 1⟩⟩, ⟨⟨.intLiteral, some (.int 1)⟩, ⟨1, 2⟩⟩, ⟨⟨.invalid, some (.text "e")⟩, ⟨1, 4⟩⟩,
        ⟨⟨.plus, none⟩, ⟨1, 6⟩⟩, ⟨⟨.unknown, some (.text "&")⟩, ⟨1, 8⟩⟩, ⟨⟨.comment, some (.text "c")⟩, ⟨2, 1⟩⟩,
        .etx ⟨3, 2⟩]
    (∃ ps : List Portion, ps.length = 6 ∧ (∀ p ∈ ps, p.Valid {}) ∧
      text.toList = ps.flatMap Portion.text ++ ['\n', ' ']) ∧
    (∃ token, s.answer {} 6 = .ok token ∧ token.kind = .etx) ∧
    (∀ k, s.answer {} (6 + 1 + k) = .ok (.etx ⟨3, 2⟩)) ∧
    (ofText {} text).listing = .ok tokens ∧
    (tokens.length ≤ text.length + 1 ∧ tokens.Pairwise fun a b => a.position.Precedes b.position) ∧
    (ofText {} "& \"").listing = .error ⟨.quoteMissing, ⟨1, 4⟩⟩ := by
  intro text s tokens
  obtain ⟨portions, etx, stays, -, -, listed, -, few⟩ := nothing_lost {} text
  have toEnd : s.ToEnd {} tokens := ⟨List.cons_ne_nil _ _, by decide, by decide⟩
  have listing : (ofText {} text).listing = .ok tokens := (listed tokens).mpr toEnd
  have left : (s.afterCalls {} 6).rest = ['\n', ' '] := by decide
  constructor
  · have sound : ∀ m < 6, ∃ token, s.answer {} m = .ok token :=
      fun m less => ⟨_, toEnd.answers m (Nat.lt_succ_of_lt less)⟩
    obtain ⟨ps, length, -, valid, split⟩ := portions 6 sound
    rw [left] at split
    exact ⟨ps, length, valid, split⟩
  constructor
  · apply (etx 6).mpr
    rw [left]
    exact List.all_eq_true.mp rfl
  constructor
  · intro k
    exact (stays 6 (.etx ⟨3, 2⟩) (toEnd.answers 6 (by decide)) rfl k).2
  constructor
  · exact listing
  constructor
  · exact few tokens listing
  · obtain ⟨-, -, -, -, -, -, refused, -⟩ := nothing_lost {} "& \""
    refine (refused _).mpr ⟨1, by decide, ?_⟩
    intro m less
    obtain rfl := Nat.lt_one_iff.mp less
    exact ⟨⟨⟨.unknown, some (.text "&")⟩, ⟨1, 1⟩⟩, by decide⟩

end TokenStream

end Mensura
