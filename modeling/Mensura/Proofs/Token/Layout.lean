import Mensura.Proofs.Program.Places
import Mensura.Proofs.Token.Locality
import Mensura.Proofs.Token.Places

/-!
What stands between tokens. Main statements: where tokens begin or end the text may be replaced without a change to
what is read in front, as long as the tokens there are spared; blanks and a comment of a line of its own are read as
nothing at all; and a comment is as good as blanks of the same length, to the place of every token behind it.
-/

namespace Mensura

open Token (Content Kind)
open Lexeme (isBlank Spares)

variable {limits : Limits} {s t u : Cursor} {token : Token} {content : Content}
  {blanks front back new rest tail text : List Char} {c : Char}

/-! ### One token -/

namespace Cursor

/-- Behind blanks the next token is where they end. -/
theorem next_eq (ahead : s.rest = blanks ++ c :: (front ++ tail)) (blank : ∀ d ∈ blanks, isBlank d = true)
    (visible : isBlank c = false)
    (read : Lexeme.read limits (c :: (front ++ tail)) = ⟨.ok content, front.length + 1⟩) :
    s.next limits = (.ok ⟨content, (advanceBy blanks.length s).position⟩,
      advanceBy (front.length + 1) (advanceBy blanks.length s)) := by
  have taken : s.rest.takeWhile isBlank = blanks := by
    rw [ahead]
    apply Lexeme.takeWhile_append_apart blank
    rintro d ⟨⟩
    exact visible
  have here : s.skipBlanks = advanceBy blanks.length s := by rw [skipBlanks, taken]
  have left : (advanceBy blanks.length s).rest = c :: (front ++ tail) := by
    rw [rest_advanceBy, ahead, List.drop_left]
  rw [next, here, left, read]

theorem next_front (ahead : s.rest = c :: (front ++ tail)) (visible : isBlank c = false)
    (read : Lexeme.read limits (c :: (front ++ tail)) = ⟨.ok content, front.length + 1⟩) :
    s.next limits = (.ok ⟨content, s.position⟩, advanceBy (front.length + 1) s) := by
  have split : s.rest = [] ++ c :: (front ++ tail) := ahead
  exact next_eq split nofun visible read

/-- What a cursor moves over when it reads a token: blanks, and then the characters of the token. -/
theorem exists_of_next (read : s.next limits = (.ok token, t)) (more : token.kind ≠ .etx) :
    ∃ blanks c front, s.rest = blanks ++ c :: (front ++ t.rest) ∧ (∀ d ∈ blanks, isBlank d = true) ∧
      s.skipBlanks.rest = c :: (front ++ t.rest) ∧ isBlank c = false ∧
      Lexeme.read limits (c :: (front ++ t.rest)) = ⟨.ok token.toContent, front.length + 1⟩ := by
  obtain ⟨blanks, split, blank, first⟩ := s.exists_blanks
  unfold next at read
  dsimp only at read
  split at read
  case h_2 => cases read
  case h_1 content outcome =>
    cases read
    obtain ⟨c, tail, head, -⟩ := exists_take_eq outcome more
    obtain ⟨rest, ahead⟩ := List.head?_eq_some_iff.mp head
    rw [ahead] at outcome
    obtain ⟨front, tail, rfl, length, -⟩ := Lexeme.read_local outcome
    have left : (advanceBy (Lexeme.read limits s.skipBlanks.rest).consumed s.skipBlanks).rest = tail := by
      rw [rest_advanceBy, ahead, length, ← List.cons_append, ← List.length_cons, List.drop_left]
    rw [left]
    refine ⟨blanks, c, front, ahead ▸ split, blank, ahead, first c head, ?_⟩
    rw [← outcome, ← length]

theorem rest_skipBlanks (same : s.rest = t.rest) : s.skipBlanks.rest = t.skipBlanks.rest := by
  rw [skipBlanks, skipBlanks, rest_advanceBy, rest_advanceBy, same]

/-- What is read does not depend on where it stands, its place apart. -/
theorem next_congr (limits : Limits) (same : s.rest = t.rest) :
    (∃ e e' s' t', s.next limits = (.error e, s') ∧ t.next limits = (.error e', t') ∧ e.placeless = e'.placeless) ∨
      ∃ a b s' t', s.next limits = (.ok a, s') ∧ t.next limits = (.ok b, t') ∧ a.toContent = b.toContent ∧
        s'.rest = t'.rest := by
  have ahead := rest_skipBlanks same
  unfold next
  dsimp only
  rw [ahead]
  cases outcome : (Lexeme.read limits t.skipBlanks.rest).outcome with
  | error fault => exact .inl ⟨_, _, _, _, rfl, rfl, rfl⟩
  | ok content =>
    refine .inr ⟨_, _, _, _, rfl, rfl, rfl, ?_⟩
    rw [rest_advanceBy, rest_advanceBy, ahead]

end Cursor

/-! ### Texts -/

namespace TokenStream

/-- The stream with one more token in front, unless that is a comment. -/
def push (token : Token) (s : TokenStream) : TokenStream :=
  if token.kind = .comment then s else ⟨token :: s.tokens, s.ending⟩

theorem placeless_push (token : Token) (s : TokenStream) :
    (push token s).placeless = push token.placeless s.placeless := by
  unfold push
  split
  · rename_i comment
    exact (if_pos comment).symm
  · rename_i other
    exact (if_neg other).symm

theorem withoutComments_cons (read : s.next limits = (.ok token, t)) (more : token.kind ≠ .etx) :
    (ofCursor limits s).withoutComments = push token (ofCursor limits t).withoutComments := by
  rw [ofCursor_cons read more]
  unfold push withoutComments
  split
  · rename_i comment
    rw [List.filter_cons_of_neg (by simp [comment])]
  · rename_i other
    rw [List.filter_cons_of_pos (by simpa using other)]

/-- What a cursor reads depends on the text in front of it, the places apart. -/
theorem placeless_congr (same : s.rest = t.rest) :
    (ofCursor limits s).withoutComments.placeless = (ofCursor limits t).withoutComments.placeless := by
  fun_induction ofCursor limits s generalizing t with
  | case1 s e u read =>
    obtain ⟨e, e', u, u', readS, readT, fault⟩ | ⟨a, b, u, u', readS, -⟩ := Cursor.next_congr limits same
    · cases read.symm.trans readS
      rw [ofCursor_error readT]
      exact congrArg (TokenStream.mk [] ∘ Except.error) fault
    · cases read.symm.trans readS
  | case2 s a u read last =>
    obtain ⟨e, e', u, u', readS, -⟩ | ⟨a, b, u, u', readS, readT, content, behind⟩ :=
      Cursor.next_congr limits same
    · cases read.symm.trans readS
    · cases read.symm.trans readS
      rw [ofCursor_etx readT (content ▸ last)]
      rfl
  | case3 s a u read more later =>
    rename_i ih
    obtain ⟨e, e', u, u', readS, -⟩ | ⟨a, b, u, u', readS, readT, content, behind⟩ :=
      Cursor.next_congr limits same
    · cases read.symm.trans readS
    · cases read.symm.trans readS
      have whole := ofCursor_cons read more
      rw [← whole, withoutComments_cons read more, withoutComments_cons readT (content ▸ more), placeless_push,
        placeless_push, ih behind, Token.placeless_inj.mpr content]

/-- The tokens that a text spells, wherever it stands. Comments are none. -/
def spelled (limits : Limits) (text : List Char) : TokenStream :=
  (ofCursor limits ⟨text, .start, false⟩).withoutComments.placeless

theorem placeless_ofCursor (limits : Limits) (s : Cursor) :
    (ofCursor limits s).withoutComments.placeless = spelled limits s.rest :=
  placeless_congr rfl

theorem ofCursor_blanks (limits : Limits) (ahead : s.rest = blanks ++ text) (blank : ∀ d ∈ blanks, isBlank d = true) :
    ofCursor limits s = ofCursor limits (Cursor.advanceBy blanks.length s) := by
  induction blanks generalizing s with
  | nil => rfl
  | cons d blanks ih =>
    have same : s.next limits = s.advance.next limits := by
      rw [Cursor.next, Cursor.skipBlanks_blank ahead (blank d List.mem_cons_self), ← Cursor.next]
    rw [ofCursor_congr same]
    apply ih
    · rw [Cursor.rest_advance, ahead, List.cons_append, List.tail_cons]
    · exact fun d mem => blank d (List.mem_cons_of_mem _ mem)

theorem spelled_blanks (limits : Limits) (blank : ∀ d ∈ blanks, isBlank d = true) (text : List Char) :
    spelled limits (blanks ++ text) = spelled limits text := by
  rw [spelled, ofCursor_blanks limits rfl blank, placeless_ofCursor, Cursor.rest_advanceBy, List.drop_left]

theorem spelled_token (visible : isBlank c = false)
    (read : Lexeme.read limits (c :: (front ++ tail)) = ⟨.ok content, front.length + 1⟩)
    (more : content.kind ≠ .etx) :
    spelled limits (c :: (front ++ tail)) = push ⟨content, .start⟩ (spelled limits tail) := by
  have next := Cursor.next_front (s := ⟨c :: (front ++ tail), .start, false⟩) rfl visible read
  have left : (Cursor.advanceBy (front.length + 1) ⟨c :: (front ++ tail), .start, false⟩).rest = tail := by
    rw [Cursor.rest_advanceBy, ← List.cons_append, ← List.length_cons, List.drop_left]
  rw [spelled, withoutComments_cons next more, placeless_push, placeless_ofCursor]
  exact congrArg _ (congrArg _ left)

end TokenStream

/-! ### Replacing the end of a text -/

/-- In front of `back`, up to blanks, stand tokens, and none of them is read in another way if `back` is replaced by
`new`. -/
inductive Lexeme.Unmoved (limits : Limits) (back new : List Char) : List Char → Prop where
  | blanks {blanks : List Char} (blank : ∀ d ∈ blanks, isBlank d = true) : Unmoved limits back new blanks
  | token {blanks front rest : List Char} {c : Char} {content : Content} (blank : ∀ d ∈ blanks, isBlank d = true)
      (visible : isBlank c = false)
      (read : read limits (c :: (front ++ (rest ++ back))) = ⟨.ok content, front.length + 1⟩)
      (more : content.kind ≠ .etx) (spared : Spares content.kind (rest ++ new) (rest ++ back))
      (later : Unmoved limits back new rest) : Unmoved limits back new (blanks ++ c :: (front ++ rest))

namespace TokenStream

open Lexeme (Unmoved)

theorem spelled_replace (h : Unmoved limits back new front) (same : spelled limits new = spelled limits back) :
    spelled limits (front ++ new) = spelled limits (front ++ back) := by
  induction h with
  | blanks blank => rw [spelled_blanks limits blank, spelled_blanks limits blank, same]
  | token blank visible read more spared later ih =>
    simp only [List.append_assoc, List.cons_append, spelled_blanks limits blank]
    rw [spelled_token visible read more, spelled_token visible (Lexeme.read_spared read spared) more, ih]

end TokenStream

/-! ### Layout -/

/-- What may be written between tokens: blanks, or a comment on the rest of the line, behind a space. -/
def Lexeme.Layout (limits : Limits) (inserted : List Char) : Prop :=
  (∀ c ∈ inserted, isBlank c = true) ∨
    ∃ body, inserted = ' ' :: '/' :: '/' :: (body ++ ['\n']) ∧ (∀ c ∈ body, isLineBreak c = false) ∧
      body.length ≤ limits.comment

theorem Lexeme.Layout.spares {inserted : List Char} (layout : Lexeme.Layout limits inserted) (text : List Char)
    {kind : Kind} (comment : kind ≠ .comment) (invalid : kind ≠ .invalid) : Spares kind (inserted ++ text) text := by
  obtain blank | ⟨body, rfl, -⟩ := layout
  · cases inserted with
    | nil => exact .inl rfl
    | cons c inserted =>
      refine .inr ⟨?_, comment, fun same => absurd same invalid⟩
      rintro d ⟨⟩
      exact blank c List.mem_cons_self
  · refine .inr ⟨?_, comment, fun same => absurd same invalid⟩
    rintro d ⟨⟩
    rfl

theorem Lexeme.read_comment {body : List Char} (inside : ∀ c ∈ body, isLineBreak c = false)
    (short : body.length ≤ limits.comment) (text : List Char) :
    read limits ('/' :: ('/' :: body ++ '\n' :: text)) =
      ⟨.ok ⟨.comment, some (.text (String.ofList body))⟩, ('/' :: body).length + 1⟩ := by
  have taken : (body ++ '\n' :: text).takeWhile (!isLineBreak ·) = body := by
    apply takeWhile_append_apart
    · intro c mem
      simp [inside c mem]
    · rintro c ⟨⟩
      rfl
  change (comment limits (body ++ '\n' :: text)).after 2 = _
  simp only [comment, taken, if_pos short, Reading.after, List.length_cons]
  exact congrArg (Reading.mk _) (by omega)

/-- Layout is read as nothing. -/
theorem TokenStream.spelled_layout {inserted : List Char} (layout : Lexeme.Layout limits inserted)
    (text : List Char) : spelled limits (inserted ++ text) = spelled limits text := by
  obtain blank | ⟨body, rfl, inside, short⟩ := layout
  · exact spelled_blanks limits blank text
  · have space : ∀ c ∈ [' '], isBlank c = true := List.forall_mem_singleton.mpr rfl
    have newline : ∀ c ∈ ['\n'], isBlank c = true := List.forall_mem_singleton.mpr rfl
    calc spelled limits (' ' :: '/' :: '/' :: (body ++ ['\n']) ++ text)
        = spelled limits ([' '] ++ '/' :: ('/' :: body ++ '\n' :: text)) := by simp
      _ = spelled limits ('/' :: ('/' :: body ++ '\n' :: text)) := spelled_blanks limits space _
      _ = spelled limits (['\n'] ++ text) :=
        spelled_token rfl (Lexeme.read_comment inside short text) nofun
      _ = spelled limits text := spelled_blanks limits newline text

/-! ### Places kept -/

namespace Cursor

/-- Without line breaks only the column goes on. -/
theorem advanceBy_line (inside : ∀ c ∈ front, isLineBreak c = false) (text : List Char) (p : Position) (o : Bool) :
    advanceBy front.length ⟨front ++ text, p, o⟩ = ⟨text, ⟨p.row, p.column + front.length⟩, o⟩ := by
  induction front generalizing p with
  | nil => rfl
  | cons c front ih =>
    have first : advance ⟨c :: (front ++ text), p, o⟩ = ⟨front ++ text, p.nextColumn, o⟩ := by
      simp [advance, inside c List.mem_cons_self]
    have rest := ih (fun d mem => inside d (List.mem_cons_of_mem c mem)) p.nextColumn
    rw [List.cons_append, List.length_cons, advanceBy, first, rest, Position.nextColumn, Nat.add_right_comm,
      Nat.add_assoc]

/-- Over the same characters two cursors move abreast, if what stands behind does not tell a line end of one
character from a part of a longer one. -/
theorem advanceBy_abreast (pairs : ∀ c, opensPair c back = opensPair c new) (front : List Char) (p : Position)
    (o : Bool) : ∃ p' o', advanceBy front.length ⟨front ++ back, p, o⟩ = ⟨back, p', o'⟩ ∧
      advanceBy front.length ⟨front ++ new, p, o⟩ = ⟨new, p', o'⟩ := by
  induction front generalizing p o with
  | nil => exact ⟨p, o, rfl, rfl⟩
  | cons c front ih =>
    have same : opensPair c (front ++ back) = opensPair c (front ++ new) := by
      cases front with
      | nil => exact pairs c
      | cons d front => rfl
    have first : ∃ p' o', advance ⟨c :: (front ++ back), p, o⟩ = ⟨front ++ back, p', o'⟩ ∧
        advance ⟨c :: (front ++ new), p, o⟩ = ⟨front ++ new, p', o'⟩ := by
      simp only [advance, same]
      split
      · split
        · exact ⟨_, _, rfl, rfl⟩
        · split <;> exact ⟨_, _, rfl, rfl⟩
      · exact ⟨_, _, rfl, rfl⟩
    obtain ⟨p', o', moved, moved'⟩ := first
    simp only [List.cons_append, List.length_cons, advanceBy, moved, moved']
    exact ih p' o'

end Cursor

namespace TokenStream

open Lexeme (Unmoved)

/-- If what stands behind is read in the same way from every place, then so is the whole. -/
theorem ofCursor_replace (h : Unmoved limits back new front)
    (pairs : ∀ c, Cursor.opensPair c back = Cursor.opensPair c new)
    (same : ∀ p o, (ofCursor limits ⟨back, p, o⟩).withoutComments = (ofCursor limits ⟨new, p, o⟩).withoutComments)
    (p : Position) (o : Bool) : (ofCursor limits ⟨front ++ back, p, o⟩).withoutComments =
      (ofCursor limits ⟨front ++ new, p, o⟩).withoutComments := by
  induction h generalizing p o with
  | @blanks blanks blank =>
    obtain ⟨p', o', moved, moved'⟩ := Cursor.advanceBy_abreast pairs blanks p o
    rw [ofCursor_blanks limits (s := ⟨blanks ++ back, p, o⟩) rfl blank,
      ofCursor_blanks limits (s := ⟨blanks ++ new, p, o⟩) rfl blank, moved, moved']
    exact same p' o'
  | @token blanks front rest c content blank visible read more spared later ih =>
    have behind (d : Char) : Cursor.opensPair d (rest ++ back) = Cursor.opensPair d (rest ++ new) := by
      cases rest with
      | nil => exact pairs d
      | cons e rest => rfl
    have ahead (d : Char) :
        Cursor.opensPair d (c :: (front ++ (rest ++ back))) = Cursor.opensPair d (c :: (front ++ (rest ++ new))) := rfl
    obtain ⟨p', o', here, here'⟩ := Cursor.advanceBy_abreast ahead blanks p o
    obtain ⟨p'', o'', there, there'⟩ := Cursor.advanceBy_abreast behind (c :: front) p' o'
    have next := Cursor.next_eq (s := ⟨blanks ++ c :: (front ++ (rest ++ back)), p, o⟩) rfl blank visible read
    have next' := Cursor.next_eq (s := ⟨blanks ++ c :: (front ++ (rest ++ new)), p, o⟩) rfl blank visible
      (Lexeme.read_spared read spared)
    simp only [List.cons_append, List.length_cons] at there there'
    rw [here, there] at next
    rw [here', there'] at next'
    simp only [List.append_assoc, List.cons_append]
    rw [withoutComments_cons next more, withoutComments_cons next' more, ih]

/-- A comment is as good as spaces of the same length. -/
theorem ofCursor_comment (read : Lexeme.read limits (c :: (front ++ text)) = ⟨.ok content, front.length + 1⟩)
    (comment : content.kind = .comment) (visible : isBlank c = false) (p : Position) (o : Bool) :
    (ofCursor limits ⟨c :: (front ++ text), p, o⟩).withoutComments =
      (ofCursor limits ⟨List.replicate (c :: front).length ' ' ++ text, p, o⟩).withoutComments := by
  have spaces : ∀ d ∈ List.replicate (c :: front).length ' ', d = ' ' := fun d => List.eq_of_mem_replicate
  have blank : ∀ d ∈ List.replicate (c :: front).length ' ', isBlank d = true :=
    fun d mem => by rw [spaces d mem]; rfl
  have line : ∀ d ∈ List.replicate (c :: front).length ' ', isLineBreak d = false :=
    fun d mem => by rw [spaces d mem]; rfl
  have next := Cursor.next_front (s := ⟨c :: (front ++ text), p, o⟩) rfl visible read
  have moved := Cursor.advanceBy_line (Lexeme.exists_comment read comment).1 text p o
  have moved' := Cursor.advanceBy_line line text p o
  rw [List.length_replicate] at moved'
  rw [withoutComments_cons next (by rw [comment]; decide), push, if_pos comment,
    ofCursor_blanks limits (s := ⟨_ ++ text, p, o⟩) rfl blank, List.length_replicate, moved', ← moved]
  rfl

end TokenStream

/-! ### Where tokens are found -/

namespace Cursor

/-- The `n`-th call is answered with a token, and none before it with a fault. The token is spelled `lexeme`, behind
the characters `before` and in front of `after`. -/
structure Finds (limits : Limits) (s : Cursor) (n : Nat) (before lexeme : List Char) (token : Token)
    (after : List Char) : Prop where
  split : s.rest = before ++ (lexeme ++ after)
  sound : ∀ m < n, ∃ t, ((s.afterCalls limits m).next limits).1 = .ok t
  ahead : (s.afterCalls limits n).skipBlanks.rest = lexeme ++ after
  found : ((s.afterCalls limits n).next limits).1 = .ok token
  behind : ((s.afterCalls limits n).next limits).2.rest = after

variable {n : Nat} {before lexeme after : List Char}

theorem rest_skipBlanks_suffix (s : Cursor) : s.skipBlanks.rest <:+ s.rest := by
  rw [skipBlanks, rest_advanceBy]
  exact List.drop_suffix _ _

theorem rest_next_suffix (limits : Limits) (s : Cursor) : (s.next limits).2.rest <:+ s.rest := by
  have moved : (s.next limits).2 = advanceBy (Lexeme.read limits s.skipBlanks.rest).consumed s.skipBlanks := by
    unfold next
    dsimp only
    split <;> rfl
  rw [moved, rest_advanceBy]
  exact (List.drop_suffix _ _).trans s.rest_skipBlanks_suffix

theorem rest_afterCalls_suffix (limits : Limits) (n : Nat) (s : Cursor) : (s.afterCalls limits n).rest <:+ s.rest := by
  induction n generalizing s with
  | zero => exact List.suffix_rfl
  | succ n ih => exact (ih _).trans (rest_next_suffix limits s)

theorem Finds.first (read : s.next limits = (.ok token, t)) (more : token.kind ≠ .etx) :
    ∃ blanks c front, s.Finds limits 0 blanks (c :: front) token t.rest ∧ (∀ d ∈ blanks, isBlank d = true) ∧
      isBlank c = false ∧ Lexeme.read limits (c :: (front ++ t.rest)) = ⟨.ok token.toContent, front.length + 1⟩ := by
  obtain ⟨blanks, c, front, split, blank, ahead, visible, taken⟩ := exists_of_next read more
  refine ⟨blanks, c, front, ⟨split, nofun, ahead, ?_, ?_⟩, blank, visible, taken⟩
  · exact congrArg Prod.fst read
  · exact congrArg (·.2.rest) read

theorem Finds.later {taken : List Char} {a : Token} (read : s.next limits = (.ok a, t)) (moved : s.rest = taken ++ t.rest)
    (h : t.Finds limits n before lexeme token after) :
    s.Finds limits (n + 1) (taken ++ before) lexeme token after := by
  have same : s.afterCalls limits (n + 1) = t.afterCalls limits n := by rw [afterCalls, read]
  refine ⟨?_, ?_, same ▸ h.ahead, same ▸ h.found, same ▸ h.behind⟩
  · rw [moved, h.split, List.append_assoc]
  · intro m less
    cases m with
    | zero => exact ⟨a, congrArg Prod.fst read⟩
    | succ m =>
      rw [afterCalls, read]
      exact h.sound m (by omega)

theorem Finds.of_succ (h : s.Finds limits (n + 1) before lexeme token after) :
    ∃ a t taken before', s.next limits = (.ok a, t) ∧ s.rest = taken ++ t.rest ∧ before = taken ++ before' ∧
      t.Finds limits n before' lexeme token after := by
  obtain ⟨a, first⟩ := h.sound 0 (Nat.succ_pos n)
  have read : s.next limits = (.ok a, (s.next limits).2) := Prod.ext first rfl
  obtain ⟨taken, moved⟩ := rest_next_suffix limits s
  have within := ((s.next limits).2.afterCalls limits n).rest_skipBlanks_suffix.trans
    (rest_afterCalls_suffix limits n (s.next limits).2)
  obtain ⟨before', split⟩ := h.ahead ▸ within
  have same : before ++ (lexeme ++ after) = (taken ++ before') ++ (lexeme ++ after) := by
    rw [← h.split, List.append_assoc, split, moved]
  refine ⟨a, _, taken, before', read, moved.symm, List.append_cancel_right same, split.symm, ?_, h.ahead, h.found,
    h.behind⟩
  intro m less
  exact h.sound (m + 1) (by omega)

/-- The mark of the end comes behind blanks, and nothing is behind it. -/
theorem next_etx (read : s.next limits = (.ok token, t)) (last : token.kind = .etx) :
    s.skipBlanks.rest = [] ∧ t.rest = [] := by
  unfold next at read
  dsimp only at read
  split at read
  · rename_i content outcome
    cases read
    have ended := (Lexeme.read_legible outcome).2 last
    exact ⟨ended, by rw [rest_advanceBy, ended, List.drop_nil]⟩
  · cases read

/-- Behind the end only the end is found. -/
theorem Finds.ended (h : s.Finds limits n before lexeme token after) (ended : s.rest = []) : token.kind = .etx := by
  have none : (s.afterCalls limits n).skipBlanks.rest = [] := by
    have within := (rest_skipBlanks_suffix _).trans (rest_afterCalls_suffix limits n s)
    rwa [ended, List.suffix_nil] at within
  have found := h.found
  unfold next at found
  dsimp only at found
  rw [none] at found
  exact congrArg (·.kind) (Except.ok.inj found).symm

theorem Finds.mem (h : s.Finds limits n before lexeme token after) (more : token.kind ≠ .etx) :
    token ∈ (TokenStream.ofCursor limits s).tokens := by
  induction n generalizing s before with
  | zero =>
    have read : s.next limits = (.ok token, (s.next limits).2) := Prod.ext h.found rfl
    rw [TokenStream.ofCursor_cons read more]
    exact List.mem_cons_self
  | succ n ih =>
    obtain ⟨a, t, taken, before', read, -, -, later⟩ := h.of_succ
    by_cases last : a.kind = .etx
    · exact absurd (later.ended (next_etx read last).2) more
    · rw [TokenStream.ofCursor_cons read last]
      exact List.mem_cons_of_mem _ (ih later)

/-- The mark of the end has no characters, and none behind it. -/
theorem Finds.nothing (h : s.Finds limits n before lexeme token after) (last : token.kind = .etx) :
    lexeme = [] ∧ after = [] := by
  have ended := (next_etx (Prod.ext h.found rfl) last).1
  rwa [h.ahead, List.append_eq_nil_iff] at ended

/-- A token that has been found is read from its characters, and the first of them is no blank. -/
theorem Finds.exists_lexeme (h : s.Finds limits n before lexeme token after) (more : token.kind ≠ .etx) :
    ∃ c front, lexeme = c :: front ∧ isBlank c = false ∧
      Lexeme.read limits (c :: (front ++ after)) = ⟨.ok token.toContent, front.length + 1⟩ := by
  obtain ⟨-, c, front, -, -, ahead, visible, read⟩ := exists_of_next (Prod.ext h.found rfl) more
  rw [h.behind] at ahead read
  rw [h.ahead, ← List.cons_append] at ahead
  exact ⟨c, front, List.append_cancel_right ahead, visible, read⟩

/-- In front of a token that has been found, up to the place where the text is cut, none is moved by what comes behind
the cut, if that spares the one that ends there. -/
theorem Finds.unmoved {front back new : List Char} (h : s.Finds limits n before lexeme token after)
    (cut : front ++ back = lexeme ++ after)
    (base : ∀ blanks, (∀ d ∈ blanks, isBlank d = true) → Lexeme.Unmoved limits back new (blanks ++ front))
    (spared : ∀ m b l t a, s.Finds limits m b l t a → t.kind ≠ .etx → b ++ l = before ++ front →
      Spares t.kind new back) : Lexeme.Unmoved limits back new (before ++ front) := by
  induction n generalizing s before with
  | zero =>
    obtain ⟨blanks, split, blank, -⟩ := s.exists_blanks
    have ahead : s.skipBlanks.rest = lexeme ++ after := h.ahead
    rw [h.split, ahead] at split
    rw [List.append_cancel_right split]
    exact base blanks blank
  | succ n ih =>
    obtain ⟨a, t, taken, before', read, moved, rfl, later⟩ := h.of_succ
    by_cases last : a.kind = .etx
    · obtain ⟨ahead, behind⟩ := next_etx read last
      obtain ⟨blanks, split, blank, -⟩ := s.exists_blanks
      rw [moved, behind, ahead, List.append_nil, List.append_nil] at split
      have nothing := later.split
      rw [behind] at nothing
      obtain rfl : before' = [] := (List.append_eq_nil_iff.mp nothing.symm).1
      rw [split, List.append_nil]
      exact base blanks blank
    · obtain ⟨blanks, c, first, found, blank, visible, taken'⟩ := Finds.first read last
      have same : taken = blanks ++ c :: first := by
        have split := found.split
        rw [moved, ← List.append_assoc] at split
        exact List.append_cancel_right split
      subst same
      have rest : t.rest = before' ++ front ++ back := by rw [later.split, ← cut, List.append_assoc]
      have behind : Spares a.kind (before' ++ front ++ new) (before' ++ front ++ back) := by
        cases between : before' ++ front with
        | cons d rest => exact .inl rfl
        | nil =>
          refine spared 0 _ _ a _ found last ?_
          rw [List.append_assoc, between, List.append_nil]
      rw [rest] at taken'
      have unmoved : Lexeme.Unmoved limits back new (before' ++ front) := by
        refine ih later ?_
        intro m b l t' a' found' more same
        refine spared (m + 1) _ l t' a' (found'.later read moved) more ?_
        simp only [List.append_assoc, same]
      have whole := Lexeme.Unmoved.token blank visible taken' last behind unmoved
      simpa only [List.append_assoc, List.cons_append] using whole

end Cursor

end Mensura
