import Mathlib.Data.Nat.Find
import Mensura.Proofs.Token.Locality

/-!
How a limit is kept while a text is read character by character. What has been read may become too much, and then it
remains so. Main statements: digits and the characters between quotes are refused just if they are too much as a whole,
and then at the first character with which they are.
-/

namespace Mensura

namespace Lexeme

variable {tooMuch : List Char → Prop} {text : List Char} {c : Char} {k : Nat}

/-- Up to the character at `k`, that one included, `text` is too much, and not so up to any character before it. -/
structure Oversteps (tooMuch : List Char → Prop) (text : List Char) (k : Nat) : Prop where
  inside : k < text.length
  reached : tooMuch (text.take (k + 1))
  first : ∀ j < k, ¬ tooMuch (text.take (j + 1))

/-- What is too much remains so when other characters follow. -/
def Lasting (tooMuch : List Char → Prop) : Prop := ∀ front back, tooMuch front → tooMuch (front ++ back)

/-- If the whole is too much, then there is a first character with which it is. -/
theorem exists_oversteps (nonempty : text ≠ []) (whole : tooMuch text) : ∃ k, Oversteps tooMuch text k := by
  classical
  have length := List.length_pos_iff.mpr nonempty
  have last : tooMuch (text.take (text.length - 1 + 1)) := by rwa [List.take_of_length_le (by omega)]
  have reached : ∃ k, tooMuch (text.take (k + 1)) := ⟨_, last⟩
  have early : Nat.find reached ≤ text.length - 1 := Nat.find_min' reached last
  exact ⟨Nat.find reached, by omega, Nat.find_spec reached, fun j less => Nat.find_min reached less⟩

theorem Oversteps.whole (h : Oversteps tooMuch text k) (lasting : Lasting tooMuch) : text ≠ [] ∧ tooMuch text := by
  constructor
  · exact List.ne_nil_of_length_pos (Nat.zero_lt_of_lt h.inside)
  · have reached := lasting _ (text.drop (k + 1)) h.reached
    rwa [List.take_append_drop] at reached

/-- Either the first character is too much, or what follows it is, when it has been read before. -/
theorem Oversteps.of_cons (h : Oversteps tooMuch (c :: text) k) :
    tooMuch [c] ∧ k = 0 ∨
      ¬ tooMuch [c] ∧ ∃ j, k = j + 1 ∧ Oversteps (fun part => tooMuch (c :: part)) text j := by
  cases k with
  | zero => exact .inl ⟨h.reached, rfl⟩
  | succ j =>
    refine .inr ⟨h.first 0 (Nat.succ_pos j), j, rfl, Nat.lt_of_succ_lt_succ h.inside, h.reached, ?_⟩
    intro i less
    exact h.first (i + 1) (Nat.succ_lt_succ less)

/-- A limit on the number of characters is overstepped behind as many as it allows. -/
theorem oversteps_length {limit : Nat} (long : limit < text.length) :
    Oversteps (fun part => limit < part.length) text limit where
  inside := long
  reached := by
    rw [List.length_take]
    omega
  first j less := by
    rw [List.length_take]
    omega

end Lexeme

namespace Reading

open Lexeme (Oversteps Lasting)

variable {α β : Type} {r : Reading α} {fault : LexicalFault} {tooMuch : List Char → Prop} {before : Nat}
  {part : List Char}

/-- The reading is refused with `fault` just if the characters `part` are too much, and then at the first of them with
which they are. In front of `part` it takes `before` characters. -/
structure Keeps (r : Reading α) (fault : LexicalFault) (tooMuch : List Char → Prop) (before : Nat)
    (part : List Char) : Prop where
  refused_iff : r.outcome = .error fault ↔ part ≠ [] ∧ tooMuch part
  stops : r.outcome = .error fault → ∃ k, Oversteps tooMuch part k ∧ r.consumed = before + k

/-- It is enough to know what happens at the first character that is too much, and what happens if there is none. -/
theorem Keeps.of_oversteps (lasting : Lasting tooMuch)
    (refused : ∀ k, Oversteps tooMuch part k → r = ⟨.error fault, before + k⟩)
    (kept : (∀ j < part.length, ¬ tooMuch (part.take (j + 1))) → r.outcome ≠ .error fault) :
    r.Keeps fault tooMuch before part := by
  have reached (h : r.outcome = .error fault) : ∃ k, Oversteps tooMuch part k := by
    by_contra none
    refine kept (fun j less much => none ?_) h
    have whole := lasting _ (part.drop (j + 1)) much
    rw [List.take_append_drop] at whole
    exact Lexeme.exists_oversteps (List.ne_nil_of_length_pos (Nat.zero_lt_of_lt less)) whole
  constructor
  · constructor
    · intro h
      obtain ⟨k, oversteps⟩ := reached h
      exact oversteps.whole lasting
    · rintro ⟨nonempty, whole⟩
      obtain ⟨k, oversteps⟩ := Lexeme.exists_oversteps nonempty whole
      rw [refused k oversteps]
  · intro h
    obtain ⟨k, oversteps⟩ := reached h
    exact ⟨k, oversteps, congrArg consumed (refused k oversteps)⟩

/-- Where there is nothing, nothing is too much. -/
theorem Keeps.nil (other : r.outcome ≠ .error fault) : r.Keeps fault tooMuch before [] where
  refused_iff := by simp [other]
  stops h := absurd h other

theorem Keeps.after (h : r.Keeps fault tooMuch before part) (n : Nat) :
    (r.after n).Keeps fault tooMuch (n + before) part where
  refused_iff := h.refused_iff
  stops refused := by
    obtain ⟨k, oversteps, consumed⟩ := h.stops refused
    exact ⟨k, oversteps, by rw [Reading.after, consumed, Nat.add_assoc]⟩

theorem Keeps.map (h : r.Keeps fault tooMuch before part) (f : α → β) :
    (r.map f).Keeps fault tooMuch before part where
  refused_iff := map_eq_error.trans h.refused_iff
  stops refused := h.stops (map_eq_error.mp refused)

/-- What is read behind does not matter if it is never refused with the same fault. -/
theorem Keeps.andThen (h : r.Keeps fault tooMuch before part) {next : α → Reading β}
    (other : ∀ a, (next a).outcome ≠ .error fault) : (r.andThen next).Keeps fault tooMuch before part := by
  have same : (r.andThen next).outcome = .error fault ↔ r.outcome = .error fault := by
    unfold Reading.andThen
    cases read : r.outcome with
    | ok a => exact iff_of_false (other a) nofun
    | error found => simp only [Except.error.injEq]
  constructor
  · exact same.trans h.refused_iff
  · intro refused
    have refused := same.mp refused
    rw [Reading.andThen, refused]
    exact h.stops refused

theorem andThen_of_ok {next : α → Reading β} {a : α} (read : r.outcome = .ok a) :
    r.andThen next = (next a).after r.consumed := by
  rw [Reading.andThen, read]

/-- A limit on the number of characters, where all of them are known when it is checked. -/
theorem keeps_length {limit : Nat} {full : Reading α} (other : full.outcome ≠ .error fault) :
    (if part.length ≤ limit then full else ⟨.error fault, limit⟩).Keeps fault (fun part => limit < part.length) 0
      part := by
  by_cases short : part.length ≤ limit
  · rw [if_pos short]
    constructor
    · simp [other, short]
    · exact fun refused => absurd refused other
  · rw [if_neg short]
    have long := Nat.lt_of_not_le short
    constructor
    · simpa [long] using List.ne_nil_of_length_pos (Nat.zero_lt_of_lt long)
    · exact fun _ => ⟨limit, Lexeme.oversteps_length long, by rw [Nat.zero_add]⟩

end Reading

namespace Lexeme

variable {admits : Nat → Nat → Bool} {ds tail text raw cs : List Char} {value count k limit room : Nat} {c : Char}

/-! ### Digits -/

/-- The digits are not admitted, when `count` others that make up `value` have been read before. -/
def Refuses (admits : Nat → Nat → Bool) (value count : Nat) (part : List Char) : Prop :=
  admits (count + part.length) (Nat.ofDigitChars 10 part value) = false

theorem refuses_cons (part : List Char) :
    Refuses admits value count (c :: part) ↔ Refuses admits (10 * value + Numeral.digitValue c) (count + 1) part := by
  rw [Refuses, Refuses, Nat.ofDigitChars_cons, List.length_cons, Nat.add_assoc, Nat.add_comm 1]
  rfl

theorem digits_refused (all : ∀ c ∈ ds, c.isDigit = true) (h : Oversteps (Refuses admits value count) ds k) :
    digits admits value count (ds ++ tail) = ⟨Nat.ofDigitChars 10 (ds.take k) value, count + k, true⟩ := by
  induction ds generalizing value count k with
  | nil => exact absurd h.inside (Nat.not_lt_zero k)
  | cons c ds ih =>
    rw [List.cons_append, digits, if_pos (all c List.mem_cons_self)]
    dsimp only
    obtain ⟨refused, rfl⟩ | ⟨kept, j, rfl, next⟩ := h.of_cons
    · rw [refuses_cons] at refused
      have refused : admits (count + 1) (10 * value + Numeral.digitValue c) = false := refused
      simp [refused]
    · rw [refuses_cons] at kept
      have kept : admits (count + 1) (10 * value + Numeral.digitValue c) = true := Bool.of_not_eq_false kept
      simp only [refuses_cons] at next
      rw [if_pos kept, ih (fun d mem => all d (List.mem_cons_of_mem c mem)) next, List.take_succ_cons,
        Nat.ofDigitChars_cons, Nat.add_assoc, Nat.add_comm 1]
      rfl

theorem digits_kept (all : ∀ c ∈ ds, c.isDigit = true) (stop : ∀ c, tail.head? = some c → c.isDigit = false)
    (h : ∀ j < ds.length, ¬ Refuses admits value count (ds.take (j + 1))) :
    digits admits value count (ds ++ tail) = ⟨Nat.ofDigitChars 10 ds value, count + ds.length, false⟩ := by
  induction ds generalizing value count with
  | nil => exact digits_stop stop
  | cons c ds ih =>
    have kept := h 0 (Nat.succ_pos _)
    rw [List.take_succ_cons, List.take_zero, refuses_cons] at kept
    have kept : admits (count + 1) (10 * value + Numeral.digitValue c) = true := Bool.of_not_eq_false kept
    have later : ∀ j < ds.length,
        ¬ Refuses admits (10 * value + Numeral.digitValue c) (count + 1) (ds.take (j + 1)) := by
      intro j less
      rw [← refuses_cons, ← List.take_succ_cons]
      exact h (j + 1) (Nat.succ_lt_succ less)
    rw [List.cons_append, digits, if_pos (all c List.mem_cons_self)]
    dsimp only
    rw [if_pos kept, ih (fun d mem => all d (List.mem_cons_of_mem c mem)) later, Nat.ofDigitChars_cons,
      List.length_cons, Nat.add_assoc, Nat.add_comm 1]
    rfl

/-- Digits are refused at the first one with which they are not admitted any more, if none of them ever makes up for
those before it. -/
theorem digits_keeps {tooMuch : List Char → Prop} (lasting : Lasting tooMuch)
    (same : ∀ part, Refuses admits 0 0 part ↔ tooMuch part) (fault : LexicalFault) (text : List Char) :
    ((digits admits 0 0 text).reading fault).Keeps fault tooMuch 0 (text.takeWhile Char.isDigit) := by
  obtain rfl : Refuses admits 0 0 = tooMuch := funext fun part => propext (same part)
  obtain ⟨ds, tail, rfl, all, stop⟩ := exists_cut Char.isDigit text
  rw [takeWhile_append_apart all stop]
  apply Reading.Keeps.of_oversteps lasting
  · intro k oversteps
    rw [digits_refused all oversteps]
    rfl
  · intro kept
    rw [digits_kept all stop kept]
    exact nofun

/-! ### Texts -/

/-- How many characters are complete. A backslash alone is none. -/
def decodedLength : List Char → Nat
  | [] => 0
  | ['\\'] => 0
  | '\\' :: _ :: raw => decodedLength raw + 1
  | _ :: raw => decodedLength raw + 1

theorem decodedLength_cons (backslash : c ≠ '\\') (raw : List Char) :
    decodedLength (c :: raw) = decodedLength raw + 1 := by
  cases raw with
  | nil => exact decodedLength.eq_4 c [] (fun same _ => backslash same) nofun
  | cons d raw => exact decodedLength.eq_4 c _ nofun (fun _ _ same _ => backslash same)

theorem decodedLength_escape (c : Char) (raw : List Char) : decodedLength ('\\' :: c :: raw) = decodedLength raw + 1 :=
  rfl

theorem Decodes.decodedLength_eq (h : Decodes raw cs) : decodedLength raw = cs.length := by
  induction h with
  | nil => rfl
  | plain _ backslash _ ih => rw [decodedLength_cons backslash, ih, List.length_cons]
  | escape _ _ ih => rw [decodedLength_escape, ih, List.length_cons]

theorem decodedLength_append (front back : List Char) : decodedLength front ≤ decodedLength (front ++ back) := by
  fun_induction decodedLength front with
  | case1 | case2 => exact Nat.zero_le _
  | case3 c front ih => exact Nat.succ_le_succ ih
  | case4 c front single escape ih =>
    have backslash : c ≠ '\\' := by
      intro same
      cases front with
      | nil => exact single same rfl
      | cons d front => exact escape d front same rfl
    rw [List.cons_append, decodedLength_cons backslash]
    exact Nat.succ_le_succ ih

theorem quotedBody_refused (h : Decodes raw cs) (oversteps : Oversteps (fun part => room < decodedLength part) raw k) :
    quotedBody limit room (raw ++ '"' :: tail) = ⟨.error (.textTooLong limit), k⟩ := by
  induction h generalizing room k with
  | nil => exact absurd oversteps.inside (Nat.not_lt_zero k)
  | @plain c raw cs quote backslash others ih =>
    rw [List.cons_append]
    obtain ⟨full, rfl⟩ | ⟨fits, j, rfl, next⟩ := oversteps.of_cons
    · rw [decodedLength_cons backslash] at full
      obtain rfl : room = 0 := Nat.lt_one_iff.mp full
      exact quotedBody.eq_7 _ _ _ quote (fun same _ => backslash same) (fun _ _ same _ => backslash same)
    · rw [decodedLength_cons backslash] at fits
      obtain ⟨room, rfl⟩ := Nat.exists_eq_add_one.mpr (Nat.le_of_not_lt fits)
      simp only [decodedLength_cons backslash, Nat.add_lt_add_iff_right] at next
      rw [quotedBody.eq_8 _ _ _ _ quote (fun same _ => backslash same) (fun _ _ same _ => backslash same), ih next,
        Nat.add_comm]
      rfl
  | @escape c d raw cs means others ih =>
    rw [List.cons_append, List.cons_append]
    obtain ⟨full, -⟩ | ⟨-, i, rfl, behind⟩ := oversteps.of_cons
    · exact absurd full (Nat.not_lt_zero room)
    obtain ⟨full, rfl⟩ | ⟨fits, j, rfl, next⟩ := behind.of_cons
    · obtain rfl : room = 0 := Nat.lt_one_iff.mp full
      exact quotedBody.eq_5 _ _ _ _ means
    · obtain ⟨room, rfl⟩ := Nat.exists_eq_add_one.mpr (Nat.le_of_not_lt fits)
      simp only [decodedLength_escape, Nat.add_lt_add_iff_right] at next
      rw [quotedBody.eq_6 _ _ _ _ _ means, ih next, Nat.add_assoc, Nat.add_comm]
      rfl

/-- A text is refused at the character that completes one more than its limit allows. -/
theorem quotedBody_keeps (h : Decodes raw cs) (tail : List Char) :
    (quotedBody limit limit (raw ++ '"' :: tail)).Keeps (.textTooLong limit) (fun part => limit < decodedLength part) 0
      raw := by
  apply Reading.Keeps.of_oversteps
  · intro front back long
    exact Nat.lt_of_lt_of_le long (decodedLength_append front back)
  · intro k oversteps
    rw [quotedBody_refused h oversteps, Nat.zero_add]
  · intro kept
    have fits : cs.length ≤ limit := by
      rw [← h.decodedLength_eq]
      cases raw with
      | nil => exact Nat.zero_le _
      | cons c raw =>
        have whole := kept raw.length (Nat.lt_succ_self _)
        rw [List.take_of_length_le (Nat.le_of_eq List.length_cons)] at whole
        exact Nat.le_of_not_lt whole
    rw [quotedBody_kept h fits]
    exact nofun

end Lexeme

end Mensura
