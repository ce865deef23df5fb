import Mensura.Text.Position

/-!
Lines of a text as a whole. A text is cut greedily from the left: a line ends behind a carriage return, a line
feed, or one of each in either order, and a place is told by the line ends before it. Main statement: a cursor
that counts rows and columns character by character, knowing no more than the next one, is always at the place
that the cut of the whole text gives for the characters it has moved over.
-/

namespace Mensura

namespace Text

/-- The offsets behind the line ends of a text, the first character of which has the given offset. -/
def lineEnds (offset : Nat) : List Char → List Nat
  | [] => []
  | '\r' :: '\n' :: rest => (offset + 2) :: lineEnds (offset + 2) rest
  | '\n' :: '\r' :: rest => (offset + 2) :: lineEnds (offset + 2) rest
  | '\r' :: rest => (offset + 1) :: lineEnds (offset + 1) rest
  | '\n' :: rest => (offset + 1) :: lineEnds (offset + 1) rest
  | _ :: rest => lineEnds (offset + 1) rest

/-- The place of the character with the given offset: its row counts the line ends at or before the offset, its
column the characters behind the last of these. -/
def positionAt (text : List Char) (offset : Nat) : Position :=
  let ended := (lineEnds 0 text).filter (· ≤ offset)
  ⟨1 + ended.length, 1 + (offset - ended.getLast?.getD 0)⟩

/-- Both breaks of a pair belong to one line end, and no more than two do. -/
example : lineEnds 0 "a\n\r\nb\r\rc".toList = [3, 4, 6, 7] := by decide

theorem lt_of_mem_lineEnds {offset e : Nat} {text : List Char} (h : e ∈ lineEnds offset text) : offset < e := by
  fun_induction lineEnds offset text with
  | case1 => cases h
  | case2 offset rest ih | case3 offset rest ih =>
    obtain rfl | h := List.mem_cons.mp h
    · omega
    · have := ih h
      omega
  | case4 offset rest _ ih | case5 offset rest _ ih =>
    obtain rfl | h := List.mem_cons.mp h
    · omega
    · have := ih h
      omega
  | case6 offset c rest _ _ _ _ ih =>
    have := ih h
    omega

theorem opensPair_eq_false {c d : Char} {rest : List Char} (other : ∀ e, isLineBreak e = true → e ≠ c → e = d)
    (alone : ∀ rest', rest = d :: rest' → False) : Cursor.opensPair c rest = false := by
  cases rest with
  | nil => rfl
  | cons e rest =>
    rw [Cursor.opensPair, Bool.and_eq_false_iff, bne_eq_false_iff_eq]
    by_cases same : e = c
    · exact .inr same
    · refine .inl (Bool.eq_false_iff.mpr fun isBreak => ?_)
      exact alone rest (by rw [other e isBreak same])

/-- The cut as it is found with a look at one more character. -/
theorem lineEnds_cons (offset : Nat) (c : Char) (rest : List Char) :
    lineEnds offset (c :: rest) =
      if isLineBreak c then
        if Cursor.opensPair c rest then (offset + 2) :: lineEnds (offset + 2) rest.tail
        else (offset + 1) :: lineEnds (offset + 1) rest
      else lineEnds (offset + 1) rest := by
  generalize whole : c :: rest = text
  fun_cases lineEnds offset text with
  | case1 => cases whole
  | case2 rest => cases whole; rfl
  | case3 rest => cases whole; rfl
  | case4 rest alone =>
    cases whole
    have single : Cursor.opensPair '\r' rest = false := opensPair_eq_false (by simp [isLineBreak]) alone
    simp [isLineBreak, single]
  | case5 rest alone =>
    cases whole
    have single : Cursor.opensPair '\n' rest = false := opensPair_eq_false (by simp [isLineBreak]) alone
    simp [isLineBreak, single]
  | case6 c rest _ _ carriage feed =>
    cases whole
    have other : isLineBreak c = false := by
      simp only [isLineBreak, Bool.or_eq_false_iff, beq_eq_false_iff_ne]
      exact ⟨fun h => feed h, fun h => carriage h⟩
    simp [other]

end Text

namespace Cursor

/-- What a cursor knows of the cut of a text when it has moved over `offset` characters: `ended` are the line ends
behind it, and the cut goes on from where it stands, or behind the one character that closes an open pair. -/
structure Follows (text : List Char) (offset : Nat) (ended : List Nat) (s : Cursor) : Prop where
  rest : s.rest = text.drop offset
  inside : offset ≤ text.length
  cut : Text.lineEnds 0 text = ended ++
    if s.breakOpen then (offset + 1) :: Text.lineEnds (offset + 1) s.rest.tail else Text.lineEnds offset s.rest
  past : ∀ e ∈ ended, e ≤ offset
  closing : s.breakOpen = true → ∃ c rest, s.rest = c :: rest ∧ isLineBreak c = true
  row : s.position.row = 1 + ended.length
  column : s.position.column = 1 + (offset - ended.getLast?.getD 0)

variable {text : List Char} {offset : Nat} {ended : List Nat} {s : Cursor}

theorem Follows.ofText (text : String) : Follows text.toList 0 [] (ofText text) where
  rest := rfl
  inside := Nat.zero_le _
  cut := rfl
  past := nofun
  closing := nofun
  row := rfl
  column := rfl

/-- The place that was counted is the one that the cut gives. -/
theorem Follows.position_eq (h : s.Follows text offset ended) : s.position = Text.positionAt text offset := by
  have behind : ∀ e ∈ (if s.breakOpen then (offset + 1) :: Text.lineEnds (offset + 1) s.rest.tail
      else Text.lineEnds offset s.rest), ¬ e ≤ offset := by
    intro e mem
    split at mem
    · obtain rfl | mem := List.mem_cons.mp mem
      · omega
      · have := Text.lt_of_mem_lineEnds mem
        omega
    · have := Text.lt_of_mem_lineEnds mem
      omega
  have kept : (Text.lineEnds 0 text).filter (· ≤ offset) = ended := by
    rw [h.cut, List.filter_append, List.filter_eq_self.mpr (by simpa using h.past),
      List.filter_eq_nil_iff.mpr (by simpa using behind), List.append_nil]
  simp only [Text.positionAt, kept, ← h.row, ← h.column]

theorem getLast_le {ended : List Nat} (past : ∀ e ∈ ended, e ≤ offset) : ended.getLast?.getD 0 ≤ offset := by
  cases last : ended.getLast? with
  | none => exact Nat.zero_le _
  | some e => exact past e (List.mem_of_getLast? last)

/-- One character on in the same line. -/
theorem Follows.sameRow {c : Char} {rest : List Char} {position : Position} {breakOpen isOpen : Bool}
    (h : Follows text offset ended ⟨c :: rest, position, breakOpen⟩)
    (cut : Text.lineEnds 0 text = ended ++
      if isOpen then (offset + 2) :: Text.lineEnds (offset + 2) rest.tail else Text.lineEnds (offset + 1) rest)
    (closing : isOpen = true → ∃ c rest', rest = c :: rest' ∧ isLineBreak c = true) :
    Follows text (offset + 1) ended ⟨rest, position.nextColumn, isOpen⟩ where
  rest := by rw [← List.tail_drop, ← h.rest, List.tail_cons]
  inside := by
    have length := congrArg List.length h.rest
    simp only [List.length_cons, List.length_drop] at length
    omega
  cut := cut
  past e mem := Nat.le_succ_of_le (h.past e mem)
  closing := closing
  row := h.row
  column := by
    have counted : position.column = 1 + (offset - ended.getLast?.getD 0) := h.column
    have last := getLast_le h.past
    change position.column + 1 = 1 + (offset + 1 - ended.getLast?.getD 0)
    omega

/-- One character on, over the end of a line. -/
theorem Follows.nextRow {c : Char} {rest : List Char} {position : Position} {breakOpen : Bool}
    (h : Follows text offset ended ⟨c :: rest, position, breakOpen⟩)
    (cut : Text.lineEnds 0 text = ended ++ (offset + 1) :: Text.lineEnds (offset + 1) rest) :
    Follows text (offset + 1) (ended ++ [offset + 1]) ⟨rest, position.nextRow, false⟩ where
  rest := by rw [← List.tail_drop, ← h.rest, List.tail_cons]
  inside := by
    have length := congrArg List.length h.rest
    simp only [List.length_cons, List.length_drop] at length
    omega
  cut := by rw [cut, List.append_assoc]; rfl
  past e mem := by
    obtain mem | mem := List.mem_append.mp mem
    · exact Nat.le_succ_of_le (h.past e mem)
    · exact Nat.le_of_eq (List.mem_singleton.mp mem)
  closing := nofun
  row := by
    have counted : position.row = 1 + ended.length := h.row
    change position.row + 1 = 1 + (ended ++ [offset + 1]).length
    rw [counted, List.length_append]
    rfl
  column := by
    rw [List.getLast?_append]
    simp [Position.nextRow]

/-- One character on. A line is counted when its end is complete. -/
theorem Follows.advance (h : s.Follows text offset ended) (more : s.rest ≠ []) :
    ∃ ended, s.advance.Follows text (offset + 1) ended := by
  obtain ⟨rest, position, breakOpen⟩ := s
  obtain ⟨c, rest, rfl⟩ := List.exists_cons_of_ne_nil more
  have cut := h.cut
  unfold Cursor.advance
  cases isBreak : isLineBreak c with
  | true =>
    cases breakOpen with
    | true =>
      rw [if_pos rfl] at cut
      simp only [isBreak, if_true]
      exact ⟨_, h.nextRow cut⟩
    | false =>
      rw [if_neg Bool.false_ne_true, Text.lineEnds_cons, if_pos isBreak] at cut
      simp only [isBreak, if_true, Bool.false_eq_true, if_false]
      cases pair : opensPair c rest with
      | true =>
        rw [if_pos pair] at cut
        refine ⟨_, h.sameRow cut fun _ => ?_⟩
        cases rest with
        | nil => cases pair
        | cons d rest => exact ⟨d, rest, rfl, (Bool.and_eq_true_iff.mp pair).1⟩
      | false =>
        rw [if_neg (by simp [pair])] at cut
        exact ⟨_, h.nextRow cut⟩
  | false =>
    cases breakOpen with
    | true =>
      -- what closes a pair is a line break
      obtain ⟨d, rest', same, impossible⟩ := h.closing rfl
      cases same
      rw [isBreak] at impossible
      cases impossible
    | false =>
      rw [if_neg Bool.false_ne_true, Text.lineEnds_cons, if_neg (by simp [isBreak])] at cut
      simp only [isBreak, Bool.false_eq_true, if_false]
      exact ⟨_, h.sameRow cut nofun⟩

theorem Follows.advanceBy (h : s.Follows text offset ended) (n : Nat) :
    ∃ offset ended, (advanceBy n s).Follows text offset ended := by
  induction n generalizing s offset ended with
  | zero => exact ⟨offset, ended, h⟩
  | succ n ih =>
    by_cases none : s.rest = []
    · have stays : s.advance = s := by
        unfold Cursor.advance
        rw [none]
      rw [Cursor.advanceBy, stays]
      exact ih h
    · obtain ⟨ended, h⟩ := h.advance none
      exact ih h

/-- A cursor that has been moved from the beginning of a text over the characters `before`. -/
structure Stands (text : String) (before : List Char) (s : Cursor) : Prop where
  moved : ∃ n, s = advanceBy n (ofText text)
  split : text.toList = before ++ s.rest

theorem Stands.ofText (text : String) : Stands text [] (ofText text) := ⟨⟨0, rfl⟩, rfl⟩

theorem Stands.advanceBy {text : String} {before taken : List Char} (h : s.Stands text before) (n : Nat)
    (next : s.rest = taken ++ (advanceBy n s).rest) : (advanceBy n s).Stands text (before ++ taken) := by
  obtain ⟨⟨m, rfl⟩, split⟩ := h
  refine ⟨⟨m + n, (advanceBy_add m n _).symm⟩, ?_⟩
  rw [List.append_assoc, ← next]
  exact split

/-- It is at the place of the characters that it has left behind. -/
theorem Stands.position_eq {text : String} {before : List Char} (h : s.Stands text before) :
    s.position = Text.positionAt text.toList before.length := by
  obtain ⟨⟨n, rfl⟩, split⟩ := h
  obtain ⟨offset, ended, follows⟩ := (Follows.ofText text).advanceBy n
  have consumed : before.length = offset := by
    have length := congrArg List.length split
    have := follows.inside
    rw [List.length_append, follows.rest, List.length_drop] at length
    omega
  rw [consumed, follows.position_eq]

end Cursor

end Mensura
