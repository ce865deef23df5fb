/-!
Places in a text. A cursor is a place together with the text that is still ahead of it; it moves one
character at a time and counts rows and columns from 1. One line end is a carriage return, a line feed,
or one of each in either order.
-/

namespace Mensura

/-- A place in a text: its row and its column, both counted from 1. -/
structure Position where
  row : Nat
  column : Nat
  deriving DecidableEq, Repr

namespace Position

def start : Position := ⟨1, 1⟩

def nextColumn (p : Position) : Position := ⟨p.row, p.column + 1⟩

def nextRow (p : Position) : Position := ⟨p.row + 1, 1⟩

/-- Reading order: by row, then by column. -/
def le (p q : Position) : Bool :=
  p.row < q.row || (p.row == q.row && p.column ≤ q.column)

end Position

def isLineBreak (c : Char) : Bool := c == '\n' || c == '\r'

/-- A place in a text and the characters from there on. `breakOpen` says that the first of them closes a
line end of two characters that the one before it has opened. -/
structure Cursor where
  rest : List Char
  position : Position
  breakOpen : Bool
  deriving DecidableEq, Repr

namespace Cursor

def ofText (text : String) : Cursor := ⟨text.toList, .start, false⟩

/-- Whether the line break `c` and the character after it make up one line end. -/
def opensPair (c : Char) : List Char → Bool
  | [] => false
  | d :: _ => isLineBreak d && d != c

/-- Moves over one character. The row changes behind a complete line end, never inside one. -/
def advance (s : Cursor) : Cursor :=
  match s.rest with
  | [] => s
  | c :: rest =>
    if isLineBreak c then
      if s.breakOpen then ⟨rest, s.position.nextRow, false⟩
      else if opensPair c rest then ⟨rest, s.position.nextColumn, true⟩
      else ⟨rest, s.position.nextRow, false⟩
    else ⟨rest, s.position.nextColumn, s.breakOpen⟩

/-- Moves over `n` characters, or to the end of the text if fewer are left. -/
def advanceBy : Nat → Cursor → Cursor
  | 0, s => s
  | n + 1, s => advanceBy n s.advance

theorem rest_advance (s : Cursor) : s.advance.rest = s.rest.tail := by
  unfold advance
  split
  · rename_i h; simp [h]
  · rename_i c rest h
    split
    · split
      · simp [h]
      · split <;> simp [h]
    · simp [h]

theorem rest_advanceBy (n : Nat) (s : Cursor) : (advanceBy n s).rest = s.rest.drop n := by
  induction n generalizing s with
  | zero => rfl
  | succ n ih => rw [advanceBy, ih, rest_advance, List.drop_tail]

theorem advanceBy_add (m n : Nat) (s : Cursor) :
    advanceBy (m + n) s = advanceBy n (advanceBy m s) := by
  induction m generalizing s with
  | zero => rw [Nat.zero_add]; rfl
  | succ m ih => rw [Nat.succ_add]; exact ih s.advance

end Cursor

end Mensura
