import Mensura.Proofs.Printing.Chunk
import Mensura.Proofs.Printing.UnitTokens

/-!
Units are read back from how they are printed, whatever text follows them, and so are integers in the place of a power.
Main statement: of all the powers that a unit can have, -2147483648 is the only one that is printed and not read, and of
all integers those of 32 bits but for that one are read.
-/

namespace Mensura

open Lexeme (Apart)

/-! ### Spelling -/

section
variable {limits : Limits} {tail : List Char}

/-- The sign that is printed of an integer. -/
def signText (k : Int) : List Char := if k < 0 then ['-'] else []

theorem toList_integer (k : Int) : (Numeral.integer k).toList = signText k ++ Numeral.natural k.natAbs := by
  rw [signText]
  split
  · rename_i negative
    exact integer_of_neg negative
  · rename_i nonneg
    exact integer_of_nonneg (Int.not_lt.mp nonneg)

theorem sign_chunk (k : Int) (n : Nat) :
    Chunk limits (signText k) (Numeral.natural n ++ tail) fun ts =>
      (0 ≤ k ∧ ts = []) ∨ (k < 0 ∧ ∃ minus : Token, ts = [minus] ∧ minus.kind = .minus) := by
  rw [signText]
  split
  · rename_i negative
    exact (Chunk.symbol .minus (by decide) (.inr (natural_loose n tail))).imp fun ts sign => .inr ⟨negative, sign⟩
  · rename_i nonneg
    exact fun s here => ⟨[], .inl ⟨Int.not_lt.mp nonneg, rfl⟩, rfl⟩

/-- Any integer whose magnitude keeps to the limit. -/
theorem integer_chunk {k : Int} (fits : k.natAbs ≤ limits.integer.toInt) (apart : Apart tail) :
    Chunk limits (Numeral.integer k).toList tail (IntegerTokens k) := by
  have bound := limits.integer.toInt_lt
  have magnitude : (Int64.ofNat k.natAbs).toInt = k.natAbs := Int64.toInt_ofNat_of_lt (by omega)
  rw [toList_integer]
  refine ((sign_chunk k k.natAbs).append (Chunk.natural fits apart)).imp ?_
  rintro _ ⟨_, _, rfl, ⟨nonneg, rfl⟩ | ⟨negative, minus, rfl, sign⟩, t, rfl, counts⟩
  · have same : k = (Int64.ofNat k.natAbs).toInt := by omega
    rw [same]
    exact .natural counts (by omega)
  · have same : k = -(Int64.ofNat k.natAbs).toInt := by omega
    rw [same]
    exact .opposite sign counts (by omega)

/-- A name raised to an integer, with the power written out. -/
def raisedText (name : String) (k : Int) : List Char := name.toList ++ ("^".toList ++ (Numeral.integer k).toList)

theorem raised_chunk {name : String} (isName : Text.IsName limits name) {k : Int}
    (fits : k.natAbs ≤ limits.integer.toInt) (apart : Apart tail) :
    Chunk limits (raisedText name k) tail (FactorTokens (name, k)) := by
  refine ((Chunk.name isName (.cons (by decide))).append
    ((Chunk.symbol .caret (by decide) (.inl rfl)).append (integer_chunk fits apart))).imp ?_
  rintro _ ⟨_, _, rfl, ⟨t, position, rfl, named⟩, _, _, rfl, ⟨caret, rfl, isCaret⟩, power⟩
  exact .raised named isCaret power

/-- The name and the power of a factor. -/
def Factor.parts (u : Factor) : String × Int := (u.name, u.power.toInt)

theorem factor_chunk {u : Factor} (isName : Text.IsName limits u.name)
    (fits : 2147483648 ≤ limits.integer.toInt) (apart : Apart tail) :
    Chunk limits u.display.toList tail (FactorTokens u.parts) := by
  rw [Factor.display]
  split
  · rename_i one
    rw [Factor.parts, one]
    refine (Chunk.name isName apart).imp ?_
    rintro _ ⟨t, position, rfl, named⟩
    exact .plain named
  · have := u.power.le_toInt
    have := u.power.toInt_lt
    rw [String.toList_append, String.toList_append, List.append_assoc]
    exact raised_chunk isName (by omega) apart

/-- Factors behind another one, each with a star in front of it. -/
def starText (us : List Factor) : List Char := us.flatMap fun u => "*".toList ++ u.display.toList

theorem starText_apart (us : List Factor) (tail : List Char) : Apart (starText us ++ ']' :: tail) := by
  cases us with
  | nil => exact .cons (by decide)
  | cons u us => exact .cons (by decide)

theorem further_chunk {us : List Factor} (areNames : ∀ u ∈ us, Text.IsName limits u.name)
    (fits : 2147483648 ≤ limits.integer.toInt) :
    Chunk limits (starText us) (']' :: tail) (FurtherTokens (us.map Factor.parts)) := by
  induction us with
  | nil => exact fun s here => ⟨[], .nil, rfl⟩
  | cons u us ih =>
    have factor := factor_chunk (areNames u List.mem_cons_self) fits (starText_apart us tail)
    have others := ih fun v mem => areNames v (List.mem_cons_of_mem u mem)
    rw [starText, List.flatMap_cons, ← starText, List.append_assoc]
    refine ((Chunk.symbol .star (by decide) (.inl rfl)).append (factor.append others)).imp ?_
    rintro _ ⟨_, _, rfl, ⟨star, rfl, isStar⟩, vs, ws, rfl, factor, further⟩
    change FurtherTokens _ (star :: (vs ++ ws))
    exact .cons isStar factor further

/-- The text gives the tokens of a unit, the opening bracket among them. -/
def UnitChunk (limits : Limits) (text tail : List Char) (us : List (String × Int)) : Prop :=
  Chunk limits text tail fun ts => ∃ opening ws, ts = opening :: ws ∧ opening.kind = .leftBracket ∧ UnitTokens us ws

theorem unitChunk_nil : UnitChunk limits "[]".toList tail [] := by
  refine ((Chunk.symbol .leftBracket (by decide) (.inl rfl)).append
    (Chunk.symbol .rightBracket (by decide) (.inl rfl))).imp ?_
  rintro _ ⟨_, _, rfl, ⟨opening, rfl, opens⟩, closing, rfl, closes⟩
  exact ⟨opening, [closing], rfl, opens, .dimensionless closes⟩

theorem unitChunk_cons {u : String × Int} {us : List (String × Int)} {first others : List Char}
    (factor : Chunk limits first (others ++ ']' :: tail) (FactorTokens u))
    (further : Chunk limits others (']' :: tail) (FurtherTokens us)) :
    UnitChunk limits ("[".toList ++ (first ++ (others ++ "]".toList))) tail (u :: us) := by
  have closing : Chunk limits "]".toList tail fun ts => ∃ t : Token, ts = [t] ∧ t.kind = .rightBracket :=
    Chunk.symbol .rightBracket (by decide) (.inl rfl)
  have behind : (others ++ "]".toList) ++ tail = others ++ ']' :: tail := List.append_assoc _ _ _
  have inner := Chunk.append (by rwa [behind]) (further.append closing)
  refine ((Chunk.symbol .leftBracket (by decide) (.inl rfl)).append inner).imp ?_
  rintro _ ⟨_, _, rfl, ⟨opening, rfl, opens⟩, vs, _, rfl, factor, ws, _, rfl, further, t, rfl, closes⟩
  exact ⟨opening, vs ++ (ws ++ [t]), rfl, opens, .product factor further closes⟩

theorem display_chunk {u : UnitExpr} (areNames : ∀ f ∈ u.factors, Text.IsName limits f.name)
    (fits : 2147483648 ≤ limits.integer.toInt) :
    UnitChunk limits u.display.toList tail (u.factors.map Factor.parts) := by
  obtain ⟨us⟩ := u
  cases us with
  | nil => exact unitChunk_nil
  | cons u us =>
    have first := factor_chunk (areNames u List.mem_cons_self) fits (starText_apart us tail)
    have others : Chunk limits (starText us) (']' :: tail) (FurtherTokens (us.map Factor.parts)) :=
      further_chunk (fun v mem => areNames v (List.mem_cons_of_mem u mem)) fits
    have text : (UnitExpr.mk (u :: us)).display.toList =
        "[".toList ++ (u.display.toList ++ (starText us ++ "]".toList)) := by
      simp only [UnitExpr.display, String.toList_append, List.map_cons, toList_intercalate, List.flatMap_map,
        starText, List.append_assoc]
    rw [text]
    exact unitChunk_cons first others

/-- A unit of one factor, with its power written out. -/
def bracketedText (name : String) (k : Int) : List Char := "[".toList ++ (raisedText name k ++ "]".toList)

theorem bracketed_chunk {name : String} (isName : Text.IsName limits name) {k : Int}
    (fits : k.natAbs ≤ limits.integer.toInt) : UnitChunk limits (bracketedText name k) tail [(name, k)] :=
  have none : Chunk limits [] (']' :: tail) (FurtherTokens []) := fun s here => ⟨[], .nil, rfl⟩
  unitChunk_cons (raised_chunk isName fits (.cons (by decide))) none

end

/-! ### Reading a unit back -/

/-- A place where the text stands, and what is left behind it, where no fault comes next. The bound on the reading is
no less than the number of tokens. -/
structure Site (text : List Char) (s : Cursor) (behind : TokenStream) (n : Nat) : Prop where
  here : ∃ tail, s.rest = text ++ tail
  left : (Cursor.advanceBy text.length s).ahead {} = behind
  seen : behind.Open
  room : (s.ahead {}).tokens.length ≤ n

/-- Wherever the text stands, it is read as the unit `u`, in a type and as a unit alone. -/
def ReadsBack (text : List Char) (u : UnitExpr) : Prop :=
  ∀ s behind n, Site text s behind n →
    Parser.type n (s.ahead {}) = .ok (.quantity u, behind) ∧ Parser.unit n (s.ahead {}) = .ok (u, behind)

/-- Wherever the text stands, it is refused for a power that is out of range. -/
def OutOfRange (text : List Char) : Prop :=
  ∀ s behind n, Site text s behind n → ∃ position position' : Position,
    Parser.type n (s.ahead {}) = .error (.syntactic (.powerOutOfRange position)) ∧
    Parser.unit n (s.ahead {}) = .error (.syntactic (.powerOutOfRange position'))

section
variable {text : List Char} {us : List (String × Int)} (chunk : ∀ tail, UnitChunk {} text tail us)
include chunk

/-- What a place comes to where a unit stands. -/
theorem Site.readsIf {s : Cursor} {behind : TokenStream} {n : Nat} (site : Site text s behind n) :
    ∃ w, s.ahead {} = behind.prepend w ∧
      Parser.ReadsIf (Parser.AllFit us) (fun _ => True) (Parser.type n) w (.quantity ⟨us.map Parser.factorOf⟩) ∧
      Parser.ReadsIf (Parser.AllFit us) (fun _ => True) (Parser.unit n) w ⟨us.map Parser.factorOf⟩ := by
  obtain ⟨⟨tail, here⟩, left, seen, room⟩ := site
  obtain ⟨_, ⟨opening, w, rfl, opens, unit⟩, ahead⟩ := chunk tail s here
  rw [left] at ahead
  have enough : us.length ≤ n := by
    have := unit.length_le
    rw [ahead, TokenStream.length_prepend, List.length_cons] at room
    omega
  exact ⟨opening :: w, ahead, Parser.type_readsIf opens unit enough, Parser.unit_readsIf opens unit enough⟩

theorem readsBack_of_allFit (fits : Parser.AllFit us) : ReadsBack text ⟨us.map Parser.factorOf⟩ := by
  intro s behind n site
  obtain ⟨w, ahead, type, unit⟩ := site.readsIf chunk
  rw [ahead]
  exact ⟨(type behind site.seen trivial).1 fits, (unit behind site.seen trivial).1 fits⟩

theorem outOfRange_of_not_allFit (exceeds : ¬ Parser.AllFit us) : OutOfRange text := by
  intro s behind n site
  obtain ⟨w, ahead, type, unit⟩ := site.readsIf chunk
  obtain ⟨position, refused⟩ := (type behind site.seen trivial).2 exceeds
  obtain ⟨position', refused'⟩ := (unit behind site.seen trivial).2 exceeds
  rw [ahead]
  exact ⟨position, position', refused, refused'⟩

end

/-- A text can stand alone. -/
theorem exists_site (text : List Char) : ∃ s behind n, Site text s behind n := by
  have ended : (Cursor.advanceBy text.length (Cursor.ofText (String.ofList text))).rest = [] := by
    rw [Cursor.rest_advanceBy, Cursor.ofText, String.toList_ofList, List.drop_length]
  have scans : Scans {} [] fun _ => True := .nil trivial
  obtain ⟨ts, position, left, -⟩ := scans _ ended
  refine ⟨Cursor.ofText (String.ofList text), _, _, ⟨[], ?_⟩, rfl, ?_, Nat.le_refl _⟩
  · rw [Cursor.ofText, String.toList_ofList, List.append_nil]
  · rw [Cursor.ahead, left]
    exact TokenStream.open_of_ok ts position

theorem OutOfRange.not_readsBack {text : List Char} (h : OutOfRange text) (u : UnitExpr) : ¬ ReadsBack text u := by
  intro reads
  obtain ⟨s, behind, n, site⟩ := exists_site text
  obtain ⟨position, position', refused, -⟩ := h s behind n site
  rw [(reads s behind n site).1] at refused
  cases refused

/-! A magnitude beyond 64 bits is not even read as a token. -/

/-- The text in front of the magnitude of a power. -/
def frontText (name : String) (k : Int) : List Char := "[".toList ++ (name.toList ++ ("^".toList ++ signText k))

theorem front_chunk {limits : Limits} {tail : List Char} {name : String} (isName : Text.IsName limits name) (k : Int)
    (n : Nat) :
    Chunk limits (frontText name k) (Numeral.natural n ++ tail) fun ts =>
      ∃ opening t w, ts = opening :: t :: w ∧ opening.kind = .leftBracket ∧ t.kind = .identifier ∧
        ∀ e, Parser.factor ⟨t :: w, .error e⟩ = .error (.lexical e) := by
  refine ((Chunk.symbol .leftBracket (by decide) (.inl rfl)).append ((Chunk.name isName (.cons (by decide))).append
    ((Chunk.symbol .caret (by decide) (.inl rfl)).append (sign_chunk k n)))).imp ?_
  rintro _ ⟨_, _, rfl, ⟨opening, rfl, opens⟩, _, _, rfl, ⟨t, position, rfl, named⟩, _, w, rfl, ⟨caret, rfl, isCaret⟩,
    sign⟩
  refine ⟨opening, t, caret :: w, rfl, opens, named.kind, fun e => Parser.factor_fault named isCaret ?_⟩
  exact sign.imp And.right And.right

theorem bracketedText_eq (name : String) (k : Int) :
    bracketedText name k = frontText name k ++ (Numeral.natural k.natAbs ++ "]".toList) := by
  simp only [bracketedText, raisedText, frontText, toList_integer, List.append_assoc]

theorem not_readsBack_of_huge {name : String} (isName : Text.IsName {} name) {k : Int}
    (huge : 9223372036854775807 < k.natAbs) (u : UnitExpr) : ¬ ReadsBack (bracketedText name k) u := by
  intro reads
  obtain ⟨s, behind, n, site⟩ := exists_site (bracketedText name k)
  have read := (reads s behind n site).1
  obtain ⟨⟨tail, here⟩, -⟩ := site
  rw [bracketedText_eq, List.append_assoc, List.append_assoc] at here
  obtain ⟨_, ⟨opening, t, w, rfl, opens, begins, faults⟩, ahead⟩ := front_chunk isName k k.natAbs s here
  have left : (Cursor.advanceBy (frontText name k).length s).rest =
      Numeral.natural k.natAbs ++ ("]".toList ++ tail) := by
    rw [Cursor.rest_advanceBy, here, List.drop_left]
  have exceeds : ({} : Limits).integer.toInt < k.natAbs := by
    rw [show ({} : Limits).integer.toInt = 9223372036854775807 by decide]
    omega
  obtain ⟨e, fault⟩ := Cursor.ahead_of_exceeded (by decide) exceeds (.cons (by decide)) left
  rw [ahead, fault, TokenStream.prepend, List.append_nil, Parser.type_fault opens begins (faults e)] at read
  cases read

theorem parts_fits_iff (u : Factor) : Parser.PowerFits u.parts.2 ↔ u.power ≠ Int32.minValue := by
  have := u.power.le_toInt
  have := u.power.toInt_lt
  have least : Int32.minValue.toInt = -2147483648 := by decide
  rw [Parser.PowerFits, Factor.parts, ne_eq, ← Int32.toInt_inj]
  omega

theorem factorOf_parts (u : Factor) : Parser.factorOf u.parts = u := by
  rw [Parser.factorOf, Factor.parts, Int32.ofInt_toInt]

/-- What is printed of a unit, by its powers. -/
theorem display_readsBack_iff {u : UnitExpr} (areNames : ∀ f ∈ u.factors, Text.IsName {} f.name) :
    (ReadsBack u.display.toList u ↔ ∀ f ∈ u.factors, f.power ≠ Int32.minValue) ∧
      ((∃ f ∈ u.factors, f.power = Int32.minValue) → OutOfRange u.display.toList) := by
  have chunk (tail : List Char) : UnitChunk {} u.display.toList tail (u.factors.map Factor.parts) :=
    display_chunk areNames (by decide)
  have fits : Parser.AllFit (u.factors.map Factor.parts) ↔ ∀ f ∈ u.factors, f.power ≠ Int32.minValue := by
    simp only [Parser.AllFit, List.forall_mem_map, parts_fits_iff]
  have same : (u.factors.map Factor.parts).map Parser.factorOf = u.factors := by
    rw [List.map_map]
    exact (List.map_congr_left fun u _ => factorOf_parts u).trans (List.map_id _)
  constructor
  · constructor
    · intro reads
      by_contra exceeds
      exact (outOfRange_of_not_allFit chunk (mt fits.mp exceeds)).not_readsBack u reads
    · intro all
      have reads := readsBack_of_allFit chunk (fits.mpr all)
      rwa [same] at reads
  · rintro ⟨f, mem, least⟩
    exact outOfRange_of_not_allFit chunk fun all => fits.mp all f mem least

theorem natAbs_le_limit {k : Int} (small : k.natAbs ≤ 9223372036854775807) :
    k.natAbs ≤ ({} : Limits).integer.toInt := by
  have limit : ({} : Limits).integer.toInt = 9223372036854775807 := by decide
  omega

/-- A power that fits is read as it stands. -/
theorem bracketed_readsBack {name : String} (isName : Text.IsName {} name) {k : Int} (fits : Parser.PowerFits k) :
    ReadsBack (bracketedText name k) ⟨[⟨name, Int32.ofInt k⟩]⟩ := by
  obtain ⟨low, high⟩ := fits
  have small : k.natAbs ≤ ({} : Limits).integer.toInt := natAbs_le_limit (by omega)
  apply readsBack_of_allFit (fun tail => bracketed_chunk isName small)
  exact List.forall_mem_singleton.mpr ⟨low, high⟩

/-- An integer in the place of a power is read if and only if it fits. -/
theorem exists_bracketed_readsBack_iff {name : String} (isName : Text.IsName {} name) {k : Int} :
    (∃ u, ReadsBack (bracketedText name k) u) ↔ Parser.PowerFits k := by
  constructor
  · rintro ⟨u, reads⟩
    by_contra exceeds
    by_cases huge : 9223372036854775807 < k.natAbs
    · exact not_readsBack_of_huge isName huge u reads
    · have small : k.natAbs ≤ ({} : Limits).integer.toInt := natAbs_le_limit (by omega)
      have refused : OutOfRange (bracketedText name k) :=
        outOfRange_of_not_allFit (fun tail => bracketed_chunk isName small) (mt List.forall_mem_singleton.mp exceeds)
      exact refused.not_readsBack u reads
  · exact fun fits => ⟨_, bracketed_readsBack isName fits⟩

/-- What is printed of a unit is read as the unit, in a type and alone, unless one of its powers is -2147483648; then
it is refused wherever it stands. An integer in the place of a power is read as the power if it fits 32 bits and is not
-2147483648, and only then. -/
theorem unit_readsBack_iff {u : UnitExpr} (areNames : ∀ f ∈ u.factors, Text.IsName {} f.name) {name : String}
    (isName : Text.IsName {} name) (k : Int) :
    (ReadsBack u.display.toList u ↔ ∀ f ∈ u.factors, f.power ≠ Int32.minValue) ∧
    ((∃ f ∈ u.factors, f.power = Int32.minValue) → OutOfRange u.display.toList) ∧
    ((∃ v, ReadsBack (bracketedText name k) v) ↔ -2147483648 < k ∧ k < 2147483648) ∧
    (∀ p : Int32, p.toInt = k → p ≠ Int32.minValue → ReadsBack (bracketedText name k) ⟨[⟨name, p⟩]⟩) := by
  obtain ⟨whole, refused⟩ := display_readsBack_iff areNames
  refine ⟨whole, refused, exists_bracketed_readsBack_iff isName, ?_⟩
  rintro p rfl other
  have fits : Parser.PowerFits p.toInt := (parts_fits_iff ⟨name, p⟩).mpr other
  have reads := bracketed_readsBack isName fits
  rwa [Int32.ofInt_toInt] at reads

theorem unit_readsBack_square : ReadsBack "[m^2]".toList ⟨[⟨"m", 2⟩]⟩ ∧
    ∃ v, ReadsBack (bracketedText "m" (-3)) v := by
  have begins : ∃ c cs, "m".toList = c :: cs ∧ Text.isAlphabetic c = true := ⟨'m', [], by decide, by decide⟩
  have isName : Text.IsName {} "m" := ⟨⟨begins, List.all_eq_true.mp (by rfl)⟩, by decide, by decide⟩
  have display : (UnitExpr.mk [⟨"m", 2⟩]).display = "[m^2]" := by decide
  have areNames : ∀ f ∈ (UnitExpr.mk [⟨"m", 2⟩]).factors, Text.IsName {} f.name := List.forall_mem_singleton.mpr isName
  obtain ⟨whole, -, power, -⟩ := unit_readsBack_iff areNames isName (-3)
  rw [← display]
  exact ⟨whole.mpr (List.forall_mem_singleton.mpr (by decide)), power.mpr (by decide)⟩

/-- A declaration with the least power of all, which is printed as it stands there. -/
theorem least_power_refused :
    (UnitExpr.mk [⟨"m", Int32.minValue⟩]).display = "[m^-2147483648]" ∧
    Program.ofText {} "unit N: [m^-2147483648]" = .error (.syntactic (.powerOutOfRange ⟨1, 13⟩)) := by
  have refused : (Program.ofText {} "unit N: [m^-2147483648]").map (fun _ => ()) =
      .error (.syntactic (.powerOutOfRange ⟨1, 13⟩)) := by decide +kernel
  exact ⟨by decide +kernel, map_eq_error.mp refused⟩

end Mensura
