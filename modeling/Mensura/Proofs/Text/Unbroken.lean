import Mensura.Numeral.Notation
import Mensura.Text.Letters
import Mensura.Text.Position
import Mensura.Text.Quoted

/-!
Texts that stay on one line. No number, no word and no character under its name breaks a line.
-/

namespace Mensura

namespace Text

/-- No character of the text breaks a line. -/
def Unbroken (text : String) : Prop := ∀ c ∈ text.toList, isLineBreak c = false

theorem isLineBreak_of_all {cs : List Char} (h : cs.all (!isLineBreak ·) = true) : ∀ c ∈ cs, isLineBreak c = false := by
  simpa using h

theorem unbroken_iff_all {text : String} : Unbroken text ↔ text.toList.all (!isLineBreak ·) = true := by
  simp [Unbroken]

instance (text : String) : Decidable (Unbroken text) := decidable_of_iff' _ unbroken_iff_all

variable {s t : String}

theorem unbroken_append : Unbroken (s ++ t) ↔ Unbroken s ∧ Unbroken t := by
  unfold Unbroken
  rw [String.toList_append, List.forall_mem_append]

theorem unbroken_ofList {cs : List Char} : Unbroken (.ofList cs) ↔ ∀ c ∈ cs, isLineBreak c = false := by
  unfold Unbroken
  rw [String.toList_ofList]

namespace Unbroken

/-- It is told from the characters of a text, without a decoding of its bytes. -/
theorem literal {cs : List Char} (h : cs.all (!isLineBreak ·) = true) : Unbroken (.ofList cs) :=
  unbroken_ofList.mpr (isLineBreak_of_all h)

theorem append (h : Unbroken s) (h' : Unbroken t) : Unbroken (s ++ t) := unbroken_append.mpr ⟨h, h'⟩

theorem intercalate {separator : String} (between : Unbroken separator) {ss : List String}
    (all : ∀ s ∈ ss, Unbroken s) : Unbroken (separator.intercalate ss) := by
  cases ss with
  | nil => exact nofun
  | cons s ss =>
    induction ss generalizing s with
    | nil =>
      rw [String.intercalate_singleton]
      exact all s List.mem_cons_self
    | cons t ss ih =>
      obtain ⟨first, rest⟩ := List.forall_mem_cons.mp all
      rw [String.intercalate_cons_cons]
      exact (first.append between).append (ih t rest)

end Unbroken

theorem isLineBreak_of_isWordChar {c : Char} (h : isWordChar c = true) : isLineBreak c = false := by
  rw [Bool.eq_false_iff]
  intro isBreak
  rw [isLineBreak, Bool.or_eq_true, beq_iff_eq, beq_iff_eq] at isBreak
  obtain rfl | rfl := isBreak <;> exact absurd h (by decide)

end Text

/-! ### Numbers -/

section
open Text

theorem isLineBreak_of_mem_toDigits {base : Nat} (more : 1 < base) (small : base ≤ 16) (n : Nat) :
    ∀ c ∈ Nat.toDigits base n, isLineBreak c = false := by
  have digit : ∀ d < 16, isLineBreak (Nat.digitChar d) = false := by decide
  induction n using Nat.strongRecOn with
  | ind n ih =>
    rw [Nat.toDigits_eq_if more]
    split
    · exact List.forall_mem_singleton.mpr (digit n (by omega))
    · have less : n / base < n := Nat.div_lt_self (by omega) more
      have last : n % base < base := Nat.mod_lt n (by omega)
      exact List.forall_mem_append.mpr ⟨ih (n / base) less, List.forall_mem_singleton.mpr (digit _ (by omega))⟩

namespace Numeral

theorem natural_unbroken (n : Nat) : ∀ c ∈ natural n, isLineBreak c = false :=
  isLineBreak_of_mem_toDigits (by decide) (by decide) n

theorem integer_unbroken (n : Int) : Unbroken (integer n) := by
  rw [integer, unbroken_ofList]
  split
  · exact List.forall_mem_cons.mpr ⟨rfl, natural_unbroken _⟩
  · exact natural_unbroken _

theorem zeros_unbroken (n : Nat) : ∀ c ∈ List.replicate n '0', isLineBreak c = false := by
  intro c mem
  rw [List.eq_of_mem_replicate mem]
  rfl

theorem Decimal.positional_unbroken (d : Decimal) : ∀ c ∈ d.positional, isLineBreak c = false := by
  have digits := natural_unbroken d.digits
  unfold positional
  dsimp only
  split
  · exact List.forall_mem_append.mpr ⟨digits, zeros_unbroken _⟩
  · split
    · refine List.forall_mem_append.mpr ⟨fun c mem => digits c (List.mem_of_mem_take mem), ?_⟩
      exact List.forall_mem_cons.mpr ⟨rfl, fun c mem => digits c (List.mem_of_mem_drop mem)⟩
    · refine List.forall_mem_cons.mpr ⟨rfl, List.forall_mem_cons.mpr ⟨rfl, ?_⟩⟩
      exact List.forall_mem_append.mpr ⟨zeros_unbroken _, digits⟩

theorem plain_unbroken (x : Float) : Unbroken (plain x) := by
  unfold plain signed
  split
  · exact .literal rfl
  · rw [unbroken_ofList]
    have magnitude : ∀ c ∈ (if x.isInf then "inf".toList else if x == 0 then ['0']
        else (Magnitude.ofBits x.toBits).shortest.positional), isLineBreak c = false := by
      split
      · exact isLineBreak_of_all rfl
      · split
        · exact isLineBreak_of_all rfl
        · exact Decimal.positional_unbroken _
    dsimp only
    split
    · exact List.forall_mem_cons.mpr ⟨rfl, magnitude⟩
    · exact magnitude

end Numeral

/-! ### Characters under their names -/

theorem Text.asciiName_unbroken (c : Char) : Unbroken (.ofList (asciiName c)) := by
  rw [unbroken_ofList]
  unfold asciiName
  split
  · exact isLineBreak_of_all rfl
  split
  · exact isLineBreak_of_all rfl
  split
  · exact isLineBreak_of_all rfl
  split
  · exact isLineBreak_of_all rfl
  split
  · exact isLineBreak_of_all rfl
  split
  · exact isLineBreak_of_all rfl
  split
  · rename_i feed carriage _ _ _ _
    refine List.forall_mem_singleton.mpr ?_
    simp [isLineBreak, feed, carriage]
  · unfold numbered hexadecimal
    refine List.forall_mem_cons.mpr ⟨rfl, List.forall_mem_cons.mpr ⟨rfl, List.forall_mem_cons.mpr ⟨rfl, ?_⟩⟩⟩
    exact List.forall_mem_append.mpr
      ⟨isLineBreak_of_mem_toDigits (by decide) (by decide) _, List.forall_mem_singleton.mpr rfl⟩

end

end Mensura
