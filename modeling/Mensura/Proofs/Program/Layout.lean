import Mensura.Proofs.Program.Suiting
import Mensura.Proofs.Token.Layout

/-!
How a program is laid out. Main statement: wherever a token begins or ends, blanks and comments may be written without
a change to how the text is read, the places apart; and a comment may be blanked out without any change at all.
-/

namespace Mensura

open Token (Kind)
open Lexeme (isBlank Spares Unmoved Layout)

variable {limits : Limits} {text : String} {front back before lexeme after : List Char} {n : Nat} {token : Token}

/-- The text is cut where a token begins or ends that is found in it, and not directly behind a comment. -/
structure Cursor.Cuts (limits : Limits) (text : String) (front back : List Char) : Prop where
  edge : ∃ n before lexeme token after, (ofText text).Finds limits n before lexeme token after ∧
    (front = before ∧ back = lexeme ++ after ∨ front = before ++ lexeme ∧ back = after)
  apart : ∀ n before lexeme token after, (ofText text).Finds limits n before lexeme token after →
    token.kind = .comment → front ≠ before ++ lexeme

namespace Cursor

/-- A comment goes on to the end of its line. -/
theorem Finds.behind_comment {s : Cursor} (h : s.Finds limits n before lexeme token after)
    (comment : token.kind = .comment) : ∀ d, after.head? = some d → isLineBreak d = true := by
  obtain ⟨c, front, rfl, -, read⟩ := h.exists_lexeme (by rw [comment]; decide)
  exact (Lexeme.exists_comment read comment).2

/-- No comment ends where the text goes on in the same line. -/
theorem Finds.cuts {c : Char} (h : (ofText text).Finds limits n before lexeme token after)
    (edge : front = before ∧ c :: back = lexeme ++ after ∨ front = before ++ lexeme ∧ c :: back = after)
    (line : isLineBreak c = false) : Cuts limits text front (c :: back) := by
  constructor
  · exact ⟨n, before, lexeme, token, after, h, edge⟩
  · rintro m b l t a found comment same
    have split : text.toList = front ++ c :: back := by
      obtain ⟨rfl, rest⟩ | ⟨rfl, rest⟩ := edge
      · rw [rest]
        exact h.split
      · rw [rest, List.append_assoc]
        exact h.split
    have behind : c :: back = a := by
      have other : text.toList = b ++ (l ++ a) := found.split
      rw [split, same, List.append_assoc, List.append_cancel_left_eq, List.append_cancel_left_eq] at other
      exact other
    rw [found.behind_comment comment c (behind ▸ rfl)] at line
    cases line

theorem Cuts.split (h : Cuts limits text front back) : text.toList = front ++ back := by
  obtain ⟨n, before, lexeme, token, after, found, ⟨rfl, rfl⟩ | ⟨rfl, rfl⟩⟩ := h.edge
  · exact found.split
  · rw [List.append_assoc]
    exact found.split

end Cursor

/-- In front of a token that is found no token is moved by what spares the one that ends there. -/
theorem Cursor.Finds.unmoved_front {s : Cursor} {new : List Char} (h : s.Finds limits n before lexeme token after)
    (spared : ∀ m b l t a, s.Finds limits m b l t a → t.kind ≠ .etx → b ++ l = before →
      Spares t.kind new (lexeme ++ after)) : Unmoved limits (lexeme ++ after) new before := by
  have unmoved : Unmoved limits (lexeme ++ after) new (before ++ []) := by
    have cut : [] ++ (lexeme ++ after) = lexeme ++ after := rfl
    apply h.unmoved cut
    · intro blanks blank
      rw [List.append_nil]
      exact .blanks blank
    · rwa [List.append_nil]
  rwa [List.append_nil] at unmoved

/-- Behind a token that is found no token is moved by what spares it. -/
theorem Cursor.Finds.unmoved_behind {s : Cursor} {new : List Char} (h : s.Finds limits n before lexeme token after)
    (more : token.kind ≠ .etx)
    (spared : ∀ m b l t a, s.Finds limits m b l t a → t.kind ≠ .etx → b ++ l = before ++ lexeme →
      Spares t.kind new after) : Unmoved limits after new (before ++ lexeme) := by
  apply h.unmoved rfl _ spared
  intro blanks blank
  obtain ⟨c, front, rfl, visible, read⟩ := h.exists_lexeme more
  have last : Unmoved limits after new (blanks ++ c :: (front ++ [])) :=
    .token blank visible read more (spared n before _ token after h more rfl) (.blanks nofun)
  rwa [List.append_nil] at last

/-- What spares the token that ends at the cut, if there is one, moves no token in front of it. -/
theorem Cursor.Cuts.unmoved {new : List Char} (h : Cuts limits text front back)
    (spared : ∀ m b l t a, (ofText text).Finds limits m b l t a → t.kind ≠ .etx → b ++ l = front →
      Spares t.kind new back) : Unmoved limits back new front := by
  obtain ⟨n, before, lexeme, token, after, found, ⟨rfl, rfl⟩ | ⟨rfl, rfl⟩⟩ := h.edge
  · exact found.unmoved_front spared
  · by_cases last : token.kind = .etx
    · obtain ⟨rfl, rfl⟩ := found.nothing last
      rw [List.append_nil] at spared ⊢
      exact found.unmoved_front spared
    · exact found.unmoved_behind last spared

namespace Program

theorem ofTokens_congr {s t : TokenStream} (same : s.withoutComments = t.withoutComments) :
    ofTokens s = ofTokens t := by
  unfold ofTokens
  rw [same]

/-- Only what a text spells decides how it is read, the places apart. -/
theorem placelessResult_congr {text' : String}
    (same : TokenStream.spelled limits text.toList = TokenStream.spelled limits text'.toList) :
    placelessResult (ofText limits text) = placelessResult (ofText limits text') := by
  have spelling (text : String) : (TokenStream.ofText limits text).withoutComments.placeless =
      TokenStream.spelled limits text.toList := TokenStream.placeless_ofCursor limits (.ofText text)
  have suits : ∀ token ∈ (TokenStream.ofText limits text).withoutComments.tokens, token.suits = true :=
    fun token mem => TokenStream.ofText_suits limits text token (List.mem_filter.mp mem).1
  exact (placelessResult_ofTokens ⟨by rw [spelling, spelling, same], suits⟩).1

/-- A comment may be blanked out: then every token stays in its place. -/
theorem withoutComments_of_blanked (found : (Cursor.ofText text).Finds limits n before lexeme token after)
    (comment : token.kind = .comment) :
    (TokenStream.ofText limits text).withoutComments =
      (TokenStream.ofText limits
        (.ofList (before ++ List.replicate lexeme.length ' ' ++ after))).withoutComments := by
  obtain ⟨c, front, rfl, visible, read⟩ := found.exists_lexeme (by rw [comment]; decide)
  obtain ⟨rest, slashes⟩ := Lexeme.head_of_comment (congrArg Reading.outcome read) comment
  obtain rfl : c = '/' := (List.cons.inj slashes).1
  obtain ⟨spaces, blanked⟩ : ∃ spaces, List.replicate ('/' :: front).length ' ' ++ after = ' ' :: spaces := ⟨_, rfl⟩
  have unmoved : Unmoved limits ('/' :: front ++ after) (' ' :: spaces) before := by
    apply found.unmoved_front
    intro m b l t a found' more same
    have behind : a = '/' :: front ++ after := by
      have split := found'.split.symm.trans found.split
      rw [← List.append_assoc, same] at split
      exact List.append_cancel_left split
    subst behind
    have other : t.kind ≠ .comment := fun comment => by cases found'.behind_comment comment '/' rfl
    refine .inr ⟨?_, other, fun _ => ?_⟩
    · rintro d ⟨⟩
      rfl
    · rintro d ⟨⟩
      rfl
  have same := TokenStream.ofCursor_comment read comment visible
  have whole := TokenStream.ofCursor_replace unmoved (fun _ => rfl) (blanked ▸ same) .start false
  rw [← blanked, ← found.split] at whole
  rw [List.append_assoc]
  simpa only [TokenStream.ofText, Cursor.ofText, String.toList_ofList] using whole

/-- Layout does not matter. In a text in which no token is invalid, blanks or a comment may be written wherever a token
begins or ends that is found before any fault, unless directly behind a comment: the text is refused for the same
cause, or it is read as the same program, but for the places. And in any text a comment that is found before any fault
may be overwritten with spaces: then nothing changes, and no place either. -/
theorem ofText_of_layout (limits : Limits) (text : String) :
    ((∀ t ∈ (TokenStream.ofText limits text).tokens, t.kind ≠ .invalid) → ∀ front back,
      Cursor.Cuts limits text front back → ∀ inserted, Layout limits inserted →
        placelessResult (ofText limits (.ofList (front ++ inserted ++ back))) =
          placelessResult (ofText limits text)) ∧
    ∀ n before lexeme token after, (Cursor.ofText text).Finds limits n before lexeme token after →
      token.kind = .comment →
        ofText limits (.ofList (before ++ List.replicate lexeme.length ' ' ++ after)) = ofText limits text := by
  constructor
  · intro valid front back cuts inserted layout
    have unmoved : Unmoved limits back (inserted ++ back) front := by
      apply cuts.unmoved
      intro m b l t a found more same
      apply layout.spares
      · exact fun comment => cuts.apart m b l t a found comment same.symm
      · exact valid t (found.mem more)
    apply placelessResult_congr
    rw [String.toList_ofList, cuts.split, List.append_assoc]
    exact TokenStream.spelled_replace unmoved (TokenStream.spelled_layout layout back)
  · intro n before lexeme token after found comment
    exact (ofTokens_congr (withoutComments_of_blanked found comment)).symm

/-- A quotient, in a call, with a remark behind it. -/
def halving : String := "print(4/2) // half\n"

theorem ofText_of_layout_halving :
    placelessResult (ofText {} "print(4/ // or 2\n2) // half\n") = placelessResult (ofText {} halving) ∧
      ofText {} "print(4/2)        \n" = ofText {} halving := by
  obtain ⟨inserting, blanking⟩ := ofText_of_layout {} halving
  have sound : ∀ m < 6, ((((Cursor.ofText halving).afterCalls {} m).next {}).1.toOption).isSome = true := by
    decide +kernel
  have sound (m : Nat) (less : m < 6) : ∃ t, (((Cursor.ofText halving).afterCalls {} m).next {}).1 = .ok t := by
    obtain ⟨t, read⟩ := Option.isSome_iff_exists.mp (sound m less)
    exact ⟨t, toOption_eq_some.mp read⟩
  have slash : (Cursor.ofText halving).Finds {} 3 "print(4".toList "/".toList ⟨Lexeme.plain .slash, ⟨1, 8⟩⟩
      "2) // half\n".toList :=
    ⟨by decide +kernel, fun m less => sound m (by omega), by decide +kernel, by decide +kernel, by decide +kernel⟩
  have remark : (Cursor.ofText halving).Finds {} 6 "print(4/2) ".toList "// half".toList
      ⟨⟨.comment, some (.text " half")⟩, ⟨1, 12⟩⟩ "\n".toList :=
    ⟨by decide +kernel, sound, by decide +kernel, by decide +kernel, by decide +kernel⟩
  have valid : ∀ t ∈ (TokenStream.ofText {} halving).tokens, t.kind ≠ .invalid := by decide +kernel
  have cuts : Cursor.Cuts {} halving "print(4/".toList "2) // half\n".toList :=
    slash.cuts (.inr ⟨by decide +kernel, by decide +kernel⟩) (by decide)
  have line : ∀ c ∈ " or 2".toList, isLineBreak c = false := by simp [isLineBreak]
  have layout : Layout {} " // or 2\n".toList := .inr ⟨" or 2".toList, by decide +kernel, line, by decide +kernel⟩
  have inserted := inserting valid _ _ cuts _ layout
  have blanked := blanking 6 _ _ _ _ remark rfl
  have longer : String.ofList ("print(4/".toList ++ " // or 2\n".toList ++ "2) // half\n".toList) =
      "print(4/ // or 2\n2) // half\n" := by decide +kernel
  have spaces : String.ofList ("print(4/2) ".toList ++ List.replicate "// half".toList.length ' ' ++ "\n".toList) =
      "print(4/2)        \n" := by decide +kernel
  rw [longer] at inserted
  rw [spaces] at blanked
  exact ⟨inserted, blanked⟩

end Program

end Mensura
