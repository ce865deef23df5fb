import Mensura.Proofs.Grammar.Derivation
import Mensura.Proofs.Printing.Scan

/-!
Units, types and expressions are read again from how they are printed. Whatever the grammar has derived from tokens
that can be read at all, its text gives tokens from which the same is derived, but for the places. The parentheses
around every operation make of each expression one that no operator can reach into.
-/

namespace Mensura

open Token (Kind)
open Lexeme (Apart Loose)

/-- Texts behind another one, each with a comma in front of it. -/
def commaText (ss : List String) : List Char := ss.flatMap fun s => ", ".toList ++ s.toList

theorem toList_intercalate (separator s : String) (ss : List String) :
    (separator.intercalate (s :: ss)).toList = s.toList ++ ss.flatMap fun s => separator.toList ++ s.toList := by
  induction ss generalizing s with
  | nil => simp [String.intercalate_singleton]
  | cons t ss ih => simp [String.intercalate_cons_cons, ih]

theorem toList_intercalate_cons (s : String) (ss : List String) :
    (", ".intercalate (s :: ss)).toList = s.toList ++ commaText ss := toList_intercalate ", " s ss

theorem commaText_apart (ss : List String) (tail : List Char) : Apart (commaText ss ++ ')' :: tail) := by
  cases ss with
  | nil => exact .cons (by decide)
  | cons s ss => exact .cons (by decide)

theorem integer_of_nonneg {n : Int} (h : 0 ≤ n) : (Numeral.integer n).toList = Numeral.natural n.natAbs := by
  rw [Numeral.integer, if_neg (by omega), String.toList_ofList]

theorem integer_of_neg {n : Int} (h : n < 0) : (Numeral.integer n).toList = '-' :: Numeral.natural n.natAbs := by
  rw [Numeral.integer, if_pos h, String.toList_ofList]

theorem natural_loose (n : Nat) (tail : List Char) : Loose (Numeral.natural n ++ tail) := by
  obtain ⟨c, rest, split, digit⟩ := Lexeme.natural_begins n
  rw [split]
  refine Loose.cons ⟨?_, ?_, ?_⟩ <;> rintro rfl <;> exact absurd digit (by decide)

theorem word_loose {word : String} (isWord : Text.IsWord word) (tail : List Char) : Loose (word.toList ++ tail) := by
  obtain ⟨c, rest, split, letter⟩ := isWord.begins
  rw [split]
  refine Loose.cons ⟨?_, ?_, ?_⟩ <;> rintro rfl <;> exact absurd letter (by decide)

namespace Grammar

variable {limits : Limits} {ts rest : List Token} {tail : List Char} {good : List Token → Prop}

theorem Passes.legible (h : Passes ts rest) (legible : Token.AllLegible limits ts) : Token.AllLegible limits rest :=
  legible.subset h.subset

/-! ### Units and types -/

theorem Power.scans {p : Int32} (h : Power ts p rest) (legible : Token.AllLegible limits ts)
    (apart : Apart tail) (next : Scans limits tail fun us => ∀ vs, Power vs p us → good vs) :
    Scans limits ((Numeral.integer p.toInt).toList ++ tail) good := by
  cases h with
  | positive counts fits =>
    have legible := legible.head
    obtain ⟨nonneg, -⟩ := legible.counts counts
    rw [fits, integer_of_nonneg nonneg]
    refine .natural legible counts apart (next.mono ?_)
    intro us good u again
    exact good _ (.positive again fits)
  | @negative _ _ n _ _ _ sign counts fits opposite =>
    have legible := legible.tail.head
    obtain ⟨nonneg, -⟩ := legible.counts counts
    -- The sign of a zero is not printed.
    by_cases zero : n.toInt = 0
    · rw [show p.toInt = n.toInt by omega, integer_of_nonneg nonneg]
      refine .natural legible counts apart (next.mono ?_)
      intro us good u again
      exact good _ (.positive again (by omega))
    · rw [integer_of_neg (by omega), show p.toInt.natAbs = n.toInt.natAbs by omega]
      refine .symbol .minus (by decide) (.inr (natural_loose _ _)) ?_
      refine .natural legible counts apart (next.mono ?_)
      intro us good u again minus sign
      exact good _ (.negative sign again fits opposite)

theorem Factor.scans {u : Mensura.Factor} (h : Factor ts u rest) (legible : Token.AllLegible limits ts)
    (apart : Apart tail) (next : Scans limits tail fun us => ∀ vs, Factor vs u us → good vs) :
    Scans limits (u.display.toList ++ tail) good := by
  cases h with
  | @plain _ symbol _ named =>
    rw [Factor.display, if_pos rfl]
    refine .name legible.head named apart (next.mono ?_)
    intro us good t position again
    exact good _ (@Factor.plain t ⟨symbol.name, position⟩ us again)
  | @raised _ _ symbol p us _ named isCaret power =>
    rw [Factor.display]
    split
    · rename_i one
      obtain rfl : p = 1 := one
      refine .name legible.head named apart (next.mono ?_)
      intro us good t position again
      exact good _ (@Factor.plain t ⟨symbol.name, position⟩ us again)
    · simp only [String.toList_append, List.append_assoc]
      refine .name legible.head named (.cons (by decide)) ?_
      refine .symbol .caret (by decide) (.inl rfl) ?_
      refine power.scans legible.tail.tail apart (next.mono ?_)
      intro us good vs power caret isCaret t position again
      exact good _ (@Factor.raised t caret ⟨symbol.name, position⟩ p vs us again isCaret power)

theorem Factors.scans {us : List Mensura.Factor} (h : Factors ts us rest) (legible : Token.AllLegible limits ts)
    (apart : Apart tail) (next : Scans limits tail fun ws => ∀ vs, Factors vs us ws → good vs) :
    Scans limits (("*".intercalate (us.map Factor.display)).toList ++ tail) good := by
  induction h generalizing good with
  | one factor =>
    rw [List.map_singleton, String.intercalate_singleton]
    refine factor.scans legible apart (next.mono ?_)
    intro ws good vs factor
    exact good _ (.one factor)
  | @more _ u us _ _ _ factor isStar others ih =>
    obtain ⟨v, us, rfl⟩ : ∃ v vs, us = v :: vs := by cases others <;> exact ⟨_, _, rfl⟩
    rw [List.map_cons, List.map_cons, String.intercalate_cons_cons, ← List.map_cons]
    simp only [String.toList_append, List.append_assoc]
    refine factor.scans legible (.cons (by decide)) ?_
    refine .symbol .star (by decide) (.inl rfl) ?_
    refine ih (factor.passes.legible legible).tail (next.mono ?_)
    intro ws good vs others star isStar xs factor
    exact good _ (.more factor isStar others)

theorem Unit.scans {u : UnitExpr} (h : Unit ts u rest) (legible : Token.AllLegible limits ts)
    (next : Scans limits tail fun us => ∀ vs, Unit vs u us → good vs) :
    Scans limits (u.display.toList ++ tail) good := by
  simp only [UnitExpr.display, String.toList_append, List.append_assoc]
  refine .symbol .leftBracket (by decide) (.inl rfl) ?_
  cases h with
  | dimensionless =>
    refine .symbol .rightBracket (by decide) (.inl rfl) (next.mono ?_)
    intro us good closing closes opening opens
    exact good _ (.dimensionless opens closes)
  | product _ factors _ =>
    refine factors.scans legible.tail (.cons (by decide)) ?_
    refine .symbol .rightBracket (by decide) (.inl rfl) (next.mono ?_)
    intro us good closing closes vs factors opening opens
    exact good _ (.product opens factors closes)

theorem Annotation.scans {τ : Ty} (h : Annotation ts τ rest) (legible : Token.AllLegible limits ts)
    (apart : Apart tail) (next : Scans limits tail fun us => ∀ vs, Annotation vs τ us → good vs) :
    Scans limits (τ.display.toList ++ tail) good := by
  cases h with
  | text word =>
    refine .keyword legible.head word (by decide) apart (next.mono ?_)
    exact fun us good t same => good _ (.text same)
  | bool word =>
    refine .keyword legible.head word (by decide) apart (next.mono ?_)
    exact fun us good t same => good _ (.bool same)
  | void word =>
    refine .keyword legible.head word (by decide) apart (next.mono ?_)
    exact fun us good t same => good _ (.void same)
  | quantity unit =>
    refine unit.scans legible (next.mono ?_)
    exact fun us good vs unit => good _ (.quantity unit)

/-! ### Expressions -/

/-- The text behind a number. -/
def suffixText : Option UnitExpr → List Char
  | none => []
  | some u => ' ' :: u.display.toList

theorem toList_withUnit (number : String) (unit : Option UnitExpr) :
    (Literal.withUnit number unit).toList = number.toList ++ suffixText unit := by
  cases unit with
  | none => rw [Literal.withUnit, suffixText, List.append_nil]
  | some u =>
    simp only [Literal.withUnit, String.toList_append, List.append_assoc]
    rfl

theorem suffixText_apart (unit : Option UnitExpr) (apart : Apart tail) : Apart (suffixText unit ++ tail) := by
  cases unit with
  | none => exact apart
  | some u => exact .cons (by decide)

theorem Suffix.scans {unit : Option UnitExpr} (h : Suffix ts unit rest) (legible : Token.AllLegible limits ts)
    (next : Scans limits tail fun us => ∀ vs, Suffix vs unit us → good vs) :
    Scans limits (suffixText unit ++ tail) good := by
  cases h with
  | none => exact next.mono fun us good => good _ .none
  | unit unit =>
    refine .blank ?_ (by decide)
    refine unit.scans legible (next.mono ?_)
    exact fun us good vs unit => good _ (.unit unit)

theorem Tier.mono {r r' : Nat} {e : Expr} (h : Tier r ts e rest) (less : r ≤ r') : Tier r' ts e rest := by
  induction less with
  | refl => exact h
  | step _ ih => exact .tighter ih

theorem toList_display_binary (op : BinaryOp) : op.display.toList = op.kind.symbol := by
  cases op <;> rfl

theorem toList_display_unary (op : UnaryOp) : op.display.toList = op.kind.symbol := by
  cases op <;> rfl

/-- What is asked behind the text of an expression: what is to hold of all tokens that it is derived from again. -/
def Reread (e : Expr) (good : List Token → Prop) (us : List Token) : Prop :=
  ∀ vs e', Primary vs e' us → e'.placeless = e.placeless → good vs

mutual

/-- No expression begins with a character that an operator in front of it could go on with. -/
theorem Tier.loose {r : Nat} {ts rest : List Token} {e : Expr} : Tier r ts e rest →
    Token.AllLegible limits ts → e.isPlain = true → Loose (e.display.toList ++ tail)
  | .operand h, legible, plain => h.loose legible plain
  | .tighter h, legible, plain => h.loose legible plain
  | .binary _ _ _, _, _ => by
    simp only [Expr.display, String.toList_append, List.append_assoc]
    exact .cons (by decide)

theorem Operand.loose {ts rest : List Token} {e : Expr} : Operand ts e rest →
    Token.AllLegible limits ts → e.isPlain = true → Loose (e.display.toList ++ tail)
  | .plain h, legible, plain => h.loose legible plain
  | .unary _ _, _, _ => by
    simp only [Expr.display, String.toList_append, List.append_assoc]
    exact .cons (by decide)

theorem Primary.loose {ts rest : List Token} {e : Expr} : Primary ts e rest →
    Token.AllLegible limits ts → e.isPlain = true → Loose (e.display.toList ++ tail)
  | .int counts _, legible, _ => by
    obtain ⟨nonneg, -⟩ := legible.head.counts counts
    simp only [Expr.display, Literal.display, toList_withUnit, integer_of_nonneg nonneg, List.append_assoc]
    exact natural_loose _ _
  | .float _ _ _, _, plain => by cases plain
  | .yes _, _, _ => by
    change Loose ("true".toList ++ tail)
    exact .cons (by decide)
  | .no _, _, _ => by
    change Loose ("false".toList ++ tail)
    exact .cons (by decide)
  | .text _ _, _, _ => by
    simp only [Expr.display, Literal.display, Text.quoted, String.toList_ofList]
    exact .cons (by decide)
  | .var named, legible, _ => word_loose (legible.head.name named).1 tail
  | .call named _ _, legible, _ => by
    simp only [Expr.display, String.toList_append, List.append_assoc]
    exact word_loose (legible.head.name named).1 _
  | .group _ inner _, legible, plain => inner.loose legible.tail plain

end

mutual

/-- An expression is read again from its text. -/
theorem Tier.scans {r : Nat} {ts rest : List Token} {e : Expr} : Tier r ts e rest →
    Token.AllLegible limits ts → e.isPlain = true → ∀ {tail good}, Apart tail →
    Scans limits tail (Reread e good) → Scans limits (e.display.toList ++ tail) good
  | .operand h, legible, plain, _, _, apart, next => h.scans legible plain apart next
  | .tighter h, legible, plain, _, _, apart, next => h.scans legible plain apart next
  | @Tier.binary op _ _ _ _ _ _ first _ second, legible, plain, tail, good, apart, next => by
    obtain ⟨plainLeft, plainRight⟩ := Bool.and_eq_true_iff.mp plain
    have behind := (first.passes.legible legible).tail
    simp only [Expr.display, String.toList_append, List.append_assoc]
    refine .symbol .leftParen (by decide) (.inl rfl) ?_
    refine first.scans legible plainLeft (.cons (by decide)) ?_
    refine .blank ?_ (by decide)
    rw [toList_display_binary]
    refine .symbol op.kind (by cases op <;> decide) (.inr (.cons (by decide))) ?_
    refine .blank ?_ (by decide)
    refine second.scans behind plainRight (.cons (by decide)) ?_
    refine .symbol .rightParen (by decide) (.inl rfl) (next.mono ?_)
    intro us good closing closes vs right second sameRight t operator ws left first sameLeft opening opens
    -- In its parentheses the operation is a primary expression, whatever its rank.
    have lifted : Tier (op.rank + 1) ws (.binary left op t.position right) (closing :: us) :=
      .binary (.of_primary first) operator (.of_primary second)
    refine good _ _ (.group opens (lifted.mono (by cases op <;> decide)) closes) ?_
    simp only [Expr.placeless, sameLeft, sameRight]

theorem Operand.scans {ts rest : List Token} {e : Expr} : Operand ts e rest →
    Token.AllLegible limits ts → e.isPlain = true → ∀ {tail good}, Apart tail →
    Scans limits tail (Reread e good) → Scans limits (e.display.toList ++ tail) good
  | .plain h, legible, plain, _, _, apart, next => h.scans legible plain apart next
  | @Operand.unary op _ _ _ _ _ primary, legible, plain, tail, good, apart, next => by
    have behind := legible.tail
    simp only [Expr.display, String.toList_append, List.append_assoc]
    refine .symbol .leftParen (by decide) (.inl rfl) ?_
    rw [toList_display_unary]
    refine .symbol op.kind (by cases op <;> decide) (.inr (primary.loose behind plain)) ?_
    refine primary.scans behind plain (.cons (by decide)) ?_
    refine .symbol .rightParen (by decide) (.inl rfl) (next.mono ?_)
    intro us good closing closes vs e primary same t operator opening opens
    refine good _ _ (.group opens (.mono (.operand (.unary operator primary)) (Nat.zero_le _)) closes) ?_
    simp only [Expr.placeless, same]

theorem Primary.scans {ts rest : List Token} {e : Expr} : Primary ts e rest →
    Token.AllLegible limits ts → e.isPlain = true → ∀ {tail good}, Apart tail →
    Scans limits tail (Reread e good) → Scans limits (e.display.toList ++ tail) good
  | @Primary.int _ _ unit _ _ counts suffix, legible, _, tail, good, apart, next => by
    have legible' := legible.head
    obtain ⟨nonneg, -⟩ := legible'.counts counts
    simp only [Expr.display, Literal.display, toList_withUnit, integer_of_nonneg nonneg, List.append_assoc]
    refine .natural legible' counts (suffixText_apart unit apart) ?_
    refine suffix.scans legible.tail (next.mono ?_)
    intro us good vs suffix t counts
    exact good _ _ (.int counts suffix) rfl
  | .float _ _ _, _, plain, _, _, _, _ => by cases plain
  | .yes word, legible, _, tail, good, apart, next => by
    change Scans limits ("true".toList ++ tail) good
    refine .keyword legible.head word (by decide) apart (next.mono ?_)
    exact fun us good t same => good _ _ (.yes same) rfl
  | .no word, legible, _, tail, good, apart, next => by
    change Scans limits ("false".toList ++ tail) good
    refine .keyword legible.head word (by decide) apart (next.mono ?_)
    exact fun us good t same => good _ _ (.no same) rfl
  | .text kind value, legible, plain, tail, good, _, next => by
    refine .quoted legible.head kind value plain (next.mono ?_)
    exact fun us good t kind value => good _ _ (.text kind value) rfl
  | .var named, legible, _, tail, good, apart, next => by
    refine .name legible.head named apart (next.mono ?_)
    exact fun us good t position again => good _ _ (.var again) rfl
  | .call named _ arguments, legible, plain, tail, good, _, next => by
    have behind := legible.tail.tail
    simp only [Expr.display, String.toList_append, List.append_assoc]
    refine .name legible.head named (.cons (by decide)) ?_
    refine .symbol .leftParen (by decide) (.inl rfl) ?_
    refine arguments.scans behind plain (next.mono ?_)
    intro us good vs es arguments same opening opens t position again
    refine good _ _ (.call again opens arguments) ?_
    simp only [Expr.placeless, same, Symbol.placeless]
  | .group _ inner _, legible, plain, _, _, apart, next =>
    inner.scans legible.tail plain apart next

theorem Arguments.scans {ts rest : List Token} {es : List Expr} : Arguments ts es rest →
    Token.AllLegible limits ts → Expr.allPlain es = true → ∀ {tail good},
    Scans limits tail (fun us => ∀ vs es', Arguments vs es' us → Expr.allPlaceless es' = Expr.allPlaceless es →
      good vs) → Scans limits ((", ".intercalate (Expr.displayAll es)).toList ++ ')' :: tail) good
  | .none _, _, _, tail, good, next => by
    refine .symbol .rightParen (by decide) (.inl rfl) (next.mono ?_)
    exact fun us good t closes => good _ _ (.none closes) rfl
  | @Arguments.some e es _ _ _ first others, legible, plain, tail, good, next => by
    obtain ⟨plainFirst, plainOthers⟩ := Bool.and_eq_true_iff.mp plain
    rw [Expr.displayAll, toList_intercalate_cons, List.append_assoc]
    refine first.scans legible plainFirst (commaText_apart _ _) ?_
    refine others.scans (first.passes.legible legible) plainOthers (next.mono ?_)
    intro us good vs es others same ws e first sameFirst
    refine good _ _ (.some (.of_primary first) others) ?_
    simp only [Expr.allPlaceless, sameFirst, same]

theorem MoreArguments.scans {ts rest : List Token} {es : List Expr} : MoreArguments ts es rest →
    Token.AllLegible limits ts → Expr.allPlain es = true → ∀ {tail good},
    Scans limits tail (fun us => ∀ vs es', MoreArguments vs es' us → Expr.allPlaceless es' = Expr.allPlaceless es →
      good vs) → Scans limits (commaText (Expr.displayAll es) ++ ')' :: tail) good
  | .none _, _, _, tail, good, next => by
    refine .symbol .rightParen (by decide) (.inl rfl) (next.mono ?_)
    exact fun us good t closes => good _ _ (.none closes) rfl
  | @MoreArguments.some _ e es ts _ _ _ first others, legible, plain, tail, good, next => by
    obtain ⟨plainFirst, plainOthers⟩ := Bool.and_eq_true_iff.mp plain
    have behind : ∀ t ∈ ts, t.toContent.Legible limits := legible.tail
    simp only [Expr.displayAll, commaText, List.flatMap_cons, List.append_assoc]
    refine .symbol .comma (by decide) (.inl rfl) ?_
    refine .blank ?_ (by decide)
    refine first.scans behind plainFirst (commaText_apart _ _) ?_
    refine others.scans (first.passes.legible behind) plainOthers (next.mono ?_)
    intro us good vs es others same ws e first sameFirst comma isComma
    refine good _ _ (.some isComma (.of_primary first) others) ?_
    simp only [Expr.allPlaceless, sameFirst, same]

end

end Grammar

end Mensura
