import Mensura.Proofs.Printing.Expr

/-!
Statements are read again from how they are printed. As a statement ends with its line, nothing is asked of the text
behind it, but for a `return` without a value: a closing brace has to come next wherever one did before.
-/

namespace Mensura

open Token (Kind)
open Mensura.Parser (nextKind)

theorem isBlank_of_mem_indent {depth : Nat} : ∀ c ∈ (indent depth).toList, Lexeme.isBlank c = true := by
  intro c mem
  rw [indent, String.toList_ofList] at mem
  rw [List.eq_of_mem_replicate mem]
  rfl

theorem toList_line (depth : Nat) (text : String) :
    (line depth text).toList = (indent depth).toList ++ (text.toList ++ ['\n']) := by
  rw [line, String.toList_append, String.toList_append, List.append_assoc]
  rfl

/-- A block as it is printed, and what stands behind it. -/
def blockText (depth : Nat) (body : List Stmt) (tail : List Char) : List Char :=
  '\x7b' :: '\n' :: ((Stmt.displayAll (depth + 1) body).toList ++ ((indent depth).toList ++ '\x7d' :: tail))

/-- The rest of an `if` as it is printed, from behind the brace that closes the branch before it. -/
def Else.textBehind (depth : Nat) (tail : List Char) : Else → List Char
  | .none => '\n' :: tail
  | .last body => ' ' :: ("else".toList ++ ' ' :: blockText depth body ('\n' :: tail))
  | .elseIf condition body otherwise =>
    ' ' :: ("else".toList ++ ' ' :: ("if".toList ++ ' ' :: (condition.display.toList ++
      ' ' :: blockText depth body (otherwise.textBehind depth tail))))

theorem Else.toList_display (depth : Nat) (tail : List Char) : (o : Else) →
    (o.display depth).toList ++ tail = (indent depth).toList ++ '\x7d' :: o.textBehind depth tail
  | .none => by
    simp only [Else.display, toList_line, textBehind, List.append_assoc, String.reduceToList, List.cons_append,
      List.nil_append]
  | .last body => by
    simp only [Else.display, toList_line, textBehind, blockText, String.toList_append, List.append_assoc,
      String.reduceToList, List.cons_append, List.nil_append]
  | .elseIf condition body otherwise => by
    simp only [Else.display, toList_line, textBehind, blockText, String.toList_append, List.append_assoc,
      otherwise.toList_display, String.reduceToList, List.cons_append, List.nil_append]

namespace Grammar

variable {limits : Limits}

/-- A closing brace comes next wherever one did before. -/
def Closes (rest us : List Token) : Prop := nextKind rest = .rightBrace → nextKind us = .rightBrace

/-! ### What is asked behind a text -/

variable {inFunction : Bool} {ts us rest : List Token} {depth : Nat} {tail : List Char} {good : List Token → Prop}

/-- Behind the lines of a statement: what is to hold of all tokens that it is derived from again. Before, `rest` stood
there. -/
def Statement.Reread (inFunction : Bool) (rest : List Token) (s : Stmt) (good : List Token → Prop) (us : List Token) :
    Prop :=
  (inFunction = true → Closes rest us) ∧
    ∀ vs s', Statement inFunction vs s' us → s'.placeless = s.placeless → good vs

/-- Behind a block. -/
def Block.Reread (inFunction : Bool) (body : List Stmt) (good : List Token → Prop) (us : List Token) : Prop :=
  ∀ vs body', Block inFunction vs body' us → Stmt.allPlaceless body' = Stmt.allPlaceless body → good vs

/-- Behind the further branches of an `if`. -/
def Otherwise.Reread (inFunction : Bool) (o : Else) (good : List Token → Prop) (us : List Token) : Prop :=
  ∀ vs o', Otherwise inFunction vs o' us → o'.placeless = o.placeless → good vs

/-- A block of these statements is read again from its text, at every depth and whatever stands behind it. -/
def Block.Scanned (limits : Limits) (inFunction : Bool) (body : List Stmt) : Prop :=
  ∀ ⦃depth tail good⦄, Scans limits tail (Reread inFunction body good) → Scans limits (blockText depth body tail) good

/-- These branches are read again from their text. -/
def Otherwise.Scanned (limits : Limits) (inFunction : Bool) (o : Else) : Prop :=
  ∀ ⦃depth tail good⦄, Scans limits tail (Reread inFunction o good) → Scans limits (o.textBehind depth tail) good

/-! ### One kind of statement after the other -/

namespace Statement

theorem scans_declare {word token colon equals : Token} {symbol : Symbol} {τ : Ty} {e : Expr}
    (isLet : word.kind = .letWord) (named : Names token symbol) (type : Annotation ts τ (equals :: us))
    (value : Expression us e rest) (legible : Token.AllLegible limits (word :: token :: colon :: ts))
    (plain : e.isPlain = true) (next : Scans limits tail (Reread inFunction rest (.declare symbol τ e) good)) :
    Scans limits (((Stmt.declare symbol τ e).display depth).toList ++ tail) good := by
  have inner := legible.tail.tail.tail
  have behind := (type.passes.legible inner).tail
  simp only [Stmt.display, toList_line, String.toList_append, List.append_assoc]
  refine .blanks ?_ isBlank_of_mem_indent
  change Scans limits ("let".toList ++ ' ' :: _) good
  refine .keyword legible.head isLet (by decide) (.cons (by decide)) ?_
  refine .blank ?_ (by decide)
  refine .name legible.tail.head named (.cons (by decide)) ?_
  refine .symbol .colon (by decide) (.inl rfl) ?_
  refine .blank ?_ (by decide)
  refine type.scans inner (.cons (by decide)) ?_
  refine .blank ?_ (by decide)
  refine .symbol .assign (by decide) (.inr (.cons (by decide))) ?_
  refine .blank ?_ (by decide)
  refine value.scans behind plain (.cons (by decide)) ?_
  refine .blank (next.mono ?_) (by decide)
  rintro us ⟨-, good⟩ vs e value same equals isAssign ws type colon isColon t position named word isLet
  refine good _ _ (.declare isLet named isColon type isAssign (.of_primary value)) ?_
  simp only [Stmt.placeless, same, Symbol.placeless]

theorem scans_assign {token equals : Token} {symbol : Symbol} {e : Expr} (named : Names token symbol)
    (value : Expression ts e rest) (legible : Token.AllLegible limits (token :: equals :: ts))
    (plain : e.isPlain = true) (next : Scans limits tail (Reread inFunction rest (.assign symbol e) good)) :
    Scans limits (((Stmt.assign symbol e).display depth).toList ++ tail) good := by
  have inner := legible.tail.tail
  simp only [Stmt.display, toList_line, String.toList_append, List.append_assoc]
  refine .blanks ?_ isBlank_of_mem_indent
  refine .name legible.head named (.cons (by decide)) ?_
  refine .blank ?_ (by decide)
  refine .symbol .assign (by decide) (.inr (.cons (by decide))) ?_
  refine .blank ?_ (by decide)
  refine value.scans inner plain (.cons (by decide)) ?_
  refine .blank (next.mono ?_) (by decide)
  rintro us ⟨-, good⟩ vs e value same equals isAssign t position named
  refine good _ _ (.assign named isAssign (.of_primary value)) ?_
  simp only [Stmt.placeless, same, Symbol.placeless]

theorem scans_call {token opening : Token} {symbol : Symbol} {es : List Expr} (named : Names token symbol)
    (arguments : Arguments ts es rest) (legible : Token.AllLegible limits (token :: opening :: ts))
    (plain : Expr.allPlain es = true) (next : Scans limits tail (Reread inFunction rest (.call symbol es) good)) :
    Scans limits (((Stmt.call symbol es).display depth).toList ++ tail) good := by
  have inner := legible.tail.tail
  simp only [Stmt.display, Expr.display, toList_line, String.toList_append, List.append_assoc]
  refine .blanks ?_ isBlank_of_mem_indent
  refine .name legible.head named (.cons (by decide)) ?_
  refine .symbol .leftParen (by decide) (.inl rfl) ?_
  refine arguments.scans inner plain ?_
  refine .blank (next.mono ?_) (by decide)
  rintro us ⟨-, good⟩ vs es arguments same opening opens t position named
  refine good _ _ (.call named opens arguments) ?_
  simp only [Stmt.placeless, same, Symbol.placeless]

theorem scans_ifElse {word : Token} {c : Expr} {body : List Stmt} {o : Else} (isIf : word.kind = .ifWord)
    (condition : Expression ts c us) (first : Block.Scanned limits inFunction body)
    (otherwise : Otherwise.Scanned limits inFunction o) (legible : Token.AllLegible limits (word :: ts))
    (plain : c.isPlain = true) (next : Scans limits tail (Reread inFunction rest (.ifElse c body o) good)) :
    Scans limits (((Stmt.ifElse c body o).display depth).toList ++ tail) good := by
  simp only [Stmt.display, Else.toList_display, toList_line, String.toList_append, List.append_assoc]
  refine .blanks ?_ isBlank_of_mem_indent
  change Scans limits ("if".toList ++ ' ' :: _) good
  refine .keyword legible.head isIf (by decide) (.cons (by decide)) ?_
  refine .blank ?_ (by decide)
  refine condition.scans legible.tail plain (.cons (by decide)) ?_
  refine .blank ?_ (by decide)
  refine first (otherwise (next.mono ?_))
  rintro us ⟨-, good⟩ vs o otherwise sameOthers ws body first sameBody xs c condition sameCondition word isIf
  refine good _ _ (.ifElse isIf (.of_primary condition) first otherwise) ?_
  simp only [Stmt.placeless, sameCondition, sameBody, sameOthers]

theorem scans_loop {word : Token} {c : Expr} {body : List Stmt} (isWhile : word.kind = .whileWord)
    (condition : Expression ts c us) (repeated : Block.Scanned limits inFunction body)
    (legible : Token.AllLegible limits (word :: ts)) (plain : c.isPlain = true)
    (next : Scans limits tail (Reread inFunction rest (.loop c body) good)) :
    Scans limits (((Stmt.loop c body).display depth).toList ++ tail) good := by
  simp only [Stmt.display, toList_line, String.toList_append, List.append_assoc]
  refine .blanks ?_ isBlank_of_mem_indent
  change Scans limits ("while".toList ++ ' ' :: _) good
  refine .keyword legible.head isWhile (by decide) (.cons (by decide)) ?_
  refine .blank ?_ (by decide)
  refine condition.scans legible.tail plain (.cons (by decide)) ?_
  refine .blank ?_ (by decide)
  refine repeated (.blank (next.mono ?_) (by decide))
  rintro us ⟨-, good⟩ vs body repeated sameBody ws c condition sameCondition word isWhile
  refine good _ _ (.loop isWhile (.of_primary condition) repeated) ?_
  simp only [Stmt.placeless, sameCondition, sameBody]

theorem scans_ret {word : Token} {e : Expr} (allowed : inFunction = true) (isReturn : word.kind = .returnWord)
    (value : Expression ts e rest) (legible : Token.AllLegible limits (word :: ts)) (plain : e.isPlain = true)
    (next : Scans limits tail (Reread inFunction rest (.ret word.position (some e)) good)) :
    Scans limits (((Stmt.ret word.position (some e)).display depth).toList ++ tail) good := by
  simp only [Stmt.display, toList_line, String.toList_append, List.append_assoc]
  refine .blanks ?_ isBlank_of_mem_indent
  change Scans limits ("return".toList ++ ' ' :: _) good
  refine .keyword legible.head isReturn (by decide) (.cons (by decide)) ?_
  refine .blank ?_ (by decide)
  refine value.scans legible.tail plain (.cons (by decide)) ?_
  refine .blank (next.mono ?_) (by decide)
  rintro us ⟨-, good⟩ vs e value same word isReturn
  refine good _ _ (.ret allowed isReturn (.of_primary value)) ?_
  simp only [Stmt.placeless, Option.map_some, same]

theorem scans_retBare {word closing : Token} (allowed : inFunction = true) (isReturn : word.kind = .returnWord)
    (closes : closing.kind = .rightBrace) (legible : Token.AllLegible limits (word :: ts))
    (next : Scans limits tail (Reread inFunction (closing :: rest) (.ret word.position none) good)) :
    Scans limits (((Stmt.ret word.position none).display depth).toList ++ tail) good := by
  simp only [Stmt.display, toList_line, List.append_assoc]
  refine .blanks ?_ isBlank_of_mem_indent
  refine .keyword legible.head isReturn (by decide) (.cons (by decide)) ?_
  refine .blank (next.mono ?_) (by decide)
  rintro us ⟨closesAgain, good⟩ word isReturn
  -- The token behind it is in the derivation again, although it is not part of the statement.
  cases us with
  | nil => exact absurd (closesAgain allowed closes) (by decide)
  | cons closing us => exact good _ _ (.retBare allowed isReturn (closesAgain allowed closes)) rfl

theorem scans_block {body : List Stmt} (block : Block.Scanned limits inFunction body)
    (next : Scans limits tail (Reread inFunction rest (.block body) good)) :
    Scans limits (((Stmt.block body).display depth).toList ++ tail) good := by
  simp only [Stmt.display, toList_line, String.toList_append, List.append_assoc]
  refine .blanks ?_ isBlank_of_mem_indent
  refine block (.blank (next.mono ?_) (by decide))
  rintro us ⟨-, good⟩ vs body block same
  refine good _ _ (.block block) ?_
  simp only [Stmt.placeless, same]

end Statement

/-! ### Statements in blocks -/

mutual

/-- A statement is read again from its lines. -/
theorem Statement.scans {ts rest : List Token} {s : Stmt} : Statement inFunction ts s rest →
    Token.AllLegible limits ts → s.isPlain = true → ∀ {depth tail good},
    Scans limits tail (Statement.Reread inFunction rest s good) →
    Scans limits ((s.display depth).toList ++ tail) good
  | .declare isLet named _ type _ value, legible, plain, _, _, _, next =>
    Statement.scans_declare isLet named type value legible plain next
  | .assign named _ value, legible, plain, _, _, _, next => Statement.scans_assign named value legible plain next
  | .call named _ arguments, legible, plain, _, _, _, next => Statement.scans_call named arguments legible plain next
  | .ifElse isIf condition first otherwise, legible, plain, _, _, _, next => by
    have behind := condition.passes.legible legible.tail
    simp only [Stmt.isPlain, Bool.and_eq_true] at plain
    obtain ⟨⟨plainCondition, plainBody⟩, plainOthers⟩ := plain
    have others := otherwise.scans (first.passes.legible behind) plainOthers
    exact Statement.scans_ifElse isIf condition (first.scans behind plainBody) others legible plainCondition next
  | .loop isWhile condition repeated, legible, plain, _, _, _, next => by
    obtain ⟨plainCondition, plainBody⟩ := Bool.and_eq_true_iff.mp plain
    have body := repeated.scans (condition.passes.legible legible.tail) plainBody
    exact Statement.scans_loop isWhile condition body legible plainCondition next
  | .ret allowed isReturn value, legible, plain, _, _, _, next =>
    Statement.scans_ret allowed isReturn value legible plain next
  | .retBare allowed isReturn closes, legible, _, _, _, _, next =>
    Statement.scans_retBare allowed isReturn closes legible next
  | .block block, legible, plain, _, _, _, next => Statement.scans_block (block.scans legible plain) next

theorem Block.scans {ts rest : List Token} {body : List Stmt} : Block inFunction ts body rest →
    Token.AllLegible limits ts → Stmt.allPlain body = true → Block.Scanned limits inFunction body
  | .braces _ inside, legible, plain, depth, tail, good, next => by
    refine .symbol .leftBrace (by decide) (.inl rfl) ?_
    refine .blank ?_ (by decide)
    refine inside.scans legible.tail plain (next.mono ?_)
    intro us good vs body inside same _ opening opens
    exact good _ _ (.braces opens inside) same

theorem Body.scans {ts rest : List Token} {body : List Stmt} : Body inFunction ts body rest →
    Token.AllLegible limits ts → Stmt.allPlain body = true → ∀ {depth outside tail good},
    (Scans limits tail fun us => ∀ vs body', Body inFunction vs body' us →
      Stmt.allPlaceless body' = Stmt.allPlaceless body → Closes ts vs → good vs) →
    Scans limits ((Stmt.displayAll depth body).toList ++ ((indent outside).toList ++ '\x7d' :: tail)) good
  | .close _, _, _, depth, outside, tail, good, next => by
    rw [Stmt.displayAll, String.toList_empty, List.nil_append]
    refine .blanks ?_ isBlank_of_mem_indent
    refine .symbol .rightBrace (by decide) (.inl rfl) (next.mono ?_)
    intro us good closing closes
    exact good _ _ (.close closes) rfl fun _ => closes
  | .more first others, legible, plain, depth, outside, tail, good, next => by
    obtain ⟨plainFirst, plainOthers⟩ := Bool.and_eq_true_iff.mp plain
    simp only [Stmt.displayAll, String.toList_append, List.append_assoc]
    refine first.scans legible plainFirst ?_
    refine others.scans (first.passes.legible legible) plainOthers (next.mono ?_)
    refine fun us good vs body others sameOthers closes => ⟨fun _ => closes, ?_⟩
    intro ws s again same
    refine good _ _ (.more again others) ?_ fun closing => ?_
    · simp only [Stmt.allPlaceless, same, sameOthers]
    · -- No statement begins with a closing brace.
      have starts := first.nextKind_mem
      rw [closing] at starts
      exact absurd starts (by decide)

theorem Otherwise.scans {ts rest : List Token} {o : Else} : Otherwise inFunction ts o rest →
    Token.AllLegible limits ts → o.isPlain = true → Otherwise.Scanned limits inFunction o
  | .none, _, _, depth, tail, good, next => by
    refine .blank (next.mono ?_) (by decide)
    exact fun us good => good _ _ .none rfl
  | .last isElse block, legible, plain, depth, tail, good, next => by
    refine .blank ?_ (by decide)
    refine .keyword legible.head isElse (by decide) (.cons (by decide)) ?_
    refine .blank ?_ (by decide)
    refine block.scans legible.tail plain ?_
    refine .blank (next.mono ?_) (by decide)
    intro us good vs body block same word isElse
    refine good _ _ (.last isElse block) ?_
    simp only [Else.placeless, same]
  | .elseIf isElse isIf condition block otherwise, legible, plain, depth, tail, good, next => by
    have inner := legible.tail.tail
    have behind := condition.passes.legible inner
    simp only [Else.isPlain, Bool.and_eq_true] at plain
    obtain ⟨⟨plainCondition, plainBody⟩, plainOthers⟩ := plain
    refine .blank ?_ (by decide)
    refine .keyword legible.head isElse (by decide) (.cons (by decide)) ?_
    refine .blank ?_ (by decide)
    refine .keyword legible.tail.head isIf (by decide) (.cons (by decide)) ?_
    refine .blank ?_ (by decide)
    refine condition.scans inner plainCondition (.cons (by decide)) ?_
    refine .blank ?_ (by decide)
    refine block.scans behind plainBody ?_
    refine otherwise.scans (block.passes.legible behind) plainOthers (next.mono ?_)
    intro us good vs o otherwise sameOthers ws body block sameBody xs c condition sameCondition further isIf word
      isElse
    refine good _ _ (.elseIf isElse isIf (.of_primary condition) block otherwise) ?_
    simp only [Else.placeless, sameCondition, sameBody, sameOthers]

end

end Grammar

end Mensura
