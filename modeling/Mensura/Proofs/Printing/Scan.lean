import Mensura.Proofs.Grammar.Basic
import Mensura.Proofs.Printing.Alike

/-!
Reading the tokens of a text, from its front to its end. A step takes a blank or a token off the text; what is
asked of the tokens behind it is what remains to be asked once it stands in front of them.
-/

namespace Mensura

open Token (Content Kind)
open Lexeme (Apart Loose)

/-- All the tokens can be read from a text. -/
def Token.AllLegible (limits : Limits) (ts : List Token) : Prop := ∀ t ∈ ts, t.toContent.Legible limits

namespace Token.AllLegible

variable {limits : Limits} {t : Token} {ts us : List Token}

theorem head (h : AllLegible limits (t :: ts)) : t.toContent.Legible limits := h t List.mem_cons_self

theorem tail (h : AllLegible limits (t :: ts)) : AllLegible limits ts :=
  fun u mem => h u (List.mem_cons_of_mem t mem)

theorem subset (h : AllLegible limits ts) (within : us ⊆ ts) : AllLegible limits us := fun u mem => h u (within mem)

end Token.AllLegible

/-- Wherever it stands, the text is read to its end without a fault, and the tokens, but for comments, are as `good`
says. -/
def Scans (limits : Limits) (text : List Char) (good : List Token → Prop) : Prop :=
  ∀ s : Cursor, s.rest = text →
    ∃ ts position, (TokenStream.ofCursor limits s).withoutComments = ⟨ts, .ok position⟩ ∧ good ts

variable {limits : Limits} {tail : List Char} {good better : List Token → Prop}

theorem Cursor.skipBlanks_blank {s : Cursor} {c : Char} (ahead : s.rest = c :: tail)
    (blank : Lexeme.isBlank c = true) : s.skipBlanks = s.advance.skipBlanks := by
  simp only [skipBlanks, rest_advance, ahead, List.tail_cons, List.takeWhile_cons, blank, if_true, List.length_cons]
  rfl

theorem Cursor.skipBlanks_of_not {s : Cursor} {c : Char} (ahead : s.rest = c :: tail)
    (visible : Lexeme.isBlank c = false) : s.skipBlanks = s := by
  simp only [skipBlanks, ahead, List.takeWhile_cons, visible]
  rfl

namespace TokenStream

variable {s t : Cursor} {token : Token}

theorem ofCursor_error {fault : LexicalError} (read : s.next limits = (.error fault, t)) :
    ofCursor limits s = ⟨[], .error fault⟩ := by
  rw [ofCursor]
  split
  · rename_i same
    rw [read] at same
    cases same
    rfl
  · rename_i same
    rw [read] at same
    cases same

theorem ofCursor_etx (read : s.next limits = (.ok token, t)) (last : token.kind = .etx) :
    ofCursor limits s = ⟨[], .ok token.position⟩ := by
  rw [ofCursor]
  split
  · rename_i same
    rw [read] at same
    cases same
  · rename_i same
    rw [read] at same
    cases same
    rw [dif_pos last]

theorem ofCursor_cons (read : s.next limits = (.ok token, t)) (more : token.kind ≠ .etx) :
    ofCursor limits s = ⟨token :: (ofCursor limits t).tokens, (ofCursor limits t).ending⟩ := by
  rw [ofCursor]
  split
  · rename_i same
    rw [read] at same
    cases same
  · rename_i same
    rw [read] at same
    cases same
    rw [dif_neg more]

/-- What follows depends on the next token and the place behind it only. -/
theorem ofCursor_congr (same : s.next limits = t.next limits) : ofCursor limits s = ofCursor limits t := by
  cases read : s.next limits with
  | mk outcome u =>
    have read' : t.next limits = (outcome, u) := same ▸ read
    cases outcome with
    | error fault => rw [ofCursor_error read, ofCursor_error read']
    | ok token =>
      by_cases last : token.kind = .etx
      · rw [ofCursor_etx read last, ofCursor_etx read' last]
      · rw [ofCursor_cons read last, ofCursor_cons read' last]

end TokenStream

/-! ### What legible tokens hold -/

namespace Token.Content.Legible

variable {t : Token} (legible : t.toContent.Legible limits)
include legible

theorem reserved {word : String} (mem : (word, t.kind) ∈ Kind.reserved) : word.length ≤ limits.identifier := by
  have all : ∀ p ∈ Kind.reserved,
      p.2 ≠ .identifier ∧ p.2 ≠ .intLiteral ∧ p.2 ≠ .floatLiteral ∧ p.2 ≠ .stringLiteral := by decide
  obtain ⟨identifier, int, float, text⟩ := all _ mem
  unfold Legible at legible
  split at legible
  · contradiction
  · contradiction
  · contradiction
  · contradiction
  · exact legible word mem

theorem name {symbol : Symbol} (named : Grammar.Names t symbol) :
    Text.IsWord symbol.name ∧ Kind.reserved.lookup symbol.name = none ∧ symbol.name.length ≤ limits.identifier := by
  simp only [Legible, named.kind, named.value] at legible
  obtain ⟨name, same, holds⟩ := legible
  cases same
  exact holds

theorem counts {n : Int64} (counts : Grammar.Counts t n) : 0 ≤ n.toInt ∧ n.toInt ≤ limits.integer.toInt := by
  simp only [Legible, counts.kind, counts.value] at legible
  obtain ⟨m, same, holds⟩ := legible
  cases same
  exact holds

theorem text {text : String} (kind : t.kind = .stringLiteral) (value : t.value = some (.text text)) :
    text.length ≤ limits.text := by
  simp only [Legible, kind, value] at legible
  obtain ⟨s, same, holds⟩ := legible
  cases same
  exact holds

end Token.Content.Legible

/-- A token that has been read has the value that its kind asks for. -/
theorem Token.isProper_of_legible {limits : Limits} {t : Token} (legible : t.toContent.Legible limits)
    (last : t.kind ≠ .etx) (comment : t.kind ≠ .comment) : t.isProper = true := by
  obtain ⟨⟨kind, value⟩, position⟩ := t
  cases kind with
  | comment => exact absurd rfl comment
  | etx => exact absurd rfl last
  | identifier =>
    obtain ⟨name, rfl, -⟩ := legible
    rfl
  | stringLiteral =>
    obtain ⟨text, rfl, -⟩ := legible
    rfl
  | floatLiteral =>
    obtain ⟨x, rfl⟩ := legible
    rfl
  | intLiteral =>
    obtain ⟨n, rfl, nonneg, -⟩ := legible
    exact decide_eq_true (Int64.le_iff_toInt_le.mpr nonneg)
  | _ => rfl

/-- All the tokens of a text but its comments are legible and have the values that their kinds ask for. -/
theorem TokenStream.legible_withoutComments (limits : Limits) (text : String) :
    ∀ t ∈ (ofText limits text).withoutComments.tokens, t.toContent.Legible limits ∧ t.isProper = true := by
  intro t mem
  obtain ⟨mem, kept⟩ := List.mem_filter.mp mem
  obtain ⟨legible, more⟩ := ofCursor_legible limits _ t mem
  exact ⟨legible, Token.isProper_of_legible legible more (bne_iff_ne.mp kept)⟩

namespace Scans

theorem mono (h : Scans limits tail good) (implies : ∀ ts, good ts → better ts) : Scans limits tail better := by
  intro s ahead
  obtain ⟨ts, position, read, holds⟩ := h s ahead
  exact ⟨ts, position, read, implies ts holds⟩

theorem nil (h : good []) : Scans limits [] good := by
  intro s ended
  have here : s.skipBlanks = s := by simp only [Cursor.skipBlanks, ended]; rfl
  have read : s.next limits = (.ok ⟨Lexeme.plain .etx, s.position⟩, s) := by
    rw [Cursor.next, here, ended]
    rfl
  exact ⟨[], s.position, by rw [TokenStream.ofCursor_etx read rfl]; rfl, h⟩

theorem blank {c : Char} (h : Scans limits tail good) (blank : Lexeme.isBlank c = true) :
    Scans limits (c :: tail) good := by
  intro s ahead
  have same : s.next limits = s.advance.next limits := by
    rw [Cursor.next, Cursor.skipBlanks_blank ahead blank, ← Cursor.next]
  rw [TokenStream.ofCursor_congr same]
  exact h s.advance (by rw [Cursor.rest_advance, ahead, List.tail_cons])

theorem blanks {cs : List Char} (h : Scans limits tail good) (all : ∀ c ∈ cs, Lexeme.isBlank c = true) :
    Scans limits (cs ++ tail) good := by
  induction cs with
  | nil => exact h
  | cons c cs ih =>
    exact (ih fun d mem => all d (List.mem_cons_of_mem c mem)).blank (all c List.mem_cons_self)

theorem token {c : Char} {rest lexeme : List Char} {content : Content} (split : lexeme = c :: rest)
    (visible : Lexeme.isBlank c = false)
    (read : Lexeme.read limits (lexeme ++ tail) = ⟨.ok content, lexeme.length⟩)
    (kind : content.kind ≠ .etx ∧ content.kind ≠ .comment)
    (h : Scans limits tail fun ts => ∀ t : Token, t.toContent = content → good (t :: ts)) :
    Scans limits (lexeme ++ tail) good := by
  intro s ahead
  have next : s.next limits = (.ok ⟨content, s.position⟩, Cursor.advanceBy lexeme.length s) := by
    have here : s.rest = c :: (rest ++ tail) := by rw [ahead, split, List.cons_append]
    rw [Cursor.next, Cursor.skipBlanks_of_not here visible, ahead, read]
  have left : (Cursor.advanceBy lexeme.length s).rest = tail := by
    rw [Cursor.rest_advanceBy, ahead, List.drop_left]
  obtain ⟨ts, position, later, holds⟩ := h _ left
  obtain ⟨sameTokens, sameEnding⟩ := TokenStream.mk.inj later
  refine ⟨⟨content, s.position⟩ :: ts, position, ?_, holds _ rfl⟩
  have kept : (kind : Kind) → kind ≠ .comment → (kind != .comment) = true := fun _ => bne_iff_ne.mpr
  rw [TokenStream.ofCursor_cons next kind.1]
  simp only [TokenStream.withoutComments, List.filter_cons, kept _ kind.2, if_true, sameTokens, sameEnding]

/-! ### Tokens -/

theorem visible_of {p : Char → Bool} {c : Char} (h : p c = true)
    (blanks : p ' ' = false ∧ p '\t' = false ∧ p '\r' = false ∧ p '\n' = false) : Lexeme.isBlank c = false := by
  obtain ⟨space, tab, carriage, newline⟩ := blanks
  simp only [Lexeme.isBlank, Bool.or_eq_false_iff, beq_eq_false_iff_ne]
  refine ⟨⟨⟨?_, ?_⟩, ?_⟩, ?_⟩ <;> rintro rfl <;> simp_all

theorem visible_symbol {kind : Kind} (isSymbol : kind.symbol ≠ []) :
    ∃ c rest, kind.symbol = c :: rest ∧ Lexeme.isBlank c = false ∧ kind ≠ .etx ∧ kind ≠ .comment := by
  cases kind <;> first | exact absurd rfl isSymbol | exact ⟨_, _, rfl, by decide⟩

theorem symbol (kind : Kind) (isSymbol : kind.symbol ≠ []) (loose : kind.goesOn = false ∨ Loose tail)
    (h : Scans limits tail fun ts => ∀ t : Token, t.kind = kind → good (t :: ts)) :
    Scans limits (kind.symbol ++ tail) good := by
  obtain ⟨c, rest, split, visible, other⟩ := visible_symbol isSymbol
  have loose : kind.goesOn = true → Loose tail := fun goesOn => loose.resolve_left (by rw [goesOn]; decide)
  refine token split visible (Lexeme.read_symbol isSymbol loose) other (h.mono ?_)
  intro ts good t content
  exact good t (congrArg Content.kind content)

theorem word {name : String} (isWord : Text.IsWord name) (short : name.length ≤ limits.identifier)
    (apart : Apart tail)
    (h : Scans limits tail fun ts => ∀ t : Token, t.toContent = Lexeme.ofWord name → good (t :: ts)) :
    Scans limits (name.toList ++ tail) good := by
  obtain ⟨c, rest, split, letter⟩ := isWord.begins
  have kind : (Lexeme.ofWord name).kind ≠ .etx ∧ (Lexeme.ofWord name).kind ≠ .comment := by
    have reserved : ∀ p ∈ Kind.reserved, p.2 ≠ .etx ∧ p.2 ≠ .comment := by decide
    obtain ⟨-, same⟩ | mem := Lexeme.ofWord_eq_or name
    · rw [same]
      exact ⟨nofun, nofun⟩
    · exact reserved _ mem
  exact token split (visible_of letter (by decide)) (Lexeme.read_word isWord short apart) kind h

theorem isWord_of_reserved {word : String} {kind : Kind} (mem : (word, kind) ∈ Kind.reserved) : Text.IsWord word := by
  have all : ∀ p ∈ Kind.reserved,
      p.1.toList.head?.any Text.isAlphabetic = true ∧ p.1.toList.all Text.isWordChar = true := by decide
  obtain ⟨begins, goesOn⟩ := all _ mem
  refine ⟨?_, List.all_eq_true.mp goesOn⟩
  cases split : word.toList with
  | nil =>
    rw [split] at begins
    cases begins
  | cons c rest =>
    rw [split] at begins
    exact ⟨c, rest, rfl, begins⟩

/-- A reserved word is written again where it has been read before. -/
theorem keyword {t : Token} {word : String} {kind : Kind} (legible : t.toContent.Legible limits)
    (same : t.kind = kind) (mem : (word, kind) ∈ Kind.reserved) (apart : Apart tail)
    (h : Scans limits tail fun ts => ∀ u : Token, u.kind = kind → good (u :: ts)) :
    Scans limits (word.toList ++ tail) good := by
  have reads : ∀ p ∈ Kind.reserved, (Lexeme.ofWord p.1).kind = p.2 := by decide
  subst same
  refine Scans.word (isWord_of_reserved mem) (legible.reserved mem) apart (h.mono ?_)
  intro ts good u content
  exact good u ((congrArg Content.kind content).trans (reads _ mem))

theorem name {t : Token} {symbol : Symbol} (legible : t.toContent.Legible limits) (named : Grammar.Names t symbol)
    (apart : Apart tail)
    (h : Scans limits tail fun ts => ∀ u position, Grammar.Names u ⟨symbol.name, position⟩ → good (u :: ts)) :
    Scans limits (symbol.name.toList ++ tail) good := by
  obtain ⟨isWord, free, short⟩ := legible.name named
  refine Scans.word isWord short apart (h.mono ?_)
  intro ts good u content
  rw [Lexeme.ofWord, free] at content
  exact good u u.position ⟨congrArg Content.kind content, congrArg Content.value content, rfl⟩

theorem natural {t : Token} {n : Int64} (legible : t.toContent.Legible limits) (counts : Grammar.Counts t n)
    (apart : Apart tail) (h : Scans limits tail fun ts => ∀ u, Grammar.Counts u n → good (u :: ts)) :
    Scans limits (Numeral.natural n.toInt.natAbs ++ tail) good := by
  obtain ⟨positive, fits⟩ := legible.counts counts
  have same : Int64.ofNat n.toInt.natAbs = n := by
    have := n.toInt_lt
    rw [← Int64.toInt_inj, Int64.toInt_ofNat_of_lt (by omega)]
    omega
  obtain ⟨c, rest, split, digit⟩ := Lexeme.natural_begins n.toInt.natAbs
  refine token split (visible_of digit (by decide)) (Lexeme.read_natural (by omega) apart) ⟨nofun, nofun⟩ (h.mono ?_)
  intro ts good u content
  rw [same] at content
  exact good u ⟨congrArg Content.kind content, congrArg Content.value content⟩

theorem quoted {t : Token} {text : String} (legible : t.toContent.Legible limits) (kind : t.kind = .stringLiteral)
    (value : t.value = some (.text text)) (plain : text.toList.all Text.isPlain = true)
    (h : Scans limits tail fun ts => ∀ u : Token, u.kind = .stringLiteral → u.value = some (.text text) →
      good (u :: ts)) : Scans limits ((Text.quoted text).toList ++ tail) good := by
  have split : (Text.quoted text).toList = '"' :: (text.toList.flatMap Text.quotedChar ++ ['"']) :=
    String.toList_ofList
  refine token split (by decide) (Lexeme.read_quoted (List.all_eq_true.mp plain) (legible.text kind value))
    ⟨nofun, nofun⟩ (h.mono ?_)
  intro ts good u content
  exact good u (congrArg Content.kind content) (congrArg Content.value content)

end Scans

end Mensura
