import Mensura.Proofs.Foresight.Basic

/-!
The tokens that a unit is written with, whatever integers stand as its powers, and what is read from them. A power is
read as its sign and its magnitude, and the magnitude has to fit 32 bits without the sign; so -2147483648 is refused
with the integers of more than 32 bits. Nothing is asked of the tokens behind the unit, but that no fault comes next.
-/

namespace Mensura

open Token (Kind)
open Grammar (Names Counts)

/-! ### Tokens -/

/-- The tokens of an integer: its magnitude, with a minus in front of it where it is negative. -/
inductive IntegerTokens : Int → List Token → Prop where
  | natural {t : Token} {n : Int64} (counts : Counts t n) (nonneg : 0 ≤ n.toInt) : IntegerTokens n.toInt [t]
  | opposite {minus t : Token} {n : Int64} (sign : minus.kind = .minus) (counts : Counts t n)
      (positive : 0 < n.toInt) : IntegerTokens (-n.toInt) [minus, t]

/-- The tokens of a name raised to an integer. The power of 1 may be left out. -/
inductive FactorTokens : String × Int → List Token → Prop where
  | plain {t : Token} {name : String} {position : Position} (named : Names t ⟨name, position⟩) :
      FactorTokens (name, 1) [t]
  | raised {t caret : Token} {name : String} {position : Position} {k : Int} {ts : List Token}
      (named : Names t ⟨name, position⟩) (isCaret : caret.kind = .caret) (power : IntegerTokens k ts) :
      FactorTokens (name, k) (t :: caret :: ts)

/-- The tokens of factors with a star in front of each of them. -/
inductive FurtherTokens : List (String × Int) → List Token → Prop where
  | nil : FurtherTokens [] []
  | cons {star : Token} {u : String × Int} {us : List (String × Int)} {ts rest : List Token}
      (isStar : star.kind = .star) (factor : FactorTokens u ts) (others : FurtherTokens us rest) :
      FurtherTokens (u :: us) (star :: (ts ++ rest))

/-- The tokens of a unit, from behind its opening bracket. -/
inductive UnitTokens : List (String × Int) → List Token → Prop where
  | dimensionless {closing : Token} (closes : closing.kind = .rightBracket) : UnitTokens [] [closing]
  | product {closing : Token} {u : String × Int} {us : List (String × Int)} {ts rest : List Token}
      (factor : FactorTokens u ts) (others : FurtherTokens us rest) (closes : closing.kind = .rightBracket) :
      UnitTokens (u :: us) (ts ++ (rest ++ [closing]))

theorem FurtherTokens.length_le {us : List (String × Int)} {ts : List Token} (h : FurtherTokens us ts) :
    us.length ≤ ts.length := by
  induction h with
  | nil => exact Nat.le_refl _
  | cons _ _ _ ih =>
    simp only [List.length_cons, List.length_append]
    omega

theorem UnitTokens.length_le {us : List (String × Int)} {ts : List Token} (h : UnitTokens us ts) :
    us.length ≤ ts.length := by
  cases h with
  | dimensionless => exact Nat.zero_le _
  | product _ others _ =>
    have := others.length_le
    simp only [List.length_cons, List.length_append]
    omega

/-! ### Reading them -/

namespace TokenStream

variable {s : TokenStream}

theorem Open.prepend (h : s.Open) (ts : List Token) : (s.prepend ts).Open := by
  cases ts with
  | nil => exact h
  | cons t ts => exact ⟨t.kind, rfl⟩

end TokenStream

namespace Parser

variable {α β : Type}

/-- In front of what `K` allows, `a` is read from the tokens `w` if `P` holds. If it does not, they are refused for a
power that is out of range. -/
def ReadsIf (P : Prop) (K : Kind → Prop) (x : Parser α) (w : List Token) (a : α) : Prop :=
  ∀ r : TokenStream, r.Open → K r.peek.kind →
    (P → x (r.prepend w) = .ok (a, r)) ∧
    (¬ P → ∃ position, x (r.prepend w) = .error (.syntactic (.powerOutOfRange position)))

namespace ReadsIf

variable {P Q : Prop} {K L : Kind → Prop} {kind : Kind} {x : Parser α} {f : α → Parser β} {t : Token}
  {v w : List Token} {a : α} {b : β}

theorem pure (a : α) : ReadsIf True K (Pure.pure a) [] a :=
  fun _ _ _ => ⟨fun _ => rfl, fun never => absurd trivial never⟩

theorem refuse (exceeds : ¬ P) (position : Position) :
    ReadsIf P K (Parser.refuse (.syntactic (.powerOutOfRange position))) [] a :=
  fun _ _ _ => ⟨fun fits => absurd fits exceeds, fun _ => ⟨position, rfl⟩⟩

theorem congr (h : ReadsIf P K x w a) (same : P ↔ Q) : ReadsIf Q K x w a := by
  rwa [← propext same]

theorem bind (first : ReadsIf P L x w a) (next : ReadsIf Q K (f a) v b)
    (seam : ∀ r : TokenStream, K r.peek.kind → L (r.prepend v).peek.kind) :
    ReadsIf (P ∧ Q) K (x >>= f) (w ++ v) b := by
  intro r seen stops
  obtain ⟨reads, refuses⟩ := first (r.prepend v) (seen.prepend v) (seam r stops)
  obtain ⟨readsOn, refusesOn⟩ := next r seen stops
  rw [TokenStream.prepend_append, bind_apply]
  refine ⟨?_, ?_⟩
  · intro ⟨fits, fitsOn⟩
    rw [reads fits]
    exact readsOn fitsOn
  · intro exceeds
    by_cases fits : P
    · rw [reads fits]
      exact refusesOn fun fitsOn => exceeds ⟨fits, fitsOn⟩
    · obtain ⟨position, refused⟩ := refuses fits
      exact ⟨position, by rw [refused]; rfl⟩

/-- What is read in any case adds nothing to what has to hold. -/
theorem andThen (first : ReadsIf True L x w a) (next : ReadsIf P K (f a) v b)
    (seam : ∀ r : TokenStream, K r.peek.kind → L (r.prepend v).peek.kind) : ReadsIf P K (x >>= f) (w ++ v) b :=
  (first.bind next seam).congr (and_iff_right trivial)

theorem map {g : α → β} (h : ReadsIf P L x w a) (easier : ∀ k, K k → L k) :
    ReadsIf P K (x >>= fun a => Pure.pure (g a)) w (g a) := by
  have read := (h.bind (v := []) (f := fun a => Pure.pure (g a)) (pure (g a)) fun _ => easier _).congr
    (and_iff_left trivial)
  rwa [List.append_nil] at read

/-! One token. -/

theorem peekKind_apply (s : TokenStream) : peekKind s = .ok (s.peek.kind, s) := rfl

theorem advance (t : Token) : ReadsIf True (fun _ => True) Parser.advance [t] t := by
  refine fun r seen _ => ⟨fun _ => ?_, fun never => absurd trivial never⟩
  rw [Parser.advance, TokenStream.behind_prepend seen, TokenStream.peek_prepend]
  rfl

theorem take (same : t.kind = kind) : ReadsIf True (fun _ => True) (Parser.take kind) [t] true := by
  refine fun r seen _ => ⟨fun _ => ?_, fun never => absurd trivial never⟩
  have moves := (advance t r seen trivial).1 trivial
  have here : (r.prepend [t]).peek.kind = kind := by rw [TokenStream.peek_prepend, same]
  rw [Parser.take, bind_apply, peekKind_apply]
  simp only [Except.bind, if_pos here]
  rw [bind_apply, moves]
  rfl

theorem leave : ReadsIf True (· ≠ kind) (Parser.take kind) [] false := by
  refine fun r seen other => ⟨fun _ => ?_, fun never => absurd trivial never⟩
  rw [Parser.take, bind_apply, TokenStream.prepend_nil, peekKind_apply]
  simp only [Except.bind, if_neg other]
  rfl

theorem expect (same : t.kind = kind) : ReadsIf True (fun _ => True) (Parser.expect kind) [t] t := by
  refine fun r seen _ => ⟨fun _ => ?_, fun never => absurd trivial never⟩
  have here : (r.prepend [t]).peek.kind = kind := by rw [TokenStream.peek_prepend, same]
  rw [Parser.expect, bind_apply, peekKind_apply]
  simp only [Except.bind, if_pos here]
  exact (advance t r seen trivial).1 trivial

theorem identifier {symbol : Symbol} (named : Names t symbol) :
    ReadsIf True (fun _ => True) Parser.identifier [t] symbol := by
  refine fun r seen _ => ⟨fun _ => identifier_apply named ?_, fun never => absurd trivial never⟩
  intro last
  obtain ⟨tokens, ending⟩ := r
  obtain rfl : tokens = [] := last
  obtain ⟨kind, seen⟩ := seen
  cases ending with
  | error fault => cases seen
  | ok position => exact ⟨position, rfl⟩

end ReadsIf

/-- The integers that are read as powers. They are those of 32 bits but for the least of them. -/
def PowerFits (k : Int) : Prop := -2147483648 < k ∧ k < 2147483648

theorem power_readsIf {k : Int} {w : List Token} (h : IntegerTokens k w) :
    ReadsIf (PowerFits k) (fun _ => True) power w (Int32.ofInt k) := by
  cases h with
  | @natural t n counts nonneg =>
    refine ReadsIf.leave.andThen (v := [t]) ?_ fun r _ => ?_
    · refine (ReadsIf.expect counts.kind).andThen (v := []) ?_ fun _ _ => trivial
      simp only [counts.value]
      cases narrow : int32? n.toInt with
      | none =>
        rw [int32?_eq_none_iff] at narrow
        exact .refuse (fun fit => by unfold PowerFits at fit; omega) _
      | some p =>
        have same := int32?_eq_some_iff.mp narrow
        have bound := p.toInt_lt
        rw [← same, Int32.ofInt_toInt]
        exact (ReadsIf.pure p).congr (iff_of_true trivial ⟨by omega, by omega⟩)
    · rw [TokenStream.peek_prepend, counts.kind]
      decide
  | @opposite minus t n sign counts positive =>
    refine (ReadsIf.take sign).andThen (v := [t]) ?_ fun _ _ => trivial
    refine (ReadsIf.expect counts.kind).andThen (v := []) ?_ fun _ _ => trivial
    simp only [counts.value]
    cases narrow : int32? n.toInt with
    | none =>
      rw [int32?_eq_none_iff] at narrow
      exact .refuse (fun fit => by unfold PowerFits at fit; omega) _
    | some p =>
      have same := int32?_eq_some_iff.mp narrow
      have bound := p.toInt_lt
      have opposite : negatePower p = some (Int32.ofInt (-n.toInt)) := by
        rw [negatePower, int32?_eq_some_iff, same, Int32.toInt_ofInt_of_le (by omega) (by omega)]
      simp only [opposite]
      exact (ReadsIf.pure _).congr (iff_of_true trivial ⟨by omega, by omega⟩)

/-- A factor that has been read. -/
def factorOf (u : String × Int) : Factor := ⟨u.1, Int32.ofInt u.2⟩

/-- All the factors can be read. -/
def AllFit (us : List (String × Int)) : Prop := ∀ u ∈ us, PowerFits u.2

theorem allFit_nil : AllFit [] := nofun

theorem allFit_cons {u : String × Int} {us : List (String × Int)} :
    PowerFits u.2 ∧ AllFit us ↔ AllFit (u :: us) := by
  simp only [AllFit, List.forall_mem_cons]

theorem factor_readsIf {u : String × Int} {w : List Token} (h : FactorTokens u w) :
    ReadsIf (PowerFits u.2) (· ≠ .caret) factor w (factorOf u) := by
  cases h with
  | plain named =>
    refine (ReadsIf.identifier named).andThen (v := []) ?_ fun _ _ => trivial
    refine ReadsIf.leave.andThen (v := []) ?_ fun _ other => other
    exact (ReadsIf.pure _).congr (iff_of_true trivial (show PowerFits 1 from ⟨by decide, by decide⟩))
  | @raised t caret name position k w named isCaret power =>
    refine (ReadsIf.identifier named).andThen (v := caret :: w) ?_ fun _ _ => trivial
    refine (ReadsIf.take isCaret).andThen (v := w) ?_ fun _ _ => trivial
    exact (power_readsIf power).map fun _ _ => trivial

theorem further_readsIf {us : List (String × Int)} {w : List Token} (h : FurtherTokens us w) {n : Nat}
    (room : us.length ≤ n) :
    ReadsIf (AllFit us) (· = .rightBracket)
      (many (do if ← take .star then return some (← factor) else return none) n) w (us.map factorOf) := by
  induction h generalizing n with
  | nil =>
    have none : ReadsIf (AllFit []) (· = .rightBracket) (Pure.pure []) [] (List.map factorOf []) :=
      (ReadsIf.pure []).congr (iff_of_true trivial allFit_nil)
    cases n with
    | zero => exact none
    | succ n =>
      refine ReadsIf.andThen (a := Option.none) (w := []) (v := []) (L := (· ≠ .star)) ?_ none fun _ closes => ?_
      · exact ReadsIf.leave.andThen (v := []) (.pure _) fun _ other => other
      · rw [TokenStream.prepend_nil, closes]
        decide
  | @cons star u us w v isStar factor others ih =>
    obtain ⟨n, rfl⟩ : ∃ k, n = k + 1 := ⟨n - 1, by simp only [List.length_cons] at room; omega⟩
    rw [List.length_cons, Nat.add_le_add_iff_right] at room
    refine ReadsIf.congr ?_ allFit_cons
    refine ReadsIf.bind (a := some (factorOf u)) (w := star :: w) (v := v) (L := (· ≠ .caret)) ?_
      ((ih room).map fun _ => id) ?_
    · exact (ReadsIf.take isStar).andThen (v := w) ((factor_readsIf factor).map fun _ => id) fun _ _ => trivial
    · intro r closes
      cases others with
      | nil => rw [TokenStream.prepend_nil, closes]; decide
      | cons isStar => rw [TokenStream.peek_prepend, isStar]; decide

theorem unitExpr_readsIf {us : List (String × Int)} {w : List Token} (h : UnitTokens us w) {n : Nat}
    (room : us.length ≤ n) :
    ReadsIf (AllFit us) (fun _ => True) (unitExpr n) w ⟨us.map factorOf⟩ := by
  cases h with
  | dimensionless closes =>
    refine (ReadsIf.take closes).andThen (v := []) ?_ fun _ _ => trivial
    exact (ReadsIf.pure _).congr (iff_of_true trivial allFit_nil)
  | @product closing u us w v factor others closes =>
    have begins : ∃ t after, w = t :: after ∧ t.kind = .identifier := by
      cases factor with
      | plain named | raised named => exact ⟨_, _, rfl, named.kind⟩
    obtain ⟨t, after, rfl, kind⟩ := begins
    refine ReadsIf.leave.andThen (v := t :: after ++ (v ++ [closing])) ?_ fun r _ => ?_
    · refine ReadsIf.congr ?_ allFit_cons
      refine (factor_readsIf factor).bind ?_ fun r _ => ?_
      · refine ReadsIf.congr (P := AllFit us ∧ True) ?_ (and_iff_left trivial)
        refine (further_readsIf others (Nat.le_of_succ_le room)).bind (v := [closing]) ?_ fun r _ => ?_
        · exact (ReadsIf.expect closes).map fun _ => id
        · rw [TokenStream.peek_prepend, closes]
      · cases others with
        | nil => rw [List.nil_append, TokenStream.peek_prepend, closes]; decide
        | cons isStar => rw [List.cons_append, TokenStream.peek_prepend, isStar]; decide
    · rw [List.cons_append, TokenStream.peek_prepend, kind]
      decide

/-- A unit with its opening bracket, which in a type is read along with the other kinds of types. -/
def unit (n : Nat) : Parser UnitExpr := do
  let _ ← expect .leftBracket
  unitExpr n

theorem unit_readsIf {us : List (String × Int)} {opening : Token} {w : List Token}
    (opens : opening.kind = .leftBracket) (h : UnitTokens us w) {n : Nat} (room : us.length ≤ n) :
    ReadsIf (AllFit us) (fun _ => True) (unit n) (opening :: w) ⟨us.map factorOf⟩ :=
  (ReadsIf.expect opens).andThen (v := w) (unitExpr_readsIf h room) fun _ _ => trivial

theorem type_readsIf {us : List (String × Int)} {opening : Token} {w : List Token}
    (opens : opening.kind = .leftBracket) (h : UnitTokens us w) {n : Nat} (room : us.length ≤ n) :
    ReadsIf (AllFit us) (fun _ => True) (type n) (opening :: w) (.quantity ⟨us.map factorOf⟩) := by
  intro r seen stops
  have here : (r.prepend (opening :: w)).peek.kind = .leftBracket := by rw [TokenStream.peek_prepend, opens]
  rw [type, bind_apply, ReadsIf.peekKind_apply]
  simp only [Except.bind, here]
  exact (ReadsIf.advance opening).andThen (v := w) ((unitExpr_readsIf h room).map fun _ => id)
    (fun _ _ => trivial) r seen stops

/-! Where a fault stands in the place of the magnitude of a power, it is told. -/

section
variable {e : LexicalError}

theorem bind_error {x : Parser α} {s : TokenStream} {r : Refusal} (h : x s = .error r) (f : α → Parser β) :
    (x >>= f) s = .error r := by
  rw [bind_apply, h]
  rfl

theorem take_fault {kind : Kind} {t : Token} (same : t.kind = kind) :
    take kind ⟨[t], .error e⟩ = .error (.lexical e) := by
  rw [take, bind_apply, ReadsIf.peekKind_apply]
  exact (congrFun (if_pos same) _).trans rfl

theorem factor_fault {t caret : Token} {symbol : Symbol} (named : Names t symbol) (isCaret : caret.kind = .caret)
    {w : List Token} (sign : w = [] ∨ ∃ minus : Token, w = [minus] ∧ minus.kind = .minus) :
    factor ⟨t :: caret :: w, .error e⟩ = .error (.lexical e) := by
  have moves : identifier ⟨t :: caret :: w, .error e⟩ = .ok (symbol, ⟨caret :: w, .error e⟩) :=
    identifier_apply named nofun
  rw [factor, bind_apply, moves]
  simp only [Except.bind]
  obtain rfl | ⟨minus, rfl, isMinus⟩ := sign
  · exact bind_error (take_fault isCaret) _
  · have raised := (ReadsIf.take isCaret ⟨[minus], .error e⟩ ⟨minus.kind, rfl⟩ trivial).1 trivial
    rw [bind_apply, show (⟨[caret, minus], .error e⟩ : TokenStream) = .prepend [caret] ⟨[minus], .error e⟩ from rfl,
      raised]
    simp only [Except.bind, if_true]
    exact bind_error (bind_error (take_fault isMinus) _) _

theorem type_fault {n : Nat} {opening t : Token} {w : List Token} (opens : opening.kind = .leftBracket)
    (begins : t.kind = .identifier) (h : factor ⟨t :: w, .error e⟩ = .error (.lexical e)) :
    type n ⟨opening :: t :: w, .error e⟩ = .error (.lexical e) := by
  have inside : unitExpr n ⟨t :: w, .error e⟩ = .error (.lexical e) := by
    have other : (TokenStream.mk (t :: w) (.error e)).peek.kind ≠ .rightBracket := by
      rw [TokenStream.peek, begins]
      decide
    have left := (ReadsIf.leave ⟨t :: w, .error e⟩ ⟨t.kind, rfl⟩ other).1 trivial
    rw [TokenStream.prepend_nil] at left
    rw [unitExpr, bind_apply, left]
    exact bind_error h _
  rw [type, bind_apply, ReadsIf.peekKind_apply]
  simp only [Except.bind, TokenStream.peek, opens]
  have moves : advance ⟨opening :: t :: w, .error e⟩ = .ok (opening, ⟨t :: w, .error e⟩) := rfl
  rw [bind_apply, moves]
  exact bind_error inside _

end

end Parser

end Mensura
