import Mensura.Proofs.Typing.Meaning

/-!
Checking single operations. The type that an operator or a built-in function gives back means what the
operation makes of the meanings of its operands, and it is refused if they have none. Apart from that only a
fault that depends on how units are written can stand in the way.
-/

namespace Mensura

/-- A fault that can come from the way in which units are written: a power out of range, or a root or a power
whose unit cannot be worked out. -/
def TypingFault.SpellingDependent : TypingFault → Prop
  | unit (.powerOverflow _) => True
  | notPermitted (.call .sqrt) _ | notPermitted (.call .power) _ => True
  | _ => False

/-- Checking agrees with a meaning: it gives something that is in the relation to the meaning, or else there is
no meaning or the fault is one of spelling. -/
def Agrees {α β : Type} (related : α → β → Prop) (checked : Except TypingError α) (meaning : Option β) : Prop :=
  Ends (fun e => meaning = none ∨ e.fault.SpellingDependent) (fun a => ∃ b, meaning = some b ∧ related a b) checked

namespace Agrees

variable {α β γ δ : Type} {related : α → β → Prop} {next : γ → δ → Prop}

theorem ok {a : α} {b : β} (h : related a b) : Agrees related (.ok a) (some b) := ⟨b, rfl, h⟩

theorem refused {e : TypingError} : Agrees related (.error e) none := .inl rfl

theorem spelling {e : TypingError} {meaning : Option β} (h : e.fault.SpellingDependent) :
    Agrees related (.error e) meaning := .inr h

/-- Steps that agree one by one agree as a whole. -/
theorem bind {x : Except TypingError α} {o : Option β} {f : α → Except TypingError γ} {g : β → Option δ}
    (first : Agrees related x o) (rest : ∀ a b, related a b → Agrees next (f a) (g b)) :
    Agrees next (x >>= f) (o >>= g) := by
  cases x with
  | ok a =>
    obtain ⟨b, rfl, h⟩ := first
    exact rest a b h
  | error e =>
    obtain rfl | h := first
    · exact .refused
    · exact .spelling h

theorem mono {x : Except TypingError α} {o : Option β} {weaker : α → β → Prop} (h : Agrees related x o)
    (implies : ∀ a b, related a b → weaker a b) : Agrees weaker x o := by
  cases x with
  | ok a =>
    obtain ⟨b, found, h⟩ := h
    exact ⟨b, found, implies a b h⟩
  | error e => exact h

/-- What agrees with a meaning can be told by that meaning alone. -/
theorem ends {x : Except TypingError α} {o : Option β} {P : Prop} {good : α → Prop} (h : Agrees related x o)
    (without : o = none → P) (found : ∀ a b, o = some b → related a b → good a) :
    Ends (fun e => P ∨ e.fault.SpellingDependent) good x := by
  cases x with
  | ok a =>
    obtain ⟨b, meaning, h⟩ := h
    exact found a b meaning h
  | error e => exact h.imp_left without

end Agrees

variable {table : UnitTable} {u : UnitExpr} {d : Dimension}

namespace Builtin

theorem isPlain?_eq_some {plain : Bool} (hu : HasDimension table u.factors d)
    (h : isPlain? table u = some plain) : plain = true ↔ d = 0 := by
  obtain ⟨r, expansion, h⟩ := Option.bind_eq_some_iff.mp h
  obtain ⟨dimension, settled, normal⟩ := UnitExpr.expand_eq_ok (toOption_eq_some.mp expansion)
  rw [UnitExpr.isDimensionless_of_normal normal] at h
  cases h
  rw [List.isEmpty_iff, normal.eq_nil_iff, hu.unique dimension]
  constructor
  · intro zero
    funext b
    exact congrFun zero b.1
  · intro zero
    have empty : table.Settled [] := nofun
    exact Dimension.total_eq_of_settled settled empty zero

theorem rootType?_eq_some {τ : Ty} (hu : HasDimension table u.factors d) (h : rootType? table u = some τ) :
    ∃ e, d.half? = some e ∧ τ.Means table (.quantity e) := by
  obtain ⟨r, expansion, h⟩ := Option.bind_eq_some_iff.mp h
  obtain ⟨w, half, h⟩ := Option.bind_eq_some_iff.mp h
  cases h
  obtain ⟨dimension, settled, normal⟩ := UnitExpr.expand_eq_ok (toOption_eq_some.mp expansion)
  obtain ⟨even, rfl⟩ := (UnitExpr.halve?_eq_some_iff normal).mp half
  have twice := UnitExpr.total_halves even
  have settledHalf : table.Settled (r.factors.map fun f => ⟨f.name, Int32.ofInt (f.power.toInt / 2)⟩) :=
    List.forall_mem_map.mpr settled
  obtain rfl := hu.unique dimension
  have evenSums : ∀ b, Dimension.ofFactors r.factors b % 2 = 0 := by
    intro b
    have := twice b.1
    simp only [Dimension.ofFactors]
    omega
  refine ⟨_, ?_, .quantity settledHalf.hasDimension⟩
  rw [Dimension.half?, if_pos evenSums]
  congr 1
  funext b
  have := twice b.1
  simp only [Dimension.ofFactors]
  omega

theorem powerType?_eq_some {τ : Ty} {exponent : UnitExpr} {e : Dimension} {written : Option Expr}
    (hd : HasDimension table u.factors d) (he : HasDimension table exponent.factors e)
    (h : powerType? table u exponent written = some τ) :
    e = 0 ∧ (d = 0 ∧ τ.Means table (.quantity 0) ∨
      d ≠ 0 ∧ ∃ n, written.bind Expr.integer? = some n ∧ τ.Means table (.quantity (n.toInt • d))) := by
  obtain ⟨plainExponent, hexponent, h⟩ := Option.bind_eq_some_iff.mp h
  obtain ⟨_, guarded, h⟩ := Option.bind_eq_some_iff.mp h
  obtain ⟨plainBase, hbase, h⟩ := Option.bind_eq_some_iff.mp h
  have isPlain : plainExponent = true := by
    unfold guard at guarded
    split at guarded
    · assumption
    · cases guarded
  refine ⟨(isPlain?_eq_some he hexponent).mp isPlain, ?_⟩
  cases plainBase with
  | true =>
    cases h
    exact .inl ⟨(isPlain?_eq_some hd hbase).mp rfl, .quantity .dimensionless⟩
  | false =>
    obtain ⟨arg, rfl, h⟩ := Option.bind_eq_some_iff.mp h
    obtain ⟨n, integer, h⟩ := Option.bind_eq_some_iff.mp h
    obtain ⟨factor, fits, h⟩ := Option.bind_eq_some_iff.mp h
    obtain ⟨w, scaled, h⟩ := Option.bind_eq_some_iff.mp h
    cases h
    have nonzero : d ≠ 0 := by
      intro zero
      cases (isPlain?_eq_some hd hbase).mpr zero
    have raised : HasDimension table w.factors (factor.toInt • d) := hd.scale (toOption_eq_some.mp scaled)
    rw [int32?_eq_some_iff.mp fits] at raised
    exact .inr ⟨nonzero, n, integer, .quantity raised⟩

/-- The result of a call means what the function makes of the arguments. -/
theorem resultType?_eq_some {types : List Ty} {ms : List Meaning} {args : List Expr} {callee : Builtin} {τ : Ty}
    (operands : List.Forall₂ (Ty.Means table) types ms) (h : callee.resultType? table types args = some τ) :
    ∃ k, callee.meaning args ms = some k ∧ τ.Means table k := by
  cases callee with
  | print =>
    cases operands with
    | nil => cases h
    | cons first rest =>
      cases rest with
      | nil => cases first <;> cases h <;> exact ⟨_, rfl, .void⟩
      | cons => cases first <;> cases h
  | sqrt =>
    cases operands with
    | nil => cases h
    | cons first rest =>
      cases rest with
      | cons => cases first <;> cases h
      | nil =>
        cases first with
        | quantity dimension =>
          obtain ⟨e, half, means⟩ := rootType?_eq_some dimension h
          exact ⟨_, congrArg (Option.map Meaning.quantity) half, means⟩
        | _ => cases h
  | power =>
    cases operands with
    | nil => cases h
    | cons first rest =>
      cases rest with
      | nil => cases first <;> cases h
      | cons second rest =>
        cases rest with
        | cons => cases first <;> cases second <;> cases h
        | nil =>
          cases first <;> cases second <;> try cases h
          case quantity.quantity dimension _ _ exponent =>
            obtain ⟨rfl, ⟨rfl, means⟩ | ⟨nonzero, n, integer, means⟩⟩ := powerType?_eq_some dimension exponent h
            · exact ⟨_, rfl, means⟩
            · refine ⟨_, ?_, means⟩
              simp only [meaning, ne_eq, not_true_eq_false, if_false, if_neg nonzero, integer, Option.map_some]

/-- Only roots and powers are ever refused for arguments that they have a meaning for. -/
theorem resultType?_eq_none {types : List Ty} {ms : List Meaning} {args : List Expr} {callee : Builtin}
    (operands : List.Forall₂ (Ty.Means table) types ms) (h : callee.resultType? table types args = none) :
    callee.meaning args ms = none ∨ callee = sqrt ∨ callee = power := by
  cases callee with
  | print =>
    refine .inl ?_
    cases operands with
    | nil => rfl
    | cons first rest =>
      cases rest with
      | nil => cases first <;> first | rfl | cases h
      | cons => cases first <;> rfl
  | sqrt => exact .inr (.inl rfl)
  | power => exact .inr (.inr rfl)

end Builtin

namespace Program

variable {p : Program} {τ σ : Ty} {m n : Meaning} {position : Position}

theorem checkType_agrees (τ : Ty) (position : Position) :
    Agrees (fun _ m => τ.meaning p.unitTable = some m) (p.checkType τ position) (τ.meaning p.unitTable) := by
  cases τ with
  | quantity u =>
    simp only [checkType, checkUnit, Ty.meaning, UnitExpr.dimension?]
    cases u.expand p.unitTable with
    | ok r => exact .ok rfl
    | error e => exact .refused
  | bool => exact .ok rfl
  | text => exact .ok rfl
  | void => exact .ok rfl

/-- Types are compared by their meanings. -/
theorem sameType_agrees (position : Position) (hτ : τ.Means p.unitTable m) (hσ : σ.Means p.unitTable n) :
    Agrees (fun same (_ : Unit) => same = true ↔ m = n) (p.sameType position τ σ) (some ()) := by
  cases hτ with
  | quantity du =>
    cases hσ with
    | @quantity v e dv =>
      rename_i u d
      have reduce : p.sameType position (.quantity u) (.quantity v) =
          (u.equivalent p.unitTable v).mapError fun e => ⟨.unit e, position⟩ := rfl
      rw [reduce]
      cases h : u.equivalent p.unitTable v with
      | ok b => exact .ok (by simpa using UnitExpr.equivalent_eq_ok du dv h)
      | error error =>
        obtain ⟨name, rfl⟩ := UnitExpr.equivalent_eq_error du dv h
        exact .spelling trivial
    | _ => exact .ok (by simp)
  | _ => cases hσ <;> exact .ok (by simp)

/-- Only types whose units can be expanded are ever found to be the same. -/
theorem meaning_of_sameType (hσ : σ.Means p.unitTable n) (h : p.sameType position τ σ = .ok true) :
    τ.meaning p.unitTable = some n := by
  cases hσ with
  | @quantity v e dv =>
    cases τ with
    | quantity u =>
      have reduce : p.sameType position (.quantity u) (.quantity v) =
          (u.equivalent p.unitTable v).mapError fun e => ⟨.unit e, position⟩ := rfl
      rw [reduce] at h
      cases compared : u.equivalent p.unitTable v with
      | error e => rw [compared] at h; cases h
      | ok b =>
        rw [compared] at h
        cases h
        obtain ⟨m, hu, hv⟩ := Ty.meaning_of_equivalent compared
        rw [hu, (Ty.means_of_meaning hv).unique (.quantity dv)]
    | _ => cases h
  | bool => cases τ <;> cases h; rfl
  | text => cases τ <;> cases h; rfl
  | void => cases τ <;> cases h; rfl

/-- A type is as expected if it means what the expected type does. -/
theorem expectType_agrees (τ : Ty) (position : Position) (hσ : σ.Means p.unitTable n) :
    Agrees (fun _ _ => True) (p.expectType τ σ position) (guard (τ.meaning p.unitTable = some n)) := by
  unfold expectType
  by_cases expected : τ.meaning p.unitTable = some n
  · have compared := sameType_agrees position (Ty.means_of_meaning expected) hσ
    cases h : p.sameType position τ σ with
    | error e =>
      rw [h] at compared
      exact .spelling (compared.resolve_left nofun)
    | ok same =>
      rw [h] at compared
      obtain ⟨-, -, compared⟩ := compared
      cases compared.mpr rfl
      exact ⟨(), by simp [expected], trivial⟩
  · cases h : p.sameType position τ σ with
    | error e => exact .inl (by simp [expected])
    | ok same =>
      cases same with
      | true => exact absurd (meaning_of_sameType hσ h) expected
      | false => exact .inl (by simp [expected])

theorem literalType_agrees (v : Literal) :
    Agrees (Ty.Means p.unitTable) (p.literalType position v) (v.meaning p.unitTable) := by
  have annotated (u : UnitExpr) : Agrees (Ty.Means p.unitTable)
      (do p.checkUnit u position; return .quantity u) ((Ty.quantity u).meaning p.unitTable) := by
    rw [← Option.bind_fun_some ((Ty.quantity u).meaning p.unitTable)]
    exact .bind (checkType_agrees (.quantity u) position) fun _ m means => .ok (Ty.means_of_meaning means)
  cases v with
  | int n unit =>
    cases unit with
    | none => exact .ok (.quantity .dimensionless)
    | some u => exact annotated u
  | float x unit =>
    cases unit with
    | none => exact .ok (.quantity .dimensionless)
    | some u => exact annotated u
  | bool b => exact .ok .bool
  | text s => exact .ok .text

theorem unaryType_agrees (op : UnaryOp) (hτ : τ.Means p.unitTable m) :
    Agrees (Ty.Means p.unitTable) (unaryType op position τ) (op.meaning m) := by
  cases op <;> cases hτ <;> first | exact .refused | exact .ok (.quantity ‹_›) | exact .ok .bool

/-- Operands of the same meaning are let through. -/
theorem onSame_agrees {u v : UnitExpr} {d e : Dimension} {ρ : Ty} {k : Meaning} (op : BinaryOp)
    (du : HasDimension p.unitTable u.factors d) (dv : HasDimension p.unitTable v.factors e)
    (hρ : ρ.Means p.unitTable k) :
    Agrees (Ty.Means p.unitTable)
      (do
        match ← binaryType?.onSame p position (.quantity u) (.quantity v) ρ with
        | some type => return type
        | none => throw ⟨.notPermitted (.binary op) [.quantity u, .quantity v], position⟩)
      (BinaryOp.onSame d e k) := by
  have compared := sameType_agrees position (.quantity du) (.quantity dv)
  unfold binaryType?.onSame BinaryOp.onSame
  cases h : p.sameType position (.quantity u) (.quantity v) with
  | error error => rw [h] at compared; exact .spelling (compared.resolve_left nofun)
  | ok same =>
    rw [h] at compared
    obtain ⟨-, -, compared⟩ := compared
    cases same with
    | true =>
      have equal : d = e := Meaning.quantity.inj (compared.mp rfl)
      rw [if_pos equal]
      exact .ok hρ
    | false =>
      have differ : d ≠ e := fun equal => nomatch compared.mpr (congrArg Meaning.quantity equal)
      rw [if_neg differ]
      exact .refused

/-- A product or a quotient has the combined dimension, if its powers are in range. -/
theorem combined_agrees {op : BinaryOp} {u v : UnitExpr} {d : Dimension} {result : Except UnitError UnitExpr}
    (good : ∀ w, result = .ok w → HasDimension p.unitTable w.factors d)
    (bad : ∀ e, result = .error e → ∃ name, e = .powerOverflow name) :
    Agrees (Ty.Means p.unitTable)
      (do
        match ← binaryType?.combined position result with
        | some type => return type
        | none => throw ⟨.notPermitted (.binary op) [.quantity u, .quantity v], position⟩)
      (some (.quantity d)) := by
  cases h : result with
  | ok w => exact .ok (.quantity (good w h))
  | error e =>
    obtain ⟨name, rfl⟩ := bad e h
    exact .spelling trivial

theorem binaryType_agrees (op : BinaryOp) (hτ : τ.Means p.unitTable m) (hσ : σ.Means p.unitTable n) :
    Agrees (Ty.Means p.unitTable) (p.binaryType op position τ σ) (op.meaning m n) := by
  cases hτ with
  | quantity du =>
    cases hσ with
    | quantity dv =>
      cases op
      case plus | minus => exact onSame_agrees _ du dv (.quantity du)
      case star =>
        exact combined_agrees (fun _ => du.multiply dv) fun _ h => UnitExpr.multiply_eq_error h
      case slash =>
        exact combined_agrees (fun _ => du.divide dv) fun _ h => UnitExpr.divide_eq_error h
      case or | and => exact .refused
      all_goals exact onSame_agrees _ du dv .bool
    | _ => cases op <;> exact .refused
  | bool =>
    cases hσ with
    | bool => cases op <;> first | exact .refused | exact .ok .bool
    | _ => cases op <;> exact .refused
  | text =>
    cases hσ with
    | text => cases op <;> first | exact .refused | exact .ok .bool | exact .ok .text
    | _ => cases op <;> exact .refused
  | void => cases hσ <;> cases op <;> exact .refused

end Program

end Mensura
