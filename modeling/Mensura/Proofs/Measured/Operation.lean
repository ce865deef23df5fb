import Mensura.Proofs.Measured.Machine

/-!
Operations on measured values. An operator or a built-in function that has a meaning for the meanings of its
operands fits their dimensions at run time, gives a value of that meaning, and fails only where that depends on
the values at hand. The dimension of a power is right because an exponent that is written out is worked out to
the integer that it says.
-/

namespace Mensura

/-- An error that no look at the types can exclude. -/
inductive RunError.DependsOnValues : RunError → Prop where
  | divisionByZero {position : Position} : DependsOnValues (.divisionByZero position)
  | integerOverflow {position : Position} : DependsOnValues (.integerOverflow position)
  | missingReturn {function : String} : DependsOnValues (.missingReturn function)
  | powerOverflow : DependsOnValues (.builtin .power .overflow)

/-- How a run of a well typed program may stop. -/
def Tolerable : MeasuredHalt → Prop
  | .halted (.failed error) => error.DependsOnValues
  | .halted .exhausted => True
  | .misfit => False

namespace MeasuredRun

variable {α β : Type} {s : MeasuredMachine} {good : β → MeasuredMachine → Prop}

theorem within_need {o : Option α} {a : α} {f : α → MeasuredRun β} (found : o = some a)
    (rest : Within Tolerable (f a) s good) : Within Tolerable (need o >>= f) s good := by
  subst found
  exact rest

theorem within_needType {table : UnitTable} {type : Ty} {q : Measured} {f : Unit → MeasuredRun β}
    (admitted : type.meaning table = some q.meaning) (rest : Within Tolerable (f ()) s good) :
    Within Tolerable (needType table type q >>= f) s good :=
  within_need (by simp [admitted]) rest

/-- A result that is worked out gets its dimension. -/
theorem within_attach {d : Dimension} {result : Except RunError Value} {good : Measured → Prop}
    (h : Ends RunError.DependsOnValues (fun v => good (.attach d v)) result) :
    Within Tolerable (do return .attach d (← ofExcept result)) s fun q t => t = s ∧ good q := by
  cases result with
  | ok v => exact ⟨rfl, h⟩
  | error e => exact h

end MeasuredRun

namespace Measured

variable {q : Measured} {d : Dimension}

theorem meaning_eq_quantity (h : q.meaning = .quantity d) :
    (∃ n, q = .int n d) ∨ ∃ x, q = .float x d := by
  cases q with
  | int n e => cases h; exact .inl ⟨n, rfl⟩
  | float x e => cases h; exact .inr ⟨x, rfl⟩
  | _ => cases h

theorem meaning_eq_bool (h : q.meaning = .bool) : ∃ b, q = .bool b := by
  cases q with
  | bool b => exact ⟨b, rfl⟩
  | _ => cases h

theorem meaning_eq_text (h : q.meaning = .text) : ∃ s, q = .text s := by
  cases q with
  | text s => exact ⟨s, rfl⟩
  | _ => cases h

theorem dimension?_of_quantity (h : q.meaning = .quantity d) : q.dimension? = some d := by
  obtain ⟨n, rfl⟩ | ⟨x, rfl⟩ := meaning_eq_quantity h <;> rfl

/-- Numbers are numbers without their dimensions, too. -/
theorem number?_of_quantity (h : q.meaning = .quantity d) : ∃ x, q.value.number? = some x := by
  obtain ⟨n, rfl⟩ | ⟨x, rfl⟩ := meaning_eq_quantity h <;> exact ⟨_, rfl⟩

end Measured

section
variable {s : MeasuredMachine} {position : Position} {m n k : Meaning}

theorem UnaryOp.applyMeasured_within {op : UnaryOp} {q : Measured} (meaning : op.meaning q.meaning = some k) :
    Within Tolerable (op.applyMeasured position q) s fun r t => t = s ∧ r.meaning = k := by
  refine MeasuredRun.within_attach ?_
  cases op with
  | minus =>
    cases q with
    | int n d =>
      cases meaning
      simp only [Measured.value, apply]
      cases int64? (-n.toInt) with
      | some w => exact rfl
      | none => exact .integerOverflow
    | float x d => cases meaning; exact rfl
    | _ => cases meaning
  | not =>
    cases q with
    | bool b => cases meaning; exact rfl
    | _ => cases meaning

namespace BinaryOp

variable {op : BinaryOp} {l r : Measured} {d e c : Dimension}

/-- Calculating with numbers gives a number, or it fails for the values. -/
theorem compute_ends (op : BinaryOp) (operation : Arithmetic) (hl : l.meaning = .quantity d)
    (hr : r.meaning = .quantity e) :
    Ends RunError.DependsOnValues (fun v => (Measured.attach c v).meaning = .quantity c)
      (op.compute position operation l.value r.value) := by
  obtain ⟨x, hx⟩ := Measured.number?_of_quantity hl
  obtain ⟨y, hy⟩ := Measured.number?_of_quantity hr
  have inexact : Ends RunError.DependsOnValues (fun v => (Measured.attach c v).meaning = .quantity c)
      ((op.numbers position l.value r.value).map fun p => .float (operation.onNumbers p.1 p.2)) := by
    rw [numbers, hx, hy]
    exact rfl
  unfold compute
  split
  · cases operation.onIntegers _ _ with
    | none => exact .divisionByZero
    | some i =>
      dsimp only
      cases int64? i with
      | none => exact .integerOverflow
      | some w => exact rfl
  · exact inexact

theorem compare_ends {comparison : Comparison} (hl : l.meaning = .quantity d) (hr : r.meaning = .quantity e) :
    Ends RunError.DependsOnValues (fun v => (Measured.attach c v).meaning = .bool)
      (op.compare position comparison l.value r.value) := by
  obtain ⟨x, hx⟩ := Measured.number?_of_quantity hl
  obtain ⟨y, hy⟩ := Measured.number?_of_quantity hr
  rw [compare, numbers, hx, hy]
  exact rfl

/-- Numbers, truth values and texts can be compared among each other. -/
theorem equalValues_ends {f : Bool → Bool}
    (comparable : (∃ d e, l.meaning = .quantity d ∧ r.meaning = .quantity e) ∨
      (l.meaning = .bool ∧ r.meaning = .bool) ∨ (l.meaning = .text ∧ r.meaning = .text)) :
    Ends RunError.DependsOnValues (fun v => (Measured.attach c v).meaning = .bool)
      ((op.equalValues position l.value r.value).map fun b => .bool (f b)) := by
  obtain ⟨d, e, hl, hr⟩ | ⟨hl, hr⟩ | ⟨hl, hr⟩ := comparable
  · obtain ⟨m, rfl⟩ | ⟨x, rfl⟩ := Measured.meaning_eq_quantity hl <;>
      obtain ⟨n, rfl⟩ | ⟨y, rfl⟩ := Measured.meaning_eq_quantity hr <;> exact rfl
  · obtain ⟨a, rfl⟩ := Measured.meaning_eq_bool hl
    obtain ⟨b, rfl⟩ := Measured.meaning_eq_bool hr
    exact rfl
  · obtain ⟨a, rfl⟩ := Measured.meaning_eq_text hl
    obtain ⟨b, rfl⟩ := Measured.meaning_eq_text hr
    exact rfl

/-- Numbers whose dimensions fit an operation go through it, and the result has the dimension that it should. -/
theorem numbers_fit (position : Position) (hl : l.meaning = .quantity d) (hr : r.meaning = .quantity e)
    (meaning : op.meaning (.quantity d) (.quantity e) = some k) :
    ∃ c, op.dimension? d e = some c ∧
      Ends RunError.DependsOnValues (fun v => (Measured.attach c v).meaning = k)
        (op.apply position l.value r.value) := by
  have same {result : Meaning} (h : onSame d e result = some k) : d = e ∧ result = k := by
    unfold onSame at h
    split at h
    · exact ⟨‹_›, Option.some.inj h⟩
    · cases h
  cases op with
  | or | and => cases meaning
  | plus =>
    obtain ⟨rfl, rfl⟩ := same meaning
    refine ⟨d, if_pos rfl, ?_⟩
    obtain ⟨n, rfl⟩ | ⟨x, rfl⟩ := Measured.meaning_eq_quantity hl <;> exact compute_ends plus .add hl hr
  | minus =>
    obtain ⟨rfl, rfl⟩ := same meaning
    exact ⟨d, if_pos rfl, compute_ends minus .subtract hl hr⟩
  | star =>
    cases meaning
    exact ⟨_, rfl, compute_ends star .multiply hl hr⟩
  | slash =>
    cases meaning
    exact ⟨_, rfl, compute_ends slash .divide hl hr⟩
  | equal | notEqual =>
    obtain ⟨rfl, rfl⟩ := same meaning
    exact ⟨0, if_pos rfl, equalValues_ends (.inl ⟨d, d, hl, hr⟩)⟩
  | greater | greaterEqual | less | lessEqual =>
    obtain ⟨rfl, rfl⟩ := same meaning
    exact ⟨0, if_pos rfl, compare_ends hl hr⟩

theorem applyMeasured_within (meaning : op.meaning l.meaning r.meaning = some k) :
    Within Tolerable (op.applyMeasured position l r) s fun q t => t = s ∧ q.meaning = k := by
  cases hl : l.meaning with
  | quantity d =>
    rw [hl] at meaning
    cases hr : r.meaning with
    | quantity e =>
      rw [hr] at meaning
      obtain ⟨c, found, ends⟩ := numbers_fit position hl hr meaning
      refine MeasuredRun.within_need ?_ (MeasuredRun.within_attach ends)
      rw [Measured.dimension?_of_quantity hl, Measured.dimension?_of_quantity hr]
      exact found
    | _ => rw [hr] at meaning; cases op <;> cases meaning
  | bool =>
    obtain ⟨a, rfl⟩ := Measured.meaning_eq_bool hl
    cases r with
    | bool b =>
      cases op <;> cases meaning <;> exact MeasuredRun.within_need rfl (MeasuredRun.within_attach rfl)
    | _ => cases op <;> cases meaning
  | text =>
    obtain ⟨a, rfl⟩ := Measured.meaning_eq_text hl
    cases r with
    | text b =>
      cases op <;> cases meaning <;> exact MeasuredRun.within_need rfl (MeasuredRun.within_attach rfl)
    | _ => cases op <;> cases meaning
  | void =>
    rw [hl] at meaning
    cases op <;> cases meaning

end BinaryOp

/-- An expression that writes out an integer has been worked out to that integer. -/
def Expr.Writes (e : Expr) (q : Measured) : Prop := ∀ n, e.integer? = some n → ∃ d, q = .int n d

namespace Builtin

variable {x base exponent : Measured} {d e : Dimension}

theorem squareRoot_ends (hx : x.meaning = .quantity d) (c : Dimension) :
    Ends RunError.DependsOnValues (fun v => (Measured.attach c v).meaning = .quantity c)
      ((squareRoot x.value).mapError (.builtin .sqrt)) := by
  obtain ⟨r, hr⟩ := Measured.number?_of_quantity hx
  rw [squareRoot, hr]
  exact rfl

/-- A power of numbers is a number, or it overflows. -/
theorem raise_ends (hb : base.meaning = .quantity d) (he : exponent.meaning = .quantity e) (c : Dimension) :
    Ends RunError.DependsOnValues (fun v => (Measured.attach c v).meaning = .quantity c)
      ((raise base.value exponent.value).mapError (.builtin .power)) := by
  obtain ⟨x, hx⟩ := Measured.number?_of_quantity hb
  obtain ⟨y, hy⟩ := Measured.number?_of_quantity he
  have inexact : Ends RunError.DependsOnValues (fun v => (Measured.attach c v).meaning = .quantity c)
      ((raiseNumber base.value exponent.value).mapError (.builtin .power)) := by
    rw [raiseNumber, hx, hy]
    exact rfl
  unfold raise
  split
  · split
    · unfold raiseInteger
      split
      · split
        · exact rfl
        · exact .powerOverflow
      · exact .powerOverflow
    · exact inexact
  · exact inexact

/-- The exponent that is written out is the one that the base is raised to. -/
theorem powerDimension?_eq_some {args : List Expr} (hb : base.meaning = .quantity d)
    (he : exponent.meaning = .quantity e) (written : ∀ arg, args[1]? = some arg → arg.Writes exponent)
    (meaning : power.meaning args [.quantity d, .quantity e] = some k) :
    ∃ c, powerDimension? base exponent = some c ∧ k = .quantity c := by
  simp only [Builtin.meaning] at meaning
  simp only [powerDimension?, Measured.dimension?_of_quantity hb, Measured.dimension?_of_quantity he]
  split at meaning
  · cases meaning
  rename_i plain
  rw [if_neg plain]
  split at meaning
  · rename_i zero
    cases meaning
    exact ⟨0, if_pos zero, rfl⟩
  · rename_i nonzero
    obtain ⟨n, found, rfl⟩ := Option.map_eq_some_iff.mp meaning
    obtain ⟨arg, second, integer⟩ := Option.bind_eq_some_iff.mp found
    obtain ⟨c, rfl⟩ := written arg second n integer
    exact ⟨n.toInt • d, if_neg nonzero, rfl⟩

theorem callMeasured_within {callee : Builtin} {args : List Expr} {qs : List Measured}
    (writes : List.Forall₂ Expr.Writes args qs) (meaning : callee.meaning args (qs.map Measured.meaning) = some k) :
    Within Tolerable (callee.callMeasured qs) s fun q t => t.stack = s.stack ∧ q.meaning = k := by
  have answered {c : Dimension} {result : Except BuiltinFault Value}
      (ends : Ends RunError.DependsOnValues (fun v => (Measured.attach c v).meaning = .quantity c)
        (result.mapError (.builtin callee))) :
      Within Tolerable (callMeasured.answer callee c result) s
        fun q t => t.stack = s.stack ∧ q.meaning = .quantity c :=
    (MeasuredRun.within_attach ends).mono fun _ _ ⟨same, means⟩ => ⟨congrArg _ same, means⟩
  have count := length_of_meaning meaning
  rw [List.length_map] at count
  match callee, qs, count with
  | print, [q], _ =>
    have void : k = .void := by
      cases q <;> cases meaning <;> rfl
    exact ⟨rfl, void.symm⟩
  | sqrt, [x], _ =>
    cases hx : x.meaning with
    | quantity d =>
      rw [List.map_singleton, hx] at meaning
      obtain ⟨c, half, rfl⟩ := Option.map_eq_some_iff.mp meaning
      refine MeasuredRun.within_need ?_ (answered (squareRoot_ends hx c))
      rw [rootDimension?, Measured.dimension?_of_quantity hx]
      exact half
    | _ =>
      rw [List.map_singleton, hx] at meaning
      cases meaning
  | power, [base, exponent], _ =>
    cases hb : base.meaning with
    | quantity d =>
      cases he : exponent.meaning with
      | quantity e =>
        rw [List.map_cons, List.map_singleton, hb, he] at meaning
        have written : ∀ arg, args[1]? = some arg → arg.Writes exponent := by
          cases writes with
          | cons _ rest =>
            cases rest with
            | cons second _ =>
              intro arg found
              cases found
              exact second
        obtain ⟨c, found, rfl⟩ := powerDimension?_eq_some hb he written meaning
        exact MeasuredRun.within_need found (answered (raise_ends hb he c))
      | _ =>
        rw [List.map_cons, List.map_singleton, hb, he] at meaning
        cases meaning
    | _ =>
      rw [List.map_cons, List.map_singleton, hb] at meaning
      cases he : exponent.meaning <;> rw [he] at meaning <;> cases meaning

end Builtin

end

end Mensura
