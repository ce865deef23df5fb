import Mensura.Evaluation.Program

/-!
Integers never wrap. An expression of integers, signs and the four operations is worked out operator by operator, each
in a machine word. Main statement: it has a value if everything in it fits a word and nothing is divided by zero, and
that is its exact value; else it fails, and the error is that of the first operator where it would have gone wrong.
-/

namespace Mensura

/-- Within the bounds of a machine word of 64 bits. -/
def IsWord (n : Int) : Prop := -9223372036854775808 ≤ n ∧ n < 9223372036854775808

instance (n : Int) : Decidable (IsWord n) := inferInstanceAs (Decidable (_ ∧ _))

theorem int64?_eq_none_iff_not_isWord {n : Int} : int64? n = none ↔ ¬ IsWord n := by
  rw [int64?_eq_none_iff, IsWord]
  omega

/-- What an operation on two integers of any size comes to. A quotient is rounded towards zero, and there is none by
zero. -/
def BinaryOp.ideal? : BinaryOp → Int → Int → Option Int
  | plus, m, n => some (m + n)
  | minus, m, n => some (m - n)
  | star, m, n => some (m * n)
  | slash, m, n => if n = 0 then none else some (m.tdiv n)
  | _, _, _ => none

namespace Expr

/-- Made of integers, signs and the four operations. -/
inductive IsInteger : Expr → Prop where
  | literal (n : Int64) (unit : Option UnitExpr) (position : Position) : IsInteger (.literal (.int n unit) position)
  | minus {operand : Expr} (position : Position) (inner : IsInteger operand) :
      IsInteger (.unary .minus position operand)
  | binary {left right : Expr} {op : BinaryOp} (arithmetic : op ∈ [.plus, .minus, .star, .slash])
      (position : Position) (first : IsInteger left) (second : IsInteger right) :
      IsInteger (.binary left op position right)

/-- The value in integers of any size, if nothing is divided by zero. -/
def ideal? : Expr → Option Int
  | .literal (.int n _) _ => some n.toInt
  | .unary .minus _ operand => operand.ideal?.map fun n => -n
  | .binary left op _ right => do op.ideal? (← left.ideal?) (← right.ideal?)
  | _ => none

/-- What an expression is made of and the expression itself, in the order in which they are worked out: operands first
and from left to right. The arguments of calls are left out. -/
def subexpressions : Expr → List Expr
  | .unary op position operand => operand.subexpressions ++ [.unary op position operand]
  | .binary left op position right =>
    left.subexpressions ++ right.subexpressions ++ [.binary left op position right]
  | e => [e]

/-- There is an exact value, so nothing is divided by zero, and it fits a machine word. -/
def Fits (e : Expr) : Prop := ∃ n, e.ideal? = some n ∧ IsWord n

/-- What goes wrong at an operator: it divides by zero, or its exact value does not fit. The error tells its place. -/
inductive Offends : Expr → RunError → Prop where
  | division {left right : Expr} {position : Position} (zero : right.ideal? = some 0) :
      Offends (.binary left .slash position right) (.divisionByZero position)
  | overflow {left right : Expr} {op : BinaryOp} {position : Position} {n : Int}
      (exact : (Expr.binary left op position right).ideal? = some n) (large : ¬ IsWord n) :
      Offends (.binary left op position right) (.integerOverflow position)
  | negation {operand : Expr} {op : UnaryOp} {position : Position} {n : Int}
      (exact : (Expr.unary op position operand).ideal? = some n) (large : ¬ IsWord n) :
      Offends (.unary op position operand) (.integerOverflow position)

/-- How an expression ends: with its exact value if everything in it fits, or with the error of the first operator
that offends. -/
inductive Settles (e : Expr) : Except RunError Int64 → Prop where
  | value {n : Int64} (fit : ∀ d ∈ e.subexpressions, d.Fits) (exact : e.ideal? = some n.toInt) : Settles e (.ok n)
  | fault {before behind : List Expr} {d : Expr} {error : RunError}
      (split : e.subexpressions = before ++ d :: behind) (fit : ∀ c ∈ before, c.Fits) (offends : d.Offends error) :
      Settles e (.error error)

theorem Offends.not_fits {d : Expr} {error : RunError} (h : d.Offends error) : ¬ d.Fits := by
  rintro ⟨n, exact, within⟩
  cases h with
  | @division left right position zero =>
    cases found : left.ideal? <;> simp [ideal?, found, zero, BinaryOp.ideal?] at exact
  | overflow same large | negation same large =>
    cases exact.symm.trans same
    exact large within

theorem fits_of_exact {e : Expr} {n : Int64} (exact : e.ideal? = some n.toInt) : e.Fits :=
  ⟨n.toInt, exact, n.le_toInt, n.toInt_lt⟩

end Expr

/-! ### One operator -/

/-- The word with a given value, or the error at the place of the operator that leads to it. -/
def narrow (position : Position) (n : Int) : Except RunError Int64 :=
  match int64? n with
  | some w => .ok w
  | none => .error (.integerOverflow position)

theorem map_narrow (position : Position) (n : Int) :
    (narrow position n).map Value.int =
      match int64? n with
      | some w => .ok (.int w)
      | none => .error (.integerOverflow position) := by
  unfold narrow
  cases int64? n <;> rfl

theorem UnaryOp.apply_int (position : Position) (n : Int64) :
    UnaryOp.minus.apply position (.int n) = (narrow position (-n.toInt)).map .int := by
  rw [map_narrow]
  rfl

theorem BinaryOp.apply_int {op : BinaryOp} (arithmetic : op ∈ [.plus, .minus, .star, .slash]) (position : Position)
    (m n : Int64) :
    op.apply position (.int m) (.int n) =
      match op.ideal? m.toInt n.toInt with
      | none => .error (.divisionByZero position)
      | some k => (narrow position k).map .int := by
  have computed (operation : Arithmetic) : op.compute position operation (.int m) (.int n) =
      match operation.onIntegers m.toInt n.toInt with
      | none => .error (.divisionByZero position)
      | some k => (narrow position k).map .int := by
    simp only [map_narrow]
    rfl
  simp only [List.mem_cons, List.not_mem_nil, or_false] at arithmetic
  obtain rfl | rfl | rfl | rfl := arithmetic
  · exact computed .add
  · exact computed .subtract
  · exact computed .multiply
  · exact computed .divide

/-- Only a division by zero has no exact result. -/
theorem BinaryOp.eq_slash_of_ideal? {op : BinaryOp} (arithmetic : op ∈ [.plus, .minus, .star, .slash]) {m n : Int}
    (none : op.ideal? m n = none) : op = .slash ∧ n = 0 := by
  simp only [List.mem_cons, List.not_mem_nil, or_false] at arithmetic
  obtain rfl | rfl | rfl | rfl := arithmetic
  case inr.inr.inr => exact ⟨rfl, by simpa [ideal?] using none⟩
  all_goals cases none

namespace Expr

/-- An operator whose operands fit settles with its exact value, if that fits as well. -/
theorem Settles.of_exact {e : Expr} {inner : List Expr} {position : Position} {n : Int}
    (split : e.subexpressions = inner ++ [e]) (fit : ∀ d ∈ inner, d.Fits) (exact : e.ideal? = some n)
    (overflow : ¬ IsWord n → e.Offends (.integerOverflow position)) :
    e.Settles (narrow position n) := by
  unfold narrow
  cases found : int64? n with
  | none => exact .fault split fit (overflow (int64?_eq_none_iff_not_isWord.mp found))
  | some w =>
    have same : e.ideal? = some w.toInt := by rw [int64?_eq_some_iff.mp found, exact]
    refine .value ?_ same
    rw [split]
    simpa [or_imp, forall_and] using ⟨fit, fits_of_exact same⟩

/-- What goes wrong inside goes wrong outside, if nothing does so before. -/
theorem Settles.inside {e outer : Expr} {error : RunError} (h : e.Settles (.error error)) {before behind : List Expr}
    (split : outer.subexpressions = before ++ e.subexpressions ++ behind) (fit : ∀ d ∈ before, d.Fits) :
    outer.Settles (.error error) := by
  cases h with
  | @fault first rest d _ inner earlier offends =>
    have whole : outer.subexpressions = (before ++ first) ++ d :: (rest ++ behind) := by simp [split, inner]
    refine .fault whole ?_ offends
    simpa [or_imp, forall_and] using ⟨fit, earlier⟩

/-! ### Whole expressions -/

theorem IsInteger.settles {e : Expr} (integer : e.IsInteger) (p : Program) (invoke : Invocation) :
    ∃ result, e.Settles result ∧ e.evaluate p invoke = Run.ofExcept (result.map .int) := by
  induction integer with
  | literal n unit position =>
    have fit : (Expr.literal (.int n unit) position).Fits := fits_of_exact rfl
    exact ⟨.ok n, .value (List.forall_mem_singleton.mpr fit) rfl, rfl⟩
  | @minus operand position inner ih =>
    obtain ⟨result, settled, run⟩ := ih
    rw [evaluate, run]
    cases settled with
    | @fault _ _ _ error split fit offends =>
      have settled : (Expr.unary .minus position operand).Settles (.error error) :=
        (Settles.fault split fit offends).inside (List.nil_append _).symm (List.forall_mem_nil _)
      exact ⟨.error error, settled, rfl⟩
    | @value n fit exact =>
      have negated : (Expr.unary .minus position operand).ideal? = some (-n.toInt) := by
        rw [ideal?, exact]
        rfl
      refine ⟨narrow position (-n.toInt), .of_exact rfl fit negated (.negation negated), ?_⟩
      rw [← UnaryOp.apply_int]
      rfl
  | @binary left right op arithmetic position first second ihl ihr =>
    obtain ⟨result, settled, run⟩ := ihl
    obtain ⟨result', settled', run'⟩ := ihr
    -- the left operand is worked out first, then the right one, then the operator
    have parts : (Expr.binary left op position right).subexpressions =
        left.subexpressions ++ right.subexpressions ++ [.binary left op position right] := rfl
    rw [evaluate, run, run']
    cases settled with
    | @fault _ _ _ error split fit offends =>
      have parts' : (Expr.binary left op position right).subexpressions =
          [] ++ left.subexpressions ++ (right.subexpressions ++ [.binary left op position right]) := by
        rw [parts, List.nil_append, List.append_assoc]
      exact ⟨.error error, (Settles.fault split fit offends).inside parts' (List.forall_mem_nil _), rfl⟩
    | @value m fit exact =>
      cases settled' with
      | @fault _ _ _ error split fit' offends =>
        exact ⟨.error error, (Settles.fault split fit' offends).inside parts fit, rfl⟩
      | @value n fit' exact' =>
        have operands : ∀ d ∈ left.subexpressions ++ right.subexpressions, d.Fits :=
          List.forall_mem_append.mpr ⟨fit, fit'⟩
        have whole : (Expr.binary left op position right).ideal? = op.ideal? m.toInt n.toInt := by
          rw [ideal?, exact, exact']
          rfl
        have applied := BinaryOp.apply_int arithmetic position m n
        cases found : op.ideal? m.toInt n.toInt with
        | none =>
          obtain ⟨rfl, zero⟩ := BinaryOp.eq_slash_of_ideal? arithmetic found
          rw [found] at applied
          have settled := Settles.fault parts operands (.division (exact'.trans (congrArg some zero)))
          exact ⟨_, settled, congrArg Run.ofExcept applied⟩
        | some k =>
          rw [found] at applied whole
          exact ⟨_, .of_exact parts operands whole (.overflow whole), congrArg Run.ofExcept applied⟩

/-- An expression of integers, signs and the four operations has a value just if all values in it fit a machine word
and nothing in it is divided by zero; the value is then the exact one. Else it fails with what goes wrong at the first
operator where something does, operands first and from left to right. It changes nothing either way. -/
theorem evaluate_integer {e : Expr} (integer : e.IsInteger) (p : Program) (bound : Nat) (m : Machine) :
    ((∃ v, (p.evaluate bound e).run.run m = (.ok (.int v), m)) ↔ ∀ d ∈ e.subexpressions, d.Fits) ∧
      (∀ v t, (p.evaluate bound e).run.run m = (.ok v, t) → ∃ n : Int64, v = .int n ∧ e.ideal? = some n.toInt ∧ t = m) ∧
      ((¬ ∀ d ∈ e.subexpressions, d.Fits) → ∃ before d behind error, e.subexpressions = before ++ d :: behind ∧
        (∀ c ∈ before, c.Fits) ∧ d.Offends error ∧
        (p.evaluate bound e).run.run m = (.error (.failed error), m)) := by
  obtain ⟨result, settled, run⟩ := integer.settles p (p.invoke bound)
  rw [Program.evaluate, run]
  cases settled with
  | @value n fit exact =>
    refine ⟨iff_of_true ⟨n, rfl⟩ fit, ?_, fun unfit => absurd fit unfit⟩
    rintro v t ⟨⟩
    exact ⟨n, rfl, exact, rfl⟩
  | @fault before behind d error split fit offends =>
    have unfit : ¬ ∀ d ∈ e.subexpressions, d.Fits := by
      intro all
      exact offends.not_fits (all d (by simp [split]))
    refine ⟨iff_of_false nofun unfit, nofun, fun _ => ⟨before, d, behind, error, split, fit, offends, rfl⟩⟩

/-- The least integer, as `-9223372036854775807 - 1`. -/
def least : Expr :=
  .binary (.unary .minus ⟨1, 1⟩ (.literal (.int 9223372036854775807 none) ⟨1, 2⟩)) .minus ⟨1, 22⟩
    (.literal (.int 1 none) ⟨1, 24⟩)

/-- Its quotient by `-1`. -/
def leastQuotient : Expr := .binary least .slash ⟨2, 1⟩ (.unary .minus ⟨2, 3⟩ (.literal (.int 1 none) ⟨2, 4⟩))

/-- The least integer is reached without a fault, but its quotient by `-1` is too large by one. -/
theorem evaluate_integer_least :
    (Program.empty.evaluate 0 least).run.run .start = (.ok (.int Int64.minValue), .start) ∧
      ∃ error, (Program.empty.evaluate 0 leastQuotient).run.run .start = (.error (.failed error), .start) := by
  have integer : least.IsInteger := .binary (by decide) _ (.minus _ (.literal ..)) (.literal ..)
  have integer' : leastQuotient.IsInteger := .binary (by decide) _ integer (.minus _ (.literal ..))
  have value : least.ideal? = some Int64.minValue.toInt := by decide
  have value' : leastQuotient.ideal? = some 9223372036854775808 := by decide
  constructor
  · have fit : ∀ d ∈ least.subexpressions, d.Fits := by
      simp only [least, subexpressions, List.cons_append, List.nil_append, List.forall_mem_cons]
      exact ⟨⟨_, rfl, by decide⟩, ⟨_, rfl, by decide⟩, ⟨_, rfl, by decide⟩, ⟨_, rfl, by decide⟩,
        List.forall_mem_nil _⟩
    obtain ⟨valued, exactly, -⟩ := evaluate_integer integer .empty 0 .start
    obtain ⟨v, run⟩ := valued.mpr fit
    obtain ⟨n, same, exact, -⟩ := exactly _ _ run
    cases same
    rw [run, Int64.toInt_inj.mp (Option.some.inj (exact.symm.trans value))]
  · have unfit : ¬ ∀ d ∈ leastQuotient.subexpressions, d.Fits := by
      intro fit
      obtain ⟨n, exact, -, small⟩ := fit leastQuotient (by simp [leastQuotient, subexpressions])
      cases exact.symm.trans value'
      exact absurd small (by decide)
    obtain ⟨-, -, fails⟩ := evaluate_integer integer' .empty 0 .start
    obtain ⟨_, _, _, error, -, -, -, run⟩ := fails unfit
    exact ⟨error, run⟩

end Expr

end Mensura
