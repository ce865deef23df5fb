import Mensura.Diagnostic
import Mensura.Proofs.Program.Wording

/-!
Running speaks of what is in the program. Main statement: if every name in a program is as it should be, then so is
the name in the error that a run ends with, whether the program has been checked or not.
-/

namespace Mensura

/-- The name in an error is as `P` says, if there is one. -/
def RunError.Named (P : String → Prop) : RunError → Prop
  | missingReturn function => P function
  | undefinedVariable name | undefinedFunction name => P name.name
  | unchecked (.arguments callee _ _) => P callee
  | _ => True

def Halt.Named (P : String → Prop) : Halt → Prop
  | failed error => error.Named P
  | exhausted => True

variable {P : String → Prop}

/-! ### Operations -/

theorem UnaryOp.apply_named (op : UnaryOp) (position : Position) (v : Value) :
    Ends (RunError.Named P) (fun _ => True) (op.apply position v) := by
  cases op with
  | not => cases v <;> exact trivial
  | minus =>
    cases v with
    | int n =>
      simp only [apply]
      cases int64? (-n.toInt) <;> exact trivial
    | float | bool | text | void => exact trivial

namespace BinaryOp

variable (op : BinaryOp) (position : Position) (left right : Value)

theorem numbers_named : Ends (RunError.Named P) (fun _ => True) (op.numbers position left right) := by
  unfold numbers
  split <;> exact trivial

theorem compute_named (operation : Arithmetic) :
    Ends (RunError.Named P) (fun _ => True) (op.compute position operation left right) := by
  unfold compute
  split
  · split
    · exact trivial
    · split <;> exact trivial
  · exact .map (numbers_named op position left right)

theorem equalValues_named : Ends (RunError.Named P) (fun _ => True) (op.equalValues position left right) := by
  unfold equalValues
  split
  · exact trivial
  · exact trivial
  · exact trivial
  · exact .map (numbers_named op position left right)

theorem connect_named (connective : Bool → Bool → Bool) :
    Ends (RunError.Named P) (fun _ => True) (op.connect position connective left right) := by
  unfold connect
  split <;> exact trivial

theorem apply_named : Ends (RunError.Named P) (fun _ => True) (op.apply position left right) := by
  cases op
  case plus =>
    simp only [apply, join]
    split
    · exact trivial
    · exact compute_named _ position left right .add
  case minus => exact compute_named _ position left right .subtract
  case star => exact compute_named _ position left right .multiply
  case slash => exact compute_named _ position left right .divide
  case equal | notEqual => exact .map (equalValues_named _ position left right)
  case greater | greaterEqual | less | lessEqual => exact .map (numbers_named _ position left right)
  case and | or => exact connect_named _ position left right _

end BinaryOp

/-! ### Steps -/

/-- From wherever it begins, a run ends well or with names as `P` says. -/
def Run.Spares {α : Type} (P : String → Prop) (x : Run α) : Prop :=
  ∀ m, Within (Halt.Named P) x m fun _ _ => True

namespace Run.Spares

variable {α β : Type} {x y : Run α}

theorem pure {a : α} : Run.Spares P (Pure.pure a) := fun _ => trivial

theorem fail {error : RunError} (h : error.Named P) : Run.Spares P (Run.fail error : Run α) := fun _ => h

theorem exhaust : Run.Spares P (Run.exhaust : Run α) := fun _ => trivial

theorem bind {f : α → Run β} (first : Run.Spares P x) (rest : ∀ a, Run.Spares P (f a)) : Run.Spares P (x >>= f) :=
  fun m => (first m).seq fun a t _ => rest a t

theorem ofExcept {result : Except RunError α} (h : Ends (RunError.Named P) (fun _ => True) result) :
    Run.Spares P (Run.ofExcept result) := by
  cases result with
  | ok a => exact .pure
  | error e => exact .fail h

theorem print (line : String) : Run.Spares P (Run.print line) := fun _ => trivial

theorem read {name : Symbol} (h : P name.name) : Run.Spares P (Run.read name) := by
  intro m
  unfold Within
  rw [run_read]
  cases m.stack.current.lookup name.name with
  | some v => exact trivial
  | none => exact h

theorem declare (name : Symbol) (value : Value) : Run.Spares P (Run.declare name value) := fun _ => trivial

theorem assign {name : Symbol} (h : P name.name) (value : Value) : Run.Spares P (Run.assign name value) := by
  intro m
  unfold Within
  rw [run_assign]
  cases m.stack.current.assign? name.name value with
  | some c => exact trivial
  | none => exact h

theorem branch {c : Run Bool} (condition : Run.Spares P c) (yes : Run.Spares P x) (no : Run.Spares P y) :
    Run.Spares P (do if ← c then x else y) := by
  apply condition.bind
  rintro (_ | _)
  · exact no
  · exact yes

theorem inBlock (h : Run.Spares P x) : Run.Spares P (Run.inBlock x) := fun m => Within.around (run_inBlock x m) (h _)

theorem inCall {parameters : Scope Value} (h : Run.Spares P x) : Run.Spares P (Run.inCall parameters x) :=
  fun m => Within.around (run_inCall parameters x m) (h _)

theorem repeatWhile {condition : Run Bool} {body : Run Flow} (first : Run.Spares P condition)
    (next : Run.Spares P body) (rounds : Nat) : Run.Spares P (Run.repeatWhile condition body rounds) := by
  induction rounds with
  | zero => exact exhaust
  | succ rounds ih =>
    apply branch first
    · apply next.bind
      rintro (_ | v)
      · exact ih
      · exact pure
    · exact pure

end Run.Spares

theorem Builtin.call_named (callee : Builtin) (args : List Value) : Run.Spares P (callee.call args) := by
  have answer (result : Except BuiltinFault Value) : Run.Spares P (Builtin.call.answer callee result) := by
    cases result with
    | ok v => exact .pure
    | error fault => exact .fail trivial
  unfold Builtin.call
  split
  · exact (Run.Spares.print _).bind fun _ => .pure
  · exact answer _
  · exact answer _
  · exact .fail trivial

/-! ### Programs -/

section
variable {p : Program} {invoke : Invocation}

/-- Calls of functions in the program end well or with names as `P` says. -/
def Invocation.Spares (P : String → Prop) (p : Program) (invoke : Invocation) : Prop :=
  ∀ f ∈ p.functions, ∀ args, Run.Spares P (invoke f args)

theorem Program.call_named (calls : invoke.Spares P p) {callee : Symbol} (h : P callee.name) (args : List Value) :
    Run.Spares P (p.call invoke callee args) := by
  unfold call
  split
  · exact Builtin.call_named _ args
  · split
    · rename_i f found
      exact calls f (List.mem_of_find?_eq_some found) args
    · exact .fail h

mutual

theorem Expr.evaluate_named (calls : invoke.Spares P p) (e : Expr) (h : e.Named P) :
    Run.Spares P (e.evaluate p invoke) := by
  cases e with
  | literal value position => exact .pure
  | var name => exact .read h
  | unary op position operand =>
    simp only [Expr.evaluate]
    exact (Expr.evaluate_named calls operand h).bind fun v => .ofExcept (op.apply_named position v)
  | binary left op position right =>
    simp only [Expr.evaluate]
    apply (Expr.evaluate_named calls left h.1).bind
    intro l
    exact (Expr.evaluate_named calls right h.2).bind fun r => .ofExcept (op.apply_named position l r)
  | call callee args =>
    simp only [Expr.evaluate]
    exact (Expr.evaluateAll_named calls args h.2).bind fun vs => Program.call_named calls h.1 vs

theorem Expr.evaluateAll_named (calls : invoke.Spares P p) (es : List Expr) (h : Expr.AllNamed P es) :
    Run.Spares P (Expr.evaluateAll p invoke es) := by
  cases es with
  | nil => exact .pure
  | cons e es =>
    simp only [Expr.evaluateAll]
    apply (Expr.evaluate_named calls e h.1).bind
    intro v
    exact (Expr.evaluateAll_named calls es h.2).bind fun vs => .pure

end

theorem Expr.holds_named (calls : invoke.Spares P p) {condition : Expr} (h : condition.Named P) :
    Run.Spares P (condition.holds p invoke) := by
  apply (Expr.evaluate_named calls condition h).bind
  intro v
  split
  · exact .pure
  · exact .fail trivial

mutual

theorem Stmt.execute_named (calls : invoke.Spares P p) (rounds : Nat) (s : Stmt) (h : s.Named P) :
    Run.Spares P (s.execute p invoke rounds) := by
  cases s with
  | declare name type value =>
    simp only [Stmt.execute]
    apply (Expr.evaluate_named calls value h.2.2).bind
    intro v
    exact (Run.Spares.declare name v).bind fun _ => .pure
  | assign name value =>
    simp only [Stmt.execute]
    apply (Expr.evaluate_named calls value h.2).bind
    intro v
    exact (Run.Spares.assign h.1 v).bind fun _ => .pure
  | ifElse condition body otherwise =>
    obtain ⟨tested, inside, others⟩ := h
    simp only [Stmt.execute]
    exact .branch (Expr.holds_named calls tested) (.inBlock (Stmt.executeAll_named calls rounds body inside))
      (Else.execute_named calls rounds otherwise others)
  | loop condition body =>
    obtain ⟨tested, inside⟩ := h
    simp only [Stmt.execute]
    have round := Stmt.executeAll_named calls rounds body inside
    exact .repeatWhile (Expr.holds_named calls tested) (.inBlock round) rounds
  | ret position value =>
    cases value with
    | some e =>
      simp only [Stmt.execute]
      exact (Expr.evaluate_named calls e h).bind fun v => .pure
    | none => exact .pure
  | call callee args =>
    simp only [Stmt.execute]
    have called : (Expr.call callee args).Named P := h
    exact (Expr.evaluate_named calls _ called).bind fun v => .pure
  | block body =>
    simp only [Stmt.execute]
    exact .inBlock (Stmt.executeAll_named calls rounds body h)

theorem Stmt.executeAll_named (calls : invoke.Spares P p) (rounds : Nat) (ss : List Stmt) (h : Stmt.AllNamed P ss) :
    Run.Spares P (Stmt.executeAll p invoke rounds ss) := by
  cases ss with
  | nil => exact .pure
  | cons s ss =>
    simp only [Stmt.executeAll]
    apply (Stmt.execute_named calls rounds s h.1).bind
    rintro (_ | v)
    · exact Stmt.executeAll_named calls rounds ss h.2
    · exact .pure

theorem Else.execute_named (calls : invoke.Spares P p) (rounds : Nat) (o : Else) (h : o.Named P) :
    Run.Spares P (o.execute p invoke rounds) := by
  cases o with
  | none => exact .pure
  | last body =>
    simp only [Else.execute]
    exact .inBlock (Stmt.executeAll_named calls rounds body h)
  | elseIf condition body otherwise =>
    obtain ⟨tested, inside, others⟩ := h
    simp only [Else.execute]
    exact .branch (Expr.holds_named calls tested) (.inBlock (Stmt.executeAll_named calls rounds body inside))
      (Else.execute_named calls rounds otherwise others)

end

end

namespace Program.Named

variable {p : Program} (named : p.Named P)
include named

theorem invoke (bound : Nat) : (p.invoke bound).Spares P p := by
  induction bound with
  | zero => exact fun _ _ _ => .exhaust
  | succ bound ih =>
    intro f mem args
    obtain ⟨name, -, -, body⟩ := named.functions f mem
    have arguments : (RunError.unchecked (.arguments f.name.name f.params.length args.length)).Named P := name
    have missing : (RunError.missingReturn f.name.name).Named P := name
    have called : Run.Spares P (do
        let flow ← Run.inCall (f.arguments args) (Stmt.executeAll p (p.invoke bound) bound f.body)
        f.result flow) := by
      apply Run.Spares.bind (.inCall (Stmt.executeAll_named ih bound f.body body))
      rintro (_ | v)
      · simp only [Function.result]
        split
        · exact .pure
        · exact .fail missing
      · exact .pure
    simp only [Program.invoke]
    split
    · exact .bind (.fail arguments) fun _ => called
    · exact called

theorem run (bound : Nat) : Run.Spares P (p.run bound) := by
  have calls := named.invoke bound
  unfold Program.run
  apply (Stmt.executeAll_named calls bound p.statements named.statements).bind
  rintro (_ | v)
  · dsimp only
    split
    · rename_i main found
      exact (calls main (List.mem_of_find?_eq_some found) []).bind fun _ => .pure
    · exact .pure
  · exact .fail trivial

/-- The error that a run ends with speaks of names in the program. -/
theorem outcome_ends (bound : Nat) : Ends (Halt.Named P) (fun _ => True) (p.outcome bound).ending := by
  have ended := named.run bound .start
  have outcome : (p.outcome bound).ending = ((p.run bound).run.run .start).1 := rfl
  rw [outcome]
  unfold Within at ended
  generalize (p.run bound).run.run .start = r at ended ⊢
  obtain ⟨_ | _, _⟩ := r <;> exact ended

end Program.Named

end Mensura
