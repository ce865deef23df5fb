import Mensura.Proofs.Measured.Operation
import Mensura.Proofs.Program.Returns
import Mensura.Proofs.Scope.Related
import Mensura.Proofs.Typing.Exactness

/-!
Well typed programs run without a misfit. While a program runs, its variables have the meanings that checking has
given them; every expression comes to a value of its meaning, every statement leaves the names in scope as it
has to, and every call gives back what the function says. All that can stop the run depends on the values at
hand. The invariant is kept by each construct, and calls are covered by an induction on how deep they nest.
-/

namespace Mensura

/-- The variable holds what its type says, which has the given meaning. -/
def Program.Holds (p : Program) (x : Variable) (m : Meaning) : Prop :=
  x.type.meaning p.unitTable = some m ∧ x.content.meaning = m

/-- The names in scope hold values of their meanings. -/
def MeasuredMachine.Fits (p : Program) (names : Context Meaning) (s : MeasuredMachine) : Prop :=
  s.stack.current.Related p.Holds names

/-- Only the present context has changed. -/
def MeasuredMachine.Below (s t : MeasuredMachine) : Prop := ∃ c, t.stack = s.stack.modify fun _ => c

/-- A call gives back a value of the meaning of its result, and leaves all variables as they were. -/
def MeasuredInvocation.Sound (p : Program) (invoke : MeasuredInvocation) : Prop :=
  ∀ f ∈ p.functions, ∀ qs k s, p.Takes f.params (qs.map Measured.meaning) →
    f.returnType.meaning p.unitTable = some k →
    Within Tolerable (invoke f qs) s fun q t => t.stack = s.stack ∧ q.meaning = k

section
variable {p : Program} {invoke : MeasuredInvocation} {names : Context Meaning}

theorem MeasuredMachine.Fits.of_stack {s t : MeasuredMachine} (fits : s.Fits p names) (same : t.stack = s.stack) :
    t.Fits p names := by
  unfold Fits
  rw [same]
  exact fits

/-! ### Expressions -/

theorem Literal.measured_within {v : Literal} {m : Meaning} {s : MeasuredMachine} {position : Position}
    (meaning : v.meaning p.unitTable = some m) :
    Within Tolerable (v.measured p.unitTable) s
      fun q t => t.stack = s.stack ∧ q.meaning = m ∧ (Expr.literal v position).Writes q := by
  match v with
  | .int n none =>
    cases meaning
    exact ⟨rfl, rfl, fun _ same => by cases same; exact ⟨_, rfl⟩⟩
  | .float x none =>
    cases meaning
    exact ⟨rfl, rfl, nofun⟩
  | .int n (some u) =>
    obtain ⟨d, found, rfl⟩ := Option.map_eq_some_iff.mp meaning
    exact MeasuredRun.within_need found ⟨rfl, rfl, fun _ same => by cases same; exact ⟨_, rfl⟩⟩
  | .float x (some u) =>
    obtain ⟨d, found, rfl⟩ := Option.map_eq_some_iff.mp meaning
    exact MeasuredRun.within_need found ⟨rfl, rfl, nofun⟩
  | .bool b =>
    cases meaning
    exact ⟨rfl, rfl, nofun⟩
  | .text t =>
    cases meaning
    exact ⟨rfl, rfl, nofun⟩

theorem MeasuredRun.read_within {name : Symbol} {m : Meaning} {s : MeasuredMachine} (fits : s.Fits p names)
    (found : names.lookup name.name = some m) :
    Within Tolerable (MeasuredRun.read name) s fun q t => t = s ∧ q.meaning = m := by
  unfold Within
  rw [MeasuredRun.run_read]
  obtain ⟨-, hm⟩ | ⟨x, m', hx, hm, holds⟩ := rel_iff.mp (fits.lookup name.name)
  · rw [hm] at found
    cases found
  · rw [hm] at found
    cases found
    rw [hx]
    exact ⟨rfl, holds.2⟩

/-- A number under minus signs is worked out to what it writes. -/
theorem UnaryOp.writes {op : UnaryOp} {position : Position} {operand : Expr} {q : Measured} {v : Value}
    (written : operand.Writes q) (result : op.apply position q.value = .ok v) :
    (Expr.unary op position operand).Writes (.attach (q.dimension?.getD 0) v) := by
  intro k integer
  cases op with
  | not => cases integer
  | minus =>
    cases inner : operand.integer? with
    | none => simp [Expr.integer?, inner] at integer
    | some n =>
      obtain ⟨d, rfl⟩ := written n inner
      simp only [Expr.integer?, inner] at integer
      simp only [Measured.value, apply, integer] at result
      cases result
      exact ⟨d, rfl⟩

theorem UnaryOp.measured_within {op : UnaryOp} {position : Position} {operand : Expr} {q : Measured} {m : Meaning}
    {s : MeasuredMachine} (written : operand.Writes q) (meaning : op.meaning q.meaning = some m) :
    Within Tolerable (op.applyMeasured position q) s
      fun r t => t.stack = s.stack ∧ r.meaning = m ∧ (Expr.unary op position operand).Writes r := by
  have fits : Within Tolerable (op.applyMeasured position q) s _ := applyMeasured_within meaning
  unfold applyMeasured at fits ⊢
  cases result : op.apply position q.value with
  | error e =>
    rw [result] at fits
    exact fits
  | ok v =>
    rw [result] at fits
    exact ⟨rfl, fits.2, writes written result⟩

theorem Program.callMeasured_within (sound : invoke.Sound p) {callee : Symbol} {args : List Expr}
    {qs : List Measured} {k : Meaning} {s : MeasuredMachine} (writes : List.Forall₂ Expr.Writes args qs)
    (meaning : p.callMeaning callee.name args (qs.map Measured.meaning) = some k) :
    Within Tolerable (p.callMeasured invoke callee qs) s fun q t => t.stack = s.stack ∧ q.meaning = k := by
  unfold callMeaning at meaning
  unfold callMeasured
  cases builtin : Builtin.ofName? callee.name with
  | some b =>
    rw [builtin] at meaning
    exact Builtin.callMeasured_within writes meaning
  | none =>
    rw [builtin] at meaning
    obtain ⟨f, found, meaning⟩ := Option.bind_eq_some_iff.mp meaning
    obtain ⟨_, takes, meaning⟩ := Option.bind_eq_some_iff.mp meaning
    rw [found]
    exact sound f (mem_of_function? found) qs k s (guard_eq_some.mp takes) meaning

mutual

/-- An expression that has a meaning comes to a value of that meaning, and changes no variable. -/
theorem Expr.measured_within (sound : invoke.Sound p) {m : Meaning} {s : MeasuredMachine} (fits : s.Fits p names)
    (e : Expr) (meaning : e.meaning p names = some m) :
    Within Tolerable (e.measured p invoke) s fun q t => t.stack = s.stack ∧ q.meaning = m ∧ e.Writes q := by
  cases e with
  | literal value position =>
    simp only [Expr.measured]
    simp only [Expr.meaning] at meaning
    exact Literal.measured_within meaning
  | var name =>
    simp only [Expr.measured]
    simp only [Expr.meaning] at meaning
    exact (MeasuredRun.read_within fits meaning).mono fun _ _ ⟨same, means⟩ => ⟨congrArg _ same, means, nofun⟩
  | unary op position operand =>
    simp only [Expr.measured]
    simp only [Expr.meaning] at meaning
    obtain ⟨n, inner, meaning⟩ := Option.bind_eq_some_iff.mp meaning
    apply (Expr.measured_within sound fits operand inner).seq
    rintro q t ⟨same, rfl, written⟩
    exact (UnaryOp.measured_within written meaning).mono fun _ _ ⟨same', h⟩ => ⟨same'.trans same, h⟩
  | binary left op position right =>
    simp only [Expr.measured]
    simp only [Expr.meaning] at meaning
    obtain ⟨m', first, meaning⟩ := Option.bind_eq_some_iff.mp meaning
    obtain ⟨n', second, meaning⟩ := Option.bind_eq_some_iff.mp meaning
    apply (Expr.measured_within sound fits left first).seq
    rintro l t ⟨same, rfl, -⟩
    apply (Expr.measured_within sound (fits.of_stack same) right second).seq
    rintro r u ⟨same', rfl, -⟩
    exact (BinaryOp.applyMeasured_within meaning).mono fun _ _ ⟨same'', means⟩ =>
      ⟨same'' ▸ same'.trans same, means, nofun⟩
  | call callee args =>
    simp only [Expr.measured]
    simp only [Expr.meaning] at meaning
    obtain ⟨ms, inner, meaning⟩ := Option.bind_eq_some_iff.mp meaning
    apply (Expr.measuredAll_within sound fits args inner).seq
    rintro qs t ⟨same, rfl, writes⟩
    exact (Program.callMeasured_within sound writes meaning).mono fun _ _ ⟨same', means⟩ =>
      ⟨same'.trans same, means, nofun⟩

theorem Expr.measuredAll_within (sound : invoke.Sound p) {ms : List Meaning} {s : MeasuredMachine}
    (fits : s.Fits p names) (es : List Expr) (meanings : Expr.meanings p names es = some ms) :
    Within Tolerable (Expr.measuredAll p invoke es) s
      fun qs t => t.stack = s.stack ∧ qs.map Measured.meaning = ms ∧ List.Forall₂ Expr.Writes es qs := by
  cases es with
  | nil =>
    cases meanings
    exact ⟨rfl, rfl, .nil⟩
  | cons e es =>
    simp only [Expr.measuredAll]
    simp only [Expr.meanings] at meanings
    obtain ⟨m, first, meanings⟩ := Option.bind_eq_some_iff.mp meanings
    obtain ⟨ms, rest, meanings⟩ := Option.bind_eq_some_iff.mp meanings
    cases meanings
    apply (Expr.measured_within sound fits e first).seq
    rintro q t ⟨same, rfl, written⟩
    apply (Expr.measuredAll_within sound (fits.of_stack same) es rest).seq
    rintro qs u ⟨same', rfl, writes⟩
    exact ⟨same'.trans same, rfl, .cons written writes⟩

end

theorem Expr.holdsMeasured_within (sound : invoke.Sound p) {s : MeasuredMachine} (fits : s.Fits p names)
    {condition : Expr} (meaning : condition.meaning p names = some .bool) :
    Within Tolerable (condition.holdsMeasured p invoke) s fun _ t => t.stack = s.stack := by
  apply (Expr.measured_within sound fits condition meaning).seq
  rintro q t ⟨same, means, -⟩
  obtain ⟨b, rfl⟩ := Measured.meaning_eq_bool means
  exact same

/-! ### Statements -/

theorem MeasuredMachine.Below.of_stack {s t : MeasuredMachine} (same : t.stack = s.stack) : s.Below t :=
  ⟨s.stack.current, same.trans (CallStack.modify_eq_self rfl).symm⟩

theorem MeasuredMachine.Below.trans {s t u : MeasuredMachine} (first : s.Below t) (second : t.Below u) :
    s.Below u := by
  obtain ⟨c, changed⟩ := first
  obtain ⟨d, changed'⟩ := second
  exact ⟨d, by rw [changed', changed, CallStack.modify_modify]; rfl⟩

/-- How statements may end: going on with the names that they leave behind, or returning what is expected from a
`return` that stands among them. -/
def MeasuredFlow.Leads (p : Program) (expected : Meaning) (after : Context Meaning) (returns : Bool)
    (t : MeasuredMachine) : MeasuredFlow → Prop
  | normal => t.Fits p after
  | returned q => q.meaning = expected ∧ returns = true

variable {expected : Meaning}

theorem MeasuredFlow.Leads.mono {after : Context Meaning} {a b : Bool} {t : MeasuredMachine} {flow : MeasuredFlow}
    (h : flow.Leads p expected after a t) (implies : a = true → b = true) : flow.Leads p expected after b t := by
  cases flow with
  | normal => exact h
  | returned q => exact ⟨h.1, implies h.2⟩

theorem MeasuredFlow.Leads.given {after : Context Meaning} {a : Bool} {t : MeasuredMachine} {flow : MeasuredFlow}
    (h : flow.Leads p expected after a t) : ∀ q, flow = .returned q → q.meaning = expected := by
  rintro q rfl
  exact h.1

theorem MeasuredRun.declare_within {name : Symbol} {type : Ty} {q : Measured} {s : MeasuredMachine}
    (fits : s.Fits p names) (admitted : type.meaning p.unitTable = some q.meaning) :
    Within Tolerable (MeasuredRun.declare p.unitTable name type q) s
      fun _ t => s.Below t ∧ t.Fits p (names.declare name.name q.meaning) := by
  have changed : s.stack.modify (·.declare name.name ⟨type, q⟩) = _ := CallStack.modify_eq_const _
  refine within_needType admitted ⟨⟨_, changed⟩, ?_⟩
  unfold MeasuredMachine.Fits
  rw [CallStack.current_modify]
  exact Context.Related.declare fits ⟨admitted, rfl⟩

theorem MeasuredRun.assign_within {name : Symbol} {q : Measured} {s : MeasuredMachine} (fits : s.Fits p names)
    (found : names.lookup name.name = some q.meaning) :
    Within Tolerable (MeasuredRun.assign p.unitTable name q) s fun _ t => s.Below t ∧ t.Fits p names := by
  unfold Within
  rw [run_assign]
  obtain ⟨-, hm⟩ | ⟨x, m, hx, hm, holds⟩ := rel_iff.mp (fits.lookup name.name)
  · rw [hm] at found
    cases found
  · rw [hm] at found
    cases found
    rw [hx]
    obtain ⟨c, assigned, related⟩ := Context.Related.assign?_of_lookup (a := ⟨x.type, q⟩) fits hm ⟨holds.1, rfl⟩
    refine within_needType holds.1 ?_
    rw [assigned]
    refine ⟨⟨c, rfl⟩, ?_⟩
    unfold MeasuredMachine.Fits
    rw [CallStack.current_modify]
    exact related

/-- A block begins with the names around it, and what it declares is gone at its end. -/
theorem MeasuredRun.inBlock_within {body : MeasuredRun MeasuredFlow} {after : Context Meaning} {returns : Bool}
    {s : MeasuredMachine} (grown : names.push.Extends after)
    (h : Within Tolerable body { s with stack := s.stack.modify .push } fun flow t =>
      MeasuredMachine.Below { s with stack := s.stack.modify .push } t ∧ flow.Leads p expected after returns t) :
    Within Tolerable (MeasuredRun.inBlock body) s fun flow t =>
      s.Below t ∧ flow.Leads p expected names returns t := by
  refine .around (run_inBlock body s) (h.mono ?_)
  rintro flow t ⟨⟨c, changed⟩, leads⟩
  constructor
  · exact ⟨c.pop, by simp only [changed, CallStack.modify_modify]; rfl⟩
  · cases flow with
    | returned q => exact leads
    | normal =>
      unfold MeasuredFlow.Leads MeasuredMachine.Fits at leads ⊢
      rw [CallStack.current_modify, ← grown.pop]
      exact leads.pop

theorem MeasuredMachine.Fits.push {s : MeasuredMachine} (fits : s.Fits p names) :
    MeasuredMachine.Fits p names.push { s with stack := s.stack.modify .push } := by
  unfold MeasuredMachine.Fits
  rw [CallStack.current_modify]
  exact Context.Related.push fits

/-- A loop keeps what its condition and its body keep. -/
theorem MeasuredRun.repeatWhile_within {condition : MeasuredRun Bool} {body : MeasuredRun MeasuredFlow}
    {post : MeasuredFlow → MeasuredMachine → Prop}
    (first : ∀ s, post .normal s → Within Tolerable condition s fun _ t => post .normal t)
    (next : ∀ s, post .normal s → Within Tolerable body s post) (rounds : Nat) {s : MeasuredMachine}
    (start : post .normal s) : Within Tolerable (MeasuredRun.repeatWhile condition body rounds) s post := by
  induction rounds generalizing s with
  | zero => exact trivial
  | succ rounds ih =>
    apply (first s start).seq
    intro b t kept
    cases b with
    | false => exact kept
    | true =>
      apply (next t kept).seq
      intro flow u kept
      cases flow with
      | normal => exact ih kept
      | returned q => exact kept

/-- From a place where the stack is the same, changes are the same. -/
theorem MeasuredMachine.Below.from_stack {s t u : MeasuredMachine} (same : t.stack = s.stack) (h : t.Below u) :
    s.Below u := (Below.of_stack same).trans h

/-- Whichever way a branch takes, it is one of the two. -/
theorem Expr.branch_within (sound : invoke.Sound p) {s : MeasuredMachine} (fits : s.Fits p names) {condition : Expr}
    (meaning : condition.meaning p names = some .bool) {yes no : MeasuredRun MeasuredFlow} {a b : Bool}
    (first : ∀ t, MeasuredMachine.Fits p names t →
      Within Tolerable yes t fun flow u => t.Below u ∧ flow.Leads p expected names a u)
    (second : ∀ t, MeasuredMachine.Fits p names t →
      Within Tolerable no t fun flow u => t.Below u ∧ flow.Leads p expected names b u) :
    Within Tolerable (do if ← condition.holdsMeasured p invoke then yes else no) s
      fun flow u => s.Below u ∧ flow.Leads p expected names (a || b) u := by
  apply (holdsMeasured_within sound fits meaning).seq
  intro holds t same
  have fits := fits.of_stack same
  cases holds with
  | true =>
    apply (first t fits).mono
    rintro flow u ⟨below, leads⟩
    exact ⟨below.from_stack same, leads.mono fun h => by simp [h]⟩
  | false =>
    apply (second t fits).mono
    rintro flow u ⟨below, leads⟩
    exact ⟨below.from_stack same, leads.mono fun h => by simp [h]⟩

mutual

/-- A well typed statement runs without a misfit and leaves the names in scope as it has to. -/
theorem Stmt.measured_within (sound : invoke.Sound p) (rounds : Nat) {names after : Context Meaning}
    {s : MeasuredMachine} (fits : s.Fits p names) (stmt : Stmt) (typed : stmt.after p expected names = some after) :
    Within Tolerable (stmt.measured p invoke rounds) s fun flow t =>
      s.Below t ∧ flow.Leads p expected after stmt.returns t := by
  cases stmt with
  | declare name type value =>
    simp only [Stmt.after, Option.bind_eq_bind, Option.bind_eq_some_iff] at typed
    obtain ⟨_, _, m, declared, n, meaning, _, equal, typed⟩ := typed
    obtain rfl := guard_eq_some.mp equal
    cases typed
    simp only [Stmt.measured]
    apply (Expr.measured_within sound fits value meaning).seq
    rintro q t ⟨same, rfl, -⟩
    apply (MeasuredRun.declare_within (fits.of_stack same) declared).seq
    rintro _ u ⟨below, fits⟩
    exact ⟨below.from_stack same, fits⟩
  | assign name value =>
    simp only [Stmt.after, Option.bind_eq_bind, Option.bind_eq_some_iff] at typed
    obtain ⟨m, found, n, meaning, _, equal, typed⟩ := typed
    obtain rfl := guard_eq_some.mp equal
    cases typed
    simp only [Stmt.measured]
    apply (Expr.measured_within sound fits value meaning).seq
    rintro q t ⟨same, rfl, -⟩
    apply (MeasuredRun.assign_within (fits.of_stack same) found).seq
    rintro _ u ⟨below, fits⟩
    exact ⟨below.from_stack same, fits⟩
  | ifElse condition body otherwise =>
    simp only [Stmt.after, Option.bind_eq_bind, Option.bind_eq_some_iff] at typed
    obtain ⟨_, holds, inner, first, rest, second, typed⟩ := typed
    cases typed
    simp only [Stmt.measured, Stmt.returns]
    apply Expr.branch_within sound fits (guard_eq_some.mp holds)
    · intro t fits
      exact MeasuredRun.inBlock_within (Stmt.afterAll_extends first)
        (Stmt.measuredAll_within sound rounds fits.push body first)
    · intro t fits
      exact Else.measured_within sound rounds fits otherwise second
  | loop condition body =>
    simp only [Stmt.after, Option.bind_eq_bind, Option.bind_eq_some_iff] at typed
    obtain ⟨_, holds, inner, first, typed⟩ := typed
    cases typed
    simp only [Stmt.measured, Stmt.returns]
    refine MeasuredRun.repeatWhile_within ?_ ?_ rounds ⟨.of_stack rfl, fits⟩
    · rintro t ⟨below, fits⟩
      apply (Expr.holdsMeasured_within sound fits (guard_eq_some.mp holds)).mono
      intro _ u same
      exact ⟨below.trans (.of_stack same), fits.of_stack same⟩
    · rintro t ⟨below, fits⟩
      have block := MeasuredRun.inBlock_within (Stmt.afterAll_extends first)
        (Stmt.measuredAll_within sound rounds fits.push body first)
      exact block.mono fun flow u ⟨below', leads⟩ => ⟨below.trans below', leads⟩
  | ret position value =>
    simp only [Stmt.after, Option.bind_eq_bind, Option.bind_eq_some_iff] at typed
    obtain ⟨m, returned, _, equal, typed⟩ := typed
    obtain rfl := guard_eq_some.mp equal
    cases typed
    cases value with
    | none =>
      cases returned
      exact ⟨.of_stack rfl, rfl, rfl⟩
    | some e =>
      simp only [Stmt.measured]
      apply (Expr.measured_within sound fits e returned).seq
      rintro q t ⟨same, means, -⟩
      exact ⟨.of_stack same, means, rfl⟩
  | call callee args =>
    simp only [Stmt.after, Option.bind_eq_bind, Option.bind_eq_some_iff] at typed
    obtain ⟨m, meaning, typed⟩ := typed
    cases typed
    simp only [Stmt.measured]
    apply (Expr.measured_within sound fits (.call callee args) meaning).seq
    rintro q t ⟨same, -⟩
    exact ⟨.of_stack same, fits.of_stack same⟩
  | block body =>
    simp only [Stmt.after, Option.bind_eq_bind, Option.bind_eq_some_iff] at typed
    obtain ⟨inner, first, typed⟩ := typed
    cases typed
    simp only [Stmt.measured, Stmt.returns]
    exact MeasuredRun.inBlock_within (Stmt.afterAll_extends first)
      (Stmt.measuredAll_within sound rounds fits.push body first)

theorem Stmt.measuredAll_within (sound : invoke.Sound p) (rounds : Nat) {names after : Context Meaning}
    {s : MeasuredMachine} (fits : s.Fits p names) (ss : List Stmt)
    (typed : Stmt.afterAll p expected ss names = some after) :
    Within Tolerable (Stmt.measuredAll p invoke rounds ss) s fun flow t =>
      s.Below t ∧ flow.Leads p expected after (Stmt.anyReturns ss) t := by
  cases ss with
  | nil =>
    cases typed
    exact ⟨.of_stack rfl, fits⟩
  | cons stmt ss =>
    obtain ⟨between, first, rest⟩ := Option.bind_eq_some_iff.mp typed
    simp only [Stmt.measuredAll, Stmt.anyReturns]
    apply (Stmt.measured_within sound rounds fits stmt first).seq
    rintro flow t ⟨below, leads⟩
    cases flow with
    | normal =>
      have rest := Stmt.measuredAll_within sound rounds leads ss rest
      exact rest.mono fun flow u ⟨below', leads⟩ => ⟨below.trans below', leads.mono fun h => by simp [h]⟩
    | returned q => exact ⟨below, leads.1, by simp [leads.2]⟩

theorem Else.measured_within (sound : invoke.Sound p) (rounds : Nat) {names after : Context Meaning}
    {s : MeasuredMachine} (fits : s.Fits p names) (o : Else) (typed : o.after p expected names = some after) :
    Within Tolerable (o.measured p invoke rounds) s fun flow t =>
      s.Below t ∧ flow.Leads p expected names o.returns t := by
  cases o with
  | none => exact ⟨.of_stack rfl, fits⟩
  | last body =>
    simp only [Else.after, Option.bind_eq_bind, Option.bind_eq_some_iff] at typed
    obtain ⟨inner, first, typed⟩ := typed
    simp only [Else.measured, Else.returns]
    exact MeasuredRun.inBlock_within (Stmt.afterAll_extends first)
      (Stmt.measuredAll_within sound rounds fits.push body first)
  | elseIf condition body otherwise =>
    simp only [Else.after, Option.bind_eq_bind, Option.bind_eq_some_iff] at typed
    obtain ⟨_, holds, inner, first, rest, second, typed⟩ := typed
    simp only [Else.measured, Else.returns]
    apply Expr.branch_within sound fits (guard_eq_some.mp holds)
    · intro t fits
      exact MeasuredRun.inBlock_within (Stmt.afterAll_extends first)
        (Stmt.measuredAll_within sound rounds fits.push body first)
    · intro t fits
      exact Else.measured_within sound rounds fits otherwise second

end

/-! ### Calls and programs -/

theorem MeasuredRun.needTypes_within {α : Type} {params : List Param} {qs : List Measured} {x : MeasuredRun α}
    {s : MeasuredMachine} {good : α → MeasuredMachine → Prop} (takes : p.Takes params (qs.map Measured.meaning))
    (rest : Within Tolerable x s good) :
    Within Tolerable (do MeasuredRun.needTypes p.unitTable params qs; x) s good := by
  induction qs generalizing params with
  | nil =>
    cases takes
    exact rest
  | cons q qs ih =>
    cases takes with
    | cons first takes =>
      simp only [MeasuredRun.needTypes, bind_assoc]
      exact within_needType first (ih takes)

theorem Function.measuredArguments_holds {f : Function} {qs : List Measured}
    (takes : p.Takes f.params (qs.map Measured.meaning)) :
    (f.measuredArguments qs).Related p.Holds (f.meanings (qs.map Measured.meaning)) := by
  refine .ofList ?_
  generalize f.params = params at takes
  induction qs generalizing params with
  | nil =>
    cases takes
    exact .nil
  | cons q qs ih =>
    cases takes with
    | cons first takes => exact .cons ⟨rfl, first, rfl⟩ (ih _ takes)

theorem Function.measuredResult_within {f : Function} {flow : MeasuredFlow} {k : Meaning} {s : MeasuredMachine}
    (means : f.returnType.meaning p.unitTable = some k) (given : ∀ q, flow = .returned q → q.meaning = k) :
    Within Tolerable (f.measuredResult p.unitTable flow) s fun q t => t = s ∧ q.meaning = k := by
  cases flow with
  | returned q =>
    obtain rfl := given q rfl
    exact MeasuredRun.within_needType means ⟨rfl, rfl⟩
  | normal =>
    simp only [measuredResult]
    split
    · rename_i void
      rw [void] at means
      cases means
      exact ⟨rfl, rfl⟩
    · exact RunError.DependsOnValues.missingReturn

/-- The variables of a call are gone at its end. -/
theorem MeasuredRun.inCall_within {parameters : Scope Variable} {body : MeasuredRun MeasuredFlow}
    {good : MeasuredFlow → Prop} {s : MeasuredMachine}
    (h : Within Tolerable body { s with stack := s.stack.enter parameters } fun flow t =>
      MeasuredMachine.Below { s with stack := s.stack.enter parameters } t ∧ good flow) :
    Within Tolerable (MeasuredRun.inCall parameters body) s fun flow t => t.stack = s.stack ∧ good flow := by
  refine .around (run_inCall parameters body s) (h.mono ?_)
  rintro flow t ⟨⟨c, changed⟩, holds⟩
  exact ⟨by simp only [changed, CallStack.exit_modify_enter], holds⟩

theorem Program.invokeMeasured_sound (typed : p.WellTyped) (bound : Nat) : (p.invokeMeasured bound).Sound p := by
  induction bound with
  | zero => exact fun _ _ _ _ _ _ _ => trivial
  | succ bound ih =>
    intro f mem qs k s takes means
    obtain ⟨-, ms, k', names, takes', means', body⟩ := typed.functions f mem
    obtain rfl := takes_unique takes takes'
    rw [means] at means'
    cases means'
    have count : qs.length = f.params.length := by simpa using takes.length_eq.symm
    have fits : MeasuredMachine.Fits p (.ofParameters (f.meanings (qs.map Measured.meaning)))
        { s with stack := s.stack.enter (f.measuredArguments qs) } :=
      .ofParameters (Function.measuredArguments_holds takes)
    simp only [invokeMeasured, count, ne_eq, not_true_eq_false, if_false]
    refine MeasuredRun.needTypes_within takes ?_
    have inner := (Stmt.measuredAll_within ih bound fits f.body body).mono fun _ _ ⟨below, leads⟩ =>
      And.intro below leads.given
    apply (MeasuredRun.inCall_within inner).seq
    rintro flow t ⟨same, given⟩
    refine (Function.measuredResult_within means given).mono ?_
    rintro q u ⟨rfl, result⟩
    exact ⟨same, result⟩

/-- A well typed program runs without a misfit. It stops before its time only where that depends on values, or
where a `return` stands outside of its functions. -/
theorem Program.runMeasured_within (typed : p.WellTyped) (bound : Nat) :
    Within (fun h => Tolerable h ∨
        h = .halted (.failed (.unchecked .returnOutsideFunction)) ∧ Stmt.anyReturns p.statements = true)
      (p.runMeasured bound) .start fun _ _ => True := by
  have sound := invokeMeasured_sound typed bound
  obtain ⟨names, statements⟩ := typed.statements
  have fits : MeasuredMachine.Fits p (.ofParameters .empty) .start := .ofParameters .empty
  unfold runMeasured
  apply ((Stmt.measuredAll_within sound bound fits p.statements statements).allow fun _ => .inl).seq
  rintro flow s ⟨-, leads⟩
  cases flow with
  | returned q => exact .inr ⟨rfl, leads.2⟩
  | normal =>
    dsimp only
    cases main : p.function? "main" with
    | none => exact trivial
    | some f =>
      obtain ⟨-, ms, k, _, takes, means, -⟩ := typed.functions f (mem_of_function? main)
      have none : p.Takes f.params ([].map Measured.meaning) := by
        rw [typed.main f main]
        exact .nil
      apply ((sound f (mem_of_function? main) [] k s none means).allow fun _ => .inl).seq
      exact fun _ _ _ => trivial

end

end Mensura
