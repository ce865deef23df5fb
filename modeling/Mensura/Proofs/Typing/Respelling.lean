import Mensura.Proofs.Typing.Exactness

/-!
Writing a program with other units that mean the same. Where a unit is annotated, at a declaration, a parameter,
a returned type or a number, an equivalent one may stand in its place; the places in the text may move. What
expressions mean and whether statements are well typed stays the same. Main statement: an accepted program is
accepted in any other spelling as well, unless a power leaves its range or the unit of a root or a power cannot
be worked out.
-/

namespace Mensura

variable {table : UnitTable}

/-- Another way to write a type: the same, or a unit that is equivalent. -/
inductive Ty.Respells (table : UnitTable) : Ty → Ty → Prop where
  | same {τ : Ty} : Ty.Respells table τ τ
  | unit {u v : UnitExpr} (equivalent : u.equivalent table v = .ok true) :
      Ty.Respells table (.quantity u) (.quantity v)

/-- Another way to write a constant. A number with a unit may have an equivalent one. -/
inductive Literal.Respells (table : UnitTable) : Literal → Literal → Prop where
  | same {v : Literal} : Literal.Respells table v v
  | int {n : Int64} {u v : UnitExpr} (equivalent : u.equivalent table v = .ok true) :
      Literal.Respells table (.int n (some u)) (.int n (some v))
  | float {x : Float} {u v : UnitExpr} (equivalent : u.equivalent table v = .ok true) :
      Literal.Respells table (.float x (some u)) (.float x (some v))

mutual

inductive Expr.Respells (table : UnitTable) : Expr → Expr → Prop where
  | literal {v w : Literal} {i j : Position} (value : v.Respells table w) :
      Expr.Respells table (.literal v i) (.literal w j)
  | unary {op : UnaryOp} {e e' : Expr} {i j : Position} (operand : Expr.Respells table e e') :
      Expr.Respells table (.unary op i e) (.unary op j e')
  | binary {op : BinaryOp} {l l' r r' : Expr} {i j : Position} (left : Expr.Respells table l l')
      (right : Expr.Respells table r r') : Expr.Respells table (.binary l op i r) (.binary l' op j r')
  | call {f g : Symbol} {es es' : List Expr} (callee : f.name = g.name) (args : Expr.RespellAll table es es') :
      Expr.Respells table (.call f es) (.call g es')
  | var {x y : Symbol} (name : x.name = y.name) : Expr.Respells table (.var x) (.var y)

inductive Expr.RespellAll (table : UnitTable) : List Expr → List Expr → Prop where
  | nil : Expr.RespellAll table [] []
  | cons {e e' : Expr} {es es' : List Expr} (first : Expr.Respells table e e')
      (rest : Expr.RespellAll table es es') : Expr.RespellAll table (e :: es) (e' :: es')

end

mutual

inductive Stmt.Respells (table : UnitTable) : Stmt → Stmt → Prop where
  | declare {x y : Symbol} {τ σ : Ty} {e e' : Expr} (name : x.name = y.name) (type : τ.Respells table σ)
      (value : e.Respells table e') : Stmt.Respells table (.declare x τ e) (.declare y σ e')
  | assign {x y : Symbol} {e e' : Expr} (name : x.name = y.name) (value : e.Respells table e') :
      Stmt.Respells table (.assign x e) (.assign y e')
  | ifElse {c c' : Expr} {ss ss' : List Stmt} {o o' : Else} (condition : c.Respells table c')
      (body : Stmt.RespellAll table ss ss') (otherwise : Else.Respells table o o') :
      Stmt.Respells table (.ifElse c ss o) (.ifElse c' ss' o')
  | loop {c c' : Expr} {ss ss' : List Stmt} (condition : c.Respells table c')
      (body : Stmt.RespellAll table ss ss') : Stmt.Respells table (.loop c ss) (.loop c' ss')
  | ret {i j : Position} : Stmt.Respells table (.ret i none) (.ret j none)
  | retValue {i j : Position} {e e' : Expr} (value : e.Respells table e') :
      Stmt.Respells table (.ret i (some e)) (.ret j (some e'))
  | call {f g : Symbol} {es es' : List Expr} (callee : f.name = g.name) (args : Expr.RespellAll table es es') :
      Stmt.Respells table (.call f es) (.call g es')
  | block {ss ss' : List Stmt} (body : Stmt.RespellAll table ss ss') :
      Stmt.Respells table (.block ss) (.block ss')

inductive Stmt.RespellAll (table : UnitTable) : List Stmt → List Stmt → Prop where
  | nil : Stmt.RespellAll table [] []
  | cons {s s' : Stmt} {ss ss' : List Stmt} (first : Stmt.Respells table s s')
      (rest : Stmt.RespellAll table ss ss') : Stmt.RespellAll table (s :: ss) (s' :: ss')

inductive Else.Respells (table : UnitTable) : Else → Else → Prop where
  | none : Else.Respells table .none .none
  | last {ss ss' : List Stmt} (body : Stmt.RespellAll table ss ss') : Else.Respells table (.last ss) (.last ss')
  | elseIf {c c' : Expr} {ss ss' : List Stmt} {o o' : Else} (condition : c.Respells table c')
      (body : Stmt.RespellAll table ss ss') (otherwise : Else.Respells table o o') :
      Else.Respells table (.elseIf c ss o) (.elseIf c' ss' o')

end

structure Param.Respells (table : UnitTable) (a b : Param) : Prop where
  name : a.name.name = b.name.name
  type : a.type.Respells table b.type

structure Function.Respells (table : UnitTable) (f g : Function) : Prop where
  name : f.name.name = g.name.name
  params : List.Forall₂ (Param.Respells table) f.params g.params
  returnType : f.returnType.Respells table g.returnType
  body : Stmt.RespellAll table f.body g.body

/-- Another way to write a program. Units are declared in the same way, and they are what equivalence goes by. -/
structure Program.Respells (p q : Program) : Prop where
  units : p.unitTable = q.unitTable
  functions : List.Forall₂ (Function.Respells p.unitTable) p.functions q.functions
  statements : Stmt.RespellAll p.unitTable p.statements q.statements

/-! ### Meanings -/

theorem Ty.Respells.meaning_eq {τ σ : Ty} (h : τ.Respells table σ) : τ.meaning table = σ.meaning table := by
  cases h with
  | same => rfl
  | unit equivalent =>
    obtain ⟨m, hu, hv⟩ := Ty.meaning_of_equivalent equivalent
    rw [hu, hv]

theorem Literal.Respells.meaning_eq {v w : Literal} (h : v.Respells table w) :
    v.meaning table = w.meaning table := by
  cases h with
  | same => rfl
  | int equivalent => exact (Ty.Respells.unit equivalent).meaning_eq
  | float equivalent => exact (Ty.Respells.unit equivalent).meaning_eq

/-- The exponent that is written out stays the same number. -/
theorem Expr.Respells.integer?_eq {e e' : Expr} (h : e.Respells table e') : e.integer? = e'.integer? := by
  match e, h with
  | .literal v _, .literal value =>
    cases value with
    | same => cases v <;> rfl
    | int | float => rfl
  | .unary .minus _ operand, .unary rest => simp only [Expr.integer?, Expr.Respells.integer?_eq rest]
  | .unary .not _ _, .unary _ => rfl
  | .binary .., .binary .. => rfl
  | .call .., .call .. => rfl
  | .var _, .var _ => rfl

theorem Expr.RespellAll.integer?_eq {es es' : List Expr} (h : Expr.RespellAll table es es') (i : Nat) :
    es[i]?.bind Expr.integer? = es'[i]?.bind Expr.integer? := by
  induction es generalizing es' i with
  | nil => cases h; rfl
  | cons e es ih =>
    cases h with
    | cons first rest =>
      cases i with
      | zero => exact first.integer?_eq
      | succ i => simpa using ih rest i

theorem Builtin.meaning_respelled {es es' : List Expr} (h : Expr.RespellAll table es es') (callee : Builtin)
    (ms : List Meaning) : callee.meaning es ms = callee.meaning es' ms := by
  simp only [Builtin.meaning, h.integer?_eq 1]

namespace Program.Respells

variable {p q : Program}

/-- A name stands for the same function, written in another way. -/
theorem function?_related (h : p.Respells q) (name : String) :
    Option.Rel (Function.Respells p.unitTable) (p.function? name) (q.function? name) := by
  have related := h.functions
  unfold function?
  generalize p.functions = fs at related ⊢
  generalize q.functions = gs at related ⊢
  induction related with
  | nil => exact .none
  | cons first _ ih =>
    rw [List.find?_cons, List.find?_cons, first.name]
    split
    · exact .some first
    · exact ih

theorem type_meaning_eq (h : p.Respells q) {τ σ : Ty} (related : τ.Respells p.unitTable σ) :
    τ.meaning p.unitTable = σ.meaning q.unitTable := by
  rw [related.meaning_eq, h.units]

theorem takes_iff {params params' : List Param} (h : p.Respells q)
    (related : List.Forall₂ (Param.Respells p.unitTable) params params') (ms : List Meaning) :
    p.Takes params ms ↔ q.Takes params' ms := by
  induction related generalizing ms with
  | nil => simp
  | cons first _ ih =>
    cases ms with
    | nil => simp
    | cons m ms =>
      rw [Takes, Takes, List.forall₂_cons, List.forall₂_cons, h.type_meaning_eq first.type]
      exact and_congr_right' (ih ms)

theorem callMeaning_eq (h : p.Respells q) {es es' : List Expr} (args : Expr.RespellAll p.unitTable es es')
    (callee : String) (ms : List Meaning) : p.callMeaning callee es ms = q.callMeaning callee es' ms := by
  unfold callMeaning
  cases Builtin.ofName? callee with
  | some builtin => exact builtin.meaning_respelled args ms
  | none =>
    obtain ⟨hp, hq⟩ | ⟨f, g, hp, hq, respelled⟩ := rel_iff.mp (h.function?_related callee)
    · simp [hp, hq]
    · have params := h.takes_iff respelled.params ms
      by_cases takes : p.Takes f.params ms
      · simp [hp, hq, takes, params.mp takes, h.type_meaning_eq respelled.returnType]
      · simp [hp, hq, takes, mt params.mpr takes]

end Program.Respells

section
variable {p q : Program}

mutual

theorem Expr.Respells.meaning_eq (h : p.Respells q) (names : Context Meaning) {e e' : Expr}
    (respelled : e.Respells p.unitTable e') : e.meaning p names = e'.meaning q names := by
  match e, respelled with
  | .literal _ _, .literal value => rw [Expr.meaning, Expr.meaning, value.meaning_eq, h.units]
  | .unary .., .unary operand => simp only [Expr.meaning, operand.meaning_eq h]
  | .binary .., .binary left right => simp only [Expr.meaning, left.meaning_eq h, right.meaning_eq h]
  | .call .., .call callee args =>
    simp only [Expr.meaning, args.meanings_eq h, callee]
    exact congrArg _ (funext fun ms => h.callMeaning_eq args _ ms)
  | .var _, .var name => simp only [Expr.meaning, name]

theorem Expr.RespellAll.meanings_eq (h : p.Respells q) (names : Context Meaning) {es es' : List Expr}
    (respelled : Expr.RespellAll p.unitTable es es') : Expr.meanings p names es = Expr.meanings q names es' := by
  match es, respelled with
  | [], .nil => rfl
  | _ :: _, .cons first rest => simp only [Expr.meanings, first.meaning_eq h, rest.meanings_eq h]

end

mutual

theorem Stmt.Respells.after_eq (h : p.Respells q) (expected : Meaning) (names : Context Meaning) {s s' : Stmt}
    (respelled : s.Respells p.unitTable s') : s.after p expected names = s'.after q expected names := by
  match s, respelled with
  | .declare .., .declare name type value =>
    simp only [Stmt.after, name, h.type_meaning_eq type, value.meaning_eq h]
  | .assign .., .assign name value => simp only [Stmt.after, name, value.meaning_eq h]
  | .ifElse .., .ifElse condition body otherwise =>
    simp only [Stmt.after, condition.meaning_eq h, body.afterAll_eq h, otherwise.after_eq h]
  | .loop .., .loop condition body =>
    simp only [Stmt.after, condition.meaning_eq h, body.afterAll_eq h]
  | .ret .., .ret => simp only [Stmt.after, Expr.returned]
  | .ret .., .retValue value => simp only [Stmt.after, Expr.returned, value.meaning_eq h]
  | .call .., .call callee args =>
    simp only [Stmt.after, (Expr.Respells.call callee args).meaning_eq h]
  | .block .., .block body => simp only [Stmt.after, body.afterAll_eq h]

theorem Stmt.RespellAll.afterAll_eq (h : p.Respells q) (expected : Meaning) (names : Context Meaning)
    {ss ss' : List Stmt} (respelled : Stmt.RespellAll p.unitTable ss ss') :
    Stmt.afterAll p expected ss names = Stmt.afterAll q expected ss' names := by
  match ss, respelled with
  | [], .nil => rfl
  | _ :: _, .cons first rest => simp only [Stmt.afterAll, first.after_eq h, rest.afterAll_eq h]

theorem Else.Respells.after_eq (h : p.Respells q) (expected : Meaning) (names : Context Meaning)
    {o o' : Else} (respelled : o.Respells p.unitTable o') :
    o.after p expected names = o'.after q expected names := by
  match o, respelled with
  | .none, .none => rfl
  | .last .., .last body => simp only [Else.after, body.afterAll_eq h]
  | .elseIf .., .elseIf condition body otherwise =>
    simp only [Else.after, condition.meaning_eq h, body.afterAll_eq h, otherwise.after_eq h]

end

theorem Param.names_respelled {params params' : List Param} {table : UnitTable}
    (h : List.Forall₂ (Param.Respells table) params params') :
    params.map (·.name.name) = params'.map (·.name.name) := by
  induction h with
  | nil => rfl
  | cons first _ ih => rw [List.map_cons, List.map_cons, first.name, ih]

theorem Function.Respells.wellTyped (h : p.Respells q) {f g : Function} (respelled : f.Respells p.unitTable g)
    (typed : f.WellTyped p) : g.WellTyped q := by
  obtain ⟨distinct, ms, result, names, takes, means, body⟩ := typed
  have names_eq := Param.names_respelled respelled.params
  refine ⟨names_eq ▸ distinct, ms, result, names, (h.takes_iff respelled.params ms).mp takes, ?_, ?_⟩
  · rw [← h.type_meaning_eq respelled.returnType, means]
  · rw [← respelled.body.afterAll_eq h, ← body, Function.meanings, Function.meanings, names_eq]

theorem Program.Respells.wellTyped (h : p.Respells q) (typed : p.WellTyped) : q.WellTyped where
  units d mem := by
    have declared : (d.name.name, d.unit) ∈ p.unitTable := h.units ▸ List.mem_map_of_mem mem
    obtain ⟨d', mem', same⟩ := List.mem_map.mp declared
    obtain ⟨m, means⟩ := typed.units d' mem'
    refine ⟨m, ?_⟩
    have name : d'.name.name = d.name.name := congrArg Prod.fst same
    rw [← h.units, ← name, means]
  statements := by
    obtain ⟨names, typed⟩ := typed.statements
    exact ⟨names, h.statements.afterAll_eq h _ _ ▸ typed⟩
  functions g mem := by
    obtain ⟨f, mem, respelled⟩ := exists_of_mem_right h.functions mem
    exact respelled.wellTyped h (typed.functions f mem)
  main g found := by
    obtain ⟨hp, hq⟩ | ⟨f, g', hp, hq, respelled⟩ := rel_iff.mp (h.function?_related "main")
    · rw [hq] at found
      cases found
    · rw [hq] at found
      cases found
      have empty := respelled.params
      rw [typed.main f hp] at empty
      exact List.forall₂_nil_left_iff.mp empty

/-- An accepted program stays accepted when units are written in other ways. Only where powers leave their range,
or a root or a power is taken of a unit that cannot be worked out, may the new spelling be refused. -/
theorem Program.checked_of_respells (accepted : p.checked = .ok ()) (h : p.Respells q) :
    q.checked = .ok () ∨ ∃ e, q.checked = .error e ∧ e.fault.SpellingDependent := by
  have typed : q.WellTyped := h.wellTyped (Program.wellTyped_of_checked accepted)
  have ends := q.checked_ends
  cases checked : q.checked with
  | ok _ => exact .inl rfl
  | error e =>
    rw [checked] at ends
    exact .inr ⟨e, rfl, ends.resolve_left (not_not.mpr typed)⟩

end

/-! ### A force in newtons -/

def newton : UnitExpr := .ofName "N"

/-- Newtons in base units. -/
def newtonInBase : UnitExpr := ⟨[⟨"kg", 1⟩, ⟨"m", 1⟩, ⟨"s", -2⟩]⟩

/-- A program that hands a force on through a function whose annotations are written as `unit`. -/
def handsForceOn (unit : UnitExpr) : Program :=
  let named name : Symbol := ⟨name, 1, 1⟩
  { functions := [⟨named "same", [⟨named "x", .quantity unit⟩], .quantity unit,
      [.ret ⟨1, 1⟩ (some (.var (named "x")))]⟩]
    units := [⟨named "N", newtonInBase⟩]
    statements := [.declare (named "f") (.quantity newton)
      (.call (named "same") [.literal (.int 1 (some newton)) ⟨1, 1⟩])] }

theorem handsForceOn_respells : (handsForceOn newton).Respells (handsForceOn newtonInBase) where
  units := rfl
  functions := by
    have unit : (Ty.quantity newton).Respells (handsForceOn newton).unitTable (.quantity newtonInBase) :=
      .unit (by decide +kernel)
    exact .cons ⟨rfl, .cons ⟨rfl, unit⟩ .nil, unit, .cons (.retValue (.var rfl)) .nil⟩ .nil
  statements := .cons (.declare rfl .same (.call rfl (.cons (.literal .same) .nil))) .nil

theorem checked_of_respells_newton :
    (handsForceOn newton).checked = .ok () ∧ (handsForceOn newton).Respells (handsForceOn newtonInBase) ∧
      ((handsForceOn newtonInBase).checked = .ok () ∨
        ∃ e, (handsForceOn newtonInBase).checked = .error e ∧ e.fault.SpellingDependent) :=
  ⟨by decide +kernel, handsForceOn_respells,
    Program.checked_of_respells (by decide +kernel) handsForceOn_respells⟩

end Mensura
