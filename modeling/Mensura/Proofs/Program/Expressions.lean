import Mensura.Proofs.Grammar.Program
import Mensura.Proofs.Printing.Scan

/-!
The expressions in a program, wherever they stand in it. Main statement: every integer in a program is a literal among
the tokens that the program is read from, so no integer in a text is negative.
-/

namespace Mensura

mutual

/-- An expression and what it is made of, at any depth: operands and arguments. -/
def Expr.parts : Expr → List Expr
  | .literal value position => [.literal value position]
  | .var name => [.var name]
  | .unary op position operand => .unary op position operand :: operand.parts
  | .binary left op position right => .binary left op position right :: (left.parts ++ right.parts)
  | .call callee args => .call callee args :: Expr.allParts args

def Expr.allParts : List Expr → List Expr
  | [] => []
  | e :: es => e.parts ++ Expr.allParts es

end

mutual

/-- The expressions in a statement, with what they are made of. -/
def Stmt.expressions : Stmt → List Expr
  | .declare _ _ value => value.parts
  | .assign _ value => value.parts
  | .ifElse condition body otherwise => condition.parts ++ (Stmt.allExpressions body ++ otherwise.expressions)
  | .loop condition body => condition.parts ++ Stmt.allExpressions body
  | .ret _ (some value) => value.parts
  | .ret _ none => []
  | .call _ args => Expr.allParts args
  | .block body => Stmt.allExpressions body

def Stmt.allExpressions : List Stmt → List Expr
  | [] => []
  | s :: ss => s.expressions ++ Stmt.allExpressions ss

def Else.expressions : Else → List Expr
  | .none => []
  | .last body => Stmt.allExpressions body
  | .elseIf condition body otherwise => condition.parts ++ (Stmt.allExpressions body ++ otherwise.expressions)

end

def Parser.Item.expressions : Parser.Item → List Expr
  | .unit _ => []
  | .function f => Stmt.allExpressions f.body
  | .statement s => s.expressions

/-- The expressions in a program: in the bodies of its functions and in its statements. -/
def Program.expressions (p : Program) : List Expr :=
  (p.functions.flatMap fun f => Stmt.allExpressions f.body) ++ Stmt.allExpressions p.statements

/-! ### Parts of parts -/

/-- With an expression all its parts are there. -/
def Expr.Complete (es : List Expr) : Prop := ∀ e ∈ es, e.parts ⊆ es

namespace Expr.Complete

variable {e : Expr} {es fs : List Expr}

theorem nil : Complete [] := nofun

theorem append (first : Complete es) (second : Complete fs) : Complete (es ++ fs) := by
  intro e mem
  obtain mem | mem := List.mem_append.mp mem
  · exact List.Subset.trans (first e mem) (List.subset_append_left es fs)
  · exact List.Subset.trans (second e mem) (List.subset_append_right es fs)

/-- In front of its proper parts an expression can be put. -/
theorem whole (split : e.parts = e :: es) (h : Complete es) : Complete (e :: es) := by
  intro d mem
  obtain rfl | mem := List.mem_cons.mp mem
  · exact split ▸ List.Subset.refl _
  · exact List.Subset.trans (h d mem) (List.subset_cons_self e es)

theorem flatMap {α : Type} {f : α → List Expr} {as : List α} (each : ∀ a ∈ as, Complete (f a)) :
    Complete (as.flatMap f) := by
  intro e mem d part
  obtain ⟨a, listed, mem⟩ := List.mem_flatMap.mp mem
  exact List.mem_flatMap.mpr ⟨a, listed, each a listed e mem part⟩

end Expr.Complete

mutual

theorem Expr.complete_parts : (e : Expr) → Complete e.parts
  | .literal _ _ | .var _ => .whole rfl .nil
  | .unary _ _ operand => .whole rfl operand.complete_parts
  | .binary left _ _ right => .whole rfl (left.complete_parts.append right.complete_parts)
  | .call _ args => .whole rfl (Expr.complete_allParts args)

theorem Expr.complete_allParts : (es : List Expr) → Complete (Expr.allParts es)
  | [] => .nil
  | e :: es => e.complete_parts.append (Expr.complete_allParts es)

end

mutual

theorem Stmt.complete_expressions : (s : Stmt) → Expr.Complete s.expressions
  | .declare _ _ value | .assign _ value => value.complete_parts
  | .ifElse condition body otherwise =>
    condition.complete_parts.append ((Stmt.complete_allExpressions body).append otherwise.complete_expressions)
  | .loop condition body => condition.complete_parts.append (Stmt.complete_allExpressions body)
  | .ret _ (some value) => value.complete_parts
  | .ret _ none => .nil
  | .call _ args => Expr.complete_allParts args
  | .block body => Stmt.complete_allExpressions body

theorem Stmt.complete_allExpressions : (ss : List Stmt) → Expr.Complete (Stmt.allExpressions ss)
  | [] => .nil
  | s :: ss => s.complete_expressions.append (Stmt.complete_allExpressions ss)

theorem Else.complete_expressions : (o : Else) → Expr.Complete o.expressions
  | .none => .nil
  | .last body => Stmt.complete_allExpressions body
  | .elseIf condition body otherwise =>
    condition.complete_parts.append ((Stmt.complete_allExpressions body).append otherwise.complete_expressions)

end

theorem Program.complete_expressions (p : Program) : Expr.Complete p.expressions :=
  .append (.flatMap fun f _ => Stmt.complete_allExpressions f.body) (Stmt.complete_allExpressions p.statements)

/-! ### Integers among the tokens -/

theorem Stmt.mem_allExpressions {ss : List Stmt} {e : Expr} :
    e ∈ Stmt.allExpressions ss ↔ ∃ s ∈ ss, e ∈ s.expressions := by
  induction ss with
  | nil => simp [Stmt.allExpressions]
  | cons s ss ih => simp [Stmt.allExpressions, ih]

theorem Program.mem_expressions_ofItems {is : List Parser.Item} {e : Expr} (mem : e ∈ (ofItems is).expressions) :
    ∃ i ∈ is, e ∈ i.expressions := by
  simp only [expressions, ofItems, extend, empty, List.nil_append, List.mem_append, List.mem_flatMap,
    Stmt.mem_allExpressions, List.mem_filterMap] at mem
  obtain ⟨f, ⟨i, listed, found⟩, mem⟩ | ⟨s, ⟨i, listed, found⟩, mem⟩ := mem
  · cases i <;> cases found
    exact ⟨_, listed, Stmt.mem_allExpressions.mpr mem⟩
  · cases i <;> cases found
    exact ⟨_, listed, mem⟩

namespace Grammar

/-- Every integer among the expressions is a literal among the tokens. -/
def Counted (ts : List Token) (es : List Expr) : Prop :=
  ∀ n unit position, Expr.literal (.int n unit) position ∈ es → ∃ t ∈ ts, Counts t n

namespace Counted

variable {ts us : List Token} {e : Expr} {es fs : List Expr}

theorem nil : Counted ts [] := nofun

theorem mono (h : Counted ts es) (within : ts ⊆ us) : Counted us es := by
  intro n unit position mem
  obtain ⟨t, among, counts⟩ := h n unit position mem
  exact ⟨t, within among, counts⟩

theorem tail {t : Token} (h : Counted ts es) : Counted (t :: ts) es := h.mono (List.subset_cons_self t ts)

theorem append (first : Counted ts es) (second : Counted ts fs) : Counted ts (es ++ fs) := by
  intro n unit position mem
  obtain mem | mem := List.mem_append.mp mem
  · exact first n unit position mem
  · exact second n unit position mem

/-- In front there is no integer. -/
theorem cons (other : ∀ n unit position, e ≠ .literal (.int n unit) position) (h : Counted ts es) :
    Counted ts (e :: es) := by
  intro n unit position mem
  obtain same | mem := List.mem_cons.mp mem
  · exact absurd same.symm (other n unit position)
  · exact h n unit position mem

theorem int {t : Token} {n : Int64} {unit : Option UnitExpr} {position : Position} (counts : Counts t n) :
    Counted (t :: ts) [.literal (.int n unit) position] := by
  intro m unit' position' mem
  cases List.mem_singleton.mp mem
  exact ⟨t, List.mem_cons_self, counts⟩

end Counted

mutual

theorem Tier.counted {r : Nat} {ts rest : List Token} {e : Expr} : Tier r ts e rest → Counted ts e.parts
  | .operand h => h.counted
  | .tighter h => h.counted
  | .binary first _ second =>
    .cons nofun (first.counted.append (second.counted.tail.mono first.passes.subset))

theorem Operand.counted {ts rest : List Token} {e : Expr} : Operand ts e rest → Counted ts e.parts
  | .plain h => h.counted
  | .unary _ primary => .cons nofun primary.counted.tail

theorem Primary.counted {ts rest : List Token} {e : Expr} : Primary ts e rest → Counted ts e.parts
  | .int counts _ => .int counts
  | .float _ _ _ | .yes _ | .no _ | .text _ _ | .var _ => .cons nofun .nil
  | .call _ _ arguments => .cons nofun arguments.counted.tail.tail
  | .group _ inner _ => inner.counted.tail

theorem Arguments.counted {ts rest : List Token} {es : List Expr} : Arguments ts es rest →
    Counted ts (Expr.allParts es)
  | .none _ => .nil
  | .some first others => first.counted.append (others.counted.mono first.passes.subset)

theorem MoreArguments.counted {ts rest : List Token} {es : List Expr} : MoreArguments ts es rest →
    Counted ts (Expr.allParts es)
  | .none _ => .nil
  | .some _ first others => (first.counted.append (others.counted.mono first.passes.subset)).tail

end

mutual

theorem Statement.counted {inFunction : Bool} {ts rest : List Token} {s : Stmt} : Statement inFunction ts s rest →
    Counted ts s.expressions
  | .declare _ _ _ type _ value => (value.counted.tail.mono type.passes.subset).tail.tail.tail
  | .assign _ _ value => value.counted.tail.tail
  | .call _ _ arguments => arguments.counted.tail.tail
  | .ifElse _ condition first otherwise =>
    have branches := first.counted.append (otherwise.counted.mono first.passes.subset)
    (condition.counted.append (branches.mono condition.passes.subset)).tail
  | .loop _ condition repeated => (condition.counted.append (repeated.counted.mono condition.passes.subset)).tail
  | .ret _ _ value => value.counted.tail
  | .retBare _ _ _ => .nil
  | .block block => block.counted

theorem Block.counted {inFunction : Bool} {ts rest : List Token} {ss : List Stmt} : Block inFunction ts ss rest →
    Counted ts (Stmt.allExpressions ss)
  | .braces _ inside => inside.counted.tail

theorem Body.counted {inFunction : Bool} {ts rest : List Token} {ss : List Stmt} : Body inFunction ts ss rest →
    Counted ts (Stmt.allExpressions ss)
  | .close _ => .nil
  | .more first others => first.counted.append (others.counted.mono first.passes.subset)

theorem Otherwise.counted {inFunction : Bool} {ts rest : List Token} {o : Else} : Otherwise inFunction ts o rest →
    Counted ts o.expressions
  | .none => .nil
  | .last _ block => block.counted.tail
  | .elseIf _ _ condition block otherwise =>
    have branches := block.counted.append (otherwise.counted.mono block.passes.subset)
    (condition.counted.append (branches.mono condition.passes.subset)).tail.tail

end

theorem Item.counted {ts rest : List Token} {i : Parser.Item} (h : Item ts i rest) : Counted ts i.expressions := by
  cases h with
  | unit => exact .nil
  | function _ _ parameters _ returnType block =>
    have body := block.counted.mono returnType.passes.subset
    exact (body.tail.mono parameters.passes.subset).tail.tail
  | statement statement => exact statement.counted

theorem Items.counted {ts : List Token} {is : List Parser.Item} (h : Items ts is) :
    ∀ i ∈ is, Counted ts i.expressions := by
  induction h with
  | none => exact nofun
  | some first _ ih =>
    intro j mem
    obtain rfl | mem := List.mem_cons.mp mem
    · exact first.counted
    · exact (ih j mem).mono first.passes.subset

end Grammar

/-- An integer in a program that is read from a text is a literal of it: it is not negative and keeps to the limit. -/
theorem Program.int_mem_bounds {limits : Limits} {text : String} {p : Program} (read : ofText limits text = .ok p)
    {n : Int64} {unit : Option UnitExpr} {position : Position}
    (mem : .literal (.int n unit) position ∈ p.expressions) : 0 ≤ n.toInt ∧ n.toInt ≤ limits.integer.toInt := by
  have legible := TokenStream.legible_withoutComments limits text
  obtain ⟨-, is, derived, -, rfl⟩ := items_of_ofTokens (fun t mem => (legible t mem).2) read
  obtain ⟨i, listed, mem⟩ := mem_expressions_ofItems mem
  obtain ⟨t, among, counts⟩ := derived.counted i listed n unit position mem
  exact (legible t among).1.counts counts

end Mensura
