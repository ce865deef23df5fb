import Mensura.Proofs.Evaluation.Rewriting
import Mensura.Proofs.Typing.Overlooked

/-!
Rewriting inside a program, and what checking makes of it. No check looks into the body of another function, and
functions are checked in the order of their names, which stay where they are. Main statement: if statements are replaced
by others that are checked alike wherever they stand, then the whole program is checked alike, to the same first error.
-/

namespace Mensura

/-- Statements are checked as others are, in whatever program. -/
def Stmt.AllCheckAs (ss' ss : List Stmt) : Prop := ∀ p : Program, Stmt.checkAll p ss' = Stmt.checkAll p ss

section
variable {R : List Stmt → List Stmt → Prop} {p q : Program}

mutual

theorem Stmt.Rewrites.check (alike : ∀ ss ss', R ss ss' → Stmt.AllCheckAs ss' ss) {s s' : Stmt}
    (rewritten : Stmt.Rewrites R s s') : s'.check p = s.check p := by
  cases rewritten with
  | branch inside => rw [Stmt.check, Stmt.check, Stmt.AllRewrite.checkAll alike inside]
  | otherwise inside => rw [Stmt.check, Stmt.check, Else.Rewrites.check alike inside]
  | loop inside => rw [Stmt.check, Stmt.check, Stmt.AllRewrite.checkAll alike inside]
  | block inside => rw [Stmt.check, Stmt.check, Stmt.AllRewrite.checkAll alike inside]

theorem Stmt.AllRewrite.checkAll (alike : ∀ ss ss', R ss ss' → Stmt.AllCheckAs ss' ss) {ss ss' : List Stmt}
    (rewritten : Stmt.AllRewrite R ss ss') : Stmt.checkAll p ss' = Stmt.checkAll p ss := by
  cases rewritten with
  | here replaced => exact alike _ _ replaced p
  | first inside => rw [Stmt.checkAll, Stmt.checkAll, Stmt.Rewrites.check alike inside]
  | later behind => rw [Stmt.checkAll, Stmt.checkAll, Stmt.AllRewrite.checkAll alike behind]

theorem Else.Rewrites.check (alike : ∀ ss ss', R ss ss' → Stmt.AllCheckAs ss' ss) {o o' : Else}
    (rewritten : Else.Rewrites R o o') : o'.check p = o.check p := by
  cases rewritten with
  | last inside => rw [Else.check, Else.check, Stmt.AllRewrite.checkAll alike inside]
  | body inside => rw [Else.check, Else.check, Stmt.AllRewrite.checkAll alike inside]
  | otherwise inside => rw [Else.check, Else.check, Else.Rewrites.check alike inside]

end

namespace Program

/-- Two functions with one header are checked alike if their bodies are. -/
theorem checkFunction_congr {f : Function} {body : List Stmt}
    (alike : Stmt.checkAll p body = Stmt.checkAll p f.body) :
    p.checkFunction { f with body := body } = p.checkFunction f := by
  have header : Function.header { f with body := body } = f.header := rfl
  unfold checkFunction
  simp only [Stmt.inCall_checkAll p header, alike]
  rfl

/-- The order of the functions is known from the places of their names. -/
theorem forM_functionsInOrder (p : Program) (step : Function → Check PUnit) :
    p.functionsInOrder.forM step =
      ((p.functions.map fun f => (f.name.position, step f)).mergeSort fun a b => a.1.le b.1).forM Prod.snd := by
  have sorted : p.functionsInOrder.map (fun f => (f.name.position, step f)) =
      (p.functions.map fun f => (f.name.position, step f)).mergeSort fun a b => a.1.le b.1 :=
    List.map_mergeSort fun _ _ _ _ => rfl
  rw [← sorted, List.forM_eq_forM, List.forM_eq_forM, List.forM_map]

/-- Whatever is rewritten, the functions keep their headers, and the units are not touched. -/
theorem Rewrites.checksAs (rewritten : p.Rewrites R q) : q.ChecksAs p := by
  cases rewritten with
  | @body front behind f body units statements inside =>
    refine ⟨fun name => ?_, fun u => rfl⟩
    simp only [function?, List.find?_append, List.find?_cons]
    cases front.find? (·.name.name == name) with
    | some g => rfl
    | none =>
      cases f.name.name == name with
      | true => rfl
      | false => rfl
  | statements inside => exact ⟨fun name => rfl, fun u => rfl⟩

/-- A program is checked alike with other statements in it that are checked alike. -/
theorem Rewrites.check (alike : ∀ ss ss', R ss ss' → Stmt.AllCheckAs ss' ss) (rewritten : p.Rewrites R q) :
    q.check = p.check := by
  have found := rewritten.checksAs
  cases rewritten with
  | @body front behind f body units statements inside =>
    have changed := checkFunction_congr (p := ⟨front ++ f :: behind, units, statements⟩) (inside.checkAll alike)
    simp only [Program.check, forM_functionsInOrder, found.checkUnitDeclaration, found.checkFunction, found.checkMain,
      Stmt.checkAll_congr found, List.map_append, List.map_cons, changed]
    rfl
  | statements inside =>
    simp only [Program.check, found.checkUnitDeclaration, found.checkFunction, found.checkMain,
      Stmt.checkAll_congr found, inside.checkAll alike]
    rfl

end Program

end

end Mensura
