import Mensura.Typing.Expr

/-!
Checking a program before it runs: every name is declared before it is used and never twice within reach of
each other, every operation fits its operands, and functions return what they say. The first error ends the
check. What has been declared until then is kept, but the blocks and the call that were under way are closed.
-/

namespace Mensura

/-- The names in scope, and the function whose body is being checked. -/
structure Checker where
  names : CallStack Ty
  function : Option Function

/-- Before anything is checked. -/
def Checker.start : Checker := ⟨.empty, none⟩

/-- A check that changes what is in scope, and keeps the changes also when it fails. -/
abbrev Check := ExceptT TypingError (StateM Checker)

namespace Check

def fail (fault : TypingFault) (position : Position) : Check Unit := throw ⟨fault, position⟩

/-- A check that does not look at what is in scope. -/
def ofExcept {α : Type} (result : Except TypingError α) : Check α := fun s => (result, s)

/-- The names that are in scope at the present place. -/
def context : Check (Context Ty) := fun s => (.ok s.names.current, s)

def declare (name : String) (type : Ty) : Check Unit := fun s =>
  (.ok (), { s with names := s.names.modify (·.declare name type) })

/-- A check inside a scope of its own. -/
def inBlock (body : Check Unit) : Check Unit := fun s =>
  let (result, t) := body { s with names := s.names.modify .push }
  (result, { t with names := t.names.modify .pop })

/-- A check inside the body of a function. -/
def inCall (f : Function) (parameters : Scope Ty) (body : Check Unit) : Check Unit := fun s =>
  let (result, t) := body ⟨s.names.enter parameters, some f⟩
  (result, ⟨t.names.exit, none⟩)

/-! What the checks come to from a given state. -/

theorem run_inBlock (body : Check Unit) (s : Checker) :
    (inBlock body).run.run s = (body.run.run { s with names := s.names.modify .push }).map id
      fun t => { t with names := t.names.modify .pop } := rfl

theorem run_inCall (f : Function) (parameters : Scope Ty) (body : Check Unit) (s : Checker) :
    (inCall f parameters body).run.run s = (body.run.run ⟨s.names.enter parameters, some f⟩).map id
      fun t => ⟨t.names.exit, none⟩ := rfl

end Check

namespace Program

/-- The type of an expression at the present place. -/
def typeOf (p : Program) (e : Expr) : Check Ty := do
  let names ← Check.context
  Check.ofExcept (e.type p names)

def checkCondition (p : Program) (condition : Expr) : Check Unit := do
  let type ← p.typeOf condition
  Check.ofExcept (p.expectType .bool type condition.position)

/-- A name is declared behind its value, which cannot use it. -/
def checkDeclaration (p : Program) (name : Symbol) (type : Ty) (value : Expr) : Check Unit := do
  if (← Check.context).declares name.name then
    Check.fail (.variableRedeclared name.name) name.position
  Check.ofExcept (p.checkType type name.position)
  let found ← p.typeOf value
  Check.ofExcept (p.expectType type found value.position)
  Check.declare name.name type

def checkAssignment (p : Program) (name : Symbol) (value : Expr) : Check Unit := do
  match (← Check.context).lookup name.name with
  | none => Check.fail (.variableUndeclared name.name) name.position
  | some type => do
    let found ← p.typeOf value
    Check.ofExcept (p.expectType type found value.position)

/-- The value of a `return`, which outside of functions has to be void. -/
def checkReturn (p : Program) (position : Position) (value : Option Expr) : Check Unit := do
  let found ← match value with
    | some e => p.typeOf e
    | none => pure .void
  let function := (← get).function
  let expected := (function.map Function.returnType).getD .void
  if ← Check.ofExcept (p.sameType position expected found) then return ()
  let name := (function.map (·.name.name)).getD ""
  Check.fail (.returnMismatch name expected found) position

end Program

mutual

def Stmt.check (p : Program) : Stmt → Check Unit
  | .declare name type value => p.checkDeclaration name type value
  | .assign name value => p.checkAssignment name value
  | .ifElse condition body otherwise => do
    p.checkCondition condition
    Check.inBlock (Stmt.checkAll p body)
    otherwise.check p
  | .loop condition body => do
    p.checkCondition condition
    Check.inBlock (Stmt.checkAll p body)
  | .ret position value => p.checkReturn position value
  | .call callee args => do
    let _ ← p.typeOf (.call callee args)
  | .block body => Check.inBlock (Stmt.checkAll p body)

def Stmt.checkAll (p : Program) : List Stmt → Check Unit
  | [] => return ()
  | s :: ss => do
    s.check p
    Stmt.checkAll p ss

def Else.check (p : Program) : Else → Check Unit
  | .none => return ()
  | .last body => Check.inBlock (Stmt.checkAll p body)
  | .elseIf condition body otherwise => do
    p.checkCondition condition
    Check.inBlock (Stmt.checkAll p body)
    otherwise.check p

end

namespace Program

/-- The scope of the parameters of a function, no name among them twice. -/
def parameterTypes (p : Program) (f : Function) : Except TypingError (Scope Ty) :=
  f.params.foldlM (fun scope param => do
    if scope.contains param.name.name then
      throw ⟨.parameterRepeated f.name.name param.name.name, param.name.position⟩
    p.checkType param.type param.name.position
    return scope.set param.name.name param.type) .empty

def checkFunction (p : Program) (f : Function) : Check Unit := do
  let parameters ← Check.ofExcept (p.parameterTypes f)
  Check.ofExcept (p.checkType f.returnType f.name.position)
  Check.inCall f parameters (Stmt.checkAll p f.body)

/-- A declared unit can be worked out down to base units. -/
def checkUnitDeclaration (p : Program) (d : UnitDeclaration) : Check Unit :=
  Check.ofExcept (p.checkUnit (.ofName d.name.name) d.name.position)

/-- The function that a program begins with has no parameters. -/
def checkMain (p : Program) : Check Unit :=
  match p.function? "main" with
  | some f =>
    if f.params.isEmpty then return ()
    else Check.fail (.argumentCount f.name.name 0 f.params.length) f.name.position
  | none => return ()

/-- Checks the units, the statements and the functions of a program. -/
def check (p : Program) : Check Unit := do
  p.unitsInOrder.forM p.checkUnitDeclaration
  Stmt.checkAll p p.statements
  p.functionsInOrder.forM p.checkFunction
  p.checkMain

/-- The first error of a program, if it has any. -/
def checked (p : Program) : Except TypingError Unit := (p.check.run.run .start).1

end Program

end Mensura
