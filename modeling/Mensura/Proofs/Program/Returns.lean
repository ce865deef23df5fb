import Mensura.Program.Parser

/-!
Where `return` may stand. A statement that is read outside of functions has none in it, however deep its blocks
nest. Main statement: the statements of a program that is read from a text never return.
-/

namespace Mensura

mutual

/-- Whether a `return` stands somewhere in a statement. -/
def Stmt.returns : Stmt → Bool
  | .ret .. => true
  | .ifElse _ body otherwise => Stmt.anyReturns body || otherwise.returns
  | .loop _ body => Stmt.anyReturns body
  | .block body => Stmt.anyReturns body
  | .declare .. | .assign .. | .call .. => false

def Stmt.anyReturns : List Stmt → Bool
  | [] => false
  | s :: ss => s.returns || Stmt.anyReturns ss

def Else.returns : Else → Bool
  | .none => false
  | .last body => Stmt.anyReturns body
  | .elseIf _ body otherwise => Stmt.anyReturns body || otherwise.returns

end

theorem Stmt.anyReturns_eq_false {ss : List Stmt} : Stmt.anyReturns ss = false ↔ ∀ s ∈ ss, s.returns = false := by
  induction ss with
  | nil => simp [Stmt.anyReturns]
  | cons s ss ih => simp [Stmt.anyReturns, ih]

namespace Parser

variable {α β : Type} {good : α → Prop} {better : β → Prop}

/-- Whatever is read is as `good` says. -/
def Yields (x : Parser α) (good : α → Prop) : Prop := ∀ s a t, x s = .ok (a, t) → good a

theorem Yields.pure {a : α} (h : good a) : Yields (Pure.pure a) good := by
  intro s b t read
  cases read
  exact h

theorem Yields.refuse {r : Refusal} : Yields (refuse r) good := nofun

theorem Yields.mismatch {expected : List Token.Kind} : Yields (mismatch expected) good := nofun

theorem Yields.anything {x : Parser α} : Yields x fun _ => True := fun _ _ _ _ => trivial

theorem Yields.bind {x : Parser α} {f : α → Parser β} (first : Yields x good)
    (rest : ∀ a, good a → Yields (f a) better) : Yields (x >>= f) better := by
  intro s b u read
  change ((x s).bind fun (a, t) => f a t) = .ok (b, u) at read
  cases h : x s with
  | error r => rw [h] at read; cases read
  | ok r =>
    rw [h] at read
    exact rest r.1 (first s r.1 r.2 h) r.2 b u read

/-- What is read in between may be anything. -/
theorem Yields.skip {x : Parser α} {f : α → Parser β} (rest : ∀ a, Yields (f a) better) :
    Yields (x >>= f) better := .bind .anything fun a _ => rest a

theorem Yields.many {item : Parser (Option α)} (h : Yields item fun o => ∀ a, o = some a → good a) (n : Nat) :
    Yields (many item n) fun as => ∀ a ∈ as, good a := by
  induction n with
  | zero => exact .pure nofun
  | succ n ih =>
    refine h.bind ?_
    intro o found
    cases o with
    | none => exact .pure nofun
    | some a =>
      refine ih.bind ?_
      intro as rest
      exact .pure (List.forall_mem_cons.mpr ⟨found a rfl, rest⟩)

theorem block_yields {nested : Parser Stmt} (h : Yields nested fun s => s.returns = false) (n : Nat) :
    Yields (block nested n) fun body => Stmt.anyReturns body = false := by
  have next : Yields
      (do
        let kind ← peekKind
        if kind = .rightBrace ∨ kind = .etx then return none else return some (← nested))
      fun o => ∀ s, o = some s → s.returns = false := by
    apply Yields.skip
    intro kind
    split
    · exact .pure nofun
    · refine h.bind ?_
      intro s free
      apply Yields.pure
      rintro _ ⟨⟩
      exact free
  refine (next.many n).bind ?_
  intro body free
  exact .skip fun _ => .pure (Stmt.anyReturns_eq_false.mpr free)

theorem alternatives_yields {condition : Parser Expr} {body : Parser (List Stmt)}
    (h : Yields body fun ss => Stmt.anyReturns ss = false) (n : Nat) :
    Yields (alternatives condition body n) fun o => o.returns = false := by
  induction n with
  | zero => exact .pure rfl
  | succ n ih =>
    apply Yields.skip
    intro found
    split
    · apply Yields.skip
      intro further
      split
      · refine .skip fun c => .skip fun _ => ?_
        refine h.bind ?_
        intro b free
        refine ih.bind ?_
        intro o rest
        exact .pure (by simp [Else.returns, free, rest])
      · exact .skip fun _ => h.bind fun b free => .pure free
    · exact .pure rfl

theorem declaration_yields (n : Nat) : Yields (declaration n) fun s => s.returns = false :=
  .skip fun _ => .skip fun _ => .skip fun _ => .skip fun _ => .skip fun _ => .pure rfl

theorem namedStatement_yields (n : Nat) (name : Symbol) :
    Yields (namedStatement n name) fun s => s.returns = false := by
  apply Yields.skip
  intro assigned
  split
  · exact .skip fun _ => .pure rfl
  apply Yields.skip
  intro called
  split
  · exact .skip fun _ => .pure rfl
  · exact .mismatch

/-- Outside of functions a `return` is refused. -/
theorem returnStatement_yields {good : Stmt → Prop} (n : Nat) : Yields (returnStatement false n) good := by
  apply Yields.skip
  intro token s a t read
  cases read

theorem statement_yields (n : Nat) : Yields (statement false n) fun s => s.returns = false := by
  induction n with
  | zero => exact .mismatch
  | succ n ih =>
    have body := block_yields ih n
    apply Yields.skip
    intro kind
    split
    · exact .skip fun _ => declaration_yields n
    · refine .skip fun _ => .skip fun c => .skip fun _ => ?_
      refine body.bind ?_
      intro first free
      refine (alternatives_yields body n).bind ?_
      intro o rest
      exact .pure (by simp [Stmt.returns, free, rest])
    · exact .skip fun _ => .skip fun c => .skip fun _ => body.bind fun b free => .pure free
    · exact returnStatement_yields n
    · exact .skip fun _ => body.bind fun b free => .pure free
    · exact .skip fun name => namedStatement_yields n name
    · exact .mismatch

/-- A statement that stands on its own does not return. -/
def Item.Free : Item → Prop
  | .statement s => s.returns = false
  | _ => True

theorem functionFrom_yields (n : Nat) (name : Symbol) (params : List Param) :
    Yields (functionFrom n name params) Item.Free :=
  .skip fun _ => .skip fun _ => .skip fun _ => .pure trivial

theorem callOrFunction_yields (n : Nat) (name : Symbol) : Yields (callOrFunction n name) Item.Free := by
  apply Yields.skip
  intro closed
  split
  · apply Yields.skip
    intro arrow
    split
    · exact functionFrom_yields n name []
    · exact .pure rfl
  apply Yields.skip
  intro kind
  split
  · refine .skip fun first => .skip fun colon => ?_
    split
    · exact .skip fun _ => .skip fun _ => .skip fun _ => .skip fun _ => functionFrom_yields n name _
    · exact .skip fun _ => .skip fun _ => .pure rfl
  · exact .skip fun _ => .pure rfl

theorem item_yields (n : Nat) : Yields (item n) Item.Free := by
  apply Yields.skip
  intro kind
  split
  · exact .skip fun _ => .skip fun _ => .skip fun _ => .skip fun _ => .skip fun _ => .pure trivial
  · refine .skip fun name => .skip fun called => ?_
    split
    · exact callOrFunction_yields n name
    · exact (namedStatement_yields n name).bind fun s free => .pure free
  · exact (statement_yields n).bind fun s free => .pure free

theorem add_yields {p : Program} (free : Stmt.anyReturns p.statements = false) {i : Item} (h : i.Free) :
    Yields (add p i) fun q => Stmt.anyReturns q.statements = false := by
  cases i with
  | unit d =>
    simp only [add]
    split
    · exact .refuse
    · exact .pure free
  | function f =>
    simp only [add]
    split
    · exact .refuse
    · exact .pure free
  | statement s =>
    apply Yields.pure
    rw [Stmt.anyReturns_eq_false]
    intro t mem
    obtain mem | mem := List.mem_append.mp mem
    · exact Stmt.anyReturns_eq_false.mp free t mem
    · exact List.mem_singleton.mp mem ▸ h

theorem items_yields (n rounds : Nat) {p : Program} (free : Stmt.anyReturns p.statements = false) :
    Yields (items n rounds p) fun q => Stmt.anyReturns q.statements = false := by
  induction rounds generalizing p with
  | zero => exact .pure free
  | succ rounds ih =>
    apply Yields.skip
    intro kind
    split
    · exact .pure free
    · exact (item_yields n).bind fun i h => (add_yields free h).bind fun q free => ih free

end Parser

/-- No `return` stands outside of the functions of a program that is read from a text. -/
theorem Program.anyReturns_of_ofText {limits : Limits} {text : String} {p : Program}
    (read : Program.ofText limits text = .ok p) : Stmt.anyReturns p.statements = false := by
  unfold ofText ofTokens at read
  generalize (TokenStream.ofText limits text).withoutComments = s at read
  dsimp only at read
  split at read
  · cases read
  · cases h : Parser.items s.tokens.length s.tokens.length .empty s with
    | error r => rw [h] at read; cases read
    | ok r =>
      rw [h] at read
      cases read
      exact Parser.items_yields _ _ rfl s r.1 r.2 h

end Mensura
