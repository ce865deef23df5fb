import Mensura.Proofs.Grammar.Completeness
import Mensura.Proofs.Result

/-!
Whole programs. Main statement: from proper tokens a program is read just if the grammar derives its items from
them and no name is defined twice; and no more than one list of items is derived from the same tokens.
-/

namespace Mensura

open Mensura.Parser

/-- Something is defined that has been defined before. -/
inductive SyntaxFault.Redefines : SyntaxFault → Prop where
  | function (name : Symbol) : Redefines (.functionRedefined name)
  | unit (name : Symbol) : Redefines (.unitRedefined name)

namespace Parser.Item

def function? : Item → Option Function
  | .function f => some f
  | _ => none

def unit? : Item → Option UnitDeclaration
  | .unit d => some d
  | _ => none

def statement? : Item → Option Stmt
  | .statement s => some s
  | _ => none

end Parser.Item

namespace Program

/-- Puts items behind what is there already. Each goes to its own list, where they stay in their order. -/
def extend (p : Program) (is : List Item) : Program where
  functions := p.functions ++ is.filterMap Item.function?
  units := p.units ++ is.filterMap Item.unit?
  statements := p.statements ++ is.filterMap Item.statement?

def ofItems (is : List Item) : Program := empty.extend is

/-- No function and no unit is defined twice. -/
structure Distinct (p : Program) : Prop where
  functions : (p.functions.map (·.name.name)).Nodup
  units : (p.units.map (·.name.name)).Nodup

theorem extend_nil (p : Program) : p.extend [] = p := by
  simp [extend]

theorem extend_cons (p : Program) (i : Item) (is : List Item) : p.extend (i :: is) = (p.extend [i]).extend is := by
  simp only [extend, List.append_assoc, ← List.filterMap_append, List.singleton_append]

theorem extend_unit (p : Program) (d : UnitDeclaration) :
    p.extend [.unit d] = { p with units := p.units ++ [d] } := by
  simp [extend, List.filterMap_cons, Item.function?, Item.unit?, Item.statement?]

theorem extend_function (p : Program) (f : Function) :
    p.extend [.function f] = { p with functions := p.functions ++ [f] } := by
  simp [extend, List.filterMap_cons, Item.function?, Item.unit?, Item.statement?]

theorem extend_statement (p : Program) (s : Stmt) :
    p.extend [.statement s] = { p with statements := p.statements ++ [s] } := by
  simp [extend, List.filterMap_cons, Item.function?, Item.unit?, Item.statement?]

theorem Distinct.of_extend {p : Program} {is : List Item} (h : (p.extend is).Distinct) : p.Distinct where
  functions := by
    have := h.functions
    rw [extend, List.map_append] at this
    exact (List.nodup_append.mp this).1
  units := by
    have := h.units
    rw [extend, List.map_append] at this
    exact (List.nodup_append.mp this).1

theorem isSome_function?_iff {p : Program} {name : String} :
    (p.function? name).isSome ↔ name ∈ p.functions.map (·.name.name) := by
  simp only [function?, List.find?_isSome, beq_iff_eq, List.mem_map]

theorem declaresUnit_iff {p : Program} {name : String} :
    p.declaresUnit name = true ↔ name ∈ p.units.map (·.name.name) := by
  simp only [declaresUnit, List.any_eq_true, beq_iff_eq, List.mem_map]

theorem nodup_map_concat {α : Type} {name : α → String} {as : List α} {a : α} :
    ((as ++ [a]).map name).Nodup ↔ (as.map name).Nodup ∧ name a ∉ as.map name := by
  rw [List.map_append, List.map_singleton, List.nodup_append]
  constructor
  · rintro ⟨old, -, apart⟩
    exact ⟨old, fun mem => apart _ mem _ List.mem_cons_self rfl⟩
  · rintro ⟨old, new⟩
    refine ⟨old, by simp, ?_⟩
    intro b mem c last same
    exact new (List.mem_singleton.mp last ▸ same ▸ mem)

theorem distinct_extend_unit {p : Program} {d : UnitDeclaration} (distinct : p.Distinct) :
    (p.extend [.unit d]).Distinct ↔ ¬ p.declaresUnit d.name.name := by
  rw [declaresUnit_iff, extend_unit]
  constructor
  · intro h
    exact (nodup_map_concat.mp h.units).2
  · intro new
    exact ⟨distinct.functions, nodup_map_concat.mpr ⟨distinct.units, new⟩⟩

theorem distinct_extend_function {p : Program} {f : Function} (distinct : p.Distinct) :
    (p.extend [.function f]).Distinct ↔ ¬ (p.function? f.name.name).isSome := by
  rw [isSome_function?_iff, extend_function]
  constructor
  · intro h
    exact (nodup_map_concat.mp h.functions).2
  · intro new
    exact ⟨nodup_map_concat.mpr ⟨distinct.functions, new⟩, distinct.units⟩

theorem distinct_extend_statement {p : Program} {s : Stmt} (distinct : p.Distinct) :
    (p.extend [.statement s]).Distinct := by
  rw [extend_statement]
  exact ⟨distinct.functions, distinct.units⟩

end Program

namespace Parser

variable {ts rest : List Token} {p : Program} {n : Nat}

/-- An item is added, unless it redefines something. -/
theorem add_cases (p : Program) (i : Item) :
    (∃ q, add p i = pure q) ∨ ∃ r : SyntaxFault, r.Redefines ∧ add p i = refuse (.syntactic r) := by
  cases i with
  | unit d =>
    by_cases twice : p.declaresUnit d.name.name
    · exact .inr ⟨_, .unit d.name, if_pos twice⟩
    · exact .inl ⟨_, if_neg twice⟩
  | function f =>
    by_cases twice : (p.function? f.name.name).isSome
    · exact .inr ⟨_, .function f.name, if_pos twice⟩
    · exact .inl ⟨_, if_neg twice⟩
  | statement s => exact .inl ⟨_, rfl⟩

/-- An item is added just if no name is defined twice then. -/
theorem add_eq (distinct : p.Distinct) (i : Item) :
    ((p.extend [i]).Distinct ∧ add p i = pure (p.extend [i])) ∨
      (¬ (p.extend [i]).Distinct ∧ ∃ r, add p i = refuse r) := by
  cases i with
  | unit d =>
    rw [Program.distinct_extend_unit distinct, Program.extend_unit]
    by_cases twice : p.declaresUnit d.name.name
    · exact .inr ⟨fun new => new twice, _, if_pos twice⟩
    · exact .inl ⟨twice, if_neg twice⟩
  | function f =>
    rw [Program.distinct_extend_function distinct, Program.extend_function]
    by_cases twice : (p.function? f.name.name).isSome
    · exact .inr ⟨fun new => new twice, _, if_pos twice⟩
    · exact .inl ⟨twice, if_neg twice⟩
  | statement s =>
    refine .inl ⟨Program.distinct_extend_statement distinct, ?_⟩
    rw [Program.extend_statement]
    rfl

theorem add_after (distinct : p.Distinct) (i : Item) (ts : List Token) :
    After ts (add p i) fun q rest => rest = ts ∧ q = p.extend [i] ∧ q.Distinct := by
  obtain ⟨still, same⟩ | ⟨-, r, same⟩ := add_eq distinct i
  · rw [same]
    exact .pure ⟨rfl, rfl, still⟩
  · rw [same]
    exact .refuse

theorem add_reads {i : Item} (distinct : (p.extend [i]).Distinct) (ts : List Token) :
    Reads (add p i) ts (p.extend [i]) ts := by
  obtain ⟨-, same⟩ | ⟨twice, -⟩ := add_eq distinct.of_extend i
  · rw [same]
    exact .pure _ _
  · exact absurd distinct twice

theorem items_after {rounds : Nat} (distinct : p.Distinct) (room : ts.length ≤ rounds) :
    After ts (items n rounds p) fun q rest => rest = [] ∧ ∃ is, Grammar.Items ts is ∧ q = p.extend is ∧ q.Distinct := by
  induction rounds generalizing p ts with
  | zero =>
    obtain rfl := List.length_eq_zero_iff.mp (Nat.le_zero.mp room)
    exact .pure ⟨rfl, [], .none, p.extend_nil.symm, distinct⟩
  | succ rounds ih =>
    refine .peekKind ?_
    split
    · rename_i last
      cases ts with
      | nil => exact .pure ⟨rfl, [], .none, p.extend_nil.symm, distinct⟩
      | cons t ts =>
        refine .of_head fun proper => ?_
        rw [nextKind] at last
        rw [Token.isProper, last] at proper
        cases proper
    · refine (item_after n ts).seq ?_
      intro i mid first
      refine (add_after distinct i mid).seq ?_
      rintro q _ ⟨rfl, rfl, distinct⟩
      have shorter := first.passes.shorter
      refine (ih distinct (by omega)).mono ?_
      rintro q rest ⟨rfl, is, others, rfl, distinct⟩
      exact ⟨rfl, i :: is, .some first others, (p.extend_cons i is).symm, distinct⟩

theorem nextKind_mem_statementEnd {is : List Item} (h : Grammar.Items ts is) : nextKind ts ∈ statementEnd := by
  cases h with
  | none => decide
  | some first _ => exact List.mem_append_right [.rightBrace, .etx] first.nextKind_mem

theorem items_reads {rounds : Nat} {is : List Item} (h : Grammar.Items ts is) (distinct : (p.extend is).Distinct)
    (room : ts.length ≤ n) (enough : ts.length ≤ rounds) : Reads (items n rounds p) ts (p.extend is) [] := by
  induction h generalizing p rounds with
  | none =>
    rw [Program.extend_nil]
    cases rounds with
    | zero => exact .pure _ _
    | succ rounds => exact (peekKind_reads []).bind (.pure _ _)
  | @some i is ts rest first others ih =>
    have shorter := first.passes.shorter
    obtain ⟨rounds, rfl⟩ : ∃ k, rounds = k + 1 := ⟨rounds - 1, by omega⟩
    have more : nextKind ts ≠ .etx := fun same => absurd (same ▸ first.nextKind_mem) (by decide)
    rw [Program.extend_cons] at distinct ⊢
    refine (peekKind_reads ts).bind ?_
    rw [if_neg more]
    refine (item_reads first room (nextKind_mem_statementEnd others)).bind ?_
    refine (add_reads distinct.of_extend rest).bind ?_
    exact ih distinct (by omega) (by omega)

/-- As reading an item is a function, tokens are cut into items in one way only. -/
theorem items_unique {is js : List Item} (h : Grammar.Items ts is) (h' : Grammar.Items ts js) : is = js := by
  induction h generalizing js with
  | none =>
    cases h' with
    | none => rfl
    | some first _ => exact absurd first.passes.shorter (Nat.not_lt_zero _)
  | some first others ih =>
    cases h' with
    | none => exact absurd first.passes.shorter (Nat.not_lt_zero _)
    | some first' others' =>
      have read := item_reads first (Nat.le_refl _) (nextKind_mem_statementEnd others)
      have read' := item_reads first' (Nat.le_refl _) (nextKind_mem_statementEnd others')
      obtain ⟨rfl, rfl⟩ := read.unique read'
      rw [ih others']

end Parser

namespace Program

/-- If a program is read, then the text has ended without a fault, and the grammar cuts all its tokens into items
that define no name twice. -/
theorem items_of_ofTokens {s : TokenStream} {p : Program} (proper : ∀ t ∈ s.withoutComments.tokens, t.isProper)
    (read : ofTokens s = .ok p) :
    (∃ position, s.ending = .ok position) ∧
      ∃ is, Grammar.Items s.withoutComments.tokens is ∧ (ofItems is).Distinct ∧ p = ofItems is := by
  obtain ⟨tokens, ending⟩ := s
  unfold ofTokens at read
  generalize uncommented : (TokenStream.mk tokens ending).withoutComments = t at read proper ⊢
  obtain ⟨ts, ending'⟩ := t
  obtain rfl : ending = ending' := congrArg TokenStream.ending uncommented
  have regular : TokenStream.Regular ⟨ts, ending⟩ := by
    refine ⟨proper, ?_⟩
    rintro rfl
    cases ending with
    | error fault => cases read
    | ok position => exact ⟨position, rfl⟩
  have read : (items ts.length ts.length .empty ⟨ts, ending⟩).map Prod.fst = .ok p := by
    revert read
    dsimp only
    split
    · exact nofun
    · exact id
  obtain ⟨⟨q, u⟩, done, rfl⟩ := map_eq_ok.mp read
  have distinct : empty.Distinct := ⟨List.nodup_nil, List.nodup_nil⟩
  obtain ⟨_, rfl, still, rfl, is, derived, rfl, distinct⟩ :=
    items_after distinct (Nat.le_refl _) ending regular _ u done
  exact ⟨still.ends rfl, is, derived, distinct, rfl⟩

theorem ofTokens_of_items {s : TokenStream} {position : Position} (ends : s.ending = .ok position) {is : List Item}
    (derived : Grammar.Items s.withoutComments.tokens is) (distinct : (ofItems is).Distinct) :
    ofTokens s = .ok (ofItems is) := by
  obtain ⟨tokens, ending⟩ := s
  obtain rfl : ending = .ok position := ends
  unfold ofTokens
  generalize uncommented : (TokenStream.mk tokens (.ok position)).withoutComments = t at derived ⊢
  obtain ⟨ts, ending⟩ := t
  obtain rfl : .ok position = ending := congrArg TokenStream.ending uncommented
  have read := items_reads derived distinct (Nat.le_refl ts.length) (Nat.le_refl ts.length) position
  dsimp only
  rw [read]
  cases ts <;> rfl

theorem withoutComments_eq {tokens : List Token} (proper : ∀ t ∈ tokens, t.isProper)
    (ending : Except LexicalError Position) :
    (TokenStream.mk tokens ending).withoutComments = ⟨tokens, ending⟩ := by
  have keeps : tokens.filter (fun t => t.kind != .comment) = tokens := by
    rw [List.filter_eq_self]
    intro t mem
    have fits := proper t mem
    rw [bne_iff_ne]
    intro comment
    rw [Token.isProper, comment] at fits
    cases fits
  rw [TokenStream.withoutComments, keeps]

/-- A program is read from proper tokens just if the grammar cuts them into items that define no name twice. It
holds each definition once and the statements in their order, with the places of their tokens, and there is no
other way to cut them. -/
theorem ofTokens_exact {tokens : List Token} {position : Position} (proper : ∀ t ∈ tokens, t.isProper) :
    (∀ p, ofTokens ⟨tokens, .ok position⟩ = .ok p ↔
      ∃ is, Grammar.Items tokens is ∧ (ofItems is).Distinct ∧ p = ofItems is) ∧
    ∀ is js, Grammar.Items tokens is → Grammar.Items tokens js → is = js := by
  have uncommented := withoutComments_eq proper (.ok position)
  refine ⟨fun p => ⟨?_, ?_⟩, fun is js => items_unique⟩
  · intro read
    obtain ⟨-, is, derived, distinct, same⟩ := items_of_ofTokens (by rwa [uncommented]) read
    rw [uncommented] at derived
    exact ⟨is, derived, distinct, same⟩
  · rintro ⟨is, derived, distinct, rfl⟩
    exact ofTokens_of_items rfl (by rwa [uncommented]) distinct

/-- The tokens of `a = b - 2 [m] * c - d`. -/
def differences : List Token :=
  let name (s : String) (column : Nat) : Token := ⟨⟨.identifier, some (.text s)⟩, ⟨1, column⟩⟩
  let symbol (kind : Token.Kind) (column : Nat) : Token := ⟨⟨kind, none⟩, ⟨1, column⟩⟩
  [name "a" 1, symbol .assign 3, name "b" 5, symbol .minus 7, ⟨⟨.intLiteral, some (.int 2)⟩, ⟨1, 9⟩⟩,
    symbol .leftBracket 11, name "m" 12, symbol .rightBracket 13, symbol .star 15, name "c" 17, symbol .minus 19,
    name "d" 21]

theorem ofTokens_differences :
    (∀ t ∈ differences, t.isProper) ∧
      ∃ is, Grammar.Items differences is ∧ (ofItems is).Distinct ∧
        ⟨[], [], [.assign ⟨"a", ⟨1, 1⟩⟩
          (.binary
            (.binary (.var ⟨"b", ⟨1, 5⟩⟩) .minus ⟨1, 7⟩
              (.binary (.literal (.int 2 (some ⟨[⟨"m", 1⟩]⟩)) ⟨1, 9⟩) .star ⟨1, 15⟩ (.var ⟨"c", ⟨1, 17⟩⟩)))
            .minus ⟨1, 19⟩ (.var ⟨"d", ⟨1, 21⟩⟩))]⟩ = ofItems is := by
  have proper : ∀ t ∈ differences, t.isProper := by decide
  have read : ofTokens ⟨differences, .ok ⟨1, 22⟩⟩ = .ok _ := rfl
  exact ⟨proper, ((ofTokens_exact proper).1 _).mp read⟩

end Program

end Mensura
