import Mathlib.Data.List.Nodup
import Mensura.Proofs.Evaluation.Rewriting
import Mensura.Proofs.Program.Arrangement
import Mensura.Proofs.Program.Suiting
import Mensura.Proofs.Token.Lexemes
import Mensura.Proofs.Typing.Congruence

/-!
The order of definitions. Functions and units are listed by the places of their names, and no two names in a text are
at the same place. Main statement: however the definitions of a program that has been read are kept, they are listed
as they stand in the text, and nothing that is done with the program shows how they are kept.
-/

namespace Mensura

/-! ### Names in a text -/

/-- The name that a token is. -/
def Token.symbol? (t : Token) : Option Symbol :=
  match t.kind, t.value with
  | .identifier, some (.text name) => some ⟨name, t.position⟩
  | _, _ => none

/-- The names that have been read, each at its place. -/
def TokenStream.names (s : TokenStream) : List Symbol := s.tokens.filterMap Token.symbol?

theorem Grammar.Names.symbol?_eq {t : Token} {name : Symbol} (h : Grammar.Names t name) : t.symbol? = some name := by
  rw [Token.symbol?, h.kind, h.value, h.position]

theorem Token.position_of_symbol? {t : Token} {name : Symbol} (h : t.symbol? = some name) :
    name.position = t.position := by
  unfold symbol? at h
  split at h
  · cases h
    rfl
  · cases h

theorem TokenStream.names_ordered {limits : Limits} {text : String} {position : Position}
    (ends : (ofText limits text).ending = .ok position) :
    (ofText limits text).names.Pairwise fun a b => a.position.Precedes b.position := by
  have listed : (ofText limits text).listing = .ok ((ofText limits text).tokens ++ [.etx position]) := by
    rw [listing, ends]
    rfl
  have ordered := (listing_eq_ok_iff.mp listed).inOrder.ordered
  apply (List.pairwise_append.mp ordered).1.filterMap
  intro t u precedes a first b second
  rwa [Token.position_of_symbol? first, Token.position_of_symbol? second]

/-- The name that an item defines. -/
def Parser.Item.name? : Parser.Item → Option Symbol
  | .unit d => some d.name
  | .function f => some f.name
  | .statement _ => none

theorem Grammar.Names.sublist {t : Token} {name : Symbol} (h : Grammar.Names t name) {ts rest : List Token}
    (behind : rest <:+ ts) {names : List Symbol} (others : names.Sublist (rest.filterMap Token.symbol?)) :
    (name :: names).Sublist ((t :: ts).filterMap Token.symbol?) := by
  rw [List.filterMap_cons_some h.symbol?_eq]
  exact (others.trans (behind.sublist.filterMap _)).cons_cons name

/-- The names that items define stand in their tokens, in the same order. -/
theorem Grammar.Items.names_sublist {ts : List Token} {is : List Parser.Item} (h : Grammar.Items ts is) :
    (is.filterMap Parser.Item.name?).Sublist (ts.filterMap Token.symbol?) := by
  induction h with
  | none => exact List.Sublist.refl _
  | @some i is ts rest first others ih =>
    cases first with
    | unit isUnit named isColon definition =>
      refine List.Sublist.trans ?_ ((List.sublist_cons_self _ _).filterMap _)
      exact named.sublist (definition.passes.cons _).suffix ih
    | function named opens parameters isArrow returnType block =>
      have inner := parameters.passes.trans ((returnType.passes.trans block.passes).cons _)
      exact named.sublist (inner.cons _).suffix ih
    | statement statement => exact ih.trans (statement.passes.suffix.sublist.filterMap _)

theorem Parser.Item.name?_of_function? (i : Parser.Item) (f : Function) (h : i.function? = some f) :
    i.name? = some f.name := by
  cases i <;> cases h
  rfl

theorem Parser.Item.name?_of_unit? (i : Parser.Item) (d : UnitDeclaration) (h : i.unit? = some d) :
    i.name? = some d.name := by
  cases i <;> cases h
  rfl

/-- Definitions of one sort, by their names, are some of those that items make. -/
theorem Parser.Item.names_sublist {α : Type} {pick : Parser.Item → Option α} {name : α → Symbol}
    (names : ∀ i a, pick i = some a → i.name? = some (name a)) (is : List Parser.Item) :
    ((is.filterMap pick).map name).Sublist (is.filterMap Parser.Item.name?) := by
  induction is with
  | nil => exact List.Sublist.refl _
  | cons i is ih =>
    cases found : pick i with
    | none =>
      rw [List.filterMap_cons_none found]
      exact ih.trans ((List.sublist_cons_self i is).filterMap _)
    | some a =>
      rw [List.filterMap_cons_some found, List.filterMap_cons_some (names i a found), List.map_cons]
      exact ih.cons_cons _

/-! ### Listing definitions -/

namespace Position

theorem le_total (p q : Position) : (p.le q || q.le p) = true := by
  simp only [Bool.or_eq_true, le_iff]
  omega

/-- Nothing precedes itself. -/
theorem Precedes.ne {p q : Position} (h : p.Precedes q) : p ≠ q := by
  rintro rfl
  unfold Precedes at h
  omega

theorem le_antisymm {p q : Position} (h : p.le q = true) (h' : q.le p = true) : p = q := by
  rw [le_iff] at h h'
  obtain ⟨row, column⟩ := p
  obtain ⟨row', column'⟩ := q
  simp only at h h'
  rw [Position.mk.injEq]
  omega

end Position

/-- Sorting puts definitions back into the order of their places, from whatever order. -/
theorem mergeSort_eq {α : Type} {name : α → Symbol} {as bs : List α} (perm : bs.Perm as)
    (ordered : (as.map name).Pairwise fun a b => a.position.Precedes b.position) :
    bs.mergeSort (fun a b => (name a).position.le (name b).position) = as := by
  have ordered := List.pairwise_map.mp ordered
  have apart : (as.map fun a => (name a).position).Nodup :=
    (List.pairwise_map.mpr ordered).imp Position.Precedes.ne
  let before (a b : α) : Bool := (name a).position.le (name b).position
  have sorted : (bs.mergeSort before).Pairwise fun a b => before a b = true := by
    apply List.pairwise_mergeSort
    · exact fun a b c => Position.le_trans
    · exact fun a b => Position.le_total (name a).position (name b).position
  refine List.Perm.eq_of_pairwise ?_ sorted (ordered.imp Position.Precedes.le) ((List.mergeSort_perm bs _).trans perm)
  -- each of two definitions stands before the other only if they are one
  intro a b memA memB le ge
  have memA := perm.subset ((List.mergeSort_perm bs _).subset memA)
  exact List.inj_on_of_nodup_map apart memA memB (Position.le_antisymm le ge)

namespace Program

/-- The same functions and units, kept in any order. -/
structure Rearranges (q p : Program) : Prop where
  functions : q.functions.Perm p.functions
  units : q.units.Perm p.units
  statements : q.statements = p.statements

variable {p q : Program}

theorem Rearranges.refl (p : Program) : p.Rearranges p := ⟨.refl _, .refl _, rfl⟩

theorem Rearranges.checksAs (h : q.Rearranges p) (distinct : p.Distinct) : q.ChecksAs p where
  functions name := by rw [function?_of_perm h.functions distinct]
  units := expand_of_perm h.units distinct

theorem Rearranges.runsAs (h : q.Rearranges p) (distinct : p.Distinct) : q.RunsAs p where
  functions name := by
    rw [function?_of_perm h.functions distinct]
    cases p.function? name with
    | none => exact .none
    | some f => exact .some (.refl f)
  statements := h.statements ▸ fun _ _ _ => rfl

/-- A program that has been read holds the definitions in its text, each of them once. However they are kept, they are
listed in the order in which their names stand in the text. Printing the program, checking it to the first error, and
running it come to the same. -/
theorem definitions_in_order {limits : Limits} {text : String} (read : ofText limits text = .ok p) :
    let s := TokenStream.ofText limits text
    p.Distinct ∧ s.names.Pairwise (fun a b => a.position.Precedes b.position) ∧
      ∃ is, Grammar.Items s.withoutComments.tokens is ∧ p = ofItems is ∧
        (is.filterMap Parser.Item.name?).Sublist s.names ∧ ∀ q : Program, q.Rearranges p →
          q.functionsInOrder = is.filterMap Parser.Item.function? ∧
          q.unitsInOrder = is.filterMap Parser.Item.unit? ∧
          q.display = p.display ∧ q.check = p.check ∧ ∀ bound, q.run bound = p.run bound := by
  intro s
  have proper : ∀ t ∈ s.withoutComments.tokens, t.isProper :=
    fun t mem => (TokenStream.legible_withoutComments limits text t mem).2
  obtain ⟨⟨position, ends⟩, is, derived, distinct, rfl⟩ := items_of_ofTokens proper read
  have ordered := TokenStream.names_ordered ends
  have names : (is.filterMap Parser.Item.name?).Sublist s.names :=
    derived.names_sublist.trans (List.filter_sublist.filterMap _)
  have functions (q : Program) (h : q.Rearranges (ofItems is)) :
      q.functionsInOrder = is.filterMap Parser.Item.function? := by
    have some := ordered.sublist ((Parser.Item.names_sublist Parser.Item.name?_of_function? is).trans names)
    exact mergeSort_eq h.functions some
  have units (q : Program) (h : q.Rearranges (ofItems is)) :
      q.unitsInOrder = is.filterMap Parser.Item.unit? := by
    have some := ordered.sublist ((Parser.Item.names_sublist Parser.Item.name?_of_unit? is).trans names)
    exact mergeSort_eq h.units some
  refine ⟨distinct, ordered, is, derived, rfl, names, fun q h => ?_⟩
  have sameFunctions := (functions q h).trans (functions _ (.refl _)).symm
  have sameUnits := (units q h).trans (units _ (.refl _)).symm
  refine ⟨functions q h, units q h, ?_, ?_, (h.runsAs distinct).run⟩
  · rw [display, display, listing, listing, sameFunctions, sameUnits, h.statements]
  · exact (h.checksAs distinct).check sameUnits h.statements sameFunctions

/-- Two units and two functions. The bodies of both functions are at fault. -/
def crossing : String :=
  "unit kN: [N]
far(x: [kN]) -> [N] { return true }
unit N: [kg]
near(x: [N]) -> [N] { return false }"

theorem definitions_in_order_crossing : ∃ p, ofText {} crossing = .ok p ∧
    let q : Program := { p with functions := p.functions.reverse, units := p.units.reverse }
    q.functionsInOrder.map (·.name.name) = ["far", "near"] ∧ q.unitsInOrder.map (·.name.name) = ["kN", "N"] ∧
      q.check = p.check := by
  have names : (ofText {} crossing).toOption.map (fun p => (p.functions.map (·.name.name), p.units.map (·.name.name))) =
      some (["far", "near"], ["kN", "N"]) := by
    decide +kernel
  obtain ⟨p, read, names⟩ := Option.map_eq_some_iff.mp names
  obtain ⟨functions, units⟩ := Prod.mk.inj names
  have read := toOption_eq_some.mp read
  obtain ⟨-, -, is, -, rfl, -, arranged⟩ := definitions_in_order read
  obtain ⟨functions', units', -, check, -⟩ := arranged
    ⟨(ofItems is).functions.reverse, (ofItems is).units.reverse, (ofItems is).statements⟩
    ⟨List.reverse_perm _, List.reverse_perm _, rfl⟩
  refine ⟨ofItems is, read, ?_, ?_, check⟩
  · rw [functions', ← functions]
    rfl
  · rw [units', ← units]
    rfl

end Program

end Mensura
