import Mensura.Proofs.Grammar.Program
import Mensura.Proofs.Printing.Stmt

/-!
Whole programs. Main statement: what a program prints, without its first line and its last, is read again, as a
program that differs in nothing but the places. Units and functions come out of their order among the statements,
and so each item is read again by itself, whatever stood behind it before.
-/

namespace Mensura

open Token (Kind)
open Lexeme (Apart)
open Mensura.Parser (Item)

/-- The text without its first line and without its last one. -/
def Text.withoutOuterLines (text : String) : String :=
  let behind := (text.toList.dropWhile (· != '\n')).drop 1
  .ofList ((behind.reverse.drop 1).dropWhile (· != '\n')).reverse

/-! ### Lines -/

/-- The text is made up of whole lines. -/
def Text.IsLines (text : List Char) : Prop := ∀ c, text.getLast? = some c → c = '\n'

theorem Text.IsLines.append {text more : List Char} (h : IsLines text) (h' : IsLines more) :
    IsLines (text ++ more) := by
  intro c last
  rw [List.getLast?_append] at last
  obtain last | ⟨-, last⟩ := Option.or_eq_some_iff.mp last
  · exact h' c last
  · exact h c last

theorem line_isLines (depth : Nat) (text : String) : Text.IsLines (line depth text).toList := by
  intro c last
  rw [toList_line, ← List.append_assoc, List.getLast?_concat] at last
  exact (Option.some.inj last).symm

mutual

theorem Stmt.display_isLines (depth : Nat) : (s : Stmt) → Text.IsLines (s.display depth).toList
  | .declare .. | .assign .. | .ret _ (some _) | .ret _ none | .call .. => by
    rw [Stmt.display]
    exact line_isLines _ _
  | .ifElse _ body otherwise => by
    simp only [Stmt.display, String.toList_append]
    exact ((line_isLines _ _).append (Stmt.displayAll_isLines _ body)).append (otherwise.display_isLines depth)
  | .loop _ body | .block body => by
    simp only [Stmt.display, String.toList_append]
    exact ((line_isLines _ _).append (Stmt.displayAll_isLines _ body)).append (line_isLines _ _)

theorem Stmt.displayAll_isLines (depth : Nat) : (ss : List Stmt) → Text.IsLines (Stmt.displayAll depth ss).toList
  | [] => nofun
  | s :: ss => by
    simp only [Stmt.displayAll, String.toList_append]
    exact (s.display_isLines depth).append (Stmt.displayAll_isLines depth ss)

theorem Else.display_isLines (depth : Nat) : (o : Else) → Text.IsLines (o.display depth).toList
  | .none => by
    rw [Else.display]
    exact line_isLines _ _
  | .last body => by
    simp only [Else.display, String.toList_append]
    exact ((line_isLines _ _).append (Stmt.displayAll_isLines _ body)).append (line_isLines _ _)
  | .elseIf _ body otherwise => by
    simp only [Else.display, String.toList_append]
    exact ((line_isLines _ _).append (Stmt.displayAll_isLines _ body)).append (otherwise.display_isLines depth)

end

/-! ### Items -/

namespace Parser.Item

def display : Item → String
  | .unit d => d.display
  | .function f => f.display
  | .statement s => s.display 1

def placeless : Item → Item
  | .unit d => .unit d.placeless
  | .function f => .function f.placeless
  | .statement s => .statement s.placeless

def isPlain : Item → Bool
  | .unit _ => true
  | .function f => Stmt.allPlain f.body
  | .statement s => s.isPlain

theorem display_isLines (i : Item) : Text.IsLines i.display.toList := by
  cases i with
  | unit d => exact line_isLines _ _
  | function f =>
    simp only [display, Function.display, String.toList_append]
    exact ((line_isLines _ _).append (Stmt.displayAll_isLines _ _)).append (line_isLines _ _)
  | statement s => exact s.display_isLines 1

theorem function?_placeless (i : Item) : i.placeless.function? = i.function?.map Function.placeless := by
  cases i <;> rfl

theorem unit?_placeless (i : Item) : i.placeless.unit? = i.unit?.map UnitDeclaration.placeless := by
  cases i <;> rfl

theorem statement?_placeless (i : Item) : i.placeless.statement? = i.statement?.map Stmt.placeless := by
  cases i <;> rfl

end Parser.Item

namespace Grammar

variable {limits : Limits} {ts rest : List Token} {tail : List Char} {good : List Token → Prop}

theorem Parameter.scans {a : Param} (h : Parameter ts a rest) (legible : Token.AllLegible limits ts)
    (apart : Apart tail)
    (next : Scans limits tail fun us => ∀ vs a', Parameter vs a' us → a'.placeless = a.placeless → good vs) :
    Scans limits (a.display.toList ++ tail) good := by
  cases h with
  | mk named _ type =>
    have inner := legible.tail.tail
    simp only [Param.display, String.toList_append, List.append_assoc]
    refine .name legible.head named (.cons (by decide)) ?_
    refine .symbol .colon (by decide) (.inl rfl) ?_
    refine .blank ?_ (by decide)
    refine type.scans inner apart (next.mono ?_)
    intro us good vs type colon isColon t position named
    exact good _ _ (.mk named isColon type) rfl

theorem MoreParameters.scans {as : List Param} (h : MoreParameters ts as rest) (legible : Token.AllLegible limits ts)
    (next : Scans limits tail fun us => ∀ vs as', MoreParameters vs as' us →
      as'.map Param.placeless = as.map Param.placeless → good vs) :
    Scans limits (commaText (as.map Param.display) ++ ')' :: tail) good := by
  induction h generalizing good with
  | none _ =>
    refine .symbol .rightParen (by decide) (.inl rfl) (next.mono ?_)
    exact fun us good t closes => good _ _ (.none closes) rfl
  | some _ first _ ih =>
    have behind := legible.tail
    simp only [List.map_cons, commaText, List.flatMap_cons, List.append_assoc]
    refine .symbol .comma (by decide) (.inl rfl) ?_
    refine .blank ?_ (by decide)
    refine first.scans behind (commaText_apart _ _) ?_
    refine ih (first.passes.legible behind) (next.mono ?_)
    intro us good vs as others same ws a first sameFirst comma isComma
    refine good _ _ (.some isComma first others) ?_
    rw [List.map_cons, List.map_cons, sameFirst, same]

theorem Parameters.scans {as : List Param} (h : Parameters ts as rest) (legible : Token.AllLegible limits ts)
    (next : Scans limits tail fun us => ∀ vs as', Parameters vs as' us →
      as'.map Param.placeless = as.map Param.placeless → good vs) :
    Scans limits ((", ".intercalate (as.map Param.display)).toList ++ ')' :: tail) good := by
  cases h with
  | none _ =>
    refine .symbol .rightParen (by decide) (.inl rfl) (next.mono ?_)
    exact fun us good t closes => good _ _ (.none closes) rfl
  | some first others =>
    rw [List.map_cons, toList_intercalate_cons, List.append_assoc]
    refine first.scans legible (commaText_apart _ _) ?_
    refine others.scans (first.passes.legible legible) (next.mono ?_)
    intro us good vs as others same ws a first sameFirst
    refine good _ _ (.some first others) ?_
    rw [List.map_cons, List.map_cons, sameFirst, same]

/-- An item is read again from its lines. -/
theorem Item.scans {i : Parser.Item} (h : Item ts i rest) (legible : Token.AllLegible limits ts)
    (plain : i.isPlain = true)
    (next : Scans limits tail fun us => ∀ vs i', Item vs i' us → i'.placeless = i.placeless → good vs) :
    Scans limits (i.display.toList ++ tail) good := by
  cases h with
  | unit isUnit named _ definition =>
    have inner := legible.tail.tail.tail
    simp only [Item.display, UnitDeclaration.display, toList_line, String.toList_append, List.append_assoc]
    refine .blanks ?_ isBlank_of_mem_indent
    change Scans limits ("unit".toList ++ ' ' :: _) good
    refine .keyword legible.head isUnit (by decide) (.cons (by decide)) ?_
    refine .blank ?_ (by decide)
    refine .name legible.tail.head named (.cons (by decide)) ?_
    refine .symbol .colon (by decide) (.inl rfl) ?_
    refine .blank ?_ (by decide)
    refine definition.scans inner ?_
    refine .blank (next.mono ?_) (by decide)
    intro us good vs definition colon isColon t position named word isUnit
    exact good _ _ (.unit isUnit named isColon definition) rfl
  | function named _ parameters _ returnType block =>
    have inner := legible.tail.tail
    have behind := (parameters.passes.legible inner).tail
    simp only [Item.display, Function.display, toList_line, String.toList_append, List.append_assoc]
    refine .blanks ?_ isBlank_of_mem_indent
    refine .name legible.head named (.cons (by decide)) ?_
    refine .symbol .leftParen (by decide) (.inl rfl) ?_
    refine parameters.scans inner ?_
    refine .blank ?_ (by decide)
    refine .symbol .arrow (by decide) (.inl rfl) ?_
    refine .blank ?_ (by decide)
    refine returnType.scans behind (.cons (by decide)) ?_
    refine .blank ?_ (by decide)
    refine block.scans (returnType.passes.legible behind) plain ?_
    refine .blank (next.mono ?_) (by decide)
    intro us good vs body block sameBody ws returnType arrow isArrow xs params parameters sameParams opening opens t
      position named
    refine good _ _ (.function named opens parameters isArrow returnType block) ?_
    simp only [Item.placeless, Function.placeless, sameBody, sameParams, Symbol.placeless]
  | statement statement =>
    refine statement.scans legible plain (next.mono ?_)
    refine fun us good => ⟨nofun, ?_⟩
    intro vs s statement same
    exact good _ _ (.statement statement) (congrArg Parser.Item.statement same)

theorem Items.exists_item {is : List Parser.Item} (h : Items ts is) :
    ∀ i ∈ is, ∃ us rest, us ⊆ ts ∧ Item us i rest := by
  induction h with
  | none => exact nofun
  | some first _ ih =>
    intro j mem
    obtain rfl | mem := List.mem_cons.mp mem
    · exact ⟨_, _, List.Subset.refl _, first⟩
    · obtain ⟨us, rest, within, later⟩ := ih j mem
      exact ⟨us, rest, fun t mem => first.passes.subset (within mem), later⟩

/-- Items that have been derived before are read again, in whatever order they are printed. -/
theorem scans_items {is : List Parser.Item} (derived : ∀ i ∈ is, ∃ us rest, us ⊆ ts ∧ Item us i rest)
    (legible : Token.AllLegible limits ts) (plain : ∀ i ∈ is, i.isPlain = true) :
    Scans limits (is.flatMap fun i => i.display.toList) fun vs =>
      ∃ js, Items vs js ∧ js.map Parser.Item.placeless = is.map Parser.Item.placeless := by
  induction is with
  | nil => exact .nil ⟨[], .none, rfl⟩
  | cons i is ih =>
    obtain ⟨us, rest, within, item⟩ := derived i List.mem_cons_self
    rw [List.flatMap_cons]
    refine item.scans (legible.subset within) (plain i List.mem_cons_self) ?_
    refine (ih (fun j mem => derived j (List.mem_cons_of_mem i mem))
      (fun j mem => plain j (List.mem_cons_of_mem i mem))).mono ?_
    rintro vs ⟨js, others, same⟩ ws j first sameFirst
    refine ⟨j :: js, .some first others, ?_⟩
    rw [List.map_cons, List.map_cons, sameFirst, same]

end Grammar

/-! ### Programs -/

namespace Program

variable {p q : Program}

/-- The items of a program in the order in which they are printed. -/
def inOrder (p : Program) : List Item :=
  p.unitsInOrder.map .unit ++ p.functionsInOrder.map .function ++ p.statements.map .statement

theorem toList_listing (p : Program) : p.listing.toList = p.inOrder.flatMap fun i => i.display.toList := by
  have statements (ss : List Stmt) :
      (Stmt.displayAll 1 ss).toList = ss.flatMap fun s => (s.display 1).toList := by
    induction ss with
    | nil => rfl
    | cons s ss ih => rw [Stmt.displayAll, String.toList_append, ih, List.flatMap_cons]
  simp only [listing, inOrder, String.toList_append, String.toList_join, statements, List.flatMap_append,
    List.flatMap_map, Item.display]

theorem listing_isLines (p : Program) : Text.IsLines p.listing.toList := by
  rw [toList_listing]
  induction p.inOrder with
  | nil => exact nofun
  | cons i is ih => exact i.display_isLines.append ih

theorem withoutOuterLines_display (p : Program) : Text.withoutOuterLines p.display = p.listing := by
  have kept : p.listing.toList.reverse.dropWhile (· != '\n') = p.listing.toList.reverse := by
    have lines := p.listing_isLines
    rw [Text.IsLines, ← List.head?_reverse] at lines
    cases split : p.listing.toList.reverse with
    | nil => rfl
    | cons c cs =>
      obtain rfl := lines c (by rw [split]; rfl)
      rfl
  have behind : (p.display.toList.dropWhile (· != '\n')).drop 1 = p.listing.toList ++ ['\x7d', '\n'] := by
    simp only [display, String.toList_append, String.reduceToList, List.append_assoc]
    rfl
  simp only [Text.withoutOuterLines, behind, List.reverse_append]
  change String.ofList (p.listing.toList.reverse.dropWhile (· != '\n')).reverse = p.listing
  rw [kept, List.reverse_reverse, String.ofList_toList]

theorem mem_of_mem_inOrder {is : List Item} {i : Item} (mem : i ∈ (ofItems is).inOrder) : i ∈ is := by
  simp only [inOrder, List.mem_append, List.mem_map, unitsInOrder, functionsInOrder, List.mem_mergeSort, ofItems,
    extend, empty, List.nil_append, List.mem_filterMap] at mem
  obtain (⟨d, ⟨j, mem, found⟩, rfl⟩ | ⟨f, ⟨j, mem, found⟩, rfl⟩) | ⟨s, ⟨j, mem, found⟩, rfl⟩ := mem <;>
    cases j <;> cases found <;> exact mem

theorem isPlain_of_mem_inOrder (plain : p.isPlain = true) : ∀ i ∈ p.inOrder, i.isPlain = true := by
  obtain ⟨functions, statements⟩ := Bool.and_eq_true_iff.mp plain
  rw [Stmt.allPlain_eq_all] at statements
  simp only [inOrder, List.mem_append, List.mem_map, functionsInOrder, List.mem_mergeSort]
  rintro i ((⟨d, -, rfl⟩ | ⟨f, mem, rfl⟩) | ⟨s, mem, rfl⟩)
  · rfl
  · exact List.all_eq_true.mp functions f mem
  · exact List.all_eq_true.mp statements s mem

theorem ofItems_placeless (is : List Item) : ofItems (is.map Item.placeless) = (ofItems is).placeless := by
  simp only [ofItems, extend, empty, placeless, List.nil_append, Stmt.allPlaceless_eq_map, List.filterMap_map,
    List.map_filterMap, Function.comp_def, Item.function?_placeless, Item.unit?_placeless, Item.statement?_placeless]

theorem ofItems_inOrder (p : Program) : ofItems p.inOrder = ⟨p.functionsInOrder, p.unitsInOrder, p.statements⟩ := by
  simp [ofItems, extend, empty, inOrder, List.filterMap_append, List.filterMap_map, Function.comp_def, Item.function?,
    Item.unit?, Item.statement?]

theorem Alike.distinct (alike : q.Alike p) (distinct : p.Distinct) : q.Distinct := by
  have names := alike.functions.map (·.name.name)
  have unitNames := alike.units.map (·.name.name)
  simp only [List.map_map] at names unitNames
  exact ⟨names.nodup_iff.mpr distinct.functions, unitNames.nodup_iff.mpr distinct.units⟩

theorem ofItems_alike {js : List Item} (same : js.map Item.placeless = p.inOrder.map Item.placeless) :
    (ofItems js).Alike p := by
  have printed : (ofItems js).placeless = placeless ⟨p.functionsInOrder, p.unitsInOrder, p.statements⟩ := by
    rw [← ofItems_placeless, same, ofItems_placeless, ofItems_inOrder]
  refine ⟨?_, ?_, congrArg Program.statements printed⟩
  · have functions : (ofItems js).functions.map Function.placeless = p.functionsInOrder.map Function.placeless :=
      congrArg Program.functions printed
    rw [functions]
    exact (List.mergeSort_perm _ _).map _
  · have units : (ofItems js).units.map UnitDeclaration.placeless = p.unitsInOrder.map UnitDeclaration.placeless :=
      congrArg Program.units printed
    rw [units]
    exact (List.mergeSort_perm _ _).map _

/-- What a program prints, without its first line and its last, is read again. The functions, the units and the
statements are the same, but for their places. -/
theorem ofText_display {limits : Limits} {text : String} (read : ofText limits text = .ok p) (plain : p.isPlain) :
    ∃ q, ofText limits (Text.withoutOuterLines p.display) = .ok q ∧ q.Alike p := by
  have legible := TokenStream.legible_withoutComments limits text
  obtain ⟨-, is, derived, distinct, rfl⟩ := items_of_ofTokens (fun t mem => (legible t mem).2) read
  have items : ∀ i ∈ (ofItems is).inOrder, _ := fun i mem => derived.exists_item i (mem_of_mem_inOrder mem)
  have scans := Grammar.scans_items items (fun t mem => (legible t mem).1) (isPlain_of_mem_inOrder plain)
  rw [← toList_listing] at scans
  obtain ⟨ts, position, again, js, derived, same⟩ := scans (.ofText (ofItems is).listing) rfl
  have alike := ofItems_alike same
  obtain ⟨sameTokens, sameEnding⟩ := TokenStream.mk.inj again
  refine ⟨ofItems js, ?_, alike⟩
  rw [withoutOuterLines_display]
  refine ofTokens_of_items sameEnding ?_ (alike.distinct distinct)
  exact (congrArg (Grammar.Items · js) sameTokens).mpr derived

/-- A call before the definitions, a `return` without a value, and a text with a quote in it. -/
def weighing : String :=
  "weigh(3 [N])
weigh(f: [N]) -> void \x7b if !(f > 1 [kg*m*s^-2]) \x7b return \x7d else \x7b print(\"\\\"\\n\") \x7d \x7d
unit N: [kg*m*s^-2]"

theorem ofText_display_weighing : ∃ p, ofText {} weighing = .ok p ∧ p.isPlain ∧
    ∃ q, ofText {} (Text.withoutOuterLines p.display) = .ok q ∧ q.Alike p := by
  have read : ((ofText {} weighing).toOption.map isPlain) = some true := by decide +kernel
  obtain ⟨p, read, plain⟩ := Option.map_eq_some_iff.mp read
  have read := toOption_eq_some.mp read
  exact ⟨p, read, plain, ofText_display read plain⟩

end Program

end Mensura
