import Mensura.Proofs.Printing.Program

/-!
Reading does not look at places. Streams whose tokens differ in nothing but their places are read in step: both are
refused for the same cause, or both give the same program but for the places in it. Main statement: what a stream is
read as depends on its tokens without their places, and as long as their values suit their kinds it is never refused
as malformed.
-/

namespace Mensura

open Token (Kind)
open Mensura.Parser (Item)

/-! ### Values that suit their kinds -/

namespace Token.Content

/-- The value is one that the kind asks for. Most kinds ask for none. -/
def suits (content : Token.Content) : Bool :=
  match content.kind with
  | .identifier | .stringLiteral => (content.value matches some (.text _))
  | .intLiteral => match content.value with
    | some (.int n) => decide (0 ≤ n)
    | _ => false
  | .floatLiteral => (content.value matches some (.float _))
  | _ => true

variable {content : Token.Content}

theorem text_of_suits (suits : content.suits = true)
    (kind : content.kind = .identifier ∨ content.kind = .stringLiteral) : ∃ s, content.value = some (.text s) := by
  have isText : (content.value matches some (.text _)) = true := by
    obtain kind | kind := kind <;> simpa only [Content.suits, kind] using suits
  split at isText
  · rename_i s value
    exact ⟨s, value⟩
  · cases isText

theorem int_of_suits (suits : content.suits = true) (kind : content.kind = .intLiteral) :
    ∃ n, content.value = some (.int n) ∧ 0 ≤ n := by
  simp only [Content.suits, kind] at suits
  split at suits
  · rename_i n value
    exact ⟨n, value, of_decide_eq_true suits⟩
  · cases suits

theorem float_of_suits (suits : content.suits = true) (kind : content.kind = .floatLiteral) :
    ∃ x, content.value = some (.float x) := by
  simp only [Content.suits, kind] at suits
  split at suits
  · rename_i x value
    exact ⟨x, value⟩
  · cases suits

end Token.Content

/-! ### Places forgotten -/

/-- The token, with its place forgotten. -/
def Token.placeless (t : Token) : Token := ⟨t.toContent, .start⟩

theorem Token.placeless_inj {t u : Token} : t.placeless = u.placeless ↔ t.toContent = u.toContent := by
  simp [placeless]

theorem Symbol.placeless_inj {a b : Symbol} : a.placeless = b.placeless ↔ a.name = b.name := by
  simp [placeless]

/-- An operation and its right operand, with their places forgotten. -/
def Parser.placelessOperation : BinaryOp × Position × Expr → BinaryOp × Expr
  | (op, _, right) => (op, right.placeless)

/-- Operations that are grouped from the left may be grouped after their places have been forgotten. -/
theorem Parser.placeless_foldl (first : Expr) (others : List (BinaryOp × Position × Expr)) :
    (others.foldl (fun left (op, position, right) => .binary left op position right) first).placeless =
      (others.map placelessOperation).foldl (fun left (op, right) => .binary left op .start right)
        first.placeless := by
  induction others generalizing first with
  | nil => rfl
  | cons _ others ih => exact ih _

def LexicalError.placeless (e : LexicalError) : LexicalError := ⟨e.fault, .start⟩

def SyntaxFault.placeless : SyntaxFault → SyntaxFault
  | mismatch expected found => mismatch expected found.placeless
  | functionRedefined name => functionRedefined name.placeless
  | unitRedefined name => unitRedefined name.placeless
  | returnOutsideFunction _ => returnOutsideFunction .start
  | powerOutOfRange _ => powerOutOfRange .start

/-- The refusal with all places forgotten: its cause, and what it says about the cause. -/
def Refusal.placeless : Refusal → Refusal
  | lexical error => lexical error.placeless
  | syntactic fault => syntactic fault.placeless
  | malformed token => malformed token

theorem Program.declaresUnit_placeless (p : Program) (name : String) :
    p.placeless.declaresUnit name = p.declaresUnit name := by
  simp only [declaresUnit, placeless, List.any_map]
  rfl

theorem Program.isSome_function?_placeless (p : Program) (name : String) :
    (p.placeless.function? name).isSome = (p.function? name).isSome := by
  simp only [function?, placeless, List.find?_map, Option.isSome_map]
  rfl

/-- How reading ends, with all places forgotten. -/
def Program.placelessResult (result : Except Refusal Program) : Except Refusal Program :=
  (result.map Program.placeless).mapError Refusal.placeless

namespace TokenStream

def placeless (s : TokenStream) : TokenStream :=
  ⟨s.tokens.map Token.placeless, (s.ending.map fun _ => .start).mapError LexicalError.placeless⟩

theorem behind_eq (s : TokenStream) :
    s.behind = match s.ending with
      | .ok _ => .ok ⟨s.tokens.tail, s.ending⟩
      | .error e => if s.tokens.length = 1 then .error (.lexical e) else .ok ⟨s.tokens.tail, s.ending⟩ := by
  obtain ⟨tokens, ending⟩ := s
  rcases tokens with _ | ⟨_, _ | _⟩ <;> cases ending <;> rfl

/-- The tokens are the same but for their places, and their values suit their kinds. -/
structure Alike (s t : TokenStream) : Prop where
  same : s.placeless = t.placeless
  suits : ∀ token ∈ s.tokens, token.suits = true

theorem Alike.length (h : Alike s t) : t.tokens.length = s.tokens.length := by
  simpa [placeless] using (congrArg (·.tokens.length) h.same).symm

theorem Alike.endings {s t : TokenStream} (h : Alike s t) :
    (∃ p q, s.ending = .ok p ∧ t.ending = .ok q) ∨
      ∃ e e', s.ending = .error e ∧ t.ending = .error e' ∧ e.placeless = e'.placeless := by
  have same := congrArg TokenStream.ending h.same
  simp only [placeless] at same
  cases atS : s.ending <;> cases atT : t.ending <;> rw [atS, atT] at same
  · exact .inr ⟨_, _, rfl, rfl, Except.error.inj same⟩
  · cases same
  · cases same
  · exact .inl ⟨_, _, rfl, rfl⟩

/-- The mark of the end needs no value. -/
theorem Alike.peek {s t : TokenStream} (h : Alike s t) :
    s.peek.toContent = t.peek.toContent ∧ s.peek.suits = true := by
  obtain ⟨tokens, ending⟩ := s
  obtain ⟨tokens', ending'⟩ := t
  obtain ⟨same, suits⟩ := h
  obtain ⟨sameTokens, -⟩ := TokenStream.mk.inj same
  cases tokens with
  | nil =>
    obtain rfl : tokens' = [] := List.map_eq_nil_iff.mp sameTokens.symm
    cases ending <;> cases ending' <;> exact ⟨rfl, rfl⟩
  | cons token tokens =>
    cases tokens' with
    | nil => cases sameTokens
    | cons token' tokens' =>
      have content := Token.placeless_inj.mp (List.cons.inj sameTokens).1
      have suitsFirst := suits token List.mem_cons_self
      cases ending <;> cases ending' <;> exact ⟨content, suitsFirst⟩

end TokenStream

/-! ### Parsers in step -/

namespace Parser

variable {α β γ : Type}

/-- Equal but for what `forget` drops. -/
abbrev UpTo (forget : α → γ) (a b : α) : Prop := forget a = forget b

/-- Two readings end in the same way: with values that are related, in front of the same tokens, or with the same
cause, which is no malformed token. -/
inductive Agree (same : α → α → Prop) :
    Except Refusal (α × TokenStream) → Except Refusal (α × TokenStream) → Prop where
  | read {a b : α} {s t : TokenStream} (values : same a b) (rest : s.Alike t) : Agree same (.ok (a, s)) (.ok (b, t))
  | refused {r q : Refusal} (cause : r.placeless = q.placeless) (tame : ∀ m, r ≠ .malformed m) :
      Agree same (.error r) (.error q)

theorem Agree.bind {same : α → α → Prop} {same' : β → β → Prop} {r q : Except Refusal (α × TokenStream)}
    {f g : α × TokenStream → Except Refusal (β × TokenStream)} (h : Agree same r q)
    (next : ∀ a b s t, same a b → s.Alike t → Agree same' (f (a, s)) (g (b, t))) :
    Agree same' (r.bind f) (q.bind g) := by
  cases h with
  | read values rest => exact next _ _ _ _ values rest
  | refused cause tame => exact .refused cause tame

theorem Agree.tame {same : α → α → Prop} {r q : Except Refusal (α × TokenStream)} (h : Agree same r q)
    (m : Malformed) : r ≠ .error (.malformed m) := by
  cases h with
  | read values rest => exact nofun
  | refused cause tame => exact fun same => tame m (Except.error.inj same)

theorem Agree.result {r q : Except Refusal (Program × TokenStream)} (h : Agree (UpTo Program.placeless) r q) :
    Program.placelessResult (r.map Prod.fst) = Program.placelessResult (q.map Prod.fst) ∧
      ∀ m, r.map Prod.fst ≠ .error (.malformed m) := by
  cases h with
  | read values rest => exact ⟨congrArg Except.ok values, nofun⟩
  | refused cause tame => exact ⟨congrArg Except.error cause, fun m same => tame m (Except.error.inj same)⟩

/-- From the same tokens at different places two parsers read in step. -/
def InStep (same : α → α → Prop) (x y : Parser α) : Prop :=
  ∀ ⦃s t : TokenStream⦄, s.Alike t → Agree same (x s) (y t)

namespace InStep

variable {same : α → α → Prop} {same' : β → β → Prop} {x y : Parser α} {f g : α → Parser β}

theorem pure {a b : α} (h : same a b) : InStep same (Pure.pure a) (Pure.pure b) := fun _ _ alike => .read h alike

theorem refuse {r q : SyntaxFault} (h : r.placeless = q.placeless) :
    InStep same (Parser.refuse (.syntactic r)) (Parser.refuse (.syntactic q)) :=
  fun _ _ _ => .refused (congrArg Refusal.syntactic h) nofun

theorem bind (first : InStep same x y) (next : ∀ a b, same a b → InStep same' (f a) (g b)) :
    InStep same' (x >>= f) (y >>= g) :=
  fun _ _ alike => (first alike).bind fun a b _ _ values rest => next a b values rest

/-- What is read first is the same on both sides. -/
theorem seq (first : InStep Eq x y) (next : ∀ a, InStep same' (f a) (g a)) : InStep same' (x >>= f) (y >>= g) := by
  apply first.bind
  rintro a _ rfl
  exact next a

/-! ### One token -/

theorem mismatch (expected : List Kind) : InStep same (Parser.mismatch expected) (Parser.mismatch expected) := by
  intro s t alike
  have found := Token.placeless_inj.mpr alike.peek.1
  exact .refused (congrArg (Refusal.syntactic ∘ SyntaxFault.mismatch expected) found) nofun

/-- A decision that is taken by the kind of the next token. -/
theorem peekKind {f g : Kind → Parser β}
    (next : ∀ kind, ∀ ⦃s t⦄, s.Alike t → s.peek.kind = kind → Agree same' (f kind s) (g kind t)) :
    InStep same' (Parser.peekKind >>= f) (Parser.peekKind >>= g) := by
  intro s t alike
  have kind : t.peek.kind = s.peek.kind := congrArg Token.Content.kind alike.peek.1.symm
  rw [peekKind_bind, peekKind_bind, kind]
  exact next _ alike rfl

theorem advance_from {s t : TokenStream} (alike : s.Alike t) :
    Agree (fun a b => a.toContent = b.toContent ∧ a.kind = s.peek.kind ∧ a.suits = true) (Parser.advance s)
      (Parser.advance t) := by
  obtain ⟨content, suits⟩ := alike.peek
  obtain ⟨tokens, ending⟩ := s
  obtain ⟨tokens', ending'⟩ := t
  obtain ⟨sameTokens, sameEnding⟩ := TokenStream.mk.inj alike.same
  have rest : TokenStream.Alike ⟨tokens.tail, ending⟩ ⟨tokens'.tail, ending'⟩ := by
    constructor
    · simp only [TokenStream.placeless, List.map_tail] at sameTokens sameEnding ⊢
      rw [sameTokens, sameEnding]
    · exact fun token mem => alike.suits token (List.mem_of_mem_tail mem)
  -- a fault behind the only token comes first, and it is the same on both sides
  rw [Parser.advance, Parser.advance, TokenStream.behind_eq, TokenStream.behind_eq, alike.length]
  obtain ⟨p, q, rfl, rfl⟩ | ⟨e, e', rfl, rfl, same⟩ := alike.endings
  · exact .read ⟨content, rfl, suits⟩ rest
  · dsimp only
    split
    · exact .refused (congrArg Refusal.lexical same) nofun
    · exact .read ⟨content, rfl, suits⟩ rest

theorem advance : InStep (UpTo Token.toContent) Parser.advance Parser.advance := by
  intro s t alike
  generalize Parser.advance s = r, Parser.advance t = q, advance_from alike = h
  cases h with
  | read values rest => exact .read values.1 rest
  | refused cause tame => exact .refused cause tame

theorem take (kind : Kind) : InStep Eq (Parser.take kind) (Parser.take kind) := by
  apply peekKind
  intro found s t alike _
  split
  · exact advance.bind (fun _ _ _ => .pure rfl) alike
  · exact .read rfl alike

theorem expect (kind : Kind) :
    InStep (fun a b => a.toContent = b.toContent ∧ a.kind = kind ∧ a.suits = true) (Parser.expect kind)
      (Parser.expect kind) := by
  apply peekKind
  rintro found s t alike rfl
  split
  · rename_i same
    rw [← same]
    exact advance_from alike
  · exact mismatch _ alike

theorem ifTake {yes no yes' no' : Parser β} {kind : Kind} (taken : InStep same' yes yes')
    (left : InStep same' no no') :
    InStep same' (do if ← Parser.take kind then yes else no) (do if ← Parser.take kind then yes' else no') := by
  apply (take kind).seq
  rintro (_ | _)
  · exact left
  · exact taken

/-- A token that has to be there, and nothing is kept of it. -/
theorem skip {kind : Kind} {x y : Parser β} (next : InStep same' x y) :
    InStep same' (Parser.expect kind >>= fun _ => x) (Parser.expect kind >>= fun _ => y) :=
  (expect kind).bind fun _ _ _ => next

theorem pass {x y : Parser β} (next : InStep same' x y) :
    InStep same' (Parser.advance >>= fun _ => x) (Parser.advance >>= fun _ => y) :=
  advance.bind fun _ _ _ => next

/-! ### Repetition -/

theorem many (forget : α → γ) {item item' : Parser (Option α)}
    (h : InStep (UpTo (Option.map forget)) item item') (n : Nat) :
    InStep (UpTo (List.map forget)) (Parser.many item n) (Parser.many item' n) := by
  induction n with
  | zero => exact .pure rfl
  | succ n ih =>
    apply h.bind
    rintro (_ | a) (_ | b) same
    · exact .pure rfl
    · cases same
    · cases same
    · apply ih.bind
      intro as bs others
      exact .pure (congrArg₂ List.cons (Option.some.inj same) others)

theorem many_behind (forget : α → γ) {x y : Parser α} (kind : Kind) (h : InStep (UpTo forget) x y) (n : Nat) :
    InStep (UpTo (List.map forget))
      (Parser.many (do if ← Parser.take kind then return some (← x) else return none) n)
      (Parser.many (do if ← Parser.take kind then return some (← y) else return none) n) := by
  apply many forget
  apply ifTake
  · exact h.bind fun a b same => .pure (congrArg some same)
  · exact .pure rfl

/-! ### Names, units and types -/

theorem identifier : InStep (UpTo Symbol.placeless) Parser.identifier Parser.identifier := by
  apply (expect .identifier).bind
  rintro a b ⟨content, kind, suits⟩
  obtain ⟨name, value⟩ := Token.Content.text_of_suits suits (.inl kind)
  have value' : b.value = some (.text name) := content ▸ value
  simp only [value, value']
  exact .pure rfl

/-- A power behind a minus has an opposite, as the literal is not negative. -/
theorem power : InStep Eq Parser.power Parser.power := by
  apply (take .minus).seq
  intro negative
  apply (expect .intLiteral).bind
  rintro a b ⟨content, kind, suits⟩
  obtain ⟨n, value, nonneg⟩ := Token.Content.int_of_suits suits kind
  have value' : b.value = some (.int n) := content ▸ value
  simp only [value, value']
  cases fits : int32? n.toInt with
  | none => exact .refuse rfl
  | some p =>
    cases negative with
    | false => exact .pure rfl
    | true =>
      have opposite : negatePower p ≠ none := by
        have same := int32?_eq_some_iff.mp fits
        have bound := p.toInt_lt
        have nonneg : 0 ≤ n.toInt := Int64.le_iff_toInt_le.mp nonneg
        simp only [negatePower, ne_eq, int32?_eq_none_iff]
        omega
      obtain ⟨q, opposite⟩ := Option.ne_none_iff_exists'.mp opposite
      simp only [opposite]
      exact .pure rfl

theorem factor : InStep Eq Parser.factor Parser.factor := by
  apply identifier.bind
  intro a b same
  rw [Symbol.placeless_inj.mp same]
  apply ifTake
  · exact power.seq fun p => .pure rfl
  · exact .pure rfl

theorem unitExpr (n : Nat) : InStep Eq (Parser.unitExpr n) (Parser.unitExpr n) := by
  apply ifTake
  · exact .pure rfl
  · apply factor.seq
    intro first
    apply (many_behind id .star factor n).bind
    intro others others' same
    rw [UpTo, List.map_id, List.map_id] at same
    subst same
    exact skip (.pure rfl)

theorem type (n : Nat) : InStep Eq (Parser.type n) (Parser.type n) := by
  apply peekKind
  intro kind s t alike _
  split
  · exact pass (.pure rfl) alike
  · exact pass (.pure rfl) alike
  · exact pass (.pure rfl) alike
  · exact pass ((unitExpr n).seq fun u => .pure rfl) alike
  · exact mismatch _ alike

/-! ### Expressions -/

section
variable {nested : Parser Expr} (inner : InStep (UpTo Expr.placeless) nested nested)
include inner

theorem argumentsAfter (n : Nat) {a b : Expr} (same : a.placeless = b.placeless) :
    InStep (UpTo Expr.allPlaceless) (Parser.argumentsAfter nested n a) (Parser.argumentsAfter nested n b) := by
  apply (many_behind Expr.placeless .comma inner n).bind
  intro as bs others
  apply skip
  apply pure
  simp only [UpTo, Expr.allPlaceless, Expr.allPlaceless_eq_map, same, others]

theorem arguments (n : Nat) :
    InStep (UpTo Expr.allPlaceless) (Parser.arguments nested n) (Parser.arguments nested n) := by
  apply ifTake
  · exact .pure rfl
  · exact inner.bind fun a b same => argumentsAfter inner n same

theorem named (n : Nat) {a b : Symbol} (same : a.placeless = b.placeless) :
    InStep (UpTo Expr.placeless) (Parser.named nested n a) (Parser.named nested n b) := by
  apply ifTake
  · exact (arguments inner n).bind fun as bs args => .pure (congrArg₂ Expr.call same args)
  · exact .pure (congrArg Expr.var same)

omit inner in
/-- There may be a unit behind a number, and what comes next is told of it. -/
theorem suffix (n : Nat) {f g : Option UnitExpr → Parser β} (next : ∀ unit, InStep same' (f unit) (g unit)) :
    InStep same'
      (do if ← Parser.take .leftBracket then f (← some <$> Parser.unitExpr n) else f (← Pure.pure none))
      (do if ← Parser.take .leftBracket then g (← some <$> Parser.unitExpr n) else g (← Pure.pure none)) := by
  apply ifTake
  · rw [map_eq_pure_bind]
    apply seq ((unitExpr n).seq fun u => .pure rfl) next
  · exact next none

omit inner in
theorem number (n : Nat) {s t : TokenStream} (alike : s.Alike t)
    (kind : s.peek.kind = .intLiteral ∨ s.peek.kind = .floatLiteral) :
    Agree (UpTo Expr.placeless) (Parser.number n s) (Parser.number n t) := by
  apply (advance_from alike).bind
  rintro a b s t ⟨content, found, suits⟩ alike
  rw [← found] at kind
  obtain kind | kind := kind
  · obtain ⟨n, value, -⟩ := Token.Content.int_of_suits suits kind
    have value' : b.value = some (.int n) := content ▸ value
    simp only [value, value']
    apply suffix _ _ alike
    intro unit
    exact .pure rfl
  · obtain ⟨x, value⟩ := Token.Content.float_of_suits suits kind
    have value' : b.value = some (.float x) := content ▸ value
    simp only [value, value']
    apply suffix _ _ alike
    intro unit
    exact .pure rfl

omit inner in
theorem text {s t : TokenStream} (alike : s.Alike t) (kind : s.peek.kind = .stringLiteral) :
    Agree (UpTo Expr.placeless) (Parser.text s) (Parser.text t) := by
  apply (advance_from alike).bind
  rintro a b s t ⟨content, found, suits⟩ alike
  obtain ⟨x, value⟩ := Token.Content.text_of_suits suits (.inr (found.trans kind))
  have value' : b.value = some (.text x) := content ▸ value
  simp only [value, value']
  exact .read rfl alike

theorem primary (n : Nat) {a b : Option Symbol} (same : a.map Symbol.placeless = b.map Symbol.placeless) :
    InStep (UpTo Expr.placeless) (Parser.primary nested n a) (Parser.primary nested n b) := by
  match a, b, same with
  | some a, some b, same => exact named inner n (Option.some.inj same)
  | none, none, _ =>
    apply peekKind
    intro kind s t alike found
    split
    · exact number n alike (.inl found)
    · exact number n alike (.inr found)
    · apply advance.bind _ alike
      intro a b _
      exact .pure rfl
    · apply advance.bind _ alike
      intro a b _
      exact .pure rfl
    · exact text alike found
    · exact identifier.bind (fun a b same => named inner n same) alike
    · exact pass (inner.bind fun a b same => skip (.pure same)) alike
    · exact mismatch _ alike

end

section
variable {operand : Option Symbol → Parser Expr}

/-- From any name that may have been read before, an operand is read in step. -/
def Operand (operand : Option Symbol → Parser Expr) : Prop :=
  ∀ ⦃a b : Option Symbol⦄, a.map Symbol.placeless = b.map Symbol.placeless →
    InStep (UpTo Expr.placeless) (operand a) (operand b)

theorem unary (inner : Operand operand) : Operand (Parser.unary operand) := by
  intro a b same
  match a, b, same with
  | some a, some b, same => exact inner same
  | none, none, _ =>
    apply peekKind
    intro kind s t alike _
    cases unaryOp? kind with
    | none => exact inner rfl alike
    | some op =>
      apply advance.bind _ alike
      intro a b _
      apply (inner rfl).bind
      intro e e' same
      exact .pure (congrArg (Expr.unary op .start) same)

theorem tier (operator? : Kind → Option BinaryOp) (inner : Operand operand) (n : Nat) :
    Operand (Parser.tier operator? operand n) := by
  intro seed seed' sameSeed
  apply (inner sameSeed).bind
  intro first first' sameFirst
  apply (many placelessOperation _ n).bind
  · intro others others' sameOthers
    apply pure
    rw [UpTo, placeless_foldl, placeless_foldl, sameFirst, sameOthers]
  · apply peekKind
    intro kind s t alike _
    cases operator? kind with
    | none => exact .read rfl alike
    | some op =>
      apply advance.bind _ alike
      intro a b _
      apply (inner rfl).bind
      intro right right' same
      exact .pure (congrArg (fun right => some (op, right)) same)

theorem ladder (inner : Operand operand) (n : Nat) : Operand (Parser.ladder operand n) :=
  tier _ (tier _ (tier _ (tier _ (tier _ (unary inner) n) n) n) n) n

end

theorem expressionFrom (n : Nat) : Operand (Parser.expressionFrom n) := by
  induction n with
  | zero =>
    apply ladder
    intro a b same
    exact primary (mismatch _) 0 same
  | succ n ih =>
    apply ladder
    intro a b same
    exact primary (ih rfl) (n + 1) same

theorem expression (n : Nat) : InStep (UpTo Expr.placeless) (Parser.expression n) (Parser.expression n) :=
  expressionFrom n rfl

/-! ### Statements -/

theorem block {nested : Parser Stmt} (inner : InStep (UpTo Stmt.placeless) nested nested) (n : Nat) :
    InStep (UpTo Stmt.allPlaceless) (Parser.block nested n) (Parser.block nested n) := by
  apply (many Stmt.placeless _ n).bind
  · intro body body' same
    apply skip
    apply pure
    rwa [UpTo, Stmt.allPlaceless_eq_map, Stmt.allPlaceless_eq_map]
  · apply peekKind
    intro kind s t alike _
    split
    · exact .read rfl alike
    · apply inner.bind _ alike
      intro a b same
      exact .pure (congrArg some same)

theorem alternatives {condition : Parser Expr} {body : Parser (List Stmt)}
    (tested : InStep (UpTo Expr.placeless) condition condition)
    (inside : InStep (UpTo Stmt.allPlaceless) body body) (n : Nat) :
    InStep (UpTo Else.placeless) (Parser.alternatives condition body n) (Parser.alternatives condition body n) := by
  induction n with
  | zero => exact .pure rfl
  | succ n ih =>
    apply ifTake
    · apply ifTake
      · apply tested.bind
        intro c c' sameCondition
        apply skip
        apply inside.bind
        intro b b' sameBody
        apply ih.bind
        intro o o' sameOthers
        apply pure
        simp only [UpTo, Else.placeless, sameCondition, sameBody, sameOthers]
      · apply skip
        exact inside.bind fun b b' same => .pure (congrArg Else.last same)
    · exact .pure rfl

theorem declaration (n : Nat) :
    InStep (UpTo Stmt.placeless) (Parser.declaration n) (Parser.declaration n) := by
  apply identifier.bind
  intro a b sameName
  apply skip
  apply (type n).seq
  intro ty
  apply skip
  apply (expression n).bind
  intro e e' sameValue
  apply pure
  simp only [UpTo, Stmt.placeless, sameName, sameValue]

theorem namedStatement (n : Nat) {a b : Symbol} (same : a.placeless = b.placeless) :
    InStep (UpTo Stmt.placeless) (Parser.namedStatement n a) (Parser.namedStatement n b) := by
  apply ifTake
  · exact (expression n).bind fun e e' value => .pure (congrArg₂ Stmt.assign same value)
  · apply ifTake
    · exact (arguments (expression n) n).bind fun es es' args => .pure (congrArg₂ Stmt.call same args)
    · exact mismatch _

theorem returnStatement (inFunction : Bool) (n : Nat) :
    InStep (UpTo Stmt.placeless) (Parser.returnStatement inFunction n) (Parser.returnStatement inFunction n) := by
  apply advance.bind
  intro a b _
  cases inFunction with
  | false => exact refuse rfl
  | true =>
    apply peekKind
    intro kind s t alike _
    split
    · exact .read rfl alike
    · apply (expression n).bind _ alike
      intro e e' same
      exact .pure (congrArg (Stmt.ret .start ∘ some) same)

theorem statement (inFunction : Bool) (n : Nat) :
    InStep (UpTo Stmt.placeless) (Parser.statement inFunction n) (Parser.statement inFunction n) := by
  induction n with
  | zero => exact mismatch _
  | succ n ih =>
    have body := block ih n
    apply peekKind
    intro kind s t alike _
    split
    · exact pass (declaration n) alike
    · apply pass _ alike
      apply (expression n).bind
      intro c c' sameCondition
      apply skip
      apply body.bind
      intro b b' sameBody
      apply (alternatives (expression n) body n).bind
      intro o o' sameOthers
      apply pure
      simp only [UpTo, Stmt.placeless, sameCondition, sameBody, sameOthers]
    · apply pass _ alike
      apply (expression n).bind
      intro c c' sameCondition
      apply skip
      exact body.bind fun b b' sameBody => .pure (congrArg₂ Stmt.loop sameCondition sameBody)
    · exact returnStatement inFunction n alike
    · apply pass _ alike
      exact body.bind fun b b' same => .pure (congrArg Stmt.block same)
    · exact identifier.bind (fun a b same => namedStatement n same) alike
    · exact mismatch _ alike

/-! ### Programs -/

theorem parameter (n : Nat) : InStep (UpTo Param.placeless) (Parser.parameter n) (Parser.parameter n) := by
  apply identifier.bind
  intro a b same
  apply skip
  exact (type n).seq fun ty => .pure (congrArg (Param.mk · ty) same)

theorem functionFrom (n : Nat) {a b : Symbol} (sameName : a.placeless = b.placeless) {params params' : List Param}
    (sameParams : params.map Param.placeless = params'.map Param.placeless) :
    InStep (UpTo Item.placeless) (Parser.functionFrom n a params) (Parser.functionFrom n b params') := by
  apply (type n).seq
  intro returnType
  apply skip
  apply (block (statement true n) n).bind
  intro body body' sameBody
  apply pure
  simp only [UpTo, Item.placeless, Function.placeless, sameName, sameParams, sameBody]

theorem callOrFunction (n : Nat) {a b : Symbol} (same : a.placeless = b.placeless) :
    InStep (UpTo Item.placeless) (Parser.callOrFunction n a) (Parser.callOrFunction n b) := by
  have call {es es' : List Expr} (args : Expr.allPlaceless es = Expr.allPlaceless es') :
      UpTo Item.placeless (.statement (.call a es)) (.statement (.call b es')) :=
    congrArg Item.statement (congrArg₂ Stmt.call same args)
  apply ifTake
  · apply ifTake
    · exact functionFrom n same rfl
    · exact .pure (call rfl)
  · apply peekKind
    intro kind s t alike _
    split
    · apply identifier.bind _ alike
      intro first first' sameFirst
      apply ifTake
      · apply (type n).seq
        intro ty
        apply (many_behind Param.placeless .comma (parameter n) n).bind
        intro others others' sameOthers
        apply skip
        apply skip
        apply functionFrom n same
        rw [List.map_cons, List.map_cons, sameOthers]
        exact congrArg (Param.mk · ty :: _) sameFirst
      · have seeds : (some first).map Symbol.placeless = (some first').map Symbol.placeless :=
          congrArg some sameFirst
        apply (expressionFrom n seeds).bind
        intro e e' sameArg
        exact (argumentsAfter (expression n) n sameArg).bind fun es es' args => .pure (call args)
    · exact (arguments (expression n) n).bind (fun es es' args => .pure (call args)) alike

theorem item (n : Nat) : InStep (UpTo Item.placeless) (Parser.item n) (Parser.item n) := by
  apply peekKind
  intro kind s t alike _
  split
  · apply pass _ alike
    apply identifier.bind
    intro a b same
    apply skip
    apply skip
    exact (unitExpr n).seq fun u => .pure (congrArg (Item.unit ⟨·, u⟩) same)
  · apply identifier.bind _ alike
    intro a b same
    apply ifTake
    · exact callOrFunction n same
    · exact (namedStatement n same).bind fun s t same => .pure (congrArg Item.statement same)
  · apply (statement false n).bind _ alike
    intro s t same
    exact .pure (congrArg Item.statement same)

/-- Whether a name is taken does not depend on where it has been defined. -/
theorem add {p q : Program} (same : p.placeless = q.placeless) {i j : Item} (sameItem : i.placeless = j.placeless) :
    InStep (UpTo Program.placeless) (Parser.add p i) (Parser.add q j) := by
  obtain ⟨functions, units, statements⟩ := Program.mk.inj same
  match i, j, sameItem with
  | .unit d, .unit e, sameItem =>
    have sameUnit : d.placeless = e.placeless := Item.unit.inj sameItem
    have sameName := congrArg UnitDeclaration.name sameUnit
    have taken : p.declaresUnit d.name.name = q.declaresUnit e.name.name := by
      rw [← p.declaresUnit_placeless, same, q.declaresUnit_placeless, Symbol.placeless_inj.mp sameName]
    simp only [Parser.add, taken]
    split
    · exact refuse (congrArg SyntaxFault.unitRedefined sameName)
    · apply pure
      simp only [UpTo, Program.placeless, List.map_append, units, functions, statements, List.map_cons, sameUnit,
        List.map_nil]
  | .function f, .function g, sameItem =>
    have sameFunction : f.placeless = g.placeless := Item.function.inj sameItem
    have sameName := congrArg Function.name sameFunction
    have taken : (p.function? f.name.name).isSome = (q.function? g.name.name).isSome := by
      rw [← p.isSome_function?_placeless, same, q.isSome_function?_placeless, Symbol.placeless_inj.mp sameName]
    simp only [Parser.add, taken]
    split
    · exact refuse (congrArg SyntaxFault.functionRedefined sameName)
    · apply pure
      simp only [UpTo, Program.placeless, List.map_append, units, functions, statements, List.map_cons, sameFunction,
        List.map_nil]
  | .statement s, .statement t, sameItem =>
    have sameStatement : s.placeless = t.placeless := Item.statement.inj sameItem
    apply pure
    rw [Stmt.allPlaceless_eq_map, Stmt.allPlaceless_eq_map] at statements
    simp only [UpTo, Program.placeless, Stmt.allPlaceless_eq_map, List.map_append, units, functions, statements,
      List.map_cons, sameStatement, List.map_nil]

theorem items (n rounds : Nat) {p q : Program} (same : p.placeless = q.placeless) :
    InStep (UpTo Program.placeless) (Parser.items n rounds p) (Parser.items n rounds q) := by
  induction rounds generalizing p q with
  | zero => exact .pure same
  | succ rounds ih =>
    apply peekKind
    intro kind s t alike _
    split
    · exact .read same alike
    · apply (item n).bind _ alike
      intro i j sameItem
      exact (add same sameItem).bind fun p q same => ih same

end InStep

end Parser

namespace Program

variable {s t : TokenStream}

/-- What a stream is read as depends on its tokens and not on their places, comments apart. -/
theorem placelessResult_ofTokens (alike : s.withoutComments.Alike t.withoutComments) :
    placelessResult (ofTokens s) = placelessResult (ofTokens t) ∧ ∀ m, ofTokens s ≠ .error (.malformed m) := by
  unfold ofTokens
  dsimp only
  generalize s.withoutComments = s, t.withoutComments = t at alike
  rw [alike.length]
  have items := (Parser.InStep.items s.tokens.length s.tokens.length (p := empty) rfl alike).result
  obtain ⟨tokens, ending⟩ := s
  obtain ⟨tokens', ending'⟩ := t
  cases tokens with
  | cons token tokens =>
    obtain ⟨token', tokens', rfl⟩ := List.exists_cons_of_length_eq_add_one alike.length
    exact items
  | nil =>
    obtain rfl := List.length_eq_zero_iff.mp alike.length
    obtain ⟨p, q, rfl, rfl⟩ | ⟨e, e', rfl, rfl, same⟩ := alike.endings
    · exact items
    · exact ⟨congrArg (Except.error ∘ Refusal.lexical) same, nofun⟩

end Program

end Mensura
