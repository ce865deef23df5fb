import Mensura.Proofs.Evaluation.Names
import Mensura.Proofs.Measured.Safety
import Mensura.Proofs.Program.Suiting
import Mensura.Proofs.Token.Inline
import Mensura.Proofs.Typing.Names

/-!
What a user is told. A diagnostic names the source, the place if it has one, its stage and its cause. Names and
characters in it never break its line. Main statement: a diagnostic is one line, with a place in it unless a function
has come to its end without a value or a built-in function has failed, but for one case: a text literal that cannot
stand where it does is shown with nothing escaped, and so with the line breaks that it stands for.
-/

namespace Mensura

open Text (Unbroken)

/-! ### What messages are made of -/

theorem Token.Kind.name_unbroken (kind : Token.Kind) : Unbroken kind.name := by
  cases kind <;> exact .literal rfl

theorem Value.Kind.name_unbroken (kind : Value.Kind) : Unbroken kind.name := by
  cases kind <;> exact .literal rfl

theorem BinaryOp.display_unbroken (op : BinaryOp) : Unbroken op.display := by
  cases op <;> exact .literal rfl

theorem Builtin.name_unbroken (b : Builtin) : Unbroken b.name := by
  cases b <;> exact .literal rfl

theorem Operation.display_unbroken (operation : Operation) : Unbroken operation.display := by
  cases operation with
  | unary op => cases op <;> exact .literal rfl
  | binary op => exact op.display_unbroken
  | call callee => exact callee.name_unbroken

theorem Position.display_unbroken (p : Position) : Unbroken p.display :=
  .append (.append (.append (.literal rfl) (Numeral.integer_unbroken _)) (.literal rfl)) (Numeral.integer_unbroken _)

theorem UnitExpr.display_unbroken {u : UnitExpr} (named : u.Named Unbroken) : Unbroken u.display := by
  refine .append (.append (.literal rfl) (.intercalate (.literal rfl) ?_)) (.literal rfl)
  intro s mem
  obtain ⟨f, among, rfl⟩ := List.mem_map.mp mem
  unfold Factor.display
  split
  · exact named f among
  · exact .append (.append (named f among) (.literal rfl)) (Numeral.integer_unbroken _)

theorem Ty.display_unbroken {τ : Ty} (named : τ.Named Unbroken) : Unbroken τ.display := by
  cases τ with
  | quantity u => exact UnitExpr.display_unbroken named
  | bool | text | void => exact .literal rfl

/-! ### Messages -/

theorem LexicalFault.message_unbroken (fault : LexicalFault) : Unbroken fault.message := by
  unfold message
  cases fault with
  | commentTooLong | identifierTooLong | textTooLong | tooManyPlaces =>
    dsimp only
    exact .append (.append (.literal rfl) (Numeral.integer_unbroken _)) (.literal rfl)
  | numberTooLarge | exponentTooLarge =>
    dsimp only
    exact .append (.literal rfl) (Numeral.integer_unbroken _)
  | quoteMissing => exact .literal rfl
  | unknownEscape found =>
    dsimp only
    exact .append (.append (.literal rfl) (Text.asciiName_unbroken found)) (.literal rfl)

/-- What a token shows is its value; all that stands around that is plain. -/
theorem Token.display_unbroken_iff {t : Token} :
    Unbroken t.display ↔ ∀ v, t.value = some v → Unbroken v.display := by
  have place : Unbroken (" at " ++ t.position.display) := .append (.literal rfl) t.position.display_unbroken
  unfold Token.display
  rw [Text.unbroken_append, Text.unbroken_append, Text.unbroken_append]
  rw [Text.unbroken_append] at place
  simp only [t.kind.name_unbroken, place, true_and, and_true]
  cases t.value with
  | none => exact ⟨fun _ => nofun, fun _ => .literal rfl⟩
  | some v =>
    simp only [Text.unbroken_append, Option.some.injEq, forall_eq']
    exact ⟨fun h => h.1.2, fun h => ⟨⟨.literal rfl, h⟩, .literal rfl⟩⟩

theorem SyntaxFault.mismatch_message_unbroken_iff {expected : List Token.Kind} {found : Token} :
    Unbroken (mismatch expected found).message ↔ Unbroken found.display := by
  have names : ∀ s ∈ expected.map Token.Kind.name, Unbroken s := by
    intro s mem
    obtain ⟨kind, -, rfl⟩ := List.mem_map.mp mem
    exact kind.name_unbroken
  have listed : Unbroken ("expected one of " ++ ", ".intercalate (expected.map Token.Kind.name) ++ " but found ") :=
    .append (.append (.literal rfl) (.intercalate (.literal rfl) names)) (.literal rfl)
  unfold message
  rcases expected with _ | ⟨kind, _ | ⟨other, others⟩⟩ <;> dsimp only
  · rw [Text.unbroken_append, and_iff_right listed]
  · have single : Unbroken ("expected " ++ kind.name ++ " but found ") :=
      .append (.append (.literal rfl) kind.name_unbroken) (.literal rfl)
    rw [Text.unbroken_append, and_iff_right single]
  · rw [Text.unbroken_append, and_iff_right listed]

/-- Tokens as a text is scanned as, and the names among them. -/
def Wording.inline : Wording where
  token t := t.toContent.Inline
  name := Unbroken
  etx _ := .plain _
  named := by
    rintro t symbol (⟨s, literal⟩ | shown) names
    · have kind := names.kind
      rw [literal] at kind
      cases kind
    · exact Token.Value.text_display_unbroken_iff.mp (shown _ names.value)

theorem TypingFault.operandsMessage_unbroken {operands : List Ty} (named : ∀ τ ∈ operands, τ.Named Unbroken) :
    Unbroken (operandsMessage operands) := by
  have shown (τ : Ty) (mem : τ ∈ operands) : Unbroken τ.display := Ty.display_unbroken (named τ mem)
  unfold operandsMessage
  split
  · exact .append (.literal rfl) (shown _ (by simp))
  · exact .append (.append (.append (.literal rfl) (shown _ (by simp))) (.literal rfl)) (shown _ (by simp))
  · refine .append (.append (.literal rfl) (.intercalate (.literal rfl) ?_)) (.literal rfl)
    intro s mem
    obtain ⟨τ, among, rfl⟩ := List.mem_map.mp mem
    exact shown τ among

theorem TypingFault.message_unbroken {fault : TypingFault} (named : fault.Named Unbroken) :
    Unbroken fault.message := by
  unfold message
  cases fault with
  | variableRedeclared name | variableUndeclared name | functionUndeclared name =>
    dsimp only
    exact .append (.append (.literal rfl) named) (.literal rfl)
  | unit error =>
    cases error with
    | undeclared name | recursive name | powerOverflow name =>
      dsimp only
      exact .append (.append (.literal rfl) named) (.literal rfl)
  | mismatch expected found =>
    have left := Ty.display_unbroken named.1
    have right := Ty.display_unbroken named.2
    dsimp only
    exact .append (.append (.append (.literal rfl) left) (.literal rfl)) right
  | notPermitted operation operands =>
    dsimp only
    refine .append (.append (.append (.literal rfl) operation.display_unbroken) (.literal rfl)) ?_
    exact operandsMessage_unbroken named
  | argumentCount callee expected found =>
    dsimp only
    refine .append (.append (.append (.append (.append (.literal rfl) named) (.literal rfl)) ?_) (.literal rfl)) ?_
    · exact Numeral.integer_unbroken _
    · exact Numeral.integer_unbroken _
  | returnMismatch function expected found =>
    obtain ⟨name, left, right⟩ := named
    have name : Unbroken function := by
      obtain rfl | name := name
      · exact .literal rfl
      · exact name
    dsimp only
    refine .append (.append (.append (.append (.append (.literal rfl) name) (.literal rfl)) ?_) (.literal rfl)) ?_
    · exact Ty.display_unbroken left
    · exact Ty.display_unbroken right
  | parameterRepeated function parameter =>
    dsimp only
    exact .append (.append (.append (.append (.literal rfl) named.2) (.literal rfl)) named.1) (.literal rfl)

theorem BuiltinFault.message_unbroken (fault : BuiltinFault) : Unbroken fault.message := by
  unfold message
  cases fault with
  | notNumber found =>
    dsimp only
    exact .append (.append (.literal rfl) found.name_unbroken) (.literal rfl)
  | notNumbers base exponent =>
    dsimp only
    refine .append (.append (.append (.append (.literal rfl) base.name_unbroken) (.literal rfl)) ?_) (.literal rfl)
    exact exponent.name_unbroken
  | overflow => exact .literal rfl

/-- The message about an error that an accepted program can end with. -/
theorem RunError.message_unbroken {error : RunError} (depends : error.DependsOnValues)
    (named : error.Named Unbroken) : Unbroken error.message := by
  unfold message
  cases depends with
  | divisionByZero => exact .literal rfl
  | integerOverflow => exact .literal rfl
  | missingReturn =>
    dsimp only
    exact .append (.append (.literal rfl) named) (.literal rfl)
  | powerOverflow =>
    have fault := BuiltinFault.message_unbroken .overflow
    dsimp only
    exact .append (.append (.append (.literal rfl) (Builtin.name_unbroken _)) (.literal rfl)) fault

/-! ### Diagnostics -/

/-- What can be told about a text: why it is no program that is accepted, or what its run has failed for. -/
inductive Program.Fails (limits : Limits) (text : String) (bound : Nat) : Diagnostic → Prop
  | refused {d : Diagnostic} (refused : accept limits text = .error d) : Fails limits text bound d
  | stopped {p : Program} {error : RunError} (accepted : accept limits text = .ok p)
      (failed : (p.outcome bound).ending = .error (.failed error)) : Fails limits text bound (.run error)

/-- Why a text is refused as it is read. -/
theorem Program.ofText_ends (limits : Limits) (text : String) :
    Ends Wording.inline.refusal (Program.Named Unbroken) (ofText limits text) := by
  apply ofTokens_ends .inline
  intro t mem
  exact TokenStream.ofCursor_inline limits _ t (List.mem_filter.mp mem).1

/-- An accepted program fails only by what its values are. -/
theorem Program.failure_dependsOnValues {limits : Limits} {text : String} {p : Program}
    (read : ofText limits text = .ok p) (checked : p.checked = .ok ()) {bound : Nat} {error : RunError}
    (failed : (p.outcome bound).ending = .error (.failed error)) : error.DependsOnValues := by
  have typed := wellTyped_of_checked checked
  have ends := measuredOutcome_ends typed bound
  rw [(measuredOutcome_eq bound (measuredOutcome_ne_misfit typed bound)).1, failed] at ends
  obtain tolerable | ⟨-, returns⟩ := ends
  · exact tolerable
  · rw [anyReturns_of_ofText read] at returns
    cases returns

/-- What a text fails with by the stage that it has come to: as its tokens, its names and its values are. -/
inductive Diagnostic.Founded : Diagnostic → Prop
  | lexical (error : LexicalError) : Founded (.refusal (.lexical error))
  | syntactic {fault : SyntaxFault} (told : Wording.inline.refusal (.syntactic fault)) :
      Founded (.refusal (.syntactic fault))
  | typing {error : TypingError} (named : error.fault.Named Unbroken) : Founded (.typing error)
  | run {error : RunError} (depends : error.DependsOnValues) (named : error.Named Unbroken) : Founded (.run error)

theorem Program.refusal_founded {limits : Limits} {text : String} {r : Refusal}
    (unread : ofText limits text = .error r) : Diagnostic.Founded (.refusal r) := by
  have reading := ofText_ends limits text
  rw [unread] at reading
  cases r with
  | lexical error => exact .lexical error
  | syntactic fault => exact .syntactic reading
  | malformed token => exact absurd unread (ofTokens_tame (TokenStream.ofText_suits limits text) token)

theorem Program.Fails.founded {limits : Limits} {text : String} {bound : Nat} {d : Diagnostic}
    (fails : Program.Fails limits text bound d) : d.Founded := by
  have reading := Program.ofText_ends limits text
  cases fails with
  | refused refused =>
    obtain unread | ⟨p, read, refused⟩ := bind_eq_error.mp refused
    · obtain ⟨r, failed, rfl⟩ := mapError_eq_error.mp unread
      exact Program.refusal_founded failed
    · rw [mapError_eq_ok.mp read] at reading
      obtain unchecked | ⟨_, -, impossible⟩ := bind_eq_error.mp refused
      · obtain ⟨e, failed, rfl⟩ := mapError_eq_error.mp unchecked
        have checking := reading.checked_ends
        rw [failed] at checking
        exact .typing checking
      · cases impossible
  | @stopped p error accepted failed =>
    obtain ⟨q, read, accepted⟩ := bind_eq_ok.mp accepted
    obtain ⟨_, checked, accepted⟩ := bind_eq_ok.mp accepted
    cases accepted
    have read := mapError_eq_ok.mp read
    rw [read] at reading
    have running := reading.outcome_ends bound
    rw [failed] at running
    exact .run (Program.failure_dependsOnValues read (mapError_eq_ok.mp checked) failed) running

namespace Diagnostic

variable {d : Diagnostic}

/-- The one message that can break its line shows a text literal. -/
theorem Founded.message_broken_iff (founded : d.Founded) :
    ¬ Unbroken d.message ↔ ∃ expected position s,
      d = .refusal (.syntactic (.mismatch expected ⟨⟨.stringLiteral, some (.text s)⟩, position⟩)) ∧ ¬ Unbroken s := by
  have plain {e : Diagnostic} (same : d = e) (h : Unbroken e.message) (other : ∀ expected found,
      e ≠ .refusal (.syntactic (.mismatch expected found))) : ¬ Unbroken d.message ↔ ∃ expected position s,
      d = .refusal (.syntactic (.mismatch expected ⟨⟨.stringLiteral, some (.text s)⟩, position⟩)) ∧ ¬ Unbroken s := by
    subst same
    exact ⟨fun broken => absurd h broken, fun ⟨_, _, _, same, _⟩ => absurd same (other _ _)⟩
  cases founded with
  | lexical error => exact plain rfl error.fault.message_unbroken (fun _ _ => nofun)
  | typing named => exact plain rfl (TypingFault.message_unbroken named) (fun _ _ => nofun)
  | run depends named => exact plain rfl (RunError.message_unbroken depends named) (fun _ _ => nofun)
  | @syntactic fault told =>
    cases fault with
    | functionRedefined name | unitRedefined name =>
      exact plain rfl (.append (.append (.literal rfl) told) (.literal rfl)) (fun _ _ => nofun)
    | returnOutsideFunction position =>
      exact plain rfl (.literal rfl) (fun _ _ => nofun)
    | powerOutOfRange position => exact plain rfl (.literal rfl) (fun _ _ => nofun)
    | mismatch expected found =>
      obtain ⟨content, position⟩ := found
      change ¬ Unbroken (SyntaxFault.mismatch expected _).message ↔ _
      rw [SyntaxFault.mismatch_message_unbroken_iff, Token.display_unbroken_iff]
      obtain ⟨s, rfl⟩ | shown := told
      · constructor
        · intro broken
          refine ⟨expected, position, s, rfl, fun whole => broken ?_⟩
          rintro _ ⟨⟩
          exact Token.Value.text_display_unbroken_iff.mpr whole
        · rintro ⟨_, _, _, ⟨⟩, broken⟩ shown
          exact broken (Token.Value.text_display_unbroken_iff.mp (shown _ rfl))
      · constructor
        · exact fun broken => absurd shown broken
        · rintro ⟨_, _, _, ⟨⟩, broken⟩ -
          exact broken (Token.Value.text_display_unbroken_iff.mp (shown _ rfl))

/-- It has no place: a function has come to its end without a value, or a built-in function has failed. -/
def Placeless (d : Diagnostic) : Prop :=
  (∃ function, d = .run (.missingReturn function)) ∨ ∃ callee fault, d = .run (.builtin callee fault)

theorem Founded.position?_eq_none_iff (founded : d.Founded) : d.position? = none ↔ d.Placeless := by
  unfold Placeless
  cases founded with
  | lexical | syntactic | typing => exact ⟨nofun, nofun⟩
  | run depends named => cases depends <;> simp [position?, RunError.position?]

theorem stage_unbroken (d : Diagnostic) : Unbroken d.stage := by
  unfold stage
  split <;> exact .literal rfl

theorem line_broken_iff (d : Diagnostic) {source : String} (named : Unbroken source) :
    ¬ Unbroken (d.line source) ↔ ¬ Unbroken d.message := by
  have located : Unbroken (d.location source) := by
    unfold location
    split
    · refine .append (.append (.append (.append named (.literal rfl)) ?_) (.literal rfl)) ?_
      · exact Numeral.integer_unbroken _
      · exact Numeral.integer_unbroken _
    · exact named
  have labelled : Unbroken d.label := .append d.stage_unbroken (.literal rfl)
  have front : Unbroken (d.location source ++ ": " ++ d.label ++ " ") :=
    .append (.append (.append located (.literal rfl)) labelled) (.literal rfl)
  rw [line, Text.unbroken_append, and_iff_right front]

end Diagnostic

/-- Whatever a text fails for, its diagnostic names the source, the row and the column, the stage and the message, in
this order; only where a function has ended without a value or a built-in function has failed there is no row and no
column. It is one line, unless it is about a text literal that cannot stand where it does and that has a line break in
it: of all that a text can put into a diagnostic, nothing else is shown with its line breaks. -/
theorem Program.Fails.line_shape {limits : Limits} {text : String} {bound : Nat} {d : Diagnostic}
    (fails : Program.Fails limits text bound d) :
    (d.Placeless → d.line "<input>" = "<input>: " ++ d.stage ++ " error: " ++ d.message) ∧
    (¬ d.Placeless → ∃ p, d.position? = some p ∧
      d.line "<input>" = "<input>:" ++ Numeral.integer p.row ++ ":" ++ Numeral.integer p.column ++ ": " ++ d.stage ++
        " error: " ++ d.message) ∧
    (¬ Unbroken (d.line "<input>") ↔ ∃ expected position s,
      d = .refusal (.syntactic (.mismatch expected ⟨⟨.stringLiteral, some (.text s)⟩, position⟩)) ∧ ¬ Unbroken s) := by
  have founded := fails.founded
  refine ⟨?_, ?_, ?_⟩
  · intro placeless
    have nowhere := founded.position?_eq_none_iff.mpr placeless
    rw [Diagnostic.line, Diagnostic.location, nowhere]
    simp [Diagnostic.label, String.append_assoc]
  · intro placed
    rw [← founded.position?_eq_none_iff] at placed
    obtain ⟨p, here⟩ := Option.ne_none_iff_exists'.mp placed
    refine ⟨p, here, ?_⟩
    rw [Diagnostic.line, Diagnostic.location, here]
    simp [Diagnostic.label, String.append_assoc]
  · rw [d.line_broken_iff (.literal rfl), founded.message_broken_iff]

/-- A function that ends without a value. -/
theorem Program.Fails.line_shape_missingReturn :
    Program.Fails {} "f() -> [] { } f()" 1 (.run (.missingReturn "f")) ∧
      Diagnostic.line "<input>" (.run (.missingReturn "f")) =
        "<input>: runtime error: 'f' finished without returning a value" := by
  have run : ((Program.accept {} "f() -> [] { } f()").toOption.map fun p => (p.outcome 1).ending) =
      some (.error (.failed (.missingReturn "f"))) := by decide +kernel
  obtain ⟨p, accepted, failed⟩ := Option.map_eq_some_iff.mp run
  have fails : Program.Fails {} "f() -> [] { } f()" 1 (.run (.missingReturn "f")) :=
    .stopped (toOption_eq_some.mp accepted) failed
  exact ⟨fails, (Program.Fails.line_shape fails).1 (.inl ⟨"f", rfl⟩)⟩

/-- A text literal stands where a statement has to, and it has a line break in it. -/
theorem diagnostic_broken : ∃ d, Program.Fails {} "\"a\\nb\"" 0 d ∧ ¬ Unbroken (d.line "<input>") ∧
    d.line "<input>" = "<input>:1:1: syntax error: expected one of Let, If, While, Return, LeftBrace, Identifier " ++
      "but found StringLiteral(\"a\nb\") at line 1, column 1" := by
  have refused : (Program.accept {} "\"a\\nb\"").map (fun _ => ()) = .error (.refusal (.syntactic
      (.mismatch Parser.statementStart ⟨⟨.stringLiteral, some (.text "a\nb")⟩, ⟨1, 1⟩⟩))) := by decide +kernel
  exact ⟨_, .refused (map_eq_error.mp refused), by decide +kernel, by decide +kernel⟩

end Mensura
