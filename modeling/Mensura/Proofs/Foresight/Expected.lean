import Mensura.Proofs.Foresight.Offence

/-!
What is said to be expected. A refusal tells the kinds of token that are expected in place of the one that is refused.
Main statement: by a token of each of these kinds the tokens before it can be continued to a program, except for a
`return` outside of functions, which is refused as such whatever comes behind it. As with the first offending token,
`Program.ofTokens` reads behind the filter that leaves the comments out, and is not the parser alone.
-/

namespace Mensura

open Token (Kind)

namespace Program

/-- Behind the tokens `before` a `return` is refused as one outside of functions. -/
def ForbidsReturn (before : List Token) : Prop :=
  ∀ word : Token, word.kind = .returnWord → ∀ (more : List Token) (position : Position),
    ofTokens ⟨before ++ word :: more, .ok position⟩ = .error (.syntactic (.returnOutsideFunction word.position))

/-- Where it is forbidden, a `return` does not lead to a program. -/
theorem ForbidsReturn.not_begins {before : List Token} (h : ForbidsReturn before) {word : Token}
    (isReturn : word.kind = .returnWord) : ¬ Begins (before ++ [word]) := by
  rintro ⟨more, -, reads⟩
  have refused := h word isReturn more .start
  obtain ⟨p, read⟩ | ⟨r, redefines, other⟩ := reads .start
  · rw [List.append_assoc, List.singleton_append, refused] at read
    cases read
  · rw [List.append_assoc, List.singleton_append, refused] at other
    cases other
    cases redefines

/-- A `return` that is excused is one that is forbidden. -/
theorem forbidsReturn_of_excused {before : List Token}
    (excused : Parser.Listed.excused fun rest => (before.filter fun t => t.kind != .comment) ++ rest) :
    ForbidsReturn before := by
  obtain ⟨is, distinct, reads⟩ := excused
  intro word isReturn more position
  have spoken : ((word :: more).filter fun t => t.kind != .comment) = word :: more.filter fun t => t.kind != .comment :=
    List.filter_cons_of_pos (by rw [isReturn]; rfl)
  obtain ⟨mid, repeated, due⟩ := reads (word :: more.filter fun t => t.kind != .comment)
  have refused := Parser.items_refuses (p := .empty) repeated distinct isReturn due (Nat.le_refl _) (Nat.le_refl _)
  rw [ofTokens_filter, List.filter_append, spoken, Parser.itemsWithin, refused position]
  rfl

/-- If a token can be read behind what is left of some tokens without their comments, then it can be behind these
tokens. -/
theorem begins_of_expected {before : List Token} {kind : Kind}
    (viable : Parser.Viable Parser.Listed fun rest => (before.filter fun t => t.kind != .comment) ++ rest)
    (next : Parser.Viable Parser.Listed fun rest =>
      (before.filter fun t => t.kind != .comment) ++ Token.sample kind :: rest) :
    Begins (before ++ [Token.sample kind]) := by
  apply begins_of_viable
  rw [List.filter_append]
  by_cases comment : kind = .comment
  · -- a comment may stand anywhere
    rw [comment, show ([Token.sample .comment].filter fun t => t.kind != .comment) = [] from rfl, List.append_nil]
    exact viable
  · have spoken : ([Token.sample kind].filter fun t => t.kind != .comment) = [Token.sample kind] :=
      List.filter_cons_of_pos (bne_iff_ne.mpr comment)
    simpa only [spoken, List.append_assoc, List.singleton_append] using next

/-- What a refusal says to be expected is so. Reading stops at some token `found`, the last one that has been asked for;
and if the tokens before it have values that suit their kinds, then by a token of each of the kinds that are told they
are continued to the beginning of a program, or of what is refused for a repeated definition only, unless it is a
`return` and every `return` is forbidden there. -/
theorem expected_truthful_iff {s : TokenStream} {expected : List Kind} {found : Token}
    (refused : ofTokens s = .error (.syntactic (.mismatch expected found))) :
    ∃ k ≤ s.tokens.length, s.answer k = .ok found ∧ SettledBy s (k + 1) ∧
      (∀ e, ofTokens ⟨s.tokens.take k, .error e⟩ = .error (.lexical e)) ∧
      ((∀ t ∈ s.tokens.take k, t.suits = true) → ∀ kind ∈ expected,
        (∃ t : Token, t.kind = kind ∧ t.suits = true ∧ Begins (s.tokens.take k ++ [t])) ↔
          ¬ (kind = .returnWord ∧ ForbidsReturn (s.tokens.take k))) := by
  obtain ⟨w, r, rfl, passed, settled, told, stops⟩ := exists_settledBy s
  obtain ⟨more, rfl, comment, elsewhere⟩ := stops expected found refused
  have taken : (r.prepend w).tokens.take w.length = w := by
    rw [TokenStream.prepend, List.take_append_of_le_length (Nat.le_refl _), List.take_length]
  refine ⟨w.length, ?_, ?_, settled, ?_, ?_⟩
  · rw [TokenStream.length_prepend]
    exact Nat.le_add_right _ _
  · rw [TokenStream.answer_prepend, more.answer]
  · rw [taken]
    exact told
  · rw [taken]
    intro suits kind mem
    obtain ⟨viable, truthful⟩ := listed_of_refused suits passed more comment elsewhere
    constructor
    · rintro ⟨word, same, -, begins⟩ ⟨isReturn, forbidden⟩
      exact forbidden.not_begins (same.trans isReturn) begins
    · intro allowed
      obtain next | ⟨isReturn, excused⟩ := truthful kind mem
      · exact ⟨Token.sample kind, rfl, Token.suits_sample kind, begins_of_expected viable next⟩
      · exact absurd ⟨isReturn, forbidsReturn_of_excused excused⟩ allowed

/-- In the call that is not finished an argument is expected, and each of the kinds that it may begin with can be read
there. -/
theorem expected_truthful_iff_unfinishedCall :
    ofTokens unfinishedCall = .error (.syntactic (.mismatch Parser.primaryStart ⟨⟨.rightBrace, none⟩, ⟨2, 1⟩⟩)) ∧
      ∃ k ≤ unfinishedCall.tokens.length, unfinishedCall.answer k = .ok ⟨⟨.rightBrace, none⟩, ⟨2, 1⟩⟩ ∧
        ∀ kind ∈ Parser.primaryStart,
          ∃ t : Token, t.kind = kind ∧ t.suits = true ∧ Begins (unfinishedCall.tokens.take k ++ [t]) := by
  have refused : ofTokens unfinishedCall =
      .error (.syntactic (.mismatch Parser.primaryStart ⟨⟨.rightBrace, none⟩, ⟨2, 1⟩⟩)) := rfl
  have suits : ∀ t ∈ unfinishedCall.tokens, t.suits = true := by decide
  obtain ⟨k, le, there, -, -, truthful⟩ := expected_truthful_iff refused
  refine ⟨refused, k, le, there, fun kind mem => ?_⟩
  apply (truthful (fun t early => suits t (List.mem_of_mem_take early)) kind mem).mpr
  rintro ⟨rfl, -⟩
  exact absurd mem (by decide)

/-- A program that begins with what is no token of the language. -/
def loneSemicolon : TokenStream where
  tokens := [⟨⟨.unknown, some (.text ";")⟩, ⟨1, 1⟩⟩]
  ending := .ok ⟨1, 2⟩

/-- A `return` is said to be expected at the very beginning, where it is refused whatever comes behind it. -/
theorem return_expected_and_refused_loneSemicolon :
    ofTokens loneSemicolon =
        .error (.syntactic (.mismatch Parser.statementStart ⟨⟨.unknown, some (.text ";")⟩, ⟨1, 1⟩⟩)) ∧
      Kind.returnWord ∈ Parser.statementStart ∧
      ∀ word : Token, word.kind = .returnWord → ∀ (more : List Token) (position : Position),
        ofTokens ⟨word :: more, .ok position⟩ = .error (.syntactic (.returnOutsideFunction word.position)) := by
  have forbidden : ForbidsReturn [] :=
    forbidsReturn_of_excused ⟨[], ⟨List.nodup_nil, List.nodup_nil⟩, fun rest => ⟨rest, .nil, .here⟩⟩
  exact ⟨rfl, by decide, forbidden⟩

end Program

end Mensura
