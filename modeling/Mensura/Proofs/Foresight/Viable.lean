import Mensura.Proofs.Grammar.Program

/-!
Beginnings that can be continued. A parser completes a rule of the grammar if the tokens that it reads spell what it
gives, whatever stands behind them, and if the tokens that it has read when it refuses the next one are the beginning
of something that is spelled by that rule, also with a token behind them of any kind that it says to be expected. Where
a parser is followed by others, each of them has some tokens to go on with, so that what the first one has read can be
continued through all of them.
-/

namespace Mensura

open Token (Kind)
open Grammar (Behind Names)

/-- A token of the given kind, with a value that suits it. -/
def Token.sample (kind : Kind) : Token :=
  let value : Option Token.Value := match kind with
    | .identifier | .stringLiteral => some (.text "")
    | .intLiteral => some (.int 0)
    | .floatLiteral => some (.float 0)
    | _ => none
  ⟨⟨kind, value⟩, .start⟩

theorem Token.kind_ne_etx {kind : Kind} (proper : (Token.sample kind).isProper = true) : kind ≠ .etx := by
  rintro rfl
  cases proper

namespace Parser

variable {α β : Type}

/-- What has been read before: it is put in front of what comes next. -/
abbrev Context := List Token → List Token

/-- What is to be read is as `reached` says. Where what has been read is as `excused` says, a `return` may be expected
that is refused there. -/
structure Goal where
  reached : Context → Prop
  excused : Context → Prop

/-- What has been read can be continued so that the goal is reached. -/
def Viable (L : Goal) (c : Context) : Prop :=
  ∃ more : List Token, (∀ t ∈ more, t.isProper = true) ∧ L.reached fun rest => c (more ++ rest)

/-- A token of each expected kind can be read behind what has been read, unless it is a `return` that is excused. -/
def Truthful (L : Goal) (c : Context) (expected : List Kind) : Prop :=
  ∀ kind ∈ expected, Viable L (fun rest => c (Token.sample kind :: rest)) ∨ kind = .returnWord ∧ L.excused c

/-- A result of reading from `ts`, in front of which `c` has been read: a value that is as `good` says of all that
has been read and of the kind of the next token, or a token that is refused where what has been read can be continued
to the goal `L`, and the expected kinds are truthful. Nothing is said of other refusals. -/
inductive Ended (good : Context → Kind → α → Prop) (L : Goal) (c : Context) (ts : List Token)
    (p : Position) : Except Refusal (α × TokenStream) → Prop where
  | read {w rest : List Token} {a : α} (split : ts = w ++ rest)
      (holds : good (fun rest => c (w ++ rest)) (nextKind rest) a) : Ended good L c ts p (.ok (a, ⟨rest, .ok p⟩))
  | mismatch {w rest : List Token} {expected : List Kind} (split : ts = w ++ rest)
      (viable : Viable L fun rest => c (w ++ rest)) (truthful : Truthful L (fun rest => c (w ++ rest)) expected) :
      Ended good L c ts p (.error (.syntactic (.mismatch expected (TokenStream.mk rest (.ok p)).peek)))
  | refused {q : Refusal} (other : ∀ expected found, q ≠ .syntactic (.mismatch expected found)) :
      Ended good L c ts p (.error q)

/-- Behind `c` the parser ends as `good` and `L` say if the tokens are proper. -/
def Follows (good : Context → Kind → α → Prop) (L : Goal) (c : Context) (x : Parser α) (ts : List Token) : Prop :=
  (∀ t ∈ ts, t.isProper = true) → ∀ p, Ended good L c ts p (x ⟨ts, .ok p⟩)

/-- The parser does so on all tokens, and there are some on which what has been read is continued. -/
structure Leads (good : Context → Kind → α → Prop) (L : Goal) (c : Context) (x : Parser α) : Prop where
  follows : ∀ ts, Follows good L c x ts
  viable : Viable L c

/-- What has been read spells the value, whatever stands behind it. -/
def Spells (G : List Token → α → List Token → Prop) (c : Context) (a : α) : Prop := ∀ rest, G (c rest) a rest

/-- What has been read spells the value, and what comes next does not matter. -/
abbrev Spelling (G : List Token → α → List Token → Prop) (c : Context) (_ : Kind) (a : α) : Prop := Spells G c a

/-- What is to be read spells something. Where `D` says so a `return` is excused. -/
abbrev SpelledBut (D : List Token → List Token → Prop) (G : List Token → α → List Token → Prop) : Goal :=
  ⟨fun c => ∃ a, Spells G c a, fun c => ∀ rest, D (c rest) rest⟩

/-- What is to be read spells something. -/
abbrev Spelled (G : List Token → α → List Token → Prop) : Goal := SpelledBut (fun _ _ => False) G

/-- Of the rule `G` every beginning that is read can be continued, as it is expected but for a `return` where `D` says
so. -/
def CompletesBut (D : List Token → List Token → Prop) (G : List Token → α → List Token → Prop) (x : Parser α) : Prop :=
  Leads (Spelling G) (SpelledBut D G) (fun rest => rest) x

/-- Of the rule `G` every beginning that is read can be continued, as it is expected. -/
abbrev Completes (G : List Token → α → List Token → Prop) (x : Parser α) : Prop := CompletesBut (fun _ _ => False) G x

variable {good : Context → Kind → β → Prop} {L : Goal} {c : Context} {x : Parser α} {f : α → Parser β}
  {G : List Token → α → List Token → Prop} {ts : List Token} {kind : Kind}

theorem Viable.of_append {w : List Token} (proper : ∀ t ∈ w, t.isProper = true)
    (h : Viable L fun rest => c (w ++ rest)) : Viable L c := by
  obtain ⟨more, suited, holds⟩ := h
  refine ⟨w ++ more, ?_, ?_⟩
  · intro t mem
    exact (List.mem_append.mp mem).elim (proper t) (suited t)
  · simpa only [List.append_assoc] using holds

theorem Viable.of_cons {t : Token} (proper : t.isProper = true) (h : Viable L fun rest => c (t :: rest)) :
    Viable L c := .of_append (w := [t]) (by simpa using proper) h

/-- By a token of the kind `kind` what has been read can be continued. -/
theorem Viable.of_kind (kind : Kind) (proper : (Token.sample kind).isProper = true)
    (h : ∀ t : Token, t.kind = kind → t.isProper = true → Viable L fun rest => c (t :: rest)) : Viable L c :=
  .of_cons proper (h (Token.sample kind) rfl proper)

theorem Viable.here (h : L.reached c) : Viable L c := ⟨[], List.forall_mem_nil _, h⟩

/-- Behind something else a parser ends as it does. -/
theorem Follows.imp {between : Context → Kind → β → Prop} {M : Goal} {d : Context} {x : Parser β}
    (h : Follows between M d x ts)
    (reads : ∀ w kind b, between (fun rest => d (w ++ rest)) kind b → good (fun rest => c (w ++ rest)) kind b)
    (reach : ∀ w, Viable M (fun rest => d (w ++ rest)) → Viable L fun rest => c (w ++ rest))
    (excuse : ∀ w, M.excused (fun rest => d (w ++ rest)) → L.excused fun rest => c (w ++ rest)) :
    Follows good L c x ts := by
  intro proper p
  have ended := h proper p
  generalize x ⟨ts, .ok p⟩ = out at ended ⊢
  cases ended with
  | read split holds => exact .read split (reads _ _ _ holds)
  | @mismatch w _ _ split viable truthful =>
    refine .mismatch split (reach w viable) ?_
    intro kind mem
    obtain next | ⟨isReturn, excused⟩ := truthful kind mem
    · have later := reach (w ++ [Token.sample kind])
      simp only [List.append_assoc, List.singleton_append] at later
      exact .inl (later next)
    · exact .inr ⟨isReturn, excuse w excused⟩
  | refused other => exact .refused other

/-! ### One after the other -/

theorem Follows.refuse {r : Refusal} (other : ∀ expected found, r ≠ .syntactic (.mismatch expected found)) :
    Follows good L c (refuse r) ts := fun _ _ => .refused other

theorem Follows.mismatch {expected : List Kind} (viable : Viable L c) (truthful : Truthful L c expected) :
    Follows good L c (mismatch expected) ts := fun _ _ => .mismatch (w := []) rfl viable truthful

theorem Follows.pure {b : β} (h : good c (nextKind ts) b) : Follows good L c (Pure.pure b) ts :=
  fun _ _ => .read (w := []) rfl h

theorem Follows.bind {between : Context → Kind → α → Prop} (first : Follows between L c x ts)
    (next : ∀ w rest a, ts = w ++ rest → between (fun rest => c (w ++ rest)) (nextKind rest) a →
      Follows good L (fun rest => c (w ++ rest)) (f a) rest) : Follows good L c (x >>= f) ts := by
  intro proper p
  have ended := first proper p
  rw [bind_apply]
  generalize x ⟨ts, .ok p⟩ = out at ended ⊢
  cases ended with
  | refused other => exact .refused other
  | mismatch split viable truthful => exact .mismatch split viable truthful
  | @read w rest a split holds =>
    have later := next w rest a split holds (fun t mem => proper t (split ▸ List.mem_append_right w mem)) p
    change Ended good L c ts p (f a ⟨rest, .ok p⟩)
    subst split
    generalize f a ⟨rest, .ok p⟩ = out at later ⊢
    cases later with
    | refused other => exact .refused other
    | @read v rest b split' ends =>
      subst split'
      refine .read (List.append_assoc w v rest).symm ?_
      simpa only [List.append_assoc] using ends
    | @mismatch v rest _ split' viable truthful =>
      subst split'
      refine .mismatch (List.append_assoc w v rest).symm ?_ ?_
      · simpa only [List.append_assoc] using viable
      · simpa only [List.append_assoc] using truthful

namespace Leads

theorem pure {b : β} (h : ∀ kind, good c kind b) (viable : L.reached c) : Leads good L c (Pure.pure b) :=
  ⟨fun ts => .pure (h (nextKind ts)), .here viable⟩

/-- What has been read spells the value by now. -/
theorem spelled {D : List Token → List Token → Prop} {a : α} (h : Spells G c a) :
    Leads (Spelling G) (SpelledBut D G) c (Pure.pure a) :=
  .pure (fun _ => h) ⟨a, h⟩

theorem mismatch {expected : List Kind} (viable : Viable L c) (truthful : Truthful L c expected) :
    Leads good L c (Parser.mismatch expected) :=
  ⟨fun _ => .mismatch viable truthful, viable⟩

end Leads

/-- Behind other tokens a parser does what it does, if what it has read can be continued there. -/
theorem Leads.behind {between : Context → Kind → α → Prop} {M : Goal}
    (h : Leads between M (fun rest => rest) x) (reach : ∀ k, Viable M k → Viable L fun rest => c (k rest))
    (excuse : ∀ k, M.excused k → L.excused fun rest => c (k rest)) (ts : List Token) :
    Follows (fun c' kind a => ∃ k, c' = (fun rest => c (k rest)) ∧ between k kind a) L c x ts :=
  (h.follows ts).imp (fun _ _ _ holds => ⟨_, rfl, holds⟩) (fun _ => reach _) fun _ => excuse _

theorem CompletesBut.seq {D : List Token → List Token → Prop} (first : CompletesBut D G x)
    (excuse : ∀ k : Context, (∀ rest, D (k rest) rest) → L.excused fun rest => c (k rest))
    (next : ∀ k a, Spells G k a → Leads good L (fun rest => c (k rest)) (f a)) : Leads good L c (x >>= f) := by
  have reach (k : Context) (h : Viable (SpelledBut D G) k) : Viable L fun rest => c (k rest) := by
    obtain ⟨more, proper, a, holds⟩ := h
    exact .of_append proper (next _ a holds).viable
  refine ⟨fun ts => ?_, reach _ first.viable⟩
  apply (first.behind reach excuse ts).bind
  rintro w rest a - ⟨k, same, holds⟩
  rw [same]
  exact (next k a holds).follows rest

theorem Completes.seq (first : Completes G x)
    (next : ∀ k a, Spells G k a → Leads good L (fun rest => c (k rest)) (f a)) : Leads good L c (x >>= f) :=
  CompletesBut.seq first (fun _ none => (none []).elim) next

/-- Nothing comes behind, and all that has been read is spelled by another rule. -/
theorem Completes.last {D : List Token → List Token → Prop} {H : List Token → α → List Token → Prop}
    (h : Completes G x) (implies : ∀ {ts a rest}, G ts a rest → H (c ts) a rest) :
    Leads (Spelling H) (SpelledBut D H) c x := by
  rw [← bind_pure x]
  apply h.seq
  intro k a holds
  exact .spelled fun rest => implies (holds rest)

/-! ### One token -/

theorem Follows.peekKind {g : Kind → Parser β} (next : Follows good L c (g (nextKind ts)) ts) :
    Follows good L c (Parser.peekKind >>= g) ts := by
  intro proper p
  rw [bind_apply, peekKind_apply]
  exact next proper p

theorem Leads.peekKind {g : Kind → Parser β} (next : ∀ kind ts, nextKind ts = kind → Follows good L c (g kind) ts)
    (viable : Viable L c) : Leads good L c (Parser.peekKind >>= g) :=
  ⟨fun ts => .peekKind (next _ ts rfl), viable⟩

theorem Follows.advance {f : Token → Parser β} (found : nextKind ts = kind) (etx : kind ≠ .etx)
    (next : ∀ t, t.kind = kind → t.isProper = true → ∀ ts, Follows good L (fun rest => c (t :: rest)) (f t) ts) :
    Follows good L c (Parser.advance >>= f) ts := by
  obtain ⟨t, rest, rfl, same⟩ := exists_of_nextKind found etx
  have moved : Follows (fun c' _ u => c' = (fun rest => c (t :: rest)) ∧ u = t) L c Parser.advance (t :: rest) := by
    intro _ p
    rw [advance_reads t rest p]
    exact .read (w := [t]) rfl ⟨rfl, rfl⟩
  intro proper
  refine Follows.bind moved ?_ proper
  rintro w rest' _ - ⟨before, rfl⟩
  rw [before]
  exact next _ same (proper _ List.mem_cons_self) rest'

namespace Leads

/-- A token of the kind `kind` that has to be there, if one can be continued behind. -/
theorem expect_of {f : Token → Parser β} (proper : (Token.sample kind).isProper = true)
    (next : ∀ t, t.kind = kind → t.isProper = true → ∀ ts, Follows good L (fun rest => c (t :: rest)) (f t) ts)
    (viable : Viable L fun rest => c (Token.sample kind :: rest)) : Leads good L c (Parser.expect kind >>= f) := by
  rw [Parser.expect, bind_assoc]
  refine peekKind ?_ (.of_cons proper viable)
  intro found ts same
  split
  · rename_i right
    exact .advance (same.trans right) (Token.kind_ne_etx proper) next
  · refine fun _ _ => .mismatch (w := []) rfl (.of_cons proper viable) ?_
    intro expected mem
    obtain rfl := List.mem_singleton.mp mem
    exact .inl viable

theorem expect {f : Token → Parser β} (proper : (Token.sample kind).isProper = true)
    (next : ∀ t, t.kind = kind → t.isProper = true → Leads good L (fun rest => c (t :: rest)) (f t)) :
    Leads good L c (Parser.expect kind >>= f) :=
  expect_of proper (fun t same fits => (next t same fits).follows) (next (Token.sample kind) rfl proper).viable

theorem take {g : Bool → Parser β} (proper : (Token.sample kind).isProper = true)
    (taken : ∀ t, t.kind = kind → Leads good L (fun rest => c (t :: rest)) (g true)) (left : Leads good L c (g false)) :
    Leads good L c (Parser.take kind >>= g) := by
  rw [Parser.take, bind_assoc]
  refine peekKind ?_ left.viable
  intro found ts same
  split
  · rename_i right
    rw [bind_assoc]
    exact .advance (same.trans right) (Token.kind_ne_etx proper) fun t same _ => (taken t same).follows
  · exact left.follows ts

theorem ifTake {yes no : Parser β} (proper : (Token.sample kind).isProper = true)
    (taken : ∀ t, t.kind = kind → Leads good L (fun rest => c (t :: rest)) yes) (left : Leads good L c no) :
    Leads good L c (do if ← Parser.take kind then yes else no) := take proper taken left

theorem identifier {f : Symbol → Parser β}
    (next : ∀ t name, Names t name → Leads good L (fun rest => c (t :: rest)) (f name)) :
    Leads good L c (Parser.identifier >>= f) := by
  rw [Parser.identifier, bind_assoc]
  apply expect rfl
  intro t same proper
  obtain ⟨name, value⟩ : ∃ name, t.value = some (.text name) := by
    simp only [Token.isProper, same] at proper
    split at proper
    · rename_i name value
      exact ⟨name, value⟩
    · cases proper
  simp only [value]
  exact next t ⟨name, t.position⟩ ⟨same, value, rfl⟩

end Leads

/-! ### Repetition -/

/-- What has been read is kept as `inv` says by each item, also if there is none. -/
theorem Follows.many (inv : Context → Kind → List α → Prop) {item : Parser (Option α)}
    (step : ∀ c as ts, inv c (nextKind ts) as →
      Follows (fun c kind o => inv c kind (as ++ o.toList)) L c item ts) (n : Nat) {as : List α}
    (start : inv c (nextKind ts) as) :
    Follows (fun c kind bs => inv c kind (as ++ bs)) L c (Parser.many item n) ts := by
  induction n generalizing c ts as with
  | zero =>
    apply Follows.pure
    rwa [List.append_nil]
  | succ n ih =>
    apply (step c as ts start).bind
    intro w rest o _ holds
    cases o with
    | none => exact .pure holds
    | some a =>
      apply (ih holds).bind
      intro v rest bs _ ends
      apply Follows.pure
      rwa [List.append_assoc] at ends

theorem Completes.many {step : List Token → α → List Token → Prop} {item : Parser (Option α)}
    (h : ∀ c as, Spells (Repeats step) c as →
      Leads (fun c _ o => Spells (Repeats step) c (as ++ o.toList)) (Spelled (Repeats step)) c item) (n : Nat) :
    Completes (Repeats step) (Parser.many item n) := by
  refine ⟨fun ts => ?_, .here ⟨[], fun _ => .nil⟩⟩
  refine Follows.many (fun c _ as => Spells (Repeats step) c as) ?_ n fun _ => .nil
  intro c as ts before
  exact (h c as before).follows ts

theorem Completes.many_behind {kind : Kind} (proper : (Token.sample kind).isProper = true) (h : Completes G x)
    (n : Nat) :
    Completes (Repeats (Behind kind G))
      (Parser.many (do if ← Parser.take kind then return some (← x) else return none) n) := by
  apply Completes.many
  intro c as before
  apply Leads.ifTake proper
  · intro t same
    apply h.seq
    intro k a holds
    have longer : Spells (Repeats (Behind kind G)) (fun rest => c (t :: k rest)) (as ++ [a]) :=
      fun rest => (before (t :: k rest)).snoc ⟨t, k rest, rfl, same, holds rest⟩
    exact .pure (fun _ => longer) ⟨_, longer⟩
  · exact .pure (fun _ => by simpa using before) ⟨as, before⟩

end Parser

end Mensura
