import Fixity.Proofs.Cursor.Basic

/-! # Following a descent

A routine follows a part of a descent if it comes to the same in front of the same tokens. -/

namespace Fixity

open Descent (Parsed)

namespace Break

/-- A routine that refuses a token has written its message. -/
def ofError : ParseError → Break
  | .unexpected token expected => .unexpected token s!"expected {expected.describe}"
  | reason => .error reason

def ofHalt : Halt → Break
  | .incomplete => .incomplete
  | .error reason => ofError reason

end Break

/-- What a routine for a whole text comes to if this becomes of the text. -/
def Outcome.result : Outcome → Except Break Program
  | parsed program => .ok program
  | needsMoreInput => .error .incomplete
  | rejected error => .error (.ofError error)

/-- The value and the tokens behind it. -/
def Descent.Parsed.seen {α : Type} {bound : Nat} (parsed : Parsed α bound) : α × List Token :=
  (parsed.value, parsed.rest)

/-! ## Descents with a limit -/

namespace Grammar

variable {grammar : Grammar} {γ δ : Type}

/-- What a descent comes to inside of so many expressions, or its first expression that may not be
opened there. -/
def resultOf (grammar : Grammar) (n : Nat) (d : Descent γ) : Except Break γ :=
  match grammar.tooDeep? n d.events with
  | some token => .error (.error (.tooDeep token))
  | none => d.result.mapError .ofHalt

theorem resultOf_bind (n : Nat) (d : Descent γ) (k : γ → Descent δ) :
    grammar.resultOf n (d >>= k) =
      (grammar.resultOf n d).bind fun a => grammar.resultOf n (k a) := by
  have hevents : (d >>= k).events =
      d.events ++ Descent.eventsBehind (fun a => (k a).events) d.result := rfl
  have hresult : (d >>= k).result = d.result.bind fun a => (k a).result := rfl
  simp only [resultOf, hevents, hresult, tooDeep?_append]
  cases grammar.tooDeep? n d.events with
  | some token => rfl
  | none =>
      cases hd : d.result with
      | error halt => rfl
      | ok a =>
          rw [d.balanced a hd n]
          rfl

theorem resultOf_enclosed (n : Nat) (cursor : Token) (d : Descent γ) :
    grammar.resultOf n (Descent.enclosed cursor d) =
      if grammar.full n then .error (.error (.tooDeep cursor)) else grammar.resultOf (n + 1) d := by
  simp only [resultOf, Descent.enclosed, tooDeep?, tooDeep?_append]
  by_cases hfull : grammar.full n
  · simp only [if_pos hfull]
  · simp only [if_neg hfull]
    cases grammar.tooDeep? (n + 1) d.events with
    | some token => rfl
    | none => cases d.result <;> rfl

theorem result_follow (n : Nat) (d : Descent γ) (next : γ → Outcome) :
    (grammar.follow n d next).result =
      (grammar.resultOf n d).bind fun a => (next a).result := by
  rw [follow, resultOf]
  cases grammar.tooDeep? n d.events with
  | some token => rfl
  | none =>
      cases d.result with
      | ok a => rfl
      | error halt => cases halt <;> rfl

end Grammar

/-! ## Places in front of tokens -/

/-- The cursor is in front of these tokens and the stop. -/
structure Trail.At (scan : Scan) (rest : List Token) (trail : Trail) : Prop where
  place_le : trail.now.place ≤ scan.words.length
  drop_eq : scan.words.drop trail.now.place = rest

namespace Trail.At

variable {scan : Scan} {token : Token} {rest : List Token} {start : Trail}

theorem length_eq (h : start.At scan rest) : rest.length = scan.words.length - start.now.place := by
  rw [← h.drop_eq, List.length_drop]

theorem tokenAt_eq (h : start.At scan rest) :
    scan.tokenAt start.now.place = Descent.cursor scan.stop rest := by
  rw [Scan.tokenAt, Descent.cursor, ← h.drop_eq, List.head?_drop]

theorem tokenAt_nil (h : start.At scan []) : scan.tokenAt start.now.place = scan.stop :=
  h.tokenAt_eq

theorem tokenAt_cons (h : start.At scan (token :: rest)) :
    scan.tokenAt start.now.place = token := h.tokenAt_eq

theorem length_le (h : start.At scan []) : scan.words.length ≤ start.now.place :=
  List.drop_eq_nil_iff.mp h.drop_eq

theorem place_lt (h : start.At scan (token :: rest)) : start.now.place < scan.words.length := by
  have hlength := h.length_eq
  rw [List.length_cons] at hlength
  omega

theorem onward (h : start.At scan (token :: rest)) : start.onward.At scan rest where
  place_le := h.place_lt
  drop_eq := by rw [Trail.onward_now, ← List.drop_drop, h.drop_eq, List.drop_one, List.tail_cons]

theorem deeper (h : start.At scan rest) : start.deeper.At scan rest := ⟨h.place_le, h.drop_eq⟩

theorem higher (h : start.At scan rest) : start.higher.At scan rest := ⟨h.place_le, h.drop_eq⟩

theorem kind_ne_stop (h : start.At scan (token :: rest)) (hstops : scan.StopsOnce) :
    token.kind ≠ .stop := by
  rw [← h.tokenAt_cons]
  exact mt hstops.kind_tokenAt.mp (Nat.not_le.mpr h.place_lt)

end Trail.At

namespace Routine

variable {grammar : Grammar} {scan : Scan} {α β γ δ : Type}

/-- From here on the routine does what a descent does, seen as a value and the tokens behind it. -/
def Follows (grammar : Grammar) (scan : Scan) (x : Nat → Routine α) (d : Descent γ)
    (seen : γ → α × List Token) (start : Trail) : Prop :=
  Finishes x start fun result last =>
    result = (grammar.resultOf start.now.depth d).map (fun a => (seen a).1) ∧
      ∀ a, grammar.resultOf start.now.depth d = .ok a →
        last.At scan (seen a).2 ∧ last.now.depth = start.now.depth

namespace Follows

variable {x : Nat → Routine α} {d : Descent γ} {seen : γ → α × List Token} {start next : Trail}

theorem shift (hx : Follows grammar scan x d seen start) (more : Nat) :
    Follows grammar scan (fun calls => x (calls + more)) d seen start :=
  Finishes.shift hx more

theorem of_runFrom {y : Nat → Routine α} (made : Nat) (hx : Follows grammar scan x d seen next)
    (hrun : ∀ calls, runFrom (y (calls + made)) start = runFrom (x calls) next)
    (hdepth : next.now.depth = start.now.depth) : Follows grammar scan y d seen start := by
  rw [Follows, hdepth] at hx
  exact Finishes.of_runFrom made hx hrun

theorem call {y : Nat → Routine α} (hx : Follows grammar scan x d seen start)
    (hcall : ∀ calls, y (calls + 1) = x calls) : Follows grammar scan y d seen start :=
  Finishes.call hx hcall

theorem step {y : Nat → Routine β} {b : β} {f : β → Nat → Routine α}
    (hcomes : ComesTo y start (.ok b) next) (hdepth : next.now.depth = start.now.depth)
    (hf : Follows grammar scan (f b) d seen next) :
    Follows grammar scan (fun calls => y calls >>= fun b => f b calls) d seen start := by
  rw [Follows, hdepth] at hf
  exact Finishes.step hcomes hf

theorem ok {c : γ} (hcomes : ComesTo x start (.ok (seen c).1) next)
    (hat : next.At scan (seen c).2) (hdepth : next.now.depth = start.now.depth) :
    Follows grammar scan x (Pure.pure c) seen start := by
  refine ⟨_, next, hcomes, rfl, ?_⟩
  rintro _ ⟨⟩
  exact ⟨hat, hdepth⟩

theorem pure {a : α} {c : γ} (hseen : a = (seen c).1) (hat : start.At scan (seen c).2) :
    Follows grammar scan (fun _ => pure a) (pure c) seen start :=
  .ok (.of_forall fun _ => by rw [runFrom_pure, hseen]) hat rfl

theorem halt {halt : Halt} (hcomes : ComesTo x start (.error (.ofHalt halt)) next) :
    Follows grammar scan x (Descent.halt halt) seen start :=
  ⟨_, next, hcomes, rfl, nofun⟩

theorem halt_bind {y : Nat → Routine β} {f : β → Nat → Routine α} {halt : Halt}
    (hcomes : ComesTo y start (.error (.ofHalt halt)) next) :
    Follows grammar scan (fun calls => y calls >>= fun b => f b calls) (Descent.halt halt) seen
      start :=
  .halt hcomes.bind_error

/-- What comes behind a routine decides if nothing in it does. -/
theorem finishes {f : α → Nat → Routine β} {post : Except Break β → Trail → Prop}
    (hx : Follows grammar scan x d seen start)
    (herror : ∀ reason last, grammar.resultOf start.now.depth d = .error reason →
      post (.error reason) last)
    (hok : ∀ a next, grammar.resultOf start.now.depth d = .ok a → next.At scan (seen a).2 →
      next.now.depth = start.now.depth → Finishes (f (seen a).1) next post) :
    Finishes (fun calls => x calls >>= fun a => f a calls) start post := by
  obtain ⟨result, next, hcomes, rfl, hat⟩ := hx
  cases hd : grammar.resultOf start.now.depth d with
  | error reason =>
      rw [hd] at hcomes
      exact ⟨.error reason, next, hcomes.bind_error, herror reason next hd⟩
  | ok a =>
      rw [hd] at hcomes
      exact .step hcomes (hok a next hd (hat a hd).1 (hat a hd).2)

theorem bind {f : α → Nat → Routine β} {k : γ → Descent δ} {seen' : δ → β × List Token}
    (hx : Follows grammar scan x d seen start)
    (hf : ∀ a next, next.At scan (seen a).2 → next.now.depth = start.now.depth →
      Follows grammar scan (f (seen a).1) (k a) seen' next) :
    Follows grammar scan (fun calls => x calls >>= fun a => f a calls) (d >>= k) seen' start := by
  rw [Follows, Grammar.resultOf_bind]
  refine hx.finishes ?_ ?_
  · intro reason last hd
    rw [hd]
    exact ⟨rfl, nofun⟩
  · intro a next hd hat hdepth
    have hnext := hf a next hat hdepth
    rw [Follows, hdepth] at hnext
    rw [hd]
    exact hnext

/-- A descent may state its result anew. -/
theorem restate {k : γ → δ} {seen' : δ → α × List Token} (hx : Follows grammar scan x d seen start)
    (hseen : ∀ a, seen' (k a) = seen a) :
    Follows grammar scan x (d >>= fun a => Pure.pure (k a)) seen' start := by
  have hbind : Follows grammar scan (fun calls => x calls >>= fun a => Pure.pure a)
      (d >>= fun a => Pure.pure (k a)) seen' start :=
    hx.bind fun a next hat _ => .pure (hseen a ▸ rfl) (hseen a ▸ hat)
  simpa only [bind_pure] using hbind

theorem enclosed {floor : Nat} {rest : List Token} {d : Descent γ} {seen : γ → Expr × List Token}
    (hat : start.At scan rest)
    (h : Follows grammar scan (climb scan.tokens grammar floor) d seen start.deeper) :
    Follows grammar scan (expr scan.tokens grammar floor)
      (Descent.enclosed (Descent.cursor scan.stop rest) d) seen start := by
  rw [Follows, Grammar.resultOf_enclosed]
  by_cases hfull : grammar.full start.now.depth
  · rw [if_pos hfull, ← hat.tokenAt_eq]
    refine Finishes.of_runFrom 1 ?_ fun calls => (runFrom_expr calls).trans (if_pos hfull)
    have hrun := runFrom_peek_bind hat.place_le fun token =>
      (throw (.error (.tooDeep token)) : Routine Expr)
    exact ⟨_, _, .of_forall fun _ => hrun, rfl, nofun⟩
  · rw [if_neg hfull]
    refine Finishes.expr hfull h ?_
    rintro result last ⟨hresult, hlast⟩
    refine ⟨hresult, fun a ha => ?_⟩
    obtain ⟨hat, hdepth⟩ := hlast a ha
    exact ⟨hat.higher, by rw [Trail.higher_now, hdepth, Trail.deeper_now, Nat.add_sub_cancel]⟩

end Follows

/-! ## Tokens -/

section

variable {token : Token} {rest : List Token} {start : Trail}

theorem runFrom_peek_bind_cons (hat : start.At scan (token :: rest)) (f : Token → Routine α) :
    runFrom (peek scan.tokens >>= f) start = runFrom (f token) start := by
  rw [runFrom_peek_bind hat.place_le, hat.tokenAt_cons]

theorem runFrom_unexpected_cons (hat : start.At scan (token :: rest)) (expected : Expectation) :
    runFrom (unexpected scan.tokens s!"expected {expected.describe}" : Routine α) start =
      some (.error (.ofHalt (.error (.unexpected token expected))), start) := by
  rw [runFrom_unexpected hat.place_le, hat.tokenAt_cons]
  rfl

theorem message_symbol (symbol : String) :
    s!"expected `{symbol}`" = s!"expected {(Expectation.symbol symbol).describe}" := by
  have hquote : "expected `" = "expected " ++ "`" := rfl
  change "expected `" ++ symbol ++ "`" = "expected " ++ ("`" ++ symbol ++ "`")
  rw [hquote, String.append_assoc, String.append_assoc, String.append_assoc]

variable (h : scan.StopsOnce)

include h

theorem runFrom_acceptSymbol_nil (hat : start.At scan []) (symbol : String) :
    runFrom (acceptSymbol scan.tokens symbol) start = some (.error .incomplete, start) := by
  rw [runFrom_acceptSymbol h hat.place_le, if_pos hat.length_le]

theorem runFrom_acceptSymbol_cons (hat : start.At scan (token :: rest)) (symbol : String) :
    runFrom (acceptSymbol scan.tokens symbol) start =
      if token.isSymbol symbol then some (.ok true, start.onward) else some (.ok false, start) := by
  rw [runFrom_acceptSymbol h hat.place_le, if_neg (Nat.not_le.mpr hat.place_lt), hat.tokenAt_cons]

theorem follows_acceptSymbol (hat : start.At scan rest) (symbol : String) :
    Follows grammar scan (fun _ => acceptSymbol scan.tokens symbol)
      (Descent.acceptSymbol symbol rest) Parsed.seen start := by
  cases rest with
  | nil => exact .halt (.of_forall fun _ => runFrom_acceptSymbol_nil h hat symbol)
  | cons token rest =>
      have hrun := runFrom_acceptSymbol_cons h hat symbol
      rw [Descent.acceptSymbol]
      by_cases hsymbol : token.isSymbol symbol
      · rw [if_pos hsymbol] at hrun ⊢
        exact .ok (.of_forall fun _ => hrun) hat.onward rfl
      · rw [if_neg hsymbol] at hrun ⊢
        exact .ok (.of_forall fun _ => hrun) hat rfl

theorem runFrom_expectSymbol_cons (hat : start.At scan (token :: rest)) (symbol : String) :
    runFrom (expectSymbol scan.tokens symbol) start =
      if token.isSymbol symbol then some (.ok (), start.onward)
      else some (.error (.ofHalt (.error (.unexpected token (.symbol symbol)))), start) := by
  rw [expectSymbol, runFrom_bind, runFrom_acceptSymbol_cons h hat]
  by_cases hsymbol : token.isSymbol symbol
  · rw [if_pos hsymbol, if_pos hsymbol]
    rfl
  · rw [if_neg hsymbol, if_neg hsymbol, message_symbol]
    exact runFrom_unexpected_cons hat (.symbol symbol)

theorem follows_expectSymbol (hat : start.At scan rest) (symbol : String) :
    Follows grammar scan (fun _ => expectSymbol scan.tokens symbol)
      (Descent.expectSymbol symbol rest) Parsed.seen start := by
  cases rest with
  | nil => exact .halt_bind (.of_forall fun _ => runFrom_acceptSymbol_nil h hat symbol)
  | cons token rest =>
      have hrun := runFrom_expectSymbol_cons h hat symbol
      rw [Descent.expectSymbol]
      by_cases hsymbol : token.isSymbol symbol
      · rw [if_pos hsymbol] at hrun ⊢
        exact .ok (.of_forall fun _ => hrun) hat.onward rfl
      · rw [if_neg hsymbol] at hrun ⊢
        exact .halt (.of_forall fun _ => hrun)

theorem runFrom_acceptKind_nil (hat : start.At scan []) (kind : TokenKind) :
    runFrom (acceptKind scan.tokens kind) start = some (.error .incomplete, start) := by
  rw [runFrom_acceptKind h hat.place_le, if_pos hat.length_le]

theorem runFrom_acceptKind_cons (hat : start.At scan (token :: rest)) (kind : TokenKind) :
    runFrom (acceptKind scan.tokens kind) start =
      if token.kind = kind then some (.ok (some token), start.onward)
      else some (.ok none, start) := by
  rw [runFrom_acceptKind h hat.place_le, if_neg (Nat.not_le.mpr hat.place_lt), hat.tokenAt_cons]

theorem runFrom_expectKind_nil (hat : start.At scan []) (kind : TokenKind) (what : String) :
    runFrom (expectKind scan.tokens kind what) start = some (.error .incomplete, start) := by
  rw [expectKind, runFrom_bind, runFrom_acceptKind_nil h hat]
  rfl

theorem runFrom_expectKind_cons (hat : start.At scan (token :: rest)) (kind : TokenKind)
    (what : String) :
    runFrom (expectKind scan.tokens kind what) start =
      if token.kind = kind then some (.ok token, start.onward)
      else some (.error (.unexpected token s!"expected {what}"), start) := by
  rw [expectKind, runFrom_bind, runFrom_acceptKind_cons h hat]
  by_cases hkind : token.kind = kind
  · rw [if_pos hkind, if_pos hkind]
    rfl
  · rw [if_neg hkind, if_neg hkind, ← hat.tokenAt_cons]
    exact runFrom_unexpected hat.place_le _

end

end Routine

end Fixity
