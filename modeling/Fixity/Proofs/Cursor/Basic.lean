import Fixity.Proofs.Descent.Simulation

/-! # The parser with a cursor

The rules of the grammar as routines that share a cursor, with a bound for the calls inside of each
other. -/

namespace Fixity

/-- How many tokens lie behind a parser, and how many expressions it has open. -/
structure Cursor where
  place : Nat := 0
  depth : Nat := 0
deriving DecidableEq, Repr

/-- The cursor, and all that it was before, the latest first. -/
structure Trail where
  now : Cursor := {}
  before : List Cursor := []
deriving DecidableEq, Repr

namespace Trail

/-- The cursor and all that it was before. -/
def history (trail : Trail) : List Cursor := trail.now :: trail.before

def move (trail : Trail) (next : Cursor) : Trail := ⟨next, trail.history⟩

def onward (trail : Trail) : Trail := trail.move { trail.now with place := trail.now.place + 1 }

@[simp] theorem onward_now (trail : Trail) :
    trail.onward.now = ⟨trail.now.place + 1, trail.now.depth⟩ := rfl

/-- Opens an expression. -/
def deeper (trail : Trail) : Trail := trail.move { trail.now with depth := trail.now.depth + 1 }

@[simp] theorem deeper_now (trail : Trail) :
    trail.deeper.now = ⟨trail.now.place, trail.now.depth + 1⟩ := rfl

@[simp] theorem deeper_history (trail : Trail) :
    trail.deeper.history = trail.deeper.now :: trail.history := rfl

/-- Closes an expression. -/
def higher (trail : Trail) : Trail := trail.move { trail.now with depth := trail.now.depth - 1 }

@[simp] theorem higher_now (trail : Trail) :
    trail.higher.now = ⟨trail.now.place, trail.now.depth - 1⟩ := rfl

@[simp] theorem higher_history (trail : Trail) :
    trail.higher.history = trail.higher.now :: trail.history := rfl

end Trail

/-- Why a routine stops early. -/
inductive Break where
  | incomplete
  | unexpected (token : Token) (message : String)
  | error (error : ParseError)
  /-- The cursor looked where no token is. -/
  | outside

/-- A part of a parser. It moves the cursor, and comes to a result, to a break or to no end within
the calls that are allowed. -/
abbrev Routine (α : Type) := ExceptT Break (StateT Trail Option) α

namespace Routine

/-! ## Tokens -/

section

variable (tokens : List Token)

/-- The token under the cursor; behind the last token, that one. -/
def peek : Routine Token := do
  let trail ← get
  match tokens[min trail.now.place (tokens.length - 1)]? with
  | some token => return token
  | none => throw .outside

def atEnd : Routine Bool := return (← peek tokens).kind == .stop

/-- Passes over the token under the cursor, unless it is the stop. -/
def bump : Routine Token := do
  let token ← peek tokens
  if ← atEnd tokens then return token
  else
    modify Trail.onward
    return token

def unexpected {α : Type} (message : String) : Routine α := do
  throw (.unexpected (← peek tokens) message)

def acceptKind (kind : TokenKind) : Routine (Option Token) := do
  if ← atEnd tokens then throw .incomplete
  else if (← peek tokens).kind = kind then return some (← bump tokens)
  else return none

def acceptSymbol (symbol : String) : Routine Bool := do
  if ← atEnd tokens then throw .incomplete
  else if (← peek tokens).isSymbol symbol then
    let _ ← bump tokens
    return true
  else return false

def expectKind (kind : TokenKind) (what : String) : Routine Token := do
  match ← acceptKind tokens kind with
  | some token => return token
  | none => unexpected tokens s!"expected {what}"

def expectSymbol (symbol : String) : Routine Unit := do
  if ← acceptSymbol tokens symbol then return ()
  else unexpected tokens s!"expected `{symbol}`"

/-! ## Expressions -/

def number : Routine Expr := do
  let token ← expectKind tokens .number "number"
  match Binary64.ofNumeral token.text with
  | .ok value => return .literal value
  | .error .malformed => throw (.error (.malformedNumber token))
  | .error .outOfRange => throw (.error (.numberOutOfRange token))

/-- What a routine does that may make no call. -/
def unended {α : Type} : Routine α := fun _ => none

variable (grammar : Grammar)

mutual

/-- An expression, which is closed again however it ends. -/
def expr (floor : Nat) : Nat → Routine Expr
  | 0 => unended
  | calls + 1 => do
    let trail ← get
    if grammar.full trail.now.depth then throw (.error (.tooDeep (← peek tokens)))
    else
      modify Trail.deeper
      ExceptT.mk do
        let result ← (climb floor calls).run
        modify Trail.higher
        return result
termination_by structural calls => calls

/-- An operand and the operators behind it, down to a precedence. -/
def climb (floor : Nat) : Nat → Routine Expr
  | 0 => unended
  | calls + 1 => do
    operations floor (← primary calls) calls
termination_by structural calls => calls

/-- Operators and their right operands as long as there are any. -/
def operations (floor : Nat) (left : Expr) : Nat → Routine Expr
  | 0 => unended
  | calls + 1 => do
    match ← operation floor left calls with
    | some e => operations floor e calls
    | none => return left
termination_by structural calls => calls

/-- One operator and its right operand, unless the expression ends in front of it. -/
def operation (floor : Nat) (left : Expr) : Nat → Routine (Option Expr)
  | 0 => unended
  | calls + 1 => do
    let token ← peek tokens
    if token.kind = .operator then
      match grammar.operators.get? token.text with
      | none => throw (.error (.unknownOperator token))
      | some op =>
        if op.precedence < floor then return none
        else
          let _ ← bump tokens
          return some (.binary op.symbol left (← expr op.rightFloor calls))
    else return none
termination_by structural calls => calls

def primary : Nat → Routine Expr
  | 0 => unended
  | calls + 1 => do
    if (← peek tokens).isSymbol "(" then nested calls
    else match (← peek tokens).kind with
      | .identifier => identifier calls
      | .number => number tokens
      | .stop => throw .incomplete
      | _ => unexpected tokens "expected an expression"
termination_by structural calls => calls

/-- A name, or a call if a parenthesis comes right behind it. -/
def identifier : Nat → Routine Expr
  | 0 => unended
  | calls + 1 => do
    let name ← expectKind tokens .identifier "identifier"
    if (← peek tokens).isSymbol "(" then
      let _ ← bump tokens
      arguments name.text [] calls
    else return .var name.text
termination_by structural calls => calls

/-- The arguments of a call up to its end, behind those that have been read. -/
def arguments (callee : String) (latestFirst : List Expr) : Nat → Routine Expr
  | 0 => unended
  | calls + 1 => do
    match ← argument latestFirst calls with
    | some latestFirst => arguments callee latestFirst calls
    | none => return .call callee latestFirst.reverse
termination_by structural calls => calls

/-- One argument, unless the call ends in front of it. -/
def argument (latestFirst : List Expr) : Nat → Routine (Option (List Expr))
  | 0 => unended
  | calls + 1 => do
    if ← acceptSymbol tokens ")" then return none
    else
      let e ← expr 0 calls
      let _ ← acceptSymbol tokens ","
      return some (e :: latestFirst)
termination_by structural calls => calls

def nested : Nat → Routine Expr
  | 0 => unended
  | calls + 1 => do
    expectSymbol tokens "("
    let e ← expr 0 calls
    expectSymbol tokens ")"
    return e
termination_by structural calls => calls

end

/-! ## Declarations -/

/-- One parameter, unless no name comes next. -/
def parameter (latestFirst : List String) : Routine (Option (List String)) := do
  match ← acceptKind tokens .identifier with
  | some token =>
    let _ ← acceptSymbol tokens ","
    return some (token.text :: latestFirst)
  | none => return none

/-- Parameters as long as there are any, behind those that have been read. -/
def parameters (latestFirst : List String) : Nat → Routine (List String)
  | 0 => unended
  | calls + 1 => do
    match ← parameter tokens latestFirst with
    | some latestFirst => parameters latestFirst calls
    | none => return latestFirst.reverse

def prototype (calls : Nat) : Routine Prototype := do
  let name ← expectKind tokens .identifier "function name"
  expectSymbol tokens "("
  let parameters ← parameters tokens [] calls
  expectSymbol tokens ")"
  return ⟨name.text, parameters⟩

def definition (calls : Nat) : Routine Declaration := do
  let head ← prototype tokens calls
  expectSymbol tokens "\x7b"
  let body ← expr tokens grammar 0 calls
  expectSymbol tokens "\x7d"
  return .definition head body

def statement (calls : Nat) : Routine Declaration := do
  if (← acceptKind tokens .definition).isSome then definition tokens grammar calls
  else if (← acceptKind tokens .external).isSome then return .external (← prototype tokens calls)
  else return .definition .anonymous (← expr tokens grammar 0 calls)

/-- One declaration, unless the tokens end in front of it. -/
def declaration (latestFirst : List Declaration) (calls : Nat) :
    Routine (Option (List Declaration)) := do
  if ← atEnd tokens then return none
  else return some ((← statement tokens grammar calls) :: latestFirst)

/-- Declarations up to the end of the tokens, behind those that have been read. -/
def program (latestFirst : List Declaration) : Nat → Routine Program
  | 0 => unended
  | calls + 1 => do
    match ← declaration tokens grammar latestFirst calls with
    | some latestFirst => program latestFirst calls
    | none => return latestFirst.reverse

end

/-! ## Running routines -/

variable {α β : Type}

/-- What a routine comes to from a trail on, and the trail behind it. -/
def runFrom (x : Routine α) (start : Trail) : Option (Except Break α × Trail) :=
  (ExceptT.run x).run start

@[simp] theorem runFrom_pure (a : α) (start : Trail) :
    runFrom (pure a) start = some (.ok a, start) := rfl

@[simp] theorem runFrom_throw (reason : Break) (start : Trail) :
    runFrom (throw reason : Routine α) start = some (.error reason, start) := rfl

@[simp] theorem runFrom_get_bind (f : Trail → Routine α) (start : Trail) :
    runFrom (get >>= f) start = runFrom (f start) start := rfl

@[simp] theorem runFrom_modify_bind (change : Trail → Trail) (f : Unit → Routine α)
    (start : Trail) : runFrom (modify change >>= f) start = runFrom (f ()) (change start) := rfl

theorem runFrom_bind (x : Routine α) (f : α → Routine β) (start : Trail) :
    runFrom (x >>= f) start = (runFrom x start).bind fun
      | (.ok a, next) => runFrom (f a) next
      | (.error reason, next) => some (.error reason, next) := by
  simp only [runFrom, ExceptT.run_bind, StateT.run_bind]
  cases StateT.run (ExceptT.run x) start with
  | none => rfl
  | some pair =>
      obtain ⟨result, next⟩ := pair
      cases result <;> rfl

theorem runFrom_bind_ok {x : Routine α} {a : α} {start next : Trail}
    (hrun : runFrom x start = some (.ok a, next)) (f : α → Routine β) :
    runFrom (x >>= f) start = runFrom (f a) next := by
  rw [runFrom_bind, hrun]
  rfl

/-! ## Ends

A routine that makes calls is given as what it does with each number of calls that are allowed. -/

/-- This is what the routine comes to, however many calls are allowed besides enough of them. -/
def ComesTo (x : Nat → Routine α) (start : Trail) (result : Except Break α) (last : Trail) : Prop :=
  ∃ enough, ∀ calls, enough ≤ calls → runFrom (x calls) start = some (result, last)

namespace ComesTo

variable {x y : Nat → Routine α} {f : α → Nat → Routine β} {start next last : Trail}
  {result : Except Break α}

theorem of_forall (hrun : ∀ calls, runFrom (x calls) start = some (result, last)) :
    ComesTo x start result last :=
  ⟨0, fun calls _ => hrun calls⟩

theorem of_add (made : Nat)
    (hrun : ∀ calls, runFrom (x (calls + made)) start = some (result, last)) :
    ComesTo x start result last := by
  refine ⟨made, fun calls hcalls => ?_⟩
  obtain ⟨others, rfl⟩ := Nat.exists_eq_add_of_le' hcalls
  exact hrun others

theorem shift (h : ComesTo x start result last) (more : Nat) :
    ComesTo (fun calls => x (calls + more)) start result last := by
  obtain ⟨enough, hrun⟩ := h
  exact ⟨enough, fun calls hcalls => hrun (calls + more) (Nat.le_add_right_of_le hcalls)⟩

/-- Some calls are made on the way to another routine. -/
theorem of_runFrom (made : Nat) (h : ComesTo x next result last)
    (hrun : ∀ calls, runFrom (y (calls + made)) start = runFrom (x calls) next) :
    ComesTo y start result last := by
  obtain ⟨enough, h⟩ := h
  refine ⟨enough + made, fun calls hcalls => ?_⟩
  obtain ⟨others, rfl⟩ := Nat.exists_eq_add_of_le' (Nat.le_of_add_left_le hcalls)
  rw [hrun, h others (Nat.le_of_add_le_add_right hcalls)]

theorem bind_error {reason : Break} (h : ComesTo x start (.error reason) last) :
    ComesTo (fun calls => x calls >>= fun a => f a calls) start (.error reason) last := by
  obtain ⟨enough, h⟩ := h
  refine ⟨enough, fun calls hcalls => ?_⟩
  rw [runFrom_bind, h calls hcalls]
  rfl

theorem bind {a : α} {result : Except Break β} (h : ComesTo x start (.ok a) next)
    (hf : ComesTo (f a) next result last) :
    ComesTo (fun calls => x calls >>= fun a => f a calls) start result last := by
  obtain ⟨enough, h⟩ := h
  obtain ⟨enough', hf⟩ := hf
  refine ⟨max enough enough', fun calls hcalls => ?_⟩
  rw [runFrom_bind_ok (h calls (Nat.le_trans (Nat.le_max_left _ _) hcalls))]
  exact hf calls (Nat.le_trans (Nat.le_max_right _ _) hcalls)

theorem unique {result' : Except Break α} {last' : Trail} (h : ComesTo x start result last)
    (h' : ComesTo x start result' last') : result = result' ∧ last = last' := by
  obtain ⟨enough, h⟩ := h
  obtain ⟨enough', h'⟩ := h'
  have hrun := h (max enough enough') (Nat.le_max_left _ _)
  rw [h' (max enough enough') (Nat.le_max_right _ _)] at hrun
  cases hrun
  exact ⟨rfl, rfl⟩

end ComesTo

/-- The routine has an end, and the condition holds of what it comes to and of the trail there. -/
def Finishes (x : Nat → Routine α) (start : Trail) (post : Except Break α → Trail → Prop) : Prop :=
  ∃ result last, ComesTo x start result last ∧ post result last

namespace Finishes

variable {x y : Nat → Routine α} {f : α → Nat → Routine β} {start next : Trail}
  {post post' : Except Break α → Trail → Prop}

theorem mono (h : Finishes x start post) (hpost : ∀ result last, post result last →
    post' result last) : Finishes x start post' := by
  obtain ⟨result, last, hcomes, hresult⟩ := h
  exact ⟨result, last, hcomes, hpost result last hresult⟩

theorem and (h : Finishes x start post) (h' : Finishes x start post') :
    Finishes x start fun result last => post result last ∧ post' result last := by
  obtain ⟨result, last, hcomes, hresult⟩ := h
  obtain ⟨result', last', hcomes', hresult'⟩ := h'
  obtain ⟨rfl, rfl⟩ := hcomes.unique hcomes'
  exact ⟨result, last, hcomes, hresult, hresult'⟩

theorem shift (h : Finishes x start post) (more : Nat) :
    Finishes (fun calls => x (calls + more)) start post := by
  obtain ⟨result, last, hcomes, hresult⟩ := h
  exact ⟨result, last, hcomes.shift more, hresult⟩

theorem of_runFrom (made : Nat) (h : Finishes x next post)
    (hrun : ∀ calls, runFrom (y (calls + made)) start = runFrom (x calls) next) :
    Finishes y start post := by
  obtain ⟨result, last, hcomes, hresult⟩ := h
  exact ⟨result, last, hcomes.of_runFrom made hrun, hresult⟩

theorem call (h : Finishes x start post) (hcall : ∀ calls, y (calls + 1) = x calls) :
    Finishes y start post :=
  h.of_runFrom 1 fun calls => congrArg (runFrom · start) (hcall calls)

theorem step {post : Except Break β → Trail → Prop} {a : α}
    (hcomes : ComesTo x start (.ok a) next) (hf : Finishes (f a) next post) :
    Finishes (fun calls => x calls >>= fun a => f a calls) start post := by
  obtain ⟨result, last, hcomes', hresult⟩ := hf
  exact ⟨result, last, hcomes.bind hcomes', hresult⟩

theorem bind {post' : Except Break β → Trail → Prop} (h : Finishes x start post)
    (herror : ∀ reason last, post (.error reason) last → post' (.error reason) last)
    (hok : ∀ a next, post (.ok a) next → Finishes (f a) next post') :
    Finishes (fun calls => x calls >>= fun a => f a calls) start post' := by
  obtain ⟨result, next, hcomes, hresult⟩ := h
  cases result with
  | error reason => exact ⟨.error reason, next, hcomes.bind_error, herror reason next hresult⟩
  | ok a => exact .step hcomes (hok a next hresult)

end Finishes

end Routine

/-! ## Tokens with a stop -/

namespace Scan

/-- The stop stands behind all other tokens and nowhere else. -/
structure StopsOnce (scan : Scan) : Prop where
  stop : scan.stop.kind = .stop
  words : ∀ token ∈ scan.words, token.kind ≠ .stop

/-- The token at a place; behind the words it is the stop. -/
def tokenAt (scan : Scan) (place : Nat) : Token := scan.words[place]?.getD scan.stop

variable {scan : Scan} {place : Nat}

theorem getElem?_tokens (h : place ≤ scan.words.length) :
    scan.tokens[min place (scan.tokens.length - 1)]? = some (scan.tokenAt place) := by
  have hmin : min place (scan.tokens.length - 1) = place := by
    rw [tokens, List.length_append, List.length_singleton]
    omega
  rw [hmin, tokens, tokenAt]
  rcases Nat.lt_or_eq_of_le h with hlt | rfl
  · rw [List.getElem?_append_left hlt, List.getElem?_eq_getElem hlt, Option.getD_some]
  · simp

theorem StopsOnce.kind_tokenAt (h : scan.StopsOnce) :
    (scan.tokenAt place).kind = .stop ↔ scan.words.length ≤ place := by
  rw [tokenAt]
  rcases Nat.lt_or_ge place scan.words.length with hlt | hge
  · rw [List.getElem?_eq_getElem hlt, Option.getD_some]
    simp [h.words _ (List.getElem_mem hlt), hlt]
  · rw [List.getElem?_eq_none hge, Option.getD_none]
    simp [h.stop, hge]

end Scan

namespace Routine

variable {α : Type} {scan : Scan} {start : Trail}

theorem runFrom_peek (hplace : start.now.place ≤ scan.words.length) :
    runFrom (peek scan.tokens) start = some (.ok (scan.tokenAt start.now.place), start) := by
  rw [peek, runFrom_get_bind, Scan.getElem?_tokens hplace]
  rfl

theorem runFrom_peek_bind (hplace : start.now.place ≤ scan.words.length)
    (f : Token → Routine α) :
    runFrom (peek scan.tokens >>= f) start = runFrom (f (scan.tokenAt start.now.place)) start :=
  runFrom_bind_ok (runFrom_peek hplace) f

theorem runFrom_atEnd (h : scan.StopsOnce) (hplace : start.now.place ≤ scan.words.length) :
    runFrom (atEnd scan.tokens) start =
      some (.ok (decide (scan.words.length ≤ start.now.place)), start) := by
  rw [atEnd, runFrom_peek_bind hplace, runFrom_pure]
  simp only [beq_eq_decide, h.kind_tokenAt]

theorem runFrom_atEnd_bind (h : scan.StopsOnce) (hplace : start.now.place ≤ scan.words.length)
    (f : Bool → Routine α) :
    runFrom (atEnd scan.tokens >>= f) start =
      runFrom (f (decide (scan.words.length ≤ start.now.place))) start :=
  runFrom_bind_ok (runFrom_atEnd h hplace) f

theorem runFrom_bump (h : scan.StopsOnce) (hplace : start.now.place < scan.words.length) :
    runFrom (bump scan.tokens) start =
      some (.ok (scan.tokenAt start.now.place), start.onward) := by
  rw [bump, runFrom_peek_bind hplace.le, runFrom_atEnd_bind h hplace.le,
    if_neg (by simpa using hplace)]
  rfl

theorem runFrom_bump_bind (h : scan.StopsOnce) (hplace : start.now.place < scan.words.length)
    (f : Token → Routine α) :
    runFrom (bump scan.tokens >>= f) start =
      runFrom (f (scan.tokenAt start.now.place)) start.onward :=
  runFrom_bind_ok (runFrom_bump h hplace) f

theorem runFrom_unexpected (hplace : start.now.place ≤ scan.words.length) (message : String) :
    runFrom (unexpected scan.tokens message : Routine α) start =
      some (.error (.unexpected (scan.tokenAt start.now.place) message), start) := by
  rw [unexpected, runFrom_peek_bind hplace, runFrom_throw]

/-- Nothing can be accepted at the stop, and a token of another kind is left. -/
theorem runFrom_acceptKind (h : scan.StopsOnce) (hplace : start.now.place ≤ scan.words.length)
    (kind : TokenKind) :
    runFrom (acceptKind scan.tokens kind) start =
      if scan.words.length ≤ start.now.place then some (.error .incomplete, start)
      else if (scan.tokenAt start.now.place).kind = kind then
        some (.ok (some (scan.tokenAt start.now.place)), start.onward)
      else some (.ok none, start) := by
  rw [acceptKind, runFrom_atEnd_bind h hplace]
  by_cases hend : scan.words.length ≤ start.now.place
  · simp [hend]
  · rw [if_neg (by simpa using hend), if_neg hend, runFrom_peek_bind hplace]
    by_cases hkind : (scan.tokenAt start.now.place).kind = kind
    · rw [if_pos hkind, if_pos hkind, runFrom_bump_bind h (Nat.lt_of_not_le hend), runFrom_pure]
    · rw [if_neg hkind, if_neg hkind, runFrom_pure]

theorem runFrom_acceptSymbol (h : scan.StopsOnce) (hplace : start.now.place ≤ scan.words.length)
    (symbol : String) :
    runFrom (acceptSymbol scan.tokens symbol) start =
      if scan.words.length ≤ start.now.place then some (.error .incomplete, start)
      else if (scan.tokenAt start.now.place).isSymbol symbol then some (.ok true, start.onward)
      else some (.ok false, start) := by
  rw [acceptSymbol, runFrom_atEnd_bind h hplace]
  by_cases hend : scan.words.length ≤ start.now.place
  · simp [hend]
  · rw [if_neg (by simpa using hend), if_neg hend, runFrom_peek_bind hplace]
    by_cases hsymbol : (scan.tokenAt start.now.place).isSymbol symbol
    · rw [if_pos hsymbol, if_pos hsymbol, runFrom_bump_bind h (Nat.lt_of_not_le hend), runFrom_pure]
    · rw [if_neg hsymbol, if_neg hsymbol, runFrom_pure]

variable {tokens : List Token} {grammar : Grammar} {floor : Nat}

/-- However an expression ends, it is closed behind it. -/
theorem runFrom_expr (calls : Nat) :
    runFrom (expr tokens grammar floor (calls + 1)) start =
      if grammar.full start.now.depth then
        runFrom (peek tokens >>= fun token => throw (.error (.tooDeep token))) start
      else
        (runFrom (climb tokens grammar floor calls) start.deeper).map fun (result, last) =>
          (result, last.higher) := by
  rw [expr, runFrom_get_bind]
  by_cases hfull : grammar.full start.now.depth
  · rw [if_pos hfull, if_pos hfull]
  · rw [if_neg hfull, if_neg hfull, runFrom_modify_bind]
    simp only [runFrom, ExceptT.run, ExceptT.mk, StateT.run_bind]
    cases StateT.run (climb tokens grammar floor calls) start.deeper <;> rfl

theorem Finishes.expr {post post' : Except Break Expr → Trail → Prop}
    (hfull : ¬ grammar.full start.now.depth)
    (h : Finishes (climb tokens grammar floor) start.deeper post)
    (hpost : ∀ result last, post result last → post' result last.higher) :
    Finishes (Routine.expr tokens grammar floor) start post' := by
  obtain ⟨result, last, ⟨enough, hrun⟩, hresult⟩ := h
  refine ⟨result, last.higher, ⟨enough + 1, fun calls hcalls => ?_⟩, hpost result last hresult⟩
  obtain ⟨others, rfl⟩ := Nat.exists_eq_add_of_le' (Nat.le_of_add_left_le hcalls)
  rw [runFrom_expr, if_neg hfull, hrun others (Nat.le_of_add_le_add_right hcalls)]
  rfl

end Routine

end Fixity
