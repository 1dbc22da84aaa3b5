import Fixity.Parse.Outcome

/-! # Recursive descent

The grammar as one function for each rule, with the trace of the expressions that are opened and
closed. -/

namespace Fixity

/-- An expression begins at the token that a descent has come to, or one ends. -/
inductive Event where
  | opened (cursor : Token)
  | closed

/-- How many expressions are open behind an event. -/
def Event.count : Nat → Event → Nat
  | n, opened _ => n + 1
  | n, closed => n - 1

/-- How many expressions are open behind some events. -/
def openBehind (n : Nat) (events : List Event) : Nat := events.foldl Event.count n

@[simp] theorem openBehind_nil (n : Nat) : openBehind n [] = n := rfl

@[simp] theorem openBehind_opened (n : Nat) (cursor : Token) (events : List Event) :
    openBehind n (.opened cursor :: events) = openBehind (n + 1) events := rfl

@[simp] theorem openBehind_closed (n : Nat) (events : List Event) :
    openBehind n (.closed :: events) = openBehind (n - 1) events := rfl

@[simp] theorem openBehind_append (n : Nat) (events others : List Event) :
    openBehind n (events ++ others) = openBehind (openBehind n events) others :=
  List.foldl_append

/-- Why a descent comes to nothing. -/
inductive Halt where
  | incomplete
  | error (error : ParseError)

/-- A part of a descent: the events on its way and what it comes to. If it comes to something, it
has closed all that it opened. -/
structure Descent (α : Type) where
  events : List Event
  result : Except Halt α
  balanced : ∀ a, result = .ok a → ∀ n, openBehind n events = n

namespace Descent

variable {α β : Type}

def halt (halt : Halt) : Descent α where
  events := []
  result := .error halt
  balanced := fun _ h => nomatch h

/-- The events behind a result: none if there is no result. -/
def eventsBehind (events : α → List Event) : Except Halt α → List Event
  | .ok a => events a
  | .error _ => []

instance : Monad Descent where
  pure a := ⟨[], .ok a, fun _ _ _ => rfl⟩
  bind x next := {
    events := x.events ++ eventsBehind (fun a => (next a).events) x.result
    result := x.result.bind fun a => (next a).result
    balanced := by
      intro b hb n
      cases hx : x.result with
      | error halt =>
          rw [hx] at hb
          cases hb
      | ok a =>
          rw [hx] at hb
          rw [eventsBehind, openBehind_append, x.balanced a hx, (next a).balanced b hb] }

/-- Opens an expression, and closes it if it comes to something. -/
def enclosed (cursor : Token) (x : Descent α) : Descent α where
  events := .opened cursor :: (x.events ++ eventsBehind (fun _ => [.closed]) x.result)
  result := x.result
  balanced := by
    intro a ha n
    rw [ha, eventsBehind, openBehind_opened, openBehind_append, x.balanced a ha, openBehind_closed,
      openBehind_nil, Nat.add_sub_cancel]

/-! ## Tokens -/

/-- What a rule came to, and the tokens behind it, of which there are less than the bound. -/
structure Parsed (α : Type) (bound : Nat) where
  value : α
  rest : List Token
  shorter : rest.length < bound

def Parsed.within {bound bound' : Nat} (parsed : Parsed α bound) (h : bound ≤ bound') :
    Parsed α bound' :=
  { parsed with shorter := Nat.lt_of_lt_of_le parsed.shorter h }

/-- The token that a descent has come to. -/
def cursor (stop : Token) (tokens : List Token) : Token := tokens.head?.getD stop

/-- Passes over a symbol if it comes next. -/
def acceptSymbol (symbol : String) (tokens : List Token) :
    Descent (Parsed Bool (tokens.length + 1)) :=
  match tokens with
  | [] => halt .incomplete
  | token :: rest =>
    if token.isSymbol symbol then pure ⟨true, rest, by simp only [List.length_cons]; omega⟩
    else pure ⟨false, token :: rest, Nat.lt_succ_self _⟩

/-- Passes over a symbol that must come next. -/
def expectSymbol (symbol : String) (tokens : List Token) : Descent (Parsed Unit tokens.length) :=
  match tokens with
  | [] => halt .incomplete
  | token :: rest =>
    if token.isSymbol symbol then pure ⟨(), rest, Nat.lt_succ_self _⟩
    else halt (.error (.unexpected token (.symbol symbol)))

/-! ## Expressions -/

/-- What comes next is no operator of this precedence or a greater one. -/
def Ends (table : OperatorTable) (floor : Nat) (rest : List Token) : Prop :=
  ∀ token ∈ rest.head?, token.kind = .operator →
    ∃ op, table.get? token.text = some op ∧ op.precedence < floor

/-- An expression that has taken all operators down to a precedence. -/
structure ParsedExpr (table : OperatorTable) (floor bound : Nat) extends Parsed Expr bound where
  ends : Ends table floor rest

def ParsedExpr.within {table : OperatorTable} {floor bound bound' : Nat}
    (parsed : ParsedExpr table floor bound) (h : bound ≤ bound') : ParsedExpr table floor bound' :=
  { parsed with shorter := Nat.lt_of_lt_of_le parsed.shorter h }

def number (token : Token) (rest : List Token) : Descent (Parsed Expr (token :: rest).length) :=
  match Binary64.ofNumeral token.text with
  | .ok value => pure ⟨.literal value, rest, Nat.lt_succ_self _⟩
  | .error .malformed => halt (.error (.malformedNumber token))
  | .error .outOfRange => halt (.error (.numberOutOfRange token))

section

variable (table : OperatorTable) (stop : Token)

mutual

/-- An operand and the operators behind it, down to a precedence. -/
def expr (floor : Nat) (tokens : List Token) : Descent (ParsedExpr table floor tokens.length) :=
  enclosed (cursor stop tokens) do
    let left ← primary tokens
    let e ← climb floor left.value left.rest
    return e.within left.shorter
termination_by 4 * tokens.length + 2
decreasing_by
  · omega
  · have := left.shorter
    omega

def primary (tokens : List Token) : Descent (Parsed Expr tokens.length) :=
  match tokens with
  | [] => halt .incomplete
  | token :: rest =>
    if token.isSymbol "(" then do
      let e ← expr 0 rest
      let closing ← expectSymbol ")" e.rest
      return ⟨e.value, closing.rest, by
        have := e.shorter; have := closing.shorter; simp only [List.length_cons]; omega⟩
    else if token.kind = .identifier then
      match rest with
      | [] => pure ⟨.var token.text, [], Nat.lt_succ_self _⟩
      | opening :: inner =>
        if opening.isSymbol "(" then do
          let call ← arguments token.text [] inner
          return call.within (Nat.le_add_right_of_le (Nat.le_succ _))
        else pure ⟨.var token.text, opening :: inner, Nat.lt_succ_self _⟩
    else if token.kind = .number then number token rest
    else halt (.error (.unexpected token .expression))
termination_by 4 * tokens.length + 1
decreasing_by all_goals simp only [List.length_cons]; omega

/-- The operators behind an operand and their right operands, one after another. -/
def climb (floor : Nat) (left : Expr) (tokens : List Token) :
    Descent (ParsedExpr table floor (tokens.length + 1)) :=
  match tokens with
  | [] => pure ⟨⟨left, [], Nat.lt_succ_self _⟩, by simp [Ends]⟩
  | token :: rest =>
    if hkind : token.kind = .operator then
      match hop : table.get? token.text with
      | none => halt (.error (.unknownOperator token))
      | some op =>
        if hfloor : op.precedence < floor then
          pure ⟨⟨left, token :: rest, Nat.lt_succ_self _⟩, by simp [Ends, hop, hfloor]⟩
        else do
          let right ← expr op.rightFloor rest
          let e ← climb floor (.binary op.symbol left right.value) right.rest
          return e.within (Nat.le_add_right_of_le (Nat.le_add_right_of_le right.shorter))
    else pure ⟨⟨left, token :: rest, Nat.lt_succ_self _⟩, by simp [Ends, hkind]⟩
termination_by 4 * tokens.length
decreasing_by
  · simp only [List.length_cons]
    omega
  · have := right.shorter
    simp only [List.length_cons]
    omega

/-- The arguments of a call, behind those that have been read. -/
def arguments (callee : String) (latestFirst : List Expr) (tokens : List Token) :
    Descent (Parsed Expr tokens.length) :=
  match tokens with
  | [] => halt .incomplete
  | token :: rest =>
    if token.isSymbol ")" then pure ⟨.call callee latestFirst.reverse, rest, Nat.lt_succ_self _⟩
    else do
      let e ← expr 0 (token :: rest)
      let comma ← acceptSymbol "," e.rest
      let call ← arguments callee (e.value :: latestFirst) comma.rest
      return call.within (Nat.le_trans (Nat.le_of_lt_succ comma.shorter) (Nat.le_of_lt e.shorter))
termination_by 4 * tokens.length + 3
decreasing_by
  · omega
  · have := e.shorter
    have := comma.shorter
    omega

end

end

/-! ## Declarations -/

/-- The parameters of a prototype, behind those that have been read. -/
def parameters (name : String) (latestFirst : List String) (tokens : List Token) :
    Descent (Parsed Prototype tokens.length) :=
  match tokens with
  | [] => halt .incomplete
  | token :: rest =>
    if token.kind = .identifier then do
      let comma ← acceptSymbol "," rest
      let prototype ← parameters name (token.text :: latestFirst) comma.rest
      return prototype.within (Nat.le_of_lt comma.shorter)
    else if token.isSymbol ")" then pure ⟨⟨name, latestFirst.reverse⟩, rest, Nat.lt_succ_self _⟩
    else halt (.error (.unexpected token (.symbol ")")))
termination_by tokens.length
decreasing_by
  have := comma.shorter
  simp only [List.length_cons]
  omega

def prototype (tokens : List Token) : Descent (Parsed Prototype tokens.length) :=
  match tokens with
  | [] => halt .incomplete
  | token :: rest =>
    if token.kind = .identifier then do
      let opening ← expectSymbol "(" rest
      let prototype ← parameters token.text [] opening.rest
      return prototype.within (Nat.le_add_right_of_le (Nat.le_of_lt opening.shorter))
    else halt (.error (.unexpected token .functionName))

section

variable (table : OperatorTable) (stop : Token)

def definition (tokens : List Token) : Descent (Parsed Declaration tokens.length) := do
  let head ← prototype tokens
  let opening ← expectSymbol "\x7b" head.rest
  let body ← expr table stop 0 opening.rest
  let closing ← expectSymbol "\x7d" body.rest
  return ⟨.definition head.value body.value, closing.rest, by
    have := head.shorter; have := opening.shorter; have := body.shorter; have := closing.shorter
    omega⟩

def statement (tokens : List Token) : Descent (Parsed Declaration tokens.length) :=
  match tokens with
  | [] => halt .incomplete
  | token :: rest =>
    match token.kind with
    | .definition => do
      let declaration ← definition table stop rest
      return declaration.within (Nat.le_succ _)
    | .external => do
      let head ← prototype rest
      return ⟨.external head.value, head.rest, Nat.lt_succ_of_lt head.shorter⟩
    | _ => do
      let body ← expr table stop 0 (token :: rest)
      return ⟨.definition .anonymous body.value, body.rest, body.shorter⟩

/-- A whole descent: the events on the way through each declaration, and what it comes to. -/
structure Run where
  declarations : List (List Event)
  result : Except Halt Program

def program (tokens : List Token) : Run :=
  match tokens with
  | [] => ⟨[], .ok []⟩
  | token :: rest =>
    let first := statement table stop (token :: rest)
    match first.result with
    | .error halt => ⟨[first.events], .error halt⟩
    | .ok declaration =>
      let others := program declaration.rest
      ⟨first.events :: others.declarations, others.result.map (declaration.value :: ·)⟩
termination_by tokens.length
decreasing_by exact declaration.shorter

end

namespace Run

def events (run : Run) : List Event := run.declarations.flatten

/-- What becomes of a text that was descended through. -/
def outcome (run : Run) : Outcome :=
  match run.result with
  | .ok program => .parsed program
  | .error .incomplete => .needsMoreInput
  | .error (.error error) => .rejected error

end Run

end Descent

/-- The descent through a text. -/
def descend (table : OperatorTable) (text : String) : Descent.Run :=
  match scan text with
  | .ok scanned => Descent.program table scanned.stop scanned.words
  | .error error => ⟨[], .error (.error (.scan error))⟩

end Fixity
