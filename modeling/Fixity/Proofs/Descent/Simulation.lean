import Fixity.Proofs.Descent.Basic
import Fixity.Proofs.Parse.Canonical

/-! # Token by token and by descent

Reading token by token comes to what a descent comes to, up to the first expression that is too
deep. -/

namespace Fixity

open Descent

/-- An operator that binds at least as tightly as the floor is left to the right operand. -/
theorem Surroundings.fold_of_floor_le {precedence : Nat} (surroundings : Surroundings)
    (h : surroundings.floor ≤ precedence) (e : Expr) :
    surroundings.fold precedence e = (e, surroundings) := by
  cases surroundings with
  | operand left op outer =>
      have hfloor : ¬ precedence < op.rightFloor := Nat.not_lt.mpr h
      rw [fold, if_neg hfloor]
  | _ => rfl

namespace Grammar

variable {grammar : Grammar} {α β : Type} {latestFirst : List Declaration} {stop : Token}

/-! ## Following a descent -/

/-- Whether no expression may be opened inside of so many others. -/
def full (grammar : Grammar) (n : Nat) : Bool :=
  grammar.nestingLimit.any fun limit => limit ≤ n

/-- The token of the first expression that may not be opened. -/
def tooDeep? (grammar : Grammar) : Nat → List Event → Option Token
  | _, [] => none
  | n, .opened cursor :: events =>
    if grammar.full n then some cursor else grammar.tooDeep? (n + 1) events
  | n, .closed :: events => grammar.tooDeep? (n - 1) events

theorem tooDeep?_append (n : Nat) (events others : List Event) :
    grammar.tooDeep? n (events ++ others) =
      (grammar.tooDeep? n events).or (grammar.tooDeep? (openBehind n events) others) := by
  induction events generalizing n with
  | nil => rfl
  | cons event events ih =>
      cases event with
      | opened cursor =>
          simp only [List.cons_append, tooDeep?, openBehind_opened]
          split
          · rfl
          · exact ih (n + 1)
      | closed => exact ih (n - 1)

/-- The outcome of going on from what a descent comes to, if all that it opens inside of so many
expressions may be opened. -/
def follow (grammar : Grammar) (n : Nat) (x : Descent α) (next : α → Outcome) : Outcome :=
  match grammar.tooDeep? n x.events with
  | some token => .rejected (.tooDeep token)
  | none =>
    match x.result with
    | .ok a => next a
    | .error .incomplete => .needsMoreInput
    | .error (.error error) => .rejected error

theorem follow_pure (n : Nat) (a : α) (next : α → Outcome) :
    grammar.follow n (pure a) next = next a := rfl

theorem follow_incomplete (n : Nat) (next : α → Outcome) :
    grammar.follow n (halt .incomplete) next = .needsMoreInput := rfl

theorem follow_error (n : Nat) (error : ParseError) (next : α → Outcome) :
    grammar.follow n (halt (.error error)) next = .rejected error := rfl

/-- What comes behind a part of a descent begins with as many open expressions as that part. -/
theorem follow_bind (n : Nat) (x : Descent α) (f : α → Descent β) (next : β → Outcome) :
    grammar.follow n (x >>= f) next =
      grammar.follow n x fun a => grammar.follow n (f a) next := by
  have hevents : (x >>= f).events =
      x.events ++ eventsBehind (fun a => (f a).events) x.result := rfl
  have hresult : (x >>= f).result = x.result.bind fun a => (f a).result := rfl
  simp only [follow, hevents, hresult, tooDeep?_append]
  cases hdeep : grammar.tooDeep? n x.events with
  | some token => rfl
  | none =>
      cases hx : x.result with
      | error halt => cases halt <;> rfl
      | ok a =>
          rw [x.balanced a hx n]
          rfl

theorem follow_enclosed (n : Nat) (cursor : Token) (x : Descent α) (next : α → Outcome) :
    grammar.follow n (enclosed cursor x) next =
      if grammar.full n then .rejected (.tooDeep cursor) else grammar.follow (n + 1) x next := by
  simp only [follow, enclosed, tooDeep?, tooDeep?_append]
  by_cases hfull : grammar.full n
  · simp only [if_pos hfull]
  · simp only [if_neg hfull]
    cases hdeep : grammar.tooDeep? (n + 1) x.events with
    | some token => rfl
    | none => cases x.result <;> rfl

/-! ## Outcomes from a reading on -/

/-- What becomes of tokens behind a reading. -/
def outcomeFrom (grammar : Grammar) (stop : Token) (latestFirst : List Declaration)
    (reading : Reading) (tokens : List Token) : Outcome :=
  match grammar.readAll ⟨latestFirst, reading⟩ tokens with
  | .ok progress => grammar.finish progress stop
  | .error error => .rejected error

theorem outcomeFrom_nil (reading : Reading) :
    grammar.outcomeFrom stop latestFirst reading [] = grammar.finish ⟨latestFirst, reading⟩ stop :=
  rfl

theorem outcomeFrom_cons (reading : Reading) (token : Token) (rest : List Token) :
    grammar.outcomeFrom stop latestFirst reading (token :: rest) =
      match grammar.read reading token with
      | .ok step =>
        grammar.outcomeFrom stop (step.completed.toList ++ latestFirst) step.reading rest
      | .error error => .rejected error := by
  rw [outcomeFrom, readAll_cons, advance]
  cases grammar.read reading token <;> rfl

/-- Readings that no token and no end tells apart have one outcome. -/
theorem outcomeFrom_congr {reading reading' : Reading} {tokens : List Token}
    (hread : ∀ token ∈ tokens.head?, grammar.read reading token = grammar.read reading' token)
    (hfinish : tokens = [] →
      grammar.finish ⟨latestFirst, reading⟩ stop = grammar.finish ⟨latestFirst, reading'⟩ stop) :
    grammar.outcomeFrom stop latestFirst reading tokens =
      grammar.outcomeFrom stop latestFirst reading' tokens := by
  cases tokens with
  | nil => exact hfinish rfl
  | cons token rest => rw [outcomeFrom_cons, outcomeFrom_cons, hread token rfl]

/-- Behind the right operand of an operator, its operation is complete unless a tighter operator
comes. -/
theorem outcomeFrom_operand {left right : Expr} {op : Operator} {surroundings : Surroundings}
    {tokens : List Token} (hends : Ends grammar.operators op.rightFloor tokens) :
    grammar.outcomeFrom stop latestFirst (.afterOperand right (.operand left op surroundings))
        tokens =
      grammar.outcomeFrom stop latestFirst
        (.afterOperand (.binary op.symbol left right) surroundings) tokens := by
  refine outcomeFrom_congr ?_ fun _ => rfl
  intro token htoken
  simp only [read, readAfterOperand]
  by_cases hkind : token.kind = .operator
  · obtain ⟨next, hnext, hfloor⟩ := hends token htoken hkind
    simp only [if_pos hkind, hnext, Surroundings.fold, if_pos hfloor]
  · simp only [if_neg hkind, readAfterExpr]

theorem kind_ne_operator_of_ends {tokens : List Token} (hends : Ends grammar.operators 0 tokens)
    {token : Token} (htoken : token ∈ tokens.head?) : token.kind ≠ .operator := by
  intro hkind
  obtain ⟨op, -, hlt⟩ := hends token htoken hkind
  exact Nat.not_lt_zero _ hlt

/-- A name is an operand unless it is called. -/
theorem outcomeFrom_afterName {name : String} {surroundings : Surroundings} {tokens : List Token}
    (hcall : ∀ token ∈ tokens.head?, ¬ token.isSymbol "(") :
    grammar.outcomeFrom stop latestFirst (.afterName name surroundings) tokens =
      grammar.outcomeFrom stop latestFirst (.afterOperand (.var name) surroundings) tokens :=
  outcomeFrom_congr (fun token htoken => by rw [read, read, if_neg (hcall token htoken)])
    fun _ => rfl

/-! ## Symbols -/

theorem outcomeFrom_expectSymbol (n : Nat) (symbol : String) (step : Advance) {reading : Reading}
    {tokens : List Token}
    (hread : ∀ token ∈ tokens.head?, grammar.read reading token =
      if token.isSymbol symbol then .ok step else .error (.unexpected token (.symbol symbol)))
    (hfinish : grammar.finish ⟨latestFirst, reading⟩ stop = .needsMoreInput) :
    grammar.outcomeFrom stop latestFirst reading tokens =
      grammar.follow n (expectSymbol symbol tokens) fun passed =>
        grammar.outcomeFrom stop (step.completed.toList ++ latestFirst) step.reading
          passed.rest := by
  cases tokens with
  | nil => exact hfinish
  | cons token rest =>
      rw [outcomeFrom_cons, hread token rfl, expectSymbol]
      by_cases hsymbol : token.isSymbol symbol
      · simp only [if_pos hsymbol, follow_pure]
      · simp only [if_neg hsymbol, follow_error]

theorem outcomeFrom_acceptSymbol (n : Nat) (symbol : String) (next : Reading) {reading : Reading}
    {tokens : List Token}
    (hread : ∀ token ∈ tokens.head?, grammar.read reading token =
      if token.isSymbol symbol then .ok { reading := next } else grammar.read next token)
    (hfinish : grammar.finish ⟨latestFirst, reading⟩ stop = .needsMoreInput) :
    grammar.outcomeFrom stop latestFirst reading tokens =
      grammar.follow n (acceptSymbol symbol tokens) fun passed =>
        grammar.outcomeFrom stop latestFirst next passed.rest := by
  cases tokens with
  | nil => exact hfinish
  | cons token rest =>
      rw [outcomeFrom_cons, hread token rfl, acceptSymbol]
      by_cases hsymbol : token.isSymbol symbol
      · simp only [if_pos hsymbol, follow_pure, Option.toList_none, List.nil_append]
      · simp only [if_neg hsymbol, follow_pure, outcomeFrom_cons]

theorem read_afterOperand_of_ends {e : Expr} {surroundings : Surroundings} {tokens : List Token}
    (hends : Ends grammar.operators 0 tokens) :
    ∀ token ∈ tokens.head?, grammar.read (.afterOperand e surroundings) token =
      grammar.readAfterExpr token e surroundings := by
  intro token htoken
  rw [read, readAfterOperand, if_neg (kind_ne_operator_of_ends hends htoken)]

/-! ## Expressions

The proofs recurse as the functions do. Each says what becomes of the tokens in any surroundings, so
that it can be used for an expression inside of another one. -/

mutual

/-- Where an expression begins, it is read as it is descended through. -/
theorem outcomeFrom_expr (latestFirst : List Declaration) (surroundings : Surroundings)
    (tokens : List Token) :
    grammar.outcomeFrom stop latestFirst (.operand surroundings) tokens =
      grammar.follow surroundings.depth
        (expr grammar.operators stop surroundings.floor tokens) fun e =>
          grammar.outcomeFrom stop latestFirst (.afterOperand e.value surroundings) e.rest := by
  rw [expr, follow_enclosed]
  by_cases hfull : grammar.full surroundings.depth
  · rw [if_pos hfull]
    have hexceeds : grammar.exceeds surroundings := hfull
    cases tokens with
    | nil =>
        simp only [outcomeFrom_nil, finish, if_pos hexceeds, cursor, List.head?_nil, Option.getD]
    | cons token rest =>
        rw [outcomeFrom_cons, read, readOperand, if_pos hexceeds]
        rfl
  · rw [if_neg hfull, outcomeFrom_primary latestFirst surroundings hfull tokens, follow_bind]
    congr 1
    funext left
    -- The operators behind the operand are read inside of the same expression.
    rw [outcomeFrom_climb latestFirst surroundings left.value left.rest, follow_bind]
    rfl
termination_by 4 * tokens.length + 2
decreasing_by
  · omega
  · have := left.shorter
    omega

theorem outcomeFrom_primary (latestFirst : List Declaration) (surroundings : Surroundings)
    (hroom : ¬ grammar.full surroundings.depth) (tokens : List Token) :
    grammar.outcomeFrom stop latestFirst (.operand surroundings) tokens =
      grammar.follow (surroundings.depth + 1) (primary grammar.operators stop tokens) fun e =>
        grammar.outcomeFrom stop latestFirst (.afterOperand e.value surroundings) e.rest := by
  have hexceeds : ¬ grammar.exceeds surroundings := hroom
  cases tokens with
  | nil =>
      simp only [outcomeFrom_nil, finish, if_neg hexceeds, primary, follow_incomplete]
  | cons token rest =>
      rw [outcomeFrom_cons, read, readOperand, if_neg hexceeds, primary.eq_def]
      by_cases hgroup : token.isSymbol "("
      · simp only [if_pos hgroup, Except.map, Option.toList_none, List.nil_append]
        rw [outcomeFrom_expr latestFirst (.group surroundings) rest, follow_bind]
        congr 1
        funext e
        rw [follow_bind]
        refine outcomeFrom_expectSymbol _ ")"
          { reading := .afterOperand e.value surroundings } ?_ rfl
        exact read_afterOperand_of_ends e.ends
      · simp only [if_neg hgroup]
        cases hkind : token.kind with
        | identifier =>
            simp only [Except.map, Option.toList_none, List.nil_append, if_true]
            cases rest with
            | nil => rfl
            | cons opening inner =>
                by_cases hcall : opening.isSymbol "("
                · simp only [if_pos hcall]
                  rw [outcomeFrom_cons, read, if_pos hcall, follow_bind]
                  exact outcomeFrom_arguments latestFirst token.text [] surroundings inner
                · simp only [if_neg hcall, follow_pure]
                  exact outcomeFrom_afterName (by simpa using hcall)
        | number =>
            simp only [readNumber, reduceCtorEq, if_false, if_true, number]
            cases Binary64.ofNumeral token.text with
            | ok value => rfl
            | error error => cases error <;> rfl
        | definition | external | operator | reserved | stop => rfl
termination_by 4 * tokens.length + 1
decreasing_by all_goals simp only [List.length_cons]; omega

theorem outcomeFrom_climb (latestFirst : List Declaration) (surroundings : Surroundings)
    (left : Expr) (tokens : List Token) :
    grammar.outcomeFrom stop latestFirst (.afterOperand left surroundings) tokens =
      grammar.follow (surroundings.depth + 1)
        (climb grammar.operators stop surroundings.floor left tokens) fun e =>
          grammar.outcomeFrom stop latestFirst (.afterOperand e.value surroundings) e.rest := by
  cases tokens with
  | nil => rw [climb, follow_pure]
  | cons token rest =>
      rw [climb.eq_def]
      by_cases hkind : token.kind = .operator
      · simp only [dif_pos hkind]
        split
        · next hop =>
            rw [follow_error, outcomeFrom_cons, read, readAfterOperand, if_pos hkind, hop]
        · next op hop =>
            by_cases hfloor : op.precedence < surroundings.floor
            · rw [dif_pos hfloor, follow_pure]
            · have hfold := surroundings.fold_of_floor_le (Nat.le_of_not_lt hfloor) left
              have hread : grammar.read (.afterOperand left surroundings) token =
                  .ok { reading := .operand (.operand left op surroundings) } := by
                rw [read, readAfterOperand, if_pos hkind, hop]
                simp only [hfold]
              rw [dif_neg hfloor, outcomeFrom_cons, hread, follow_bind]
              simp only [Option.toList_none, List.nil_append]
              rw [outcomeFrom_expr latestFirst (.operand left op surroundings) rest]
              congr 1
              funext right
              -- What follows leaves the right operand as it is, so the operation can be folded now.
              rw [outcomeFrom_operand right.ends, follow_bind,
                outcomeFrom_climb latestFirst surroundings (.binary op.symbol left right.value)
                  right.rest]
              rfl
      · simp only [dif_neg hkind, follow_pure]
termination_by 4 * tokens.length
decreasing_by
  · simp only [List.length_cons]
    omega
  · have := right.shorter
    simp only [List.length_cons]
    omega

theorem outcomeFrom_arguments (latestFirst : List Declaration) (callee : String)
    (arguments : List Expr) (outer : Surroundings) (tokens : List Token) :
    grammar.outcomeFrom stop latestFirst (.argument callee arguments outer) tokens =
      grammar.follow (outer.depth + 1)
        (Descent.arguments grammar.operators stop callee arguments tokens) fun call =>
          grammar.outcomeFrom stop latestFirst (.afterOperand call.value outer) call.rest := by
  cases tokens with
  | nil => rw [Descent.arguments, follow_incomplete, outcomeFrom_nil, finish]
  | cons token rest =>
      rw [Descent.arguments]
      by_cases hclosing : token.isSymbol ")"
      · rw [if_pos hclosing, follow_pure, outcomeFrom_cons, read, readArgument, if_pos hclosing]
        rfl
      · have hread : grammar.outcomeFrom stop latestFirst (.argument callee arguments outer)
              (token :: rest) =
            grammar.outcomeFrom stop latestFirst (.operand (.argument callee arguments outer))
              (token :: rest) := by
          rw [outcomeFrom_cons, outcomeFrom_cons, read, read, readArgument, if_neg hclosing]
        rw [if_neg hclosing, hread, follow_bind,
          outcomeFrom_expr latestFirst (.argument callee arguments outer) (token :: rest)]
        congr 1
        funext e
        rw [follow_bind, outcomeFrom_acceptSymbol (outer.depth + 1) ","
          (.argument callee (e.value :: arguments) outer) ?_ rfl]
        · congr 1
          funext comma
          rw [follow_bind, outcomeFrom_arguments latestFirst callee (e.value :: arguments) outer
            comma.rest]
          rfl
        · intro next hnext
          rw [read_afterOperand_of_ends e.ends next hnext, readAfterExpr, read]
termination_by 4 * tokens.length + 3
decreasing_by
  · omega
  · have := e.shorter
    have := comma.shorter
    omega

end

/-! ## Declarations -/

theorem outcomeFrom_parameters (n : Nat) (latestFirst : List Declaration) (head : HeadKind)
    (name : String) (parameters : List String) (tokens : List Token) :
    grammar.outcomeFrom stop latestFirst (.parameter head name parameters) tokens =
      grammar.follow n (Descent.parameters name parameters tokens) fun prototype =>
        grammar.outcomeFrom stop ((headEnd prototype.value head).completed.toList ++ latestFirst)
          (headEnd prototype.value head).reading prototype.rest := by
  cases tokens with
  | nil => rw [Descent.parameters, follow_incomplete, outcomeFrom_nil, finish]
  | cons token rest =>
      rw [outcomeFrom_cons, read, Descent.parameters]
      by_cases hname : token.kind = .identifier
      · rw [if_pos hname, readParameter, if_pos hname, follow_bind]
        simp only [Option.toList_none, List.nil_append]
        rw [outcomeFrom_acceptSymbol n "," (.parameter head name (token.text :: parameters)) ?_ rfl]
        · congr 1
          funext comma
          rw [follow_bind, outcomeFrom_parameters n latestFirst head name
            (token.text :: parameters) comma.rest]
          rfl
        · intro next _
          rw [read, read]
      · rw [if_neg hname]
        by_cases hclosing : token.isSymbol ")"
        · rw [if_pos hclosing, follow_pure, readParameter_closing hclosing]
        · rw [if_neg hclosing, follow_error, readParameter, if_neg hname, if_neg hclosing]
termination_by tokens.length
decreasing_by
  have := comma.shorter
  simp only [List.length_cons]
  omega

theorem outcomeFrom_prototype (n : Nat) (latestFirst : List Declaration) (head : HeadKind)
    (tokens : List Token) :
    grammar.outcomeFrom stop latestFirst (.functionName head) tokens =
      grammar.follow n (prototype tokens) fun prototype =>
        grammar.outcomeFrom stop ((headEnd prototype.value head).completed.toList ++ latestFirst)
          (headEnd prototype.value head).reading prototype.rest := by
  cases tokens with
  | nil => rfl
  | cons token rest =>
      rw [outcomeFrom_cons, read, prototype]
      by_cases hname : token.kind = .identifier
      · rw [if_pos hname, if_pos hname, follow_bind]
        simp only [Option.toList_none, List.nil_append]
        rw [outcomeFrom_expectSymbol n "(" { reading := .parameter head token.text [] } ?_ rfl]
        · congr 1
          funext opening
          rw [follow_bind]
          exact outcomeFrom_parameters n latestFirst head token.text [] opening.rest
        · intro next _
          rw [read]
      · rw [if_neg hname, if_neg hname, follow_error]

theorem outcomeFrom_statement {e : Expr} {tokens : List Token}
    (hends : Ends grammar.operators 0 tokens) :
    grammar.outcomeFrom stop latestFirst (.afterOperand e .statement) tokens =
      grammar.outcomeFrom stop (.definition .anonymous e :: latestFirst) .ready tokens := by
  cases tokens with
  | nil =>
      rw [outcomeFrom_nil, outcomeFrom_nil]
      rfl
  | cons token rest =>
      rw [outcomeFrom_cons, outcomeFrom_cons, read_afterOperand_of_ends hends token rfl,
        readAfterExpr, read]
      cases grammar.readStart token <;> rfl

theorem outcomeFrom_definition (latestFirst : List Declaration) (tokens : List Token) :
    grammar.outcomeFrom stop latestFirst (.functionName .definition) tokens =
      grammar.follow 0 (definition grammar.operators stop tokens) fun declaration =>
        grammar.outcomeFrom stop (declaration.value :: latestFirst) .ready declaration.rest := by
  rw [definition, follow_bind, outcomeFrom_prototype 0]
  congr 1
  funext head
  rw [follow_bind, headEnd,
    outcomeFrom_expectSymbol 0 "\x7b" { reading := .operand (.body head.value) }
      (fun token _ => by rw [read]) rfl]
  congr 1
  funext opening
  rw [follow_bind]
  refine (outcomeFrom_expr latestFirst (.body head.value) opening.rest).trans ?_
  congr 1
  funext body
  rw [follow_bind]
  refine outcomeFrom_expectSymbol 0 "\x7d" ⟨some (.definition head.value body.value), .ready⟩ ?_ rfl
  exact read_afterOperand_of_ends body.ends

theorem outcomeFrom_expression (latestFirst : List Declaration) {token : Token}
    (hstart : grammar.readStart token = grammar.readOperand .statement token)
    (rest : List Token) :
    grammar.outcomeFrom stop latestFirst .ready (token :: rest) =
      grammar.follow 0 (expr grammar.operators stop 0 (token :: rest)) fun body =>
        grammar.outcomeFrom stop (.definition .anonymous body.value :: latestFirst) .ready
          body.rest := by
  have hread : grammar.outcomeFrom stop latestFirst .ready (token :: rest) =
      grammar.outcomeFrom stop latestFirst (.operand .statement) (token :: rest) := by
    rw [outcomeFrom_cons, outcomeFrom_cons, read, read, hstart]
  refine (hread.trans (outcomeFrom_expr latestFirst .statement (token :: rest))).trans ?_
  congr 1
  funext body
  exact outcomeFrom_statement body.ends

theorem outcomeFrom_declaration (latestFirst : List Declaration) (token : Token)
    (rest : List Token) :
    grammar.outcomeFrom stop latestFirst .ready (token :: rest) =
      grammar.follow 0 (statement grammar.operators stop (token :: rest)) fun declaration =>
        grammar.outcomeFrom stop (declaration.value :: latestFirst) .ready declaration.rest := by
  cases hkind : token.kind with
  | definition =>
      simp only [statement, hkind]
      rw [outcomeFrom_cons, read, readStart, hkind, follow_bind]
      exact outcomeFrom_definition latestFirst rest
  | external =>
      simp only [statement, hkind]
      rw [outcomeFrom_cons, read, readStart, hkind, follow_bind]
      exact outcomeFrom_prototype 0 latestFirst .external rest
  | identifier | operator | reserved | number | stop =>
      simp only [statement, hkind]
      rw [follow_bind]
      exact outcomeFrom_expression latestFirst (by rw [readStart, hkind]) rest

/-- What becomes of a descent with declarations in front of it. -/
def outcomeBehind (latestFirst : List Declaration) (run : Run) : Outcome :=
  match run.result with
  | .ok program => .parsed (latestFirst.reverse ++ program)
  | .error .incomplete => .needsMoreInput
  | .error (.error error) => .rejected error

/-- Every declaration is descended through with nothing open in front of it. -/
theorem outcomeFrom_program (latestFirst : List Declaration) (tokens : List Token) :
    grammar.outcomeFrom stop latestFirst .ready tokens =
      match grammar.tooDeep? 0 (program grammar.operators stop tokens).events with
      | some token => .rejected (.tooDeep token)
      | none => outcomeBehind latestFirst (program grammar.operators stop tokens) := by
  cases tokens with
  | nil =>
      rw [program]
      exact congrArg Outcome.parsed (List.append_nil _).symm
  | cons token rest =>
      rw [outcomeFrom_declaration, program, follow]
      generalize statement grammar.operators stop (token :: rest) = first
      cases hresult : first.result with
      | error halt =>
          simp only [Run.events, List.flatten_cons, List.flatten_nil, List.append_nil]
          cases grammar.tooDeep? 0 first.events <;> cases halt <;> rfl
      | ok declaration =>
          simp only [Run.events, List.flatten_cons, tooDeep?_append,
            first.balanced declaration hresult]
          cases hdeep : grammar.tooDeep? 0 first.events with
          | some token => rfl
          | none =>
              -- The first declaration is balanced, so the count begins with zero again.
              simp only [Option.none_or]
              rw [outcomeFrom_program (declaration.value :: latestFirst) declaration.rest,
                Run.events]
              generalize program grammar.operators stop declaration.rest = others
              obtain ⟨declarations, result⟩ := others
              cases result with
              | ok program => simp [outcomeBehind, Except.map]
              | error halt => cases halt <;> rfl
termination_by tokens.length
decreasing_by exact declaration.shorter

/-- Reading token by token comes to what a descent comes to, unless the descent opens an expression
that may not be opened: then the token at which it does so is too deep. -/
theorem parse_eq_descend (grammar : Grammar) (text : String) :
    grammar.parse text =
      match grammar.tooDeep? 0 (descend grammar.operators text).events with
      | some token => .rejected (.tooDeep token)
      | none => (descend grammar.operators text).outcome := by
  rw [parse, descend]
  cases scan text with
  | error error => rfl
  | ok scanned => exact outcomeFrom_program [] scanned.words

end Grammar

end Fixity
