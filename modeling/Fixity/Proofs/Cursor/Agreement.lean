import Fixity.Proofs.Cursor.Discipline
import Fixity.Proofs.Cursor.Following
import Fixity.Proofs.Token.Spacing

/-! # The parser with a cursor follows the descent

Every routine follows the part of a descent that has its name, so the whole parse is disciplined. -/

namespace Fixity

open Descent (Parsed)

namespace Routine

variable {grammar : Grammar} {scan : Scan}

/-! ## Expressions -/

section

variable {floor : Nat} {left : Expr} {token : Token} {rest : List Token} {start : Trail}

/-! ### What routines make of a token -/

theorem runFrom_operations_ends (h : scan.StopsOnce) (hat : start.At scan rest)
    (hends : Descent.Ends grammar.operators floor rest) (calls : Nat) :
    runFrom (operations scan.tokens grammar floor left (calls + 2)) start =
      some (.ok left, start) := by
  have hcursor : (Descent.cursor scan.stop rest).kind = .operator →
      ∃ op, grammar.operators.get? (Descent.cursor scan.stop rest).text = some op ∧
        op.precedence < floor := by
    cases rest with
    | nil =>
        intro hkind
        cases h.stop.symm.trans hkind
    | cons token rest => exact hends token rfl
  rw [operations, operation, bind_assoc, runFrom_peek_bind hat.place_le, hat.tokenAt_eq]
  by_cases hkind : (Descent.cursor scan.stop rest).kind = .operator
  · obtain ⟨op, hop, hfloor⟩ := hcursor hkind
    simp only [if_pos hkind, hop, if_pos hfloor, pure_bind, runFrom_pure]
  · rw [if_neg hkind, pure_bind, runFrom_pure]

theorem runFrom_operations_unknown (hat : start.At scan (token :: rest))
    (hkind : token.kind = .operator) (hop : grammar.operators.get? token.text = none)
    (calls : Nat) :
    runFrom (operations scan.tokens grammar floor left (calls + 2)) start =
      some (.error (.error (.unknownOperator token)), start) := by
  rw [operations, operation, bind_assoc, runFrom_peek_bind_cons hat, if_pos hkind, hop]
  rfl

theorem runFrom_operations_takes (h : scan.StopsOnce) (hat : start.At scan (token :: rest))
    {op : Operator} (hkind : token.kind = .operator)
    (hop : grammar.operators.get? token.text = some op) (hfloor : ¬ op.precedence < floor)
    (calls : Nat) :
    runFrom (operations scan.tokens grammar floor left (calls + 2)) start =
      runFrom (expr scan.tokens grammar op.rightFloor calls >>= fun right =>
        operations scan.tokens grammar floor (.binary op.symbol left right) (calls + 1))
        start.onward := by
  rw [operations, operation, bind_assoc, runFrom_peek_bind_cons hat]
  simp only [if_pos hkind, hop, if_neg hfloor, bind_assoc, pure_bind]
  rw [runFrom_bump_bind h hat.place_lt]

theorem runFrom_primary_nil (h : scan.StopsOnce) (hat : start.At scan []) (calls : Nat) :
    runFrom (primary scan.tokens grammar (calls + 1)) start = some (.error .incomplete, start) := by
  have hsymbol : ¬ scan.stop.isSymbol "(" := fun hsymbol => kind_ne_stop_of_isSymbol hsymbol h.stop
  rw [primary, runFrom_peek_bind hat.place_le, hat.tokenAt_nil, if_neg hsymbol,
    runFrom_peek_bind hat.place_le, hat.tokenAt_nil, h.stop]
  rfl

theorem runFrom_primary_group (h : scan.StopsOnce) (hat : start.At scan (token :: rest))
    (hsymbol : token.isSymbol "(") (calls : Nat) :
    runFrom (primary scan.tokens grammar (calls + 2)) start =
      runFrom (expr scan.tokens grammar 0 calls >>= fun e =>
        expectSymbol scan.tokens ")" >>= fun _ => pure e) start.onward := by
  have hopening := runFrom_expectSymbol_cons h hat "("
  rw [if_pos hsymbol] at hopening
  rw [primary, runFrom_peek_bind_cons hat, if_pos hsymbol, nested, runFrom_bind_ok hopening]

/-- An operand that is no group is told by the kind of its first token. -/
theorem runFrom_primary_identifier (hat : start.At scan (token :: rest))
    (hsymbol : ¬ token.isSymbol "(") (hkind : token.kind = .identifier) (calls : Nat) :
    runFrom (primary scan.tokens grammar (calls + 1)) start =
      runFrom (identifier scan.tokens grammar calls) start := by
  rw [primary, runFrom_peek_bind_cons hat, if_neg hsymbol, runFrom_peek_bind_cons hat, hkind]

theorem runFrom_primary_number (hat : start.At scan (token :: rest))
    (hsymbol : ¬ token.isSymbol "(") (hkind : token.kind = .number) (calls : Nat) :
    runFrom (primary scan.tokens grammar (calls + 1)) start =
      runFrom (number scan.tokens) start := by
  rw [primary, runFrom_peek_bind_cons hat, if_neg hsymbol, runFrom_peek_bind_cons hat, hkind]

theorem runFrom_primary_unexpected (h : scan.StopsOnce) (hat : start.At scan (token :: rest))
    (hsymbol : ¬ token.isSymbol "(") (hidentifier : token.kind ≠ .identifier)
    (hnumber : token.kind ≠ .number) (calls : Nat) :
    runFrom (primary scan.tokens grammar (calls + 1)) start =
      some (.error (.ofHalt (.error (.unexpected token .expression))), start) := by
  rw [primary, runFrom_peek_bind_cons hat, if_neg hsymbol, runFrom_peek_bind_cons hat]
  cases hkind : token.kind with
  | identifier => exact absurd hkind hidentifier
  | number => exact absurd hkind hnumber
  | stop => exact absurd hkind (hat.kind_ne_stop h)
  | definition | external | operator | reserved => exact runFrom_unexpected_cons hat .expression

theorem runFrom_identifier_name (h : scan.StopsOnce) (hat : start.At scan (token :: rest))
    (hkind : token.kind = .identifier) (hcall : ∀ opening ∈ rest.head?, ¬ opening.isSymbol "(")
    (calls : Nat) :
    runFrom (identifier scan.tokens grammar (calls + 1)) start =
      some (.ok (.var token.text), start.onward) := by
  have hsymbol : ¬ (Descent.cursor scan.stop rest).isSymbol "(" := by
    cases rest with
    | nil => exact fun hsymbol => kind_ne_stop_of_isSymbol hsymbol h.stop
    | cons opening inner => exact hcall opening rfl
  have hname := runFrom_expectKind_cons h hat .identifier "identifier"
  rw [if_pos hkind] at hname
  rw [identifier, runFrom_bind_ok hname, runFrom_peek_bind hat.onward.place_le,
    hat.onward.tokenAt_eq, if_neg hsymbol, runFrom_pure]

theorem runFrom_identifier_call (h : scan.StopsOnce) {opening : Token} {inner : List Token}
    (hat : start.At scan (token :: opening :: inner)) (hkind : token.kind = .identifier)
    (hcall : opening.isSymbol "(") (calls : Nat) :
    runFrom (identifier scan.tokens grammar (calls + 1)) start =
      runFrom (arguments scan.tokens grammar token.text [] calls) start.onward.onward := by
  have hname := runFrom_expectKind_cons h hat .identifier "identifier"
  rw [if_pos hkind] at hname
  rw [identifier, runFrom_bind_ok hname, runFrom_peek_bind_cons hat.onward, if_pos hcall,
    runFrom_bump_bind h hat.onward.place_lt]

theorem runFrom_arguments_nil (h : scan.StopsOnce) (hat : start.At scan []) (callee : String)
    (latestFirst : List Expr) (calls : Nat) :
    runFrom (arguments scan.tokens grammar callee latestFirst (calls + 2)) start =
      some (.error .incomplete, start) := by
  rw [arguments, argument, bind_assoc, runFrom_bind, runFrom_acceptSymbol_nil h hat]
  rfl

theorem runFrom_arguments_ends (h : scan.StopsOnce) (hat : start.At scan (token :: rest))
    (hclosing : token.isSymbol ")") (callee : String) (latestFirst : List Expr) (calls : Nat) :
    runFrom (arguments scan.tokens grammar callee latestFirst (calls + 2)) start =
      some (.ok (.call callee latestFirst.reverse), start.onward) := by
  have hrun := runFrom_acceptSymbol_cons h hat ")"
  rw [if_pos hclosing] at hrun
  rw [arguments, argument, bind_assoc, runFrom_bind_ok hrun]
  rfl

theorem runFrom_arguments_takes (h : scan.StopsOnce) (hat : start.At scan (token :: rest))
    (hclosing : ¬ token.isSymbol ")") (callee : String) (latestFirst : List Expr) (calls : Nat) :
    runFrom (arguments scan.tokens grammar callee latestFirst (calls + 2)) start =
      runFrom (expr scan.tokens grammar 0 calls >>= fun e =>
        acceptSymbol scan.tokens "," >>= fun _ =>
          arguments scan.tokens grammar callee (e :: latestFirst) (calls + 1)) start := by
  have hrun := runFrom_acceptSymbol_cons h hat ")"
  rw [if_neg hclosing] at hrun
  rw [arguments, argument, bind_assoc, runFrom_bind_ok hrun]
  simp only [Bool.false_eq_true, if_false, bind_assoc, pure_bind]

theorem follows_number (h : scan.StopsOnce) (hat : start.At scan (token :: rest))
    (hkind : token.kind = .number) :
    Follows grammar scan (fun _ => number scan.tokens) (Descent.number token rest) Parsed.seen
      start := by
  have htoken := runFrom_expectKind_cons h hat .number "number"
  rw [if_pos hkind] at htoken
  rw [Descent.number]
  refine .step (.of_forall fun _ => htoken) rfl ?_
  cases Binary64.ofNumeral token.text with
  | ok value => exact .pure rfl hat.onward
  | error error => cases error <;> exact .halt (.of_forall fun _ => rfl)

end

/-! ### What descents make of the rest

The proofs recurse as the descent does. What is left is counted from the cursor, as the list itself
is taken apart on the way. -/

mutual

theorem follows_expr (h : scan.StopsOnce) (floor : Nat) (rest : List Token) (start : Trail)
    (hat : start.At scan rest) :
    Follows grammar scan (expr scan.tokens grammar floor)
      (Descent.expr grammar.operators scan.stop floor rest) (·.seen) start := by
  rw [Descent.expr]
  refine .enclosed hat (.call ?_ (climb.eq_2 scan.tokens grammar floor))
  refine (follows_primary h rest start.deeper hat.deeper).bind fun left next hnext _ => ?_
  exact (follows_operations h floor left.value left.rest next hnext).restate fun _ => rfl
termination_by 4 * (scan.words.length - start.now.place) + 2
decreasing_by
  · exact Nat.lt_succ_self _
  · have := hat.length_eq
    have : left.rest.length = _ := hnext.length_eq
    have := left.shorter
    omega

theorem follows_primary (h : scan.StopsOnce) (rest : List Token) (start : Trail)
    (hat : start.At scan rest) :
    Follows grammar scan (primary scan.tokens grammar)
      (Descent.primary grammar.operators scan.stop rest) Parsed.seen start := by
  cases rest with
  | nil =>
      rw [Descent.primary]
      exact .halt (.of_add 1 (runFrom_primary_nil h hat))
  | cons token rest =>
      rw [Descent.primary.eq_def]
      by_cases hgroup : token.isSymbol "("
      · simp only [if_pos hgroup]
        refine .of_runFrom 2 ?_ (runFrom_primary_group h hat hgroup) rfl
        refine (follows_expr h 0 rest start.onward hat.onward).bind fun e next hat _ => ?_
        exact (follows_expectSymbol h hat ")").bind fun closing next hat _ => .pure rfl hat
      · simp only [if_neg hgroup]
        by_cases hidentifier : token.kind = .identifier
        · simp only [if_pos hidentifier]
          refine .of_runFrom 1 ?_ (runFrom_primary_identifier hat hgroup hidentifier) rfl
          cases rest with
          | nil =>
              exact .ok (.of_add 1 (runFrom_identifier_name h hat hidentifier nofun)) hat.onward rfl
          | cons opening inner =>
              by_cases hcall : opening.isSymbol "("
              · simp only [if_pos hcall]
                refine .of_runFrom 1 ?_ (runFrom_identifier_call h hat hidentifier hcall) rfl
                exact (follows_arguments h token.text [] inner start.onward.onward
                  hat.onward.onward).restate fun _ => rfl
              · simp only [if_neg hcall]
                have hfirst : ∀ first ∈ (opening :: inner).head?, ¬ first.isSymbol "(" := by
                  simpa using hcall
                refine .ok (.of_add 1 ?_) hat.onward rfl
                exact runFrom_identifier_name h hat hidentifier hfirst
        · simp only [if_neg hidentifier]
          by_cases hnumber : token.kind = .number
          · simp only [if_pos hnumber]
            exact .of_runFrom 1 (follows_number h hat hnumber)
              (runFrom_primary_number hat hgroup hnumber) rfl
          · simp only [if_neg hnumber]
            exact .halt (.of_add 1
              (runFrom_primary_unexpected h hat hgroup hidentifier hnumber))
termination_by 4 * (scan.words.length - start.now.place) + 1
decreasing_by all_goals
  have := hat.place_lt
  simp only [Trail.onward_now]
  omega

theorem follows_operations (h : scan.StopsOnce) (floor : Nat) (left : Expr) (rest : List Token)
    (start : Trail) (hat : start.At scan rest) :
    Follows grammar scan (operations scan.tokens grammar floor left)
      (Descent.climb grammar.operators scan.stop floor left rest) (·.seen) start := by
  cases rest with
  | nil =>
      rw [Descent.climb]
      exact .ok (.of_add 2 (runFrom_operations_ends h hat (by simp [Descent.Ends]))) hat rfl
  | cons token rest =>
      rw [Descent.climb.eq_def]
      by_cases hkind : token.kind = .operator
      · simp only [dif_pos hkind]
        split
        · next hop =>
            exact .halt (.of_add 2 (runFrom_operations_unknown hat hkind hop))
        · next op hop =>
            by_cases hfloor : op.precedence < floor
            · rw [dif_pos hfloor]
              have hends : Descent.Ends grammar.operators floor (token :: rest) := by
                simp [Descent.Ends, hop, hfloor]
              exact .ok (.of_add 2 (runFrom_operations_ends h hat hends)) hat rfl
            · rw [dif_neg hfloor]
              refine .of_runFrom 2 ?_ (runFrom_operations_takes h hat hkind hop hfloor) rfl
              refine (follows_expr h op.rightFloor rest start.onward hat.onward).bind
                fun right next hnext _ => ?_
              exact ((follows_operations h floor (.binary op.symbol left right.value) right.rest
                next hnext).shift 1).restate fun _ => rfl
      · simp only [dif_neg hkind]
        have hends : Descent.Ends grammar.operators floor (token :: rest) := by
          simp [Descent.Ends, hkind]
        exact .ok (.of_add 2 (runFrom_operations_ends h hat hends)) hat rfl
termination_by 4 * (scan.words.length - start.now.place)
decreasing_by
  · have := hat.place_lt
    simp only [Trail.onward_now]
    omega
  · have := hat.onward.length_eq
    have : right.rest.length = _ := hnext.length_eq
    have := right.shorter
    have := hat.place_lt
    simp only [Trail.onward_now] at *
    omega

theorem follows_arguments (h : scan.StopsOnce) (callee : String) (latestFirst : List Expr)
    (rest : List Token) (start : Trail) (hat : start.At scan rest) :
    Follows grammar scan (arguments scan.tokens grammar callee latestFirst)
      (Descent.arguments grammar.operators scan.stop callee latestFirst rest) Parsed.seen
      start := by
  cases rest with
  | nil =>
      rw [Descent.arguments]
      exact .halt (.of_add 2 (runFrom_arguments_nil h hat callee latestFirst))
  | cons token rest =>
      rw [Descent.arguments]
      by_cases hclosing : token.isSymbol ")"
      · rw [if_pos hclosing]
        refine .ok (.of_add 2 ?_) hat.onward rfl
        exact runFrom_arguments_ends h hat hclosing callee latestFirst
      · rw [if_neg hclosing]
        refine .of_runFrom 2 ?_ (runFrom_arguments_takes h hat hclosing callee latestFirst) rfl
        refine (follows_expr h 0 (token :: rest) start hat).bind fun e _ hnext _ => ?_
        refine (follows_acceptSymbol h hnext ",").bind fun comma next hnext _ => ?_
        exact ((follows_arguments h callee (e.value :: latestFirst) comma.rest next
          hnext).shift 1).restate fun _ => rfl
termination_by 4 * (scan.words.length - start.now.place) + 3
decreasing_by
  · omega
  · have := hat.length_eq
    have : comma.rest.length = _ := hnext.length_eq
    have := e.shorter
    have : comma.rest.length < e.rest.length + 1 := comma.shorter
    omega

end

/-! ## Declarations -/

section

variable {token : Token} {rest : List Token} {start : Trail}

theorem runFrom_parameters_nil (h : scan.StopsOnce) (hat : start.At scan [])
    (latestFirst : List String) (calls : Nat) :
    runFrom (parameters scan.tokens latestFirst (calls + 1)) start =
      some (.error .incomplete, start) := by
  rw [parameters, parameter, bind_assoc, runFrom_bind, runFrom_acceptKind_nil h hat]
  rfl

theorem runFrom_parameters_ends (h : scan.StopsOnce) (hat : start.At scan (token :: rest))
    (hkind : token.kind ≠ .identifier) (latestFirst : List String) (calls : Nat) :
    runFrom (parameters scan.tokens latestFirst (calls + 1)) start =
      some (.ok latestFirst.reverse, start) := by
  have hname := runFrom_acceptKind_cons h hat .identifier
  rw [if_neg hkind] at hname
  rw [parameters, parameter, bind_assoc, runFrom_bind_ok hname]
  rfl

theorem runFrom_parameters_takes (h : scan.StopsOnce) (hat : start.At scan (token :: rest))
    (hkind : token.kind = .identifier) (latestFirst : List String) {α : Type}
    (f : List String → Routine α) (calls : Nat) :
    runFrom (parameters scan.tokens latestFirst (calls + 1) >>= f) start =
      runFrom (acceptSymbol scan.tokens "," >>= fun _ =>
        parameters scan.tokens (token.text :: latestFirst) calls >>= f) start.onward := by
  have hname := runFrom_acceptKind_cons h hat .identifier
  rw [if_pos hkind] at hname
  rw [parameters, parameter, bind_assoc, bind_assoc, runFrom_bind_ok hname]
  simp only [bind_assoc, pure_bind]

end

/-- The end of a prototype counts to its parameters in a descent. -/
theorem follows_parameters (h : scan.StopsOnce) (name : String) (latestFirst : List String)
    (rest : List Token) (start : Trail) (hat : start.At scan rest) :
    Follows grammar scan
      (fun calls => parameters scan.tokens latestFirst calls >>= fun parameters =>
        expectSymbol scan.tokens ")" >>= fun _ => pure ⟨name, parameters⟩)
      (Descent.parameters name latestFirst rest) Parsed.seen start := by
  cases rest with
  | nil =>
      rw [Descent.parameters]
      exact .halt_bind (.of_add 1 (runFrom_parameters_nil h hat latestFirst))
  | cons token rest =>
      rw [Descent.parameters]
      by_cases hkind : token.kind = .identifier
      · rw [if_pos hkind]
        refine .of_runFrom 1 ?_ (runFrom_parameters_takes h hat hkind latestFirst _) rfl
        refine (follows_acceptSymbol h hat.onward ",").bind fun comma next hnext _ => ?_
        exact (follows_parameters h name (token.text :: latestFirst) comma.rest next hnext).restate
          fun _ => rfl
      · rw [if_neg hkind]
        refine .step (.of_add 1 (runFrom_parameters_ends h hat hkind latestFirst)) rfl ?_
        have hclosing := runFrom_expectSymbol_cons h hat ")"
        by_cases hsymbol : token.isSymbol ")"
        · rw [if_pos hsymbol] at hclosing ⊢
          exact .step (.of_forall fun _ => hclosing) rfl (.pure rfl hat.onward)
        · rw [if_neg hsymbol] at hclosing ⊢
          exact .halt_bind (.of_forall fun _ => hclosing)
termination_by scan.words.length - start.now.place
decreasing_by
  have := hat.place_lt
  have := hat.onward.length_eq
  have : comma.rest.length = _ := hnext.length_eq
  have := comma.shorter
  simp only [Trail.onward_now] at *
  omega

theorem follows_prototype (h : scan.StopsOnce) {rest : List Token} {start : Trail}
    (hat : start.At scan rest) :
    Follows grammar scan (prototype scan.tokens) (Descent.prototype rest) Parsed.seen start := by
  cases rest with
  | nil =>
      have hname := runFrom_expectKind_nil h hat .identifier "function name"
      exact .halt_bind (.of_forall fun _ => hname)
  | cons token rest =>
      have hname := runFrom_expectKind_cons h hat .identifier "function name"
      rw [Descent.prototype]
      by_cases hkind : token.kind = .identifier
      · rw [if_pos hkind] at hname ⊢
        refine .step (.of_forall fun _ => hname) rfl ?_
        refine (follows_expectSymbol h hat.onward "(").bind fun opening next hnext _ => ?_
        exact (follows_parameters h token.text [] opening.rest next hnext).restate fun _ => rfl
      · rw [if_neg hkind] at hname ⊢
        exact .halt_bind (.of_forall fun _ => hname)

theorem follows_definition (h : scan.StopsOnce) {rest : List Token} {start : Trail}
    (hat : start.At scan rest) :
    Follows grammar scan (definition scan.tokens grammar)
      (Descent.definition grammar.operators scan.stop rest) Parsed.seen start := by
  rw [Descent.definition]
  refine (follows_prototype h hat).bind fun head _ hat _ => ?_
  refine (follows_expectSymbol h hat "\x7b").bind fun opening next hat _ => ?_
  refine (follows_expr h 0 opening.rest next hat).bind fun body _ hat _ => ?_
  exact (follows_expectSymbol h hat "\x7d").bind fun closing _ hat _ => .pure rfl hat

theorem follows_statement (h : scan.StopsOnce) {rest : List Token} {start : Trail}
    (hat : start.At scan rest) :
    Follows grammar scan (statement scan.tokens grammar)
      (Descent.statement grammar.operators scan.stop rest) Parsed.seen start := by
  cases rest with
  | nil =>
      have hdefinition := runFrom_acceptKind_nil h hat .definition
      exact .halt_bind (.of_forall fun _ => hdefinition)
  | cons token rest =>
      have hdefinition := runFrom_acceptKind_cons h hat .definition
      have hexternal := runFrom_acceptKind_cons h hat .external
      rw [Descent.statement]
      cases hkind : token.kind with
      | definition =>
          rw [if_pos hkind] at hdefinition
          refine .step (.of_forall fun _ => hdefinition) rfl ?_
          exact (follows_definition h hat.onward).restate fun _ => rfl
      | external =>
          rw [if_neg (by simp [hkind])] at hdefinition
          rw [if_pos hkind] at hexternal
          refine .step (.of_forall fun _ => hdefinition) rfl
            (.step (.of_forall fun _ => hexternal) rfl ?_)
          exact (follows_prototype h hat.onward).bind fun head _ hat _ => .pure rfl hat
      | identifier | operator | reserved | number | stop =>
          rw [if_neg (by simp [hkind])] at hdefinition hexternal
          refine .step (.of_forall fun _ => hdefinition) rfl
            (.step (.of_forall fun _ => hexternal) rfl ?_)
          exact (follows_expr h 0 (token :: rest) start hat).bind fun body _ hat _ => .pure rfl hat

/-- A program is read as it is read token by token. -/
theorem program_eq_outcomeFrom (h : scan.StopsOnce) (latestFirst : List Declaration)
    (rest : List Token) (start : Trail) (hat : start.At scan rest) (hdepth : start.now.depth = 0) :
    Finishes (program scan.tokens grammar latestFirst) start fun result _ =>
      result = (grammar.outcomeFrom scan.stop latestFirst .ready rest).result := by
  cases rest with
  | nil =>
      refine ⟨.ok latestFirst.reverse, start, .of_add 1 fun calls => ?_, rfl⟩
      rw [program, declaration, bind_assoc, runFrom_atEnd_bind h hat.place_le,
        if_pos (decide_eq_true hat.length_le), pure_bind, runFrom_pure]
  | cons token rest =>
      have hstatement : ∀ calls,
          runFrom (program scan.tokens grammar latestFirst (calls + 1)) start =
            runFrom (statement scan.tokens grammar calls >>= fun declaration =>
              program scan.tokens grammar (declaration :: latestFirst) calls) start := by
        intro calls
        rw [program, declaration, bind_assoc, runFrom_atEnd_bind h hat.place_le,
          if_neg (by simpa using hat.place_lt), bind_assoc]
        simp only [pure_bind]
      rw [Grammar.outcomeFrom_declaration, ← hdepth, Grammar.result_follow]
      refine .of_runFrom 1 ((follows_statement h hat).finishes ?_ ?_) hstatement
      · intro reason last hresult
        rw [hresult]
        rfl
      · intro declaration next hresult hnext hdepth'
        rw [hresult]
        exact program_eq_outcomeFrom h (declaration.value :: latestFirst) declaration.rest next
          hnext (hdepth'.trans hdepth)
termination_by scan.words.length - start.now.place
decreasing_by
  have := hat.length_eq
  have : declaration.rest.length = _ := hnext.length_eq
  have := declaration.shorter
  omega

/-! ## The whole discipline -/

/-- Every routine has an end wherever it begins. If it comes to something, it has passed over a
token, and so has a turn of a loop that goes on. -/
structure Disciplined (grammar : Grammar) (scan : Scan) : Prop where
  statement : Advances grammar scan (fun _ => 1) (statement scan.tokens grammar)
  definition : Advances grammar scan (fun _ => 1) (definition scan.tokens grammar)
  prototype : Advances grammar scan (fun _ => 1) (prototype scan.tokens)
  expr : ∀ floor, Advances grammar scan (fun _ => 1) (expr scan.tokens grammar floor)
  climb : ∀ floor, Advances grammar scan (fun _ => 1) (climb scan.tokens grammar floor)
  primary : Advances grammar scan (fun _ => 1) (primary scan.tokens grammar)
  identifier : Advances grammar scan (fun _ => 1) (identifier scan.tokens grammar)
  number : Advances grammar scan (fun _ => 1) fun _ => number scan.tokens
  nested : Advances grammar scan (fun _ => 1) (nested scan.tokens grammar)
  declaration : ∀ latestFirst,
    Advances grammar scan (·.isSome.toNat) (declaration scan.tokens grammar latestFirst)
  parameter : ∀ latestFirst,
    Advances grammar scan (·.isSome.toNat) fun _ => parameter scan.tokens latestFirst
  argument : ∀ latestFirst,
    Advances grammar scan (·.isSome.toNat) (argument scan.tokens grammar latestFirst)
  operation : ∀ floor left,
    Advances grammar scan (·.isSome.toNat) (operation scan.tokens grammar floor left)
  program : Finishes (program scan.tokens grammar []) {} fun result last =>
    result = (grammar.parseScan scan).result ∧ result ≠ .error .outside ∧
      ∀ cursor ∈ last.history, cursor.Sound grammar scan

theorem disciplined (grammar : Grammar) (h : scan.StopsOnce) : Disciplined grammar scan where
  statement _ hsound := proceeds_statement h hsound
  definition _ hsound := proceeds_definition h hsound
  prototype _ hsound := proceeds_prototype h hsound
  expr floor start hsound := proceeds_expr h floor start hsound
  climb floor start hsound := proceeds_climb h floor start hsound
  primary start hsound := proceeds_primary h start hsound
  identifier start hsound := proceeds_identifier h start hsound
  number _ hsound := proceeds_number h hsound
  nested start hsound := proceeds_nested h start hsound
  declaration latestFirst _ hsound := proceeds_declaration h latestFirst hsound
  parameter latestFirst _ hsound := proceeds_parameter h latestFirst hsound
  argument latestFirst start hsound := proceeds_argument h latestFirst start hsound
  operation floor left start hsound := proceeds_operation h floor left start hsound
  program := by
    have hsound : Cursor.Sound grammar scan {} := ⟨Nat.zero_le _, Grammar.allows_zero⟩
    refine ((program_eq_outcomeFrom h [] scan.words {} ⟨Nat.zero_le _, rfl⟩ rfl).and
      (proceeds_program h [] {} hsound)).mono ?_
    rintro result last ⟨hresult, hleads, hinside, -⟩
    refine ⟨hresult, hinside, ?_⟩
    obtain ⟨passed, hpassed, hall⟩ := hleads.passed
    rw [hpassed]
    intro cursor hcursor
    rcases List.mem_append.mp hcursor with hcursor | hcursor
    · exact (hall cursor hcursor).1
    · rwa [List.mem_singleton.mp hcursor]

end Routine

theorem Scan.stopsOnce_of_scan {text : String} {scanned : Scan} (h : scan text = .ok scanned) :
    scanned.StopsOnce where
  stop := congrArg Lexeme.kind (lexeme_stop_of_scan h)
  words := kind_ne_stop_of_scan h

open Routine in
/-- On all tokens that end with their only stop, the parser is `Disciplined` and has at most 256
expressions open. The tokens of every text end so, and the parser comes to what becomes of the
text. -/
theorem cursor_discipline (table : OperatorTable) :
    let grammar : Grammar := { operators := table }
    (∀ scanned : Scan, scanned.StopsOnce → Disciplined grammar scanned ∧
      ∀ floor, ∀ start : Trail, start.now.Sound grammar scanned →
        (start.now.depth < 256 → Finishes (expr scanned.tokens grammar floor) start fun _ last =>
          ∃ inside, inside ≠ [] ∧ last.history = last.now :: inside ++ start.history ∧
            ∀ cursor ∈ inside, 1 ≤ cursor.depth ∧ cursor.depth ≤ 256) ∧
        (start.now.depth = 256 → ComesTo (expr scanned.tokens grammar floor) start
          (.error (.error (.tooDeep (scanned.tokenAt start.now.place)))) start)) ∧
    ∀ text scanned, scan text = .ok scanned → scanned.StopsOnce ∧
      Finishes (program scanned.tokens grammar []) {} fun result _ =>
        result = (grammar.parse text).result := by
  intro grammar
  refine ⟨fun scanned h => ⟨disciplined grammar h, fun floor start hsound => ⟨fun hdepth => ?_,
    fun hdepth => ?_⟩⟩, fun text scanned hscan => ?_⟩
  · have hfull : ¬ grammar.full start.now.depth := by simpa [grammar, Grammar.full] using hdepth
    refine (expr_inside h floor hsound hfull).mono ?_
    rintro result last ⟨inside, hne, hhistory, hall⟩
    refine ⟨inside, hne, hhistory, fun cursor hcursor => ⟨?_, ?_⟩⟩
    · exact Nat.one_le_of_lt (hall cursor hcursor).2
    · exact (hall cursor hcursor).1.allows 256 rfl
  · have hfull : grammar.full start.now.depth := by simp [grammar, Grammar.full, hdepth]
    refine .of_add 1 fun calls => ?_
    rw [runFrom_expr, if_pos hfull, runFrom_peek_bind hsound.place_le, runFrom_throw]
  · have h := Scan.stopsOnce_of_scan hscan
    refine ⟨h, (disciplined grammar h).program.mono ?_⟩
    rintro result last ⟨hresult, -⟩
    rw [hresult, Grammar.parse, hscan]

open Routine in
/-- A call with a group in it, and that group with 256 expressions open in front of it. -/
theorem cursor_discipline_call :
    let scanned : Scan := ⟨[⟨.identifier, "f", ⟨1, 1⟩⟩, ⟨.reserved, "(", ⟨1, 2⟩⟩,
      ⟨.identifier, "x", ⟨1, 3⟩⟩, ⟨.reserved, ",", ⟨1, 4⟩⟩, ⟨.reserved, "(", ⟨1, 6⟩⟩,
      ⟨.identifier, "y", ⟨1, 7⟩⟩, ⟨.reserved, ")", ⟨1, 8⟩⟩, ⟨.reserved, ")", ⟨1, 9⟩⟩,
      ⟨.operator, "-", ⟨1, 11⟩⟩, ⟨.identifier, "z", ⟨1, 13⟩⟩], ⟨.stop, "", ⟨1, 14⟩⟩⟩
    let deepest : Trail := { now := ⟨4, 256⟩ }
    (scanned.StopsOnce ∧ deepest.now.Sound {} scanned ∧ scan "f(x, (y)) - z" = .ok scanned) ∧
      (Disciplined {} scanned ∧ ComesTo (expr scanned.tokens {} 0) deepest
        (.error (.error (.tooDeep ⟨.reserved, "(", ⟨1, 6⟩⟩))) deepest) ∧
      Finishes (program scanned.tokens {} []) {} fun result _ => result =
        .ok [.definition .anonymous (.binary "-" (.call "f" [.var "x", .var "y"]) (.var "z"))] := by
  intro scanned deepest
  have hstops : scanned.StopsOnce := ⟨rfl, by decide⟩
  have hsound : deepest.now.Sound {} scanned := ⟨by decide, by simp [Grammar.Allows, deepest]⟩
  have hscan : scan "f(x, (y)) - z" = .ok scanned := by rfl
  obtain ⟨hdiscipline, hprogram⟩ := cursor_discipline .standard
  obtain ⟨hdisciplined, hexpr⟩ := hdiscipline scanned hstops
  exact ⟨⟨hstops, hsound, hscan⟩, ⟨hdisciplined, (hexpr 0 deepest hsound).2 rfl⟩,
    (hprogram _ scanned hscan).2⟩

end Fixity
