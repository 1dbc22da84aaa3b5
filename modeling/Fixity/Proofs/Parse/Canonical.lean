import Fixity.Proofs.Reading.Canonical

/-! # Canonical source is parsed as its program

Canonical source is parsed as its program, whatever the precedences of its operators are. -/

namespace Fixity

namespace Grammar

variable {grammar : Grammar}

/-! ## Prototypes -/

/-- What the end of a prototype comes to. -/
def headEnd (prototype : Prototype) : HeadKind → Advance
  | .external => { completed := some (.external prototype), reading := .ready }
  | .definition => { reading := .bodyStart prototype }

theorem readParameter_closing {token : Token} (h : token.isSymbol ")") (head : HeadKind)
    (name : String) (latestFirst : List String) :
    readParameter head name latestFirst token = .ok (headEnd ⟨name, latestFirst.reverse⟩ head) := by
  have hkind : token.kind ≠ .identifier := by simp [(Token.isSymbol_iff.mp h).1]
  rw [readParameter, if_neg hkind, if_pos h]
  cases head <;> rfl

theorem readParameter_name {token : Token} {parameter : String}
    (h : token.lexeme = ⟨.identifier, parameter⟩) (head : HeadKind) (name : String)
    (latestFirst : List String) :
    readParameter head name latestFirst token =
      .ok { reading := .afterParameter head name (parameter :: latestFirst) } := by
  rw [readParameter, if_pos (Token.kind_of_lexeme h), Token.text_of_lexeme h]

theorem takes_parameters (head : HeadKind) (name : String) (latestFirst parameters : List String) :
    grammar.Takes 0 (.parameter head name latestFirst)
      (commaSeparated (parameters.map fun parameter => [⟨.identifier, parameter⟩]) ++ [.symbol ')'])
      (headEnd ⟨name, latestFirst.reverse ++ parameters⟩ head).completed.toList
      (headEnd ⟨name, latestFirst.reverse ++ parameters⟩ head).reading := by
  induction parameters generalizing latestFirst with
  | nil =>
      rw [List.append_nil]
      exact .step _ fun token htoken =>
        readParameter_closing (Token.isSymbol_of_lexeme htoken) _ _ _
  | cons parameter parameters ih =>
      have hname : grammar.Takes 0 (.parameter head name latestFirst) [⟨.identifier, parameter⟩] []
          (.afterParameter head name (parameter :: latestFirst)) :=
        .step { reading := .afterParameter head name (parameter :: latestFirst) }
          fun token htoken => readParameter_name htoken head name latestFirst
      have hsplit : latestFirst.reverse ++ parameter :: parameters =
          (parameter :: latestFirst).reverse ++ parameters := by simp
      rw [hsplit]
      cases parameters with
      | nil =>
          rw [List.append_nil]
          refine hname.append (.step _ ?_)
          intro token htoken
          have hsymbol : token.isSymbol ")" := Token.isSymbol_of_lexeme htoken
          rw [read, if_neg (Token.not_isSymbol_of_isSymbol hsymbol (by decide))]
          exact readParameter_closing hsymbol _ _ _
      | cons second others =>
          have hcomma : grammar.Takes 0 (.afterParameter head name (parameter :: latestFirst))
              [.symbol ','] [] (.parameter head name (parameter :: latestFirst)) :=
            .step { reading := .parameter head name (parameter :: latestFirst) }
              fun token htoken => by rw [read, if_pos (Token.isSymbol_of_lexeme htoken)]
          have hall := hname.append (hcomma.append (ih (parameter :: latestFirst)))
          exact hall.of_eq rfl (by simp [commaSeparated])

theorem takes_prototype (head : HeadKind) (prototype : Prototype) :
    grammar.Takes 0 (.functionName head) prototype.lexemes
      (headEnd prototype head).completed.toList (headEnd prototype head).reading := by
  have hname : grammar.Takes 0 (.functionName head) [⟨.identifier, prototype.name⟩] []
      (.parameterList head prototype.name) :=
    .step { reading := .parameterList head prototype.name } fun token htoken => by
      rw [read, if_pos (Token.kind_of_lexeme htoken), Token.text_of_lexeme htoken]
  have hopening : grammar.Takes 0 (.parameterList head prototype.name) [.symbol '('] []
      (.parameter head prototype.name []) :=
    .step { reading := .parameter head prototype.name [] } fun token htoken => by
      rw [read, if_pos (Token.isSymbol_of_lexeme htoken)]
  have hall := hname.append (hopening.append
    (takes_parameters head prototype.name [] prototype.parameters))
  exact hall.of_eq rfl (by simp [Prototype.lexemes])

/-! ## Declarations -/

/-- The reading stands behind declarations, the last of which may not have been completed yet. -/
inductive Behind : Reading → List Declaration → Prop
  | ready : Behind .ready []
  | expression (e) : Behind (.afterOperand e .statement) [.definition .anonymous e]

theorem Behind.finish {reading : Reading} {pending : List Declaration} (h : Behind reading pending)
    (latestFirst : List Declaration) (stop : Token) :
    grammar.finish ⟨latestFirst, reading⟩ stop = .parsed (latestFirst.reverse ++ pending) := by
  cases h with
  | ready => rw [List.append_nil]; rfl
  | expression e => rw [← List.reverse_cons]; rfl

/-- A word that opens a declaration completes what stands in front of it. -/
theorem Behind.takes_word {reading : Reading} {pending : List Declaration}
    (h : Behind reading pending) (head : HeadKind) (word : String) :
    grammar.Takes 0 reading [⟨head.wordKind, word⟩] pending (.functionName head) := by
  have hstart : ∀ token : Token, token.lexeme = ⟨head.wordKind, word⟩ →
      grammar.readStart token = .ok (.functionName head) ∧ token.kind ≠ .operator := by
    intro token htoken
    have hkind := Token.kind_of_lexeme htoken
    cases head <;> simp [readStart, hkind, HeadKind.wordKind]
  cases h with
  | ready =>
      refine .step { reading := .functionName head } ?_
      intro token htoken
      rw [read, (hstart token htoken).1]
      rfl
  | expression e =>
      refine .step ⟨some (.definition .anonymous e), .functionName head⟩ ?_
      intro token htoken
      rw [read, readAfterOperand, if_neg (hstart token htoken).2, readAfterExpr,
        (hstart token htoken).1]
      rfl

theorem Behind.takes_statement {reading next : Reading} {pending : List Declaration} {depth : Nat}
    {lexemes : List Lexeme} (h : Behind reading pending)
    (hbegins : ∃ first rest, lexemes = first :: rest ∧ first.BeginsOperand)
    (hstatement : grammar.Takes depth (.operand .statement) lexemes [] next) :
    grammar.Takes depth reading lexemes pending next := by
  cases h with
  | ready =>
      have hopening : Reading.ready.opening? = some ⟨none, .statement⟩ := rfl
      exact hstatement.of_opening? hbegins hopening (by simp)
  | expression e =>
      have hopening : (Reading.afterOperand e .statement).opening? =
          some ⟨some (.definition .anonymous e), .statement⟩ := rfl
      exact hstatement.of_opening? hbegins hopening (by simp)

theorem takes_statementLexemes (e : Expr) (h : e.WellFormed)
    (hknown : ∀ symbol ∈ e.symbols, (grammar.operators.get? symbol).isSome) :
    grammar.Takes e.statementCost (.operand .statement) e.statementLexemes []
      (.afterOperand e .statement) := by
  cases e with
  | var name =>
      have hclosing : grammar.Takes 0 (.afterName name (.group .statement)) [.symbol ')'] []
          (.afterOperand (.var name) .statement) :=
        takes_closing_of_group (.var name) (.group .statement) rfl
      exact (takes_opening .statement).append
        ((takes_name name (.group .statement)).append hclosing)
  | literal value => exact (takes_expr _ h hknown .statement).of_eq (Nat.zero_add _) rfl
  | binary symbol left right => exact (takes_expr _ h hknown .statement).of_eq (Nat.zero_add _) rfl
  | call callee arguments => exact (takes_expr _ h hknown .statement).of_eq (Nat.zero_add _) rfl

theorem Behind.takes_declaration {reading : Reading} {pending : List Declaration}
    (h : Behind reading pending) {declaration : Declaration} (hformed : declaration.WellFormed)
    (hknown : ∀ symbol ∈ declaration.symbols, (grammar.operators.get? symbol).isSome) :
    ∃ completed next pending', Behind next pending' ∧
      completed ++ pending' = pending ++ [declaration] ∧
      grammar.Takes declaration.cost reading declaration.lexemes completed next := by
  cases hformed with
  | @external prototype _ =>
      have hword : grammar.Takes 0 reading [⟨.external, "extern"⟩] pending
          (.functionName .external) := h.takes_word .external "extern"
      have hall := hword.append (takes_prototype .external prototype)
      exact ⟨_, _, [], .ready, List.append_nil _, hall⟩
  | @definition prototype body hprototype hbody =>
      have hword : grammar.Takes 0 reading [⟨.definition, "defn"⟩] pending
          (.functionName .definition) := h.takes_word .definition "defn"
      have hopening : grammar.Takes 0 (.bodyStart prototype) [.symbol '\x7b'] []
          (.operand (.body prototype)) :=
        .step { reading := .operand (.body prototype) } fun token htoken => by
          rw [read, if_pos (Token.isSymbol_of_lexeme htoken)]
      have hexpr := takes_expr body hbody hknown (.body prototype)
      have hclosing : grammar.Takes 0 (.behind body (.body prototype)) [.symbol '\x7d']
          [.definition prototype body] .ready :=
        .step ⟨some (.definition prototype body), .ready⟩ fun token htoken => by
          have hsymbol : token.isSymbol "\x7d" := Token.isSymbol_of_lexeme htoken
          rw [read_behind_of_isSymbol hsymbol (by decide), readAfterExpr, if_pos hsymbol]
      have hall := hword.append ((takes_prototype .definition prototype).append
        (hopening.append (hexpr.append hclosing)))
      have hnamed := isAnonymous_of_wellFormed hprototype
      refine ⟨_, _, [], .ready, List.append_nil _, hall.of_eq ?_ ?_⟩
      · simp [Declaration.cost, hnamed, Surroundings.depth]
      · simp [Declaration.lexemes, hnamed]
  | @expression body hbody =>
      have hanonymous : Prototype.anonymous.isAnonymous = true := by decide
      have hall := h.takes_statement body.exists_statementLexemes_eq_cons
        (takes_statementLexemes body hbody hknown)
      refine ⟨_, _, _, .expression body, rfl, hall.of_eq ?_ ?_⟩
      · simp [Declaration.cost, hanonymous]
      · simp [Declaration.lexemes, hanonymous]

/-- The lexemes of a program complete it but for a last bare expression. -/
theorem Behind.takes_program {reading : Reading} {pending : List Declaration}
    (h : Behind reading pending) {program : Program} (hformed : program.WellFormed)
    (hknown : ∀ symbol ∈ program.symbols, (grammar.operators.get? symbol).isSome) :
    ∃ completed next pending', Behind next pending' ∧
      completed ++ pending' = pending ++ program ∧
      grammar.Takes program.cost reading program.lexemes completed next := by
  induction program generalizing reading pending with
  | nil => exact ⟨[], reading, pending, h, by simp, .nil reading⟩
  | cons declaration rest ih =>
      obtain ⟨completed, next, pending', hnext, heq, htakes⟩ :=
        h.takes_declaration (hformed declaration (by simp))
          fun symbol hsymbol => hknown symbol (by simp [Program.symbols, hsymbol])
      obtain ⟨more, last, pending'', hlast, hrest, htakesRest⟩ :=
        ih hnext (fun other hother => hformed other (by simp [hother]))
          fun symbol hsymbol => hknown symbol (by
            rw [Program.symbols, List.flatMap_cons]
            exact List.mem_append_right _ hsymbol)
      refine ⟨completed ++ more, last, pending'', hlast, ?_, htakes.append htakesRest⟩
      rw [List.append_assoc, hrest, ← List.append_assoc, heq, List.append_assoc]
      rfl

/-- Canonical source is parsed as its program if its cost is allowed, and is too deep otherwise. -/
theorem parse_source (grammar : Grammar) {program : Program} (hformed : program.WellFormed)
    (hknown : ∀ symbol ∈ program.symbols, (grammar.operators.get? symbol).isSome) :
    (grammar.Allows program.cost → grammar.parse program.source = .parsed program) ∧
      (¬ grammar.Allows program.cost →
        ∃ token, grammar.parse program.source = .rejected (.tooDeep token)) := by
  obtain ⟨scanned, hscan, hwords⟩ := Program.scan_source hformed
  obtain ⟨completed, next, pending, hnext, heq, htakes⟩ := Behind.ready.takes_program hformed hknown
  simp only [parse, hscan, parseScan_eq]
  constructor
  · intro hallows
    have hread := htakes.passes hallows scanned.words [] hwords
    rw [List.append_nil] at hread
    rw [show grammar.readAll {} scanned.words = .ok ⟨completed.reverse, next⟩ from hread]
    simp only [hnext.finish, List.reverse_reverse, heq, List.nil_append]
  · intro hdeep
    obtain ⟨token, htoken⟩ := htakes.tooDeep hdeep scanned.words [] hwords
    refine ⟨token, ?_⟩
    rw [show grammar.readAll {} scanned.words = .error (.tooDeep token) from htoken]

end Grammar

/-! ## The round trip -/

/-- The canonical source of a parsed program is parsed as that program by every table that has its
operators, if no body costs more than the limit. It is too deep otherwise. -/
theorem parse_source_of_parse (origin : Grammar) (table : OperatorTable) (text : String)
    (program : Program) (hparse : origin.parse text = .parsed program)
    (hknown : ∀ symbol ∈ program.symbols, (table.get? symbol).isSome) :
    ((∀ body ∈ program.bodies, body.cost ≤ 256) →
        ({ operators := table } : Grammar).parse program.source = .parsed program ∧
          program.agrees program) ∧
      ((∃ body ∈ program.bodies, 256 < body.cost) →
        ∃ token, ({ operators := table } : Grammar).parse program.source =
          .rejected (.tooDeep token)) := by
  have hformed := wellFormed_of_parse hparse
  have hcost : ({ operators := table } : Grammar).Allows program.cost ↔
      ∀ body ∈ program.bodies, body.cost ≤ 256 := by
    rw [← Program.cost_le_iff (by decide)]
    simp [Grammar.Allows]
  obtain ⟨hparsed, hdeep⟩ := Grammar.parse_source { operators := table } hformed hknown
  constructor
  · intro hbodies
    exact ⟨hparsed (hcost.mpr hbodies), Program.agrees_self hformed⟩
  · rintro ⟨body, hbody, hlt⟩
    refine hdeep ?_
    intro hallows
    have hle := hcost.mp hallows body hbody
    omega

/-- A table that groups the operators in another way. -/
theorem parse_source_of_parse_other_table :
    ({} : Grammar).parse "a - b * f(c) d" = .parsed
        [.definition .anonymous
          (.binary "-" (.var "a") (.binary "*" (.var "b") (.call "f" [.var "c"]))),
          .definition .anonymous (.var "d")] ∧
      ({ operators := .ofList [⟨"-", 9, .right⟩, ⟨"*", 1, .left⟩] } : Grammar).parse
          "(a - (b * f(c)))\n(d)\n" = .parsed
        [.definition .anonymous
          (.binary "-" (.var "a") (.binary "*" (.var "b") (.call "f" [.var "c"]))),
          .definition .anonymous (.var "d")] := by
  have hparse : ({} : Grammar).parse "a - b * f(c) d" = .parsed
      [.definition .anonymous
        (.binary "-" (.var "a") (.binary "*" (.var "b") (.call "f" [.var "c"]))),
        .definition .anonymous (.var "d")] := by rfl
  have hround := parse_source_of_parse {} (.ofList [⟨"-", 9, .right⟩, ⟨"*", 1, .left⟩]) _ _ hparse
    (by decide)
  exact ⟨hparse, (hround.1 (by decide)).1⟩

end Fixity
