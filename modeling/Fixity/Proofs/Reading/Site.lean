import Fixity.Proofs.Phrase.Spelling
import Fixity.Proofs.Reading.Opening

/-! # The site of an expression

What may follow an expression depends on the construct that it stands in alone. -/

namespace Fixity

namespace Surroundings

/-- The construct that an expression stands in, without the arguments in front of it. -/
def site : Surroundings → Surroundings
  | operand _ _ outer => outer.site
  | argument callee _ outer => argument callee [] outer
  | surroundings => surroundings

theorem site_base (surroundings : Surroundings) : surroundings.base.site = surroundings.site := by
  induction surroundings with
  | operand _ _ _ ih => exact ih
  | _ => rfl

theorem base_eq_statement {surroundings : Surroundings} (h : surroundings.site = .statement) :
    surroundings.base = .statement := by
  induction surroundings with
  | operand _ _ _ ih => exact ih h
  | statement => rfl
  | _ => cases h

theorem complete?_of_site {surroundings : Surroundings} (h : surroundings.site = .statement)
    (e : Expr) :
    surroundings.complete? e = some (.definition .anonymous (surroundings.whole e)) := by
  rw [complete?_eq, base_eq_statement h]
  rfl

theorem base_eq_body {surroundings : Surroundings} {prototype : Prototype}
    (h : surroundings.site = .body prototype) : surroundings.base = .body prototype := by
  induction surroundings with
  | operand _ _ _ ih => exact ih h
  | body => exact h
  | _ => cases h

theorem base_eq_group {surroundings outer : Surroundings} (h : surroundings.site = .group outer) :
    surroundings.base = .group outer := by
  induction surroundings with
  | operand _ _ _ ih => exact ih h
  | group => exact h
  | _ => cases h

theorem base_eq_argument {surroundings outer : Surroundings} {callee : String}
    (h : surroundings.site = .argument callee [] outer) :
    ∃ latestFirst, surroundings.base = .argument callee latestFirst outer := by
  induction surroundings with
  | operand _ _ _ ih => exact ih h
  | argument callee' latestFirst outer' =>
      cases h
      exact ⟨latestFirst, rfl⟩
  | _ => cases h

end Surroundings

namespace Reading

/-- The reading stands behind an expression at the site. -/
inductive Ends : Reading → Surroundings → Prop
  | afterName (name) {surroundings site} : surroundings.site = site →
      Ends (.afterName name surroundings) site
  | afterOperand (e) {surroundings site} : surroundings.site = site →
      Ends (.afterOperand e surroundings) site

/-- An expression at the site can begin here. -/
def Admits (reading : Reading) (site : Surroundings) : Prop :=
  ∃ opening, reading.opening? = some opening ∧ opening.surroundings.site = site

/-- The reading stands between two statements, at the start and at the end included. -/
inductive BetweenStatements : Reading → Prop
  | ready : BetweenStatements .ready
  | ends {reading} : Ends reading .statement → BetweenStatements reading

inductive BetweenArguments (callee : String) (outer : Surroundings) : Reading → Prop
  | argument (latestFirst) : BetweenArguments callee outer (.argument callee latestFirst outer)
  | ends {reading} : Ends reading (.argument callee [] outer) →
      BetweenArguments callee outer reading

inductive BetweenParameters (head : HeadKind) : Reading → Prop
  | parameter (name latestFirst) : BetweenParameters head (.parameter head name latestFirst)
  | afterParameter (name latestFirst) :
      BetweenParameters head (.afterParameter head name latestFirst)

/-- The reading stands behind a prototype, which completes a declaration or has a body to come. -/
inductive EndsHead : Reading → HeadKind → Prop
  | external : EndsHead .ready .external
  | definition (prototype) : EndsHead (.bodyStart prototype) .definition

theorem admits_operand (surroundings : Surroundings) :
    (operand surroundings).Admits surroundings.site := ⟨⟨none, surroundings⟩, rfl, rfl⟩

theorem admits_argument (callee : String) (latestFirst : List Expr) (outer : Surroundings) :
    (argument callee latestFirst outer).Admits (.argument callee [] outer) :=
  ⟨⟨none, .argument callee latestFirst outer⟩, rfl, rfl⟩

theorem BetweenStatements.admits {reading : Reading} (h : reading.BetweenStatements) :
    reading.Admits .statement := by
  cases h with
  | ready => exact ⟨_, rfl, rfl⟩
  | ends h =>
      cases h with
      | afterName _ hsite | afterOperand _ hsite =>
          have hbase := Surroundings.base_eq_statement hsite
          exact ⟨_, by rw [opening?, Surroundings.opening?, hbase], rfl⟩

theorem BetweenArguments.admits {reading : Reading} {callee : String} {outer : Surroundings}
    (h : reading.BetweenArguments callee outer) : reading.Admits (.argument callee [] outer) := by
  cases h with
  | argument latestFirst => exact admits_argument callee latestFirst outer
  | ends h =>
      cases h with
      | afterName _ hsite | afterOperand _ hsite =>
          obtain ⟨latestFirst, hbase⟩ := Surroundings.base_eq_argument hsite
          exact ⟨_, by rw [opening?, Surroundings.opening?, hbase], rfl⟩

end Reading

namespace Grammar

/-- The tokens lead from one reading to the other. -/
def Passes (grammar : Grammar) (reading : Reading) (tokens : List Token) (reading' : Reading) :
    Prop :=
  ∀ latestFirst, ∃ latestFirst',
    grammar.readAll ⟨latestFirst, reading⟩ tokens = .ok ⟨latestFirst', reading'⟩

variable {grammar : Grammar} {reading next last : Reading}
variable {token : Token} {tokens more : List Token}

theorem Passes.nil (reading : Reading) : grammar.Passes reading [] reading :=
  fun latestFirst => ⟨latestFirst, rfl⟩

theorem Passes.append (h : grammar.Passes reading tokens next)
    (hmore : grammar.Passes next more last) : grammar.Passes reading (tokens ++ more) last := by
  intro latestFirst
  obtain ⟨between, hread⟩ := h latestFirst
  obtain ⟨latestFirst', hmore⟩ := hmore between
  exact ⟨latestFirst', by rw [readAll_append, hread]; exact hmore⟩

theorem Passes.cons {step : Advance} (h : grammar.read reading token = .ok step)
    (hmore : grammar.Passes step.reading tokens last) :
    grammar.Passes reading (token :: tokens) last := by
  intro latestFirst
  obtain ⟨latestFirst', hmore⟩ := hmore (step.completed.toList ++ latestFirst)
  exact ⟨latestFirst', by rw [readAll_cons, advance_of_read h]; exact hmore⟩

theorem Passes.singleton {step : Advance} (h : grammar.read reading token = .ok step) :
    grammar.Passes reading [token] step.reading := .cons h (.nil _)

/-! ## Symbols behind an expression -/

/-- Every token but an opening parenthesis is read alike behind an expression. -/
theorem read_of_ends (grammar : Grammar) {site : Surroundings} (h : reading.Ends site)
    (hopening : ¬ token.isSymbol "(") :
    ∃ e surroundings, surroundings.site = site ∧
      grammar.read reading token = grammar.readAfterOperand e surroundings token := by
  cases h with
  | afterName name hsite => exact ⟨.var name, _, hsite, by rw [read, if_neg hopening]⟩
  | afterOperand e hsite => exact ⟨e, _, hsite, rfl⟩

theorem read_of_ends_isSymbol (grammar : Grammar) {site : Surroundings} {symbol : String}
    (h : reading.Ends site) (htoken : token.isSymbol symbol) (hne : symbol ≠ "(") :
    ∃ e base, base.base = base ∧ base.site = site ∧
      grammar.read reading token = grammar.readAfterExpr token e base := by
  obtain ⟨e, surroundings, hsite, hread⟩ :=
    read_of_ends grammar h (Token.not_isSymbol_of_isSymbol htoken hne)
  have hkind : token.kind ≠ .operator := by simp [(Token.isSymbol_iff.mp htoken).1]
  refine ⟨surroundings.whole e, surroundings.base, surroundings.base_base, ?_, ?_⟩
  · rw [Surroundings.site_base, hsite]
  · rw [hread, readAfterOperand, if_neg hkind, readAfterExpr_eq]

theorem passes_closing_of_group {outer : Surroundings} (h : reading.Ends (.group outer))
    (htoken : token.isSymbol ")") :
    ∃ e, grammar.Passes reading [token] (.afterOperand e outer) := by
  obtain ⟨e, base, hbase, hsite, hread⟩ := read_of_ends_isSymbol grammar h htoken (by decide)
  rw [← hbase, Surroundings.base_eq_group hsite, readAfterExpr, if_pos htoken] at hread
  exact ⟨e, .singleton hread⟩

theorem passes_closing_of_body {prototype : Prototype} (h : reading.Ends (.body prototype))
    (htoken : token.isSymbol "\x7d") : grammar.Passes reading [token] .ready := by
  obtain ⟨e, base, hbase, hsite, hread⟩ := read_of_ends_isSymbol grammar h htoken (by decide)
  rw [← hbase, Surroundings.base_eq_body hsite, readAfterExpr, if_pos htoken] at hread
  exact .singleton hread

theorem passes_closing_of_arguments {callee : String} {outer : Surroundings}
    (h : reading.BetweenArguments callee outer) (htoken : token.isSymbol ")") :
    ∃ e, grammar.Passes reading [token] (.afterOperand e outer) := by
  cases h with
  | argument latestFirst =>
      have hread : grammar.read (.argument callee latestFirst outer) token =
          .ok { reading := .afterOperand (.call callee latestFirst.reverse) outer } := by
        rw [read, readArgument, if_pos htoken]
        rfl
      exact ⟨_, .singleton hread⟩
  | ends h =>
      obtain ⟨e, base, hbase, hsite, hread⟩ := read_of_ends_isSymbol grammar h htoken (by decide)
      obtain ⟨latestFirst, hbase'⟩ := Surroundings.base_eq_argument hsite
      rw [← hbase, hbase', readAfterExpr,
        if_neg (Token.not_isSymbol_of_isSymbol htoken (by decide)), readArgument,
        if_pos htoken] at hread
      exact ⟨_, .singleton hread⟩

theorem passes_comma {callee : String} {outer : Surroundings}
    (h : reading.Ends (.argument callee [] outer)) (hcomma : OptionalComma tokens) :
    ∃ reading', reading'.BetweenArguments callee outer ∧
      grammar.Passes reading tokens reading' := by
  cases hcomma with
  | absent => exact ⟨reading, .ends h, .nil reading⟩
  | present comma hcomma =>
      obtain ⟨e, base, hbase, hsite, hread⟩ := read_of_ends_isSymbol grammar h hcomma (by decide)
      obtain ⟨latestFirst, hbase'⟩ := Surroundings.base_eq_argument hsite
      rw [← hbase, hbase', readAfterExpr, if_pos hcomma] at hread
      exact ⟨_, .argument _, .singleton hread⟩

end Grammar

end Fixity
