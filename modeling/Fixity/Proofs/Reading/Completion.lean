import Fixity.Proofs.Derivation.Completeness
import Fixity.Proofs.Reading.Depth

/-! # What an unfinished declaration lacks

Every reading can be led on to the end of a declaration: a name stands in for a missing operand. -/

namespace Fixity

/-- What closes the constructs around an expression, from the inside out. -/
def Surroundings.closing : Surroundings → List Lexeme
  | statement => []
  | body _ => [.symbol '\x7d']
  | group outer | argument _ _ outer => .symbol ')' :: outer.closing
  | operand _ _ outer => outer.closing

/-- A name that stands in for whatever is missing. -/
def Lexeme.placeholder : Lexeme := ⟨.identifier, "x"⟩

/-- What follows the parameters of a prototype. -/
def HeadKind.ending : HeadKind → List Lexeme
  | external => []
  | definition => [.symbol '\x7b', .placeholder, .symbol '\x7d']

/-- What leads a reading to the end of a declaration. -/
def Reading.completion : Reading → List Lexeme
  | ready => []
  | functionName head => .placeholder :: .symbol '(' :: .symbol ')' :: head.ending
  | parameterList head _ => .symbol '(' :: .symbol ')' :: head.ending
  | parameter head _ _ | afterParameter head _ _ => .symbol ')' :: head.ending
  | bodyStart _ => HeadKind.definition.ending
  | operand surroundings => .placeholder :: surroundings.closing
  | afterName _ surroundings | afterOperand _ surroundings => surroundings.closing
  | argument _ _ outer => .symbol ')' :: outer.closing

namespace Grammar

variable {grammar : Grammar} {reading : Reading}

/-- The lexemes lead to a place where a text may end. -/
def Completes (grammar : Grammar) (reading : Reading) (lexemes : List Lexeme) : Prop :=
  ∀ tokens : List Token, tokens.map Token.lexeme = lexemes →
    ∃ last : Reading, last.BetweenStatements ∧ grammar.Passes reading tokens last

theorem Completes.nil (h : reading.BetweenStatements) : grammar.Completes reading [] := by
  intro tokens htokens
  rw [List.map_eq_nil_iff.mp htokens]
  exact ⟨reading, h, .nil reading⟩

theorem Completes.cons {lexeme : Lexeme} {lexemes : List Lexeme}
    (h : ∀ token : Token, token.lexeme = lexeme →
      ∃ next, grammar.Passes reading [token] next ∧ grammar.Completes next lexemes) :
    grammar.Completes reading (lexeme :: lexemes) := by
  intro tokens htokens
  obtain ⟨token, rest, rfl, htoken, hrest⟩ := List.map_eq_cons_iff.mp htokens
  obtain ⟨next, hpasses, hnext⟩ := h token htoken
  obtain ⟨last, hlast, hpassesRest⟩ := hnext rest hrest
  exact ⟨last, hlast, hpasses.append hpassesRest⟩

/-! ## Expressions -/

/-- Behind an expression, only what it stands in has to be closed. -/
theorem completes_closing (surroundings : Surroundings) (h : reading.Ends surroundings.site) :
    grammar.Completes reading surroundings.closing := by
  induction surroundings generalizing reading with
  | statement => exact .nil (.ends h)
  | body prototype =>
      refine .cons ?_
      intro token htoken
      have hsymbol : token.isSymbol "\x7d" := Token.isSymbol_of_lexeme htoken
      exact ⟨.ready, passes_closing_of_body h hsymbol, .nil .ready⟩
  | group outer ih =>
      refine .cons ?_
      intro token htoken
      have hsymbol : token.isSymbol ")" := Token.isSymbol_of_lexeme htoken
      obtain ⟨e, hpasses⟩ : ∃ e, grammar.Passes reading [token] (.afterOperand e outer) :=
        passes_closing_of_group h hsymbol
      exact ⟨.afterOperand e outer, hpasses, ih (.afterOperand e rfl)⟩
  | argument callee latestFirst outer ih =>
      refine .cons ?_
      intro token htoken
      have hsymbol : token.isSymbol ")" := Token.isSymbol_of_lexeme htoken
      obtain ⟨e, hpasses⟩ : ∃ e, grammar.Passes reading [token] (.afterOperand e outer) :=
        passes_closing_of_arguments (.ends h) hsymbol
      exact ⟨.afterOperand e outer, hpasses, ih (.afterOperand e rfl)⟩
  | operand left op outer ih => exact ih h

theorem completes_operand {surroundings : Surroundings} (h : ¬ grammar.exceeds surroundings) :
    grammar.Completes (.operand surroundings) (.placeholder :: surroundings.closing) := by
  refine .cons ?_
  intro token htoken
  have hkind : token.kind = .identifier := Token.kind_of_lexeme htoken
  have hsymbol : ¬ token.isSymbol "(" := Token.not_isSymbol_of_kind (by simp [hkind]) _
  have hread : grammar.read (.operand surroundings) token =
      .ok { reading := .afterName token.text surroundings } := by
    simp only [read, readOperand, if_neg h, if_neg hsymbol, hkind]
    rfl
  exact ⟨_, .singleton hread, completes_closing surroundings (.afterName token.text rfl)⟩

theorem completes_argument (callee : String) (latestFirst : List Expr) (outer : Surroundings) :
    grammar.Completes (.argument callee latestFirst outer) (.symbol ')' :: outer.closing) := by
  refine .cons ?_
  intro token htoken
  have hsymbol : token.isSymbol ")" := Token.isSymbol_of_lexeme htoken
  obtain ⟨e, hpasses⟩ : ∃ e, grammar.Passes (.argument callee latestFirst outer) [token]
      (.afterOperand e outer) := passes_closing_of_arguments (.argument latestFirst) hsymbol
  exact ⟨.afterOperand e outer, hpasses, completes_closing outer (.afterOperand e rfl)⟩

/-! ## Prototypes -/

theorem completes_bodyStart (hallows : grammar.Allows 1) (prototype : Prototype) :
    grammar.Completes (.bodyStart prototype) HeadKind.definition.ending := by
  refine .cons ?_
  intro token htoken
  have hread : grammar.read (.bodyStart prototype) token =
      .ok { reading := .operand (.body prototype) } := by
    rw [read, if_pos (Token.isSymbol_of_lexeme htoken)]
  have hopen : ¬ grammar.exceeds (.body prototype) := fun h => exceeds_iff.mp h hallows
  exact ⟨_, .singleton hread, completes_operand hopen⟩

theorem completes_ending (hallows : grammar.Allows 1) {head : HeadKind}
    (h : reading.EndsHead head) : grammar.Completes reading head.ending := by
  cases h with
  | external => exact .nil .ready
  | definition prototype => exact completes_bodyStart hallows prototype

theorem completes_parameters (hallows : grammar.Allows 1) {head : HeadKind}
    (h : reading.BetweenParameters head) :
    grammar.Completes reading (.symbol ')' :: head.ending) := by
  refine .cons ?_
  intro token htoken
  have hsymbol : token.isSymbol ")" := Token.isSymbol_of_lexeme htoken
  obtain ⟨next, hends, hpasses⟩ :
      ∃ next : Reading, next.EndsHead head ∧ grammar.Passes reading [token] next :=
    passes_closing_of_parameters h hsymbol
  exact ⟨next, hpasses, completes_ending hallows hends⟩

theorem completes_parameterList (hallows : grammar.Allows 1) (head : HeadKind) (name : String) :
    grammar.Completes (.parameterList head name) (.symbol '(' :: .symbol ')' :: head.ending) := by
  refine .cons ?_
  intro token htoken
  have hread : grammar.read (.parameterList head name) token =
      .ok { reading := .parameter head name [] } := by
    rw [read, if_pos (Token.isSymbol_of_lexeme htoken)]
  exact ⟨_, .singleton hread, completes_parameters hallows (.parameter name [])⟩

theorem completes_functionName (hallows : grammar.Allows 1) (head : HeadKind) :
    grammar.Completes (.functionName head)
      (.placeholder :: .symbol '(' :: .symbol ')' :: head.ending) := by
  refine .cons ?_
  intro token htoken
  have hread : grammar.read (.functionName head) token =
      .ok { reading := .parameterList head token.text } := by
    rw [read, if_pos (Token.kind_of_lexeme htoken)]
  exact ⟨_, .singleton hread, completes_parameterList hallows head token.text⟩

/-! ## Readings -/

/-- Where a text needs more input, its reading can be completed. -/
theorem completes_completion (hallows : grammar.Allows 1) {progress : Progress} {stop : Token}
    (h : grammar.finish progress stop = .needsMoreInput) :
    grammar.Completes progress.reading progress.reading.completion := by
  obtain ⟨latestFirst, reading⟩ := progress
  cases reading with
  | ready => cases h
  | functionName head => exact completes_functionName hallows head
  | parameterList head name => exact completes_parameterList hallows head name
  | parameter head name names => exact completes_parameters hallows (.parameter name names)
  | afterParameter head name names =>
      exact completes_parameters hallows (.afterParameter name names)
  | bodyStart prototype => exact completes_bodyStart hallows prototype
  | operand surroundings =>
      refine completes_operand ?_
      intro hdeep
      simp only [finish, if_pos hdeep] at h
      cases h
  | afterName name surroundings => exact completes_closing surroundings (.afterName name rfl)
  | afterOperand e surroundings => exact completes_closing surroundings (.afterOperand e rfl)
  | argument callee arguments outer => exact completes_argument callee arguments outer

end Grammar

/-! ## The lexemes can be scanned -/

theorem Lexeme.wellFormed_placeholder : Lexeme.placeholder.WellFormed := by
  have hadmits : LexemeClass.word.Admits ['x'] := by decide
  exact .ofClass hadmits

theorem Surroundings.wellFormed_of_mem_closing (surroundings : Surroundings) :
    ∀ lexeme ∈ surroundings.closing, lexeme.WellFormed := by
  induction surroundings with
  | statement => simp [closing]
  | body prototype =>
      intro lexeme hlexeme
      rw [List.mem_singleton.mp hlexeme]
      exact .symbol (by decide)
  | group outer ih | argument callee latestFirst outer ih =>
      intro lexeme hlexeme
      rcases List.mem_cons.mp hlexeme with rfl | hlexeme
      · exact .symbol (by decide)
      · exact ih lexeme hlexeme
  | operand left op outer ih => exact ih

theorem HeadKind.wellFormed_of_mem_ending (head : HeadKind) :
    ∀ lexeme ∈ head.ending, lexeme.WellFormed := by
  cases head with
  | external => simp [ending]
  | definition =>
      intro lexeme hlexeme
      simp only [ending, List.mem_cons, List.not_mem_nil, or_false] at hlexeme
      rcases hlexeme with rfl | rfl | rfl
      · exact .symbol (by decide)
      · exact Lexeme.wellFormed_placeholder
      · exact .symbol (by decide)

theorem Reading.wellFormed_of_mem_completion (reading : Reading) :
    ∀ lexeme ∈ reading.completion, lexeme.WellFormed := by
  have hopening : (Lexeme.symbol '(').WellFormed := .symbol (by decide)
  have hclosing : (Lexeme.symbol ')').WellFormed := .symbol (by decide)
  cases reading with
  | ready => simp [completion]
  | functionName head =>
      simpa [completion, hopening, hclosing, Lexeme.wellFormed_placeholder] using
        head.wellFormed_of_mem_ending
  | parameterList head name =>
      simpa [completion, hopening, hclosing] using head.wellFormed_of_mem_ending
  | parameter head name names | afterParameter head name names =>
      simpa [completion, hclosing] using head.wellFormed_of_mem_ending
  | bodyStart prototype => exact HeadKind.definition.wellFormed_of_mem_ending
  | operand surroundings =>
      simpa [completion, Lexeme.wellFormed_placeholder] using
        surroundings.wellFormed_of_mem_closing
  | afterName name surroundings => exact surroundings.wellFormed_of_mem_closing
  | afterOperand e surroundings => exact surroundings.wellFormed_of_mem_closing
  | argument callee arguments outer =>
      simpa [completion, hclosing] using outer.wellFormed_of_mem_closing

end Fixity
