import Fixity.Proofs.Reading.Run

/-! # What a limit to nesting changes

Up to the first operand that is too deep, every token is read as it is without a limit. -/

namespace Fixity

/-- Two results agree unless this token is too deep. -/
def AgreeUnlessDeep {α : Type} (token : Token) (limited unlimited : Except ParseError α) : Prop :=
  limited = .error (.tooDeep token) ∨ limited = unlimited

namespace AgreeUnlessDeep

variable {α β : Type} {token : Token}

theorem refl (result : Except ParseError α) : AgreeUnlessDeep token result result := .inr rfl

theorem map {limited unlimited : Except ParseError α} (h : AgreeUnlessDeep token limited unlimited)
    (f : α → β) : AgreeUnlessDeep token (limited.map f) (unlimited.map f) := by
  rcases h with rfl | rfl
  · exact .inl rfl
  · exact .refl _

theorem ite {condition : Prop} [Decidable condition] {yes : Except ParseError α}
    {limited unlimited : Except ParseError α} (h : AgreeUnlessDeep token limited unlimited) :
    AgreeUnlessDeep token (if condition then yes else limited)
      (if condition then yes else unlimited) := by
  by_cases hcondition : condition
  · simpa only [if_pos hcondition] using refl yes
  · simpa only [if_neg hcondition] using h

end AgreeUnlessDeep

namespace Grammar

/-- The same operators without a limit to nesting. -/
def unlimited (grammar : Grammar) : Grammar := { grammar with nestingLimit := none }

@[simp] theorem exceeds_unlimited (grammar : Grammar) (surroundings : Surroundings) :
    grammar.unlimited.exceeds surroundings = false := by
  simp [exceeds, unlimited]

theorem readOperand_unlimited (grammar : Grammar) (surroundings : Surroundings) (token : Token) :
    AgreeUnlessDeep token (grammar.readOperand surroundings token)
      (grammar.unlimited.readOperand surroundings token) := by
  by_cases hdeep : grammar.exceeds surroundings
  · left
    rw [readOperand, if_pos hdeep]
  · right
    simp only [readOperand, if_neg hdeep, exceeds_unlimited, Bool.false_eq_true, if_false]

theorem readStart_unlimited (grammar : Grammar) (token : Token) :
    AgreeUnlessDeep token (grammar.readStart token) (grammar.unlimited.readStart token) := by
  unfold readStart
  split
  · exact .refl _
  · exact .refl _
  · exact grammar.readOperand_unlimited .statement token

theorem readArgument_unlimited (grammar : Grammar) (callee : String) (latestFirst : List Expr)
    (outer : Surroundings) (token : Token) :
    AgreeUnlessDeep token (grammar.readArgument callee latestFirst outer token)
      (grammar.unlimited.readArgument callee latestFirst outer token) :=
  (grammar.readOperand_unlimited _ token).ite

theorem readAfterExpr_unlimited (grammar : Grammar) (token : Token) (e : Expr)
    (surroundings : Surroundings) :
    AgreeUnlessDeep token (grammar.readAfterExpr token e surroundings)
      (grammar.unlimited.readAfterExpr token e surroundings) := by
  induction surroundings generalizing e with
  | operand left op outer ih => exact ih (.binary op.symbol left e)
  | statement => exact (grammar.readStart_unlimited token).map _
  | body => exact .refl _
  | group => exact .refl _
  | argument callee latestFirst outer =>
      exact ((grammar.readArgument_unlimited callee (e :: latestFirst) outer token).map _).ite

theorem readAfterOperand_unlimited (grammar : Grammar) (e : Expr) (surroundings : Surroundings)
    (token : Token) :
    AgreeUnlessDeep token (grammar.readAfterOperand e surroundings token)
      (grammar.unlimited.readAfterOperand e surroundings token) :=
  (grammar.readAfterExpr_unlimited token e surroundings).ite

theorem read_unlimited (grammar : Grammar) (reading : Reading) (token : Token) :
    AgreeUnlessDeep token (grammar.read reading token) (grammar.unlimited.read reading token) := by
  cases reading with
  | ready => exact (grammar.readStart_unlimited token).map _
  | operand surroundings => exact (grammar.readOperand_unlimited surroundings token).map _
  | afterName name surroundings =>
      exact (grammar.readAfterOperand_unlimited (.var name) surroundings token).ite
  | afterOperand e surroundings => exact grammar.readAfterOperand_unlimited e surroundings token
  | argument callee latestFirst outer =>
      exact (grammar.readArgument_unlimited callee latestFirst outer token).map _
  | _ => exact .refl _

/-- A limit is without effect until a token is too deep. -/
theorem readAll_unlimited (grammar : Grammar) (progress : Progress) (tokens : List Token) :
    (∃ token, grammar.readAll progress tokens = .error (.tooDeep token)) ∨
      grammar.readAll progress tokens = grammar.unlimited.readAll progress tokens := by
  induction tokens generalizing progress with
  | nil => exact .inr rfl
  | cons token tokens ih =>
      rw [readAll_cons, readAll_cons]
      rcases (grammar.read_unlimited progress.reading token).map
        (fun step : Advance =>
          (⟨step.completed.toList ++ progress.latestFirst, step.reading⟩ : Progress))
        with hdeep | hsame
      · left
        refine ⟨token, ?_⟩
        rw [advance, hdeep]
        rfl
      · rw [advance, hsame, ← advance]
        cases grammar.unlimited.advance progress token with
        | error error => exact .inr rfl
        | ok next => exact ih next

theorem finish_unlimited (grammar : Grammar) (progress : Progress) (stop : Token) :
    grammar.finish progress stop = .rejected (.tooDeep stop) ∨
      grammar.finish progress stop = grammar.unlimited.finish progress stop := by
  obtain ⟨latestFirst, reading⟩ := progress
  cases reading with
  | operand surroundings =>
      by_cases hdeep : grammar.exceeds surroundings
      · exact .inl (by simp only [finish, if_pos hdeep])
      · right
        simp only [finish, if_neg hdeep, exceeds_unlimited, Bool.false_eq_true, if_false]
  | _ => exact .inr rfl

/-- A text has the same outcome with and without a limit, unless it is rejected as too deep. -/
theorem parse_unlimited (grammar : Grammar) (text : String) :
    (∃ token, grammar.parse text = .rejected (.tooDeep token)) ∨
      grammar.parse text = grammar.unlimited.parse text := by
  unfold parse
  cases scan text with
  | error error => exact .inr rfl
  | ok scanned =>
      simp only [parseScan_eq]
      rcases grammar.readAll_unlimited {} scanned.words with ⟨token, hdeep⟩ | hsame
      · exact .inl ⟨token, by rw [hdeep]⟩
      · rw [hsame]
        cases grammar.unlimited.readAll {} scanned.words with
        | error error => exact .inr rfl
        | ok progress =>
            rcases grammar.finish_unlimited progress scanned.stop with hdeep | hsame
            · exact .inl ⟨scanned.stop, hdeep⟩
            · exact .inr hsame

end Grammar

end Fixity
