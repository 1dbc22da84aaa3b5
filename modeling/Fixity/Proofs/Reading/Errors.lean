import Fixity.Proofs.Reading.Run

/-! # Errors of readings

A token that is refused is the one that the error names. -/

namespace Fixity

theorem map_eq_error_iff {ε α β : Type} {x : Except ε α} {f : α → β} {e : ε} :
    x.map f = .error e ↔ x = .error e := by
  cases x <;> simp [Except.map]

namespace Grammar

variable {grammar : Grammar} {token : Token} {error : ParseError}

theorem token?_of_readNumber {surroundings : Surroundings}
    (h : readNumber token surroundings = .error error) : error.token? = some token := by
  unfold readNumber at h
  split at h <;> cases h <;> rfl

theorem token?_of_readOperand {surroundings : Surroundings}
    (h : grammar.readOperand surroundings token = .error error) : error.token? = some token := by
  unfold readOperand at h
  split at h
  · cases h
    rfl
  · split at h
    · cases h
    · split at h
      · cases h
      · exact token?_of_readNumber h
      · cases h
        rfl

theorem token?_of_readStart (h : grammar.readStart token = .error error) :
    error.token? = some token := by
  unfold readStart at h
  split at h
  · cases h
  · cases h
  · exact token?_of_readOperand h

theorem token?_of_readParameter {head : HeadKind} {name : String} {latestFirst : List String}
    (h : readParameter head name latestFirst token = .error error) : error.token? = some token := by
  unfold readParameter at h
  split at h
  · cases h
  · split at h
    · cases head <;> cases h
    · cases h
      rfl

theorem token?_of_readArgument {callee : String} {latestFirst : List Expr} {outer : Surroundings}
    (h : grammar.readArgument callee latestFirst outer token = .error error) :
    error.token? = some token := by
  unfold readArgument at h
  split at h
  · cases h
  · exact token?_of_readOperand h

theorem token?_of_readAfterExpr {e : Expr} {surroundings : Surroundings}
    (h : grammar.readAfterExpr token e surroundings = .error error) :
    error.token? = some token := by
  induction surroundings generalizing e with
  | operand left op outer ih => exact ih h
  | statement => exact token?_of_readStart (map_eq_error_iff.mp h)
  | body prototype =>
      rw [readAfterExpr] at h
      split at h <;> cases h
      rfl
  | group outer =>
      rw [readAfterExpr] at h
      split at h <;> cases h
      rfl
  | argument callee latestFirst outer =>
      rw [readAfterExpr] at h
      split at h
      · cases h
      · exact token?_of_readArgument (map_eq_error_iff.mp h)

theorem token?_of_readAfterOperand {e : Expr} {surroundings : Surroundings}
    (h : grammar.readAfterOperand e surroundings token = .error error) :
    error.token? = some token := by
  unfold readAfterOperand at h
  split at h
  · split at h <;> cases h
    rfl
  · exact token?_of_readAfterExpr h

theorem token?_of_read {reading : Reading} (h : grammar.read reading token = .error error) :
    error.token? = some token := by
  cases reading with
  | ready => exact token?_of_readStart (map_eq_error_iff.mp h)
  | functionName head =>
      rw [read] at h
      split at h <;> cases h
      rfl
  | parameterList head name =>
      rw [read] at h
      split at h <;> cases h
      rfl
  | parameter head name latestFirst => exact token?_of_readParameter h
  | afterParameter head name latestFirst =>
      rw [read] at h
      split at h
      · cases h
      · exact token?_of_readParameter h
  | bodyStart prototype =>
      rw [read] at h
      split at h <;> cases h
      rfl
  | operand surroundings => exact token?_of_readOperand (map_eq_error_iff.mp h)
  | afterName name surroundings =>
      rw [read] at h
      split at h
      · cases h
      · exact token?_of_readAfterOperand h
  | afterOperand e surroundings => exact token?_of_readAfterOperand h
  | argument callee latestFirst outer => exact token?_of_readArgument (map_eq_error_iff.mp h)

theorem token?_of_readAll {progress : Progress} {tokens : List Token}
    (h : grammar.readAll progress tokens = .error error) :
    ∃ token ∈ tokens, error.token? = some token := by
  induction tokens generalizing progress with
  | nil => cases h
  | cons token tokens ih =>
      rw [readAll_cons] at h
      cases hadvance : grammar.advance progress token with
      | error error' =>
          rw [hadvance] at h
          cases h
          exact ⟨token, by simp, token?_of_read (map_eq_error_iff.mp hadvance)⟩
      | ok next =>
          rw [hadvance] at h
          obtain ⟨named, hmem, hnamed⟩ := ih h
          exact ⟨named, by simp [hmem], hnamed⟩

/-- Where an expression would be too deep, every token is. -/
theorem read_of_exceeds {surroundings : Surroundings} (h : grammar.exceeds surroundings)
    (token : Token) : grammar.read (.operand surroundings) token = .error (.tooDeep token) := by
  rw [read, readOperand, if_pos h]
  rfl

theorem exceeds_of_finish {progress : Progress} {stop : Token}
    (h : grammar.finish progress stop = .rejected error) :
    error = .tooDeep stop ∧
      ∃ surroundings, progress.reading = .operand surroundings ∧ grammar.exceeds surroundings := by
  have hexpr : ∀ e surroundings, finishExpr progress e surroundings ≠ .rejected error := by
    intro e surroundings
    unfold finishExpr
    split <;> exact nofun
  unfold finish at h
  split at h
  · cases h
  · next surroundings hreading =>
      by_cases hdeep : grammar.exceeds surroundings
      · rw [if_pos hdeep] at h
        cases h
        exact ⟨rfl, surroundings, hreading, hdeep⟩
      · rw [if_neg hdeep] at h
        cases h
  · exact absurd h (hexpr _ _)
  · exact absurd h (hexpr _ _)
  · cases h

/-- A text is rejected at one of its tokens, the stop included. -/
theorem token?_of_parseScan {scanned : Scan} (h : grammar.parseScan scanned = .rejected error) :
    ∃ token ∈ scanned.tokens, error.token? = some token := by
  rw [parseScan_eq] at h
  cases hread : grammar.readAll {} scanned.words with
  | error error' =>
      rw [hread] at h
      cases h
      obtain ⟨token, hmem, htoken⟩ := token?_of_readAll hread
      exact ⟨token, by simp [Scan.tokens, hmem], htoken⟩
  | ok progress =>
      rw [hread] at h
      obtain ⟨rfl, -⟩ := exceeds_of_finish h
      exact ⟨scanned.stop, by simp [Scan.tokens], rfl⟩

end Grammar

end Fixity
