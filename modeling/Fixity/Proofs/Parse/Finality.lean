import Fixity.Proofs.Reading.Errors
import Fixity.Proofs.Token.Walk

/-! # Rejections are final

Once a text is rejected, no lines behind it can make a program of it. -/

namespace Fixity

namespace Grammar

variable {grammar : Grammar}

/-- A text that ends too deep is too deep, or no text, whatever token comes next. -/
theorem rejected_of_exceeds {surroundings : Surroundings} (hdeep : grammar.exceeds surroundings)
    (latestFirst : List Declaration) (tokens : List Token) (stop : Token) :
    ∃ token,
      (match grammar.readAll ⟨latestFirst, .operand surroundings⟩ tokens with
      | .ok progress => grammar.finish progress stop
      | .error error => .rejected error) = .rejected (.tooDeep token) := by
  cases tokens with
  | nil => exact ⟨stop, by simp only [readAll_nil, finish, if_pos hdeep]⟩
  | cons token tokens =>
      refine ⟨token, ?_⟩
      rw [readAll_cons, advance, read_of_exceeds hdeep]
      rfl

theorem rejected_of_isPrefix {scanned longer : Scan} {error : ParseError}
    (hwords : scanned.words <+: longer.words)
    (h : grammar.parseScan scanned = .rejected error) :
    ∃ error', grammar.parseScan longer = .rejected error' := by
  obtain ⟨more, hmore⟩ := hwords
  rw [parseScan_eq] at h
  rw [parseScan_eq, ← hmore, readAll_append]
  cases hread : grammar.readAll {} scanned.words with
  | error error' => exact ⟨error', rfl⟩
  | ok progress =>
      rw [hread] at h
      obtain ⟨latestFirst, reading⟩ := progress
      obtain ⟨-, surroundings, rfl, hdeep⟩ := exceeds_of_finish h
      obtain ⟨token, htoken⟩ := rejected_of_exceeds hdeep latestFirst more longer.stop
      exact ⟨.tooDeep token, htoken⟩

end Grammar

/-- What is rejected stays rejected, for the same reason if a character has no place in it, whatever
lines are added. -/
theorem rejected_of_front_rejected (grammar : Grammar) (text front rest : String)
    (error : ParseError) (hfront : front = text ∨ front = text ++ "\n")
    (h : grammar.parse front = .rejected error) :
    ∃ error', grammar.parse (text ++ "\n" ++ rest) = .rejected error' ∧
      ∀ scanError, error = .scan scanError → error' = .scan scanError := by
  have hextends := extendsScan_line hfront rest
  unfold Grammar.parse at h ⊢
  cases hscan : scan front with
  | error scanError =>
      rw [hscan] at h hextends
      cases h
      refine ⟨.scan scanError, ?_, fun _ heq => heq⟩
      rw [show scan (text ++ "\n" ++ rest) = .error scanError from hextends]
  | ok scanned =>
      rw [hscan] at h hextends
      have hnever : ∀ scanError, error ≠ .scan scanError := by
        rintro scanError rfl
        obtain ⟨token, -, htoken⟩ := Grammar.token?_of_parseScan h
        cases htoken
      cases hlonger : scan (text ++ "\n" ++ rest) with
      | error scanError => exact ⟨.scan scanError, rfl, fun _ heq => absurd heq (hnever _)⟩
      | ok longer =>
          obtain ⟨error', herror'⟩ := Grammar.rejected_of_isPrefix (hextends longer hlonger) h
          exact ⟨error', herror', fun _ heq => absurd heq (hnever _)⟩

/-- A character that has no place in the first of two lines. -/
theorem rejected_of_front_rejected_unrecognized :
    ("a ? b" = "a ? b" ∨ "a ? b" = "a ? b" ++ "\n") ∧
      ({} : Grammar).parse "a ? b" = .rejected (.scan ⟨"?", ⟨1, 3⟩⟩) ∧
      ∃ error', ({} : Grammar).parse ("a ? b" ++ "\n" ++ "c ? d") = .rejected error' ∧
        ∀ scanError,
          ParseError.scan ⟨"?", ⟨1, 3⟩⟩ = .scan scanError → error' = .scan scanError := by
  have h : ({} : Grammar).parse "a ? b" = .rejected (.scan ⟨"?", ⟨1, 3⟩⟩) := by rfl
  exact ⟨.inl rfl, h, rejected_of_front_rejected {} _ _ "c ? d" _ (.inl rfl) h⟩

end Fixity
