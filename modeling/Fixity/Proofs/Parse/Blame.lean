import Fixity.Proofs.Reading.Errors
import Fixity.Proofs.Token.Front

/-! # The token that makes a text hopeless

A text is rejected at the first token with which it can no longer become a program, or at the next
one if it is too deep. -/

namespace Fixity

/-- The text can be cut in front of the token, and what is left of it is not rejected. -/
def HopefulBefore (grammar : Grammar) (text : String) (token : Token) : Prop :=
  (∃ front, IsFrontOf token text front) ∧
    ∀ front, IsFrontOf token text front → ∀ error, grammar.parse front ≠ .rejected error

namespace Grammar

variable {grammar : Grammar} {error : ParseError}

/-! ## Tokens that are read -/

theorem exists_refused_of_readAll {progress : Progress} {tokens : List Token}
    (h : grammar.readAll progress tokens = .error error) :
    ∃ before token after reached, tokens = before ++ token :: after ∧
      grammar.readAll progress before = .ok reached ∧
      grammar.read reached.reading token = .error error := by
  induction tokens generalizing progress with
  | nil => cases h
  | cons token tokens ih =>
      rw [readAll_cons] at h
      cases hadvance : grammar.advance progress token with
      | error error' =>
          rw [hadvance] at h
          cases h
          exact ⟨[], token, tokens, progress, rfl, rfl, map_eq_error_iff.mp hadvance⟩
      | ok next =>
          rw [hadvance] at h
          obtain ⟨before, refused, after, reached, rfl, hbefore, hrefused⟩ := ih h
          refine ⟨token :: before, refused, after, reached, rfl, ?_, hrefused⟩
          rw [readAll_cons, hadvance]
          exact hbefore

theorem exceeds_of_readOperand {surroundings : Surroundings} {token blamed : Token}
    (h : grammar.readOperand surroundings token = .error (.tooDeep blamed)) :
    grammar.exceeds surroundings := by
  unfold readOperand at h
  split at h
  · assumption
  · split at h
    · cases h
    · split at h
      · cases h
      · unfold readNumber at h
        split at h <;> cases h
      · cases h

/-- At the start of a text no expression is open, so nothing is too deep if one may be. -/
theorem read_ready_ne_tooDeep (hlimit : grammar.exceeds .statement = false) (token : Token) :
    grammar.read .ready token ≠ .error (.tooDeep token) := by
  intro h
  have hstart : grammar.readStart token = .error (.tooDeep token) := map_eq_error_iff.mp h
  unfold readStart at hstart
  split at hstart
  · cases hstart
  · cases hstart
  · have hdeep := exceeds_of_readOperand hstart
    rw [hlimit] at hdeep
    cases hdeep

/-! ## Cutting in front of them -/

/-- Where the next token is not too deep, a text that ends is not rejected. -/
theorem parseScan_ne_rejected {tokens : List Token} {reached : Progress} {token : Token}
    (hread : grammar.readAll {} tokens = .ok reached)
    (htoken : grammar.read reached.reading token ≠ .error (.tooDeep token)) (stop : Token) :
    grammar.parseScan ⟨tokens, stop⟩ ≠ .rejected error := by
  intro h
  rw [parseScan_eq, hread] at h
  obtain ⟨-, surroundings, hreading, hdeep⟩ := exceeds_of_finish h
  rw [hreading] at htoken
  exact htoken (read_of_exceeds hdeep token)

variable {text : String} {scanned : Scan} {before after : List Token} {token : Token}
  {reached : Progress}

/-- There is hope in front of a token that is read, or refused without being too deep. -/
theorem hopefulBefore_of_read (hscan : scan text = .ok scanned)
    (hwords : scanned.words = before ++ token :: after)
    (hread : grammar.readAll {} before = .ok reached)
    (htoken : grammar.read reached.reading token ≠ .error (.tooDeep token)) :
    HopefulBefore grammar text token := by
  obtain ⟨front, stop, hfront, hbefore⟩ := exists_isFrontOf_of_scan hscan hwords
  refine ⟨⟨front, hfront⟩, ?_⟩
  intro other hother error
  rw [hother.unique hfront, parse, hbefore]
  exact parseScan_ne_rejected hread htoken stop

theorem exists_hopefulBefore_last (hscan : scan text = .ok scanned)
    (hwords : scanned.words = before ++ after) (hread : grammar.readAll {} before = .ok reached)
    (hreached : reached.reading ≠ .ready) :
    ∃ earlier previous, before = earlier ++ [previous] ∧ HopefulBefore grammar text previous := by
  rcases List.eq_nil_or_concat' before with rfl | ⟨earlier, previous, rfl⟩
  · cases hread
    exact absurd rfl hreached
  · obtain ⟨next, hearlier, hadvance⟩ := readAll_concat_eq_ok_iff.mp hread
    obtain ⟨step, hstep, -⟩ := advance_eq_ok_iff.mp hadvance
    have hprevious : grammar.read next.reading previous ≠ .error (.tooDeep previous) := by
      rw [hstep]
      exact nofun
    refine ⟨earlier, previous, rfl, ?_⟩
    exact hopefulBefore_of_read hscan (by simpa using hwords) hearlier hprevious

end Grammar

/-! ## Where a text is rejected -/

/-- A text is rejected at a token in front of which there is hope or, if the token is too deep, in
front of whose predecessor there is. Only what is too deep is rejected at its end. -/
theorem rejected_at_first_hopeless (table : OperatorTable) (text : String) (scanned : Scan)
    (error : ParseError) (hscan : scan text = .ok scanned)
    (h : ({ operators := table } : Grammar).parse text = .rejected error) :
    ∃ before token after, scanned.tokens = before ++ token :: after ∧ error.token? = some token ∧
      (error ≠ .tooDeep token →
        token.kind ≠ .stop ∧ HopefulBefore { operators := table } text token) ∧
      (error = .tooDeep token → ∃ earlier previous, before = earlier ++ [previous] ∧
        HopefulBefore { operators := table } text previous) := by
  rw [Grammar.parse, hscan] at h
  have hparse : ({ operators := table } : Grammar).parseScan scanned = .rejected error := h
  rw [Grammar.parseScan_eq] at hparse
  cases hread : ({ operators := table } : Grammar).readAll {} scanned.words with
  | error refusal =>
      rw [hread] at hparse
      cases hparse
      obtain ⟨before, token, after, reached, hwords, hbefore, hrefused⟩ :=
        Grammar.exists_refused_of_readAll hread
      refine ⟨before, token, after ++ [scanned.stop], ?_, Grammar.token?_of_read hrefused, ?_, ?_⟩
      · rw [Scan.tokens, hwords, List.append_assoc, List.cons_append]
      · intro hother
        refine ⟨kind_ne_stop_of_scan hscan token (by simp [hwords]), ?_⟩
        refine Grammar.hopefulBefore_of_read hscan hwords hbefore ?_
        rw [hrefused]
        exact fun heq => hother (Except.error.inj heq)
      · rintro rfl
        -- The token before this one has opened the expression that is too deep.
        refine Grammar.exists_hopefulBefore_last hscan hwords hbefore ?_
        intro hready
        rw [hready] at hrefused
        exact Grammar.read_ready_ne_tooDeep rfl token hrefused
  | ok reached =>
      rw [hread] at hparse
      obtain ⟨rfl, surroundings, hreading, -⟩ := Grammar.exceeds_of_finish hparse
      refine ⟨scanned.words, scanned.stop, [], rfl, rfl, fun hother => absurd rfl hother, ?_⟩
      intro _
      refine Grammar.exists_hopefulBefore_last hscan (List.append_nil _).symm hread ?_
      rw [hreading]
      simp

/-- The sum on two lines is hopeless from the second closing parenthesis on. -/
theorem rejected_at_first_hopeless_operand :
    (scan "f() # a call\n+ ) y" = .ok ⟨[⟨.identifier, "f", ⟨1, 1⟩⟩, ⟨.reserved, "(", ⟨1, 2⟩⟩,
        ⟨.reserved, ")", ⟨1, 3⟩⟩, ⟨.operator, "+", ⟨2, 1⟩⟩, ⟨.reserved, ")", ⟨2, 3⟩⟩,
        ⟨.identifier, "y", ⟨2, 5⟩⟩], ⟨.stop, "", ⟨2, 6⟩⟩⟩) ∧
      ({} : Grammar).parse "f() # a call\n+ ) y" =
        .rejected (.unexpected ⟨.reserved, ")", ⟨2, 3⟩⟩ .expression) ∧
      HopefulBefore {} "f() # a call\n+ ) y" ⟨.reserved, ")", ⟨2, 3⟩⟩ := by
  have hscan : scan "f() # a call\n+ ) y" = .ok ⟨[⟨.identifier, "f", ⟨1, 1⟩⟩,
      ⟨.reserved, "(", ⟨1, 2⟩⟩, ⟨.reserved, ")", ⟨1, 3⟩⟩, ⟨.operator, "+", ⟨2, 1⟩⟩,
      ⟨.reserved, ")", ⟨2, 3⟩⟩, ⟨.identifier, "y", ⟨2, 5⟩⟩], ⟨.stop, "", ⟨2, 6⟩⟩⟩ := by
    rfl
  have hparse : ({} : Grammar).parse "f() # a call\n+ ) y" =
      .rejected (.unexpected ⟨.reserved, ")", ⟨2, 3⟩⟩ .expression) := by
    rfl
  obtain ⟨before, token, after, -, htoken, hhope, -⟩ :=
    rejected_at_first_hopeless .standard _ _ _ hscan hparse
  cases htoken
  exact ⟨hscan, hparse, (hhope nofun).2⟩

end Fixity
