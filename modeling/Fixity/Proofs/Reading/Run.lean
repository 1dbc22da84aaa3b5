import Fixity.Parse.Outcome

/-! # Reading many tokens

`readAll` reads tokens one after another, up to the first that is refused. -/

namespace Fixity

theorem map_eq_ok_iff {ε α β : Type} {x : Except ε α} {f : α → β} {b : β} :
    x.map f = .ok b ↔ ∃ a, x = .ok a ∧ f a = b := by
  cases x <;> simp [Except.map]

theorem bind_eq_ok_iff {ε α β : Type} {x : Except ε α} {f : α → Except ε β} {b : β} :
    x.bind f = .ok b ↔ ∃ a, x = .ok a ∧ f a = .ok b := by
  cases x <;> simp [Except.bind]

/-- There is at most one declaration to put in order. -/
theorem reverse_toList {α : Type} (x : Option α) : x.toList.reverse = x.toList := by
  cases x <;> rfl

def Outcome.program? : Outcome → Option Program
  | .parsed program => some program
  | _ => none

theorem Outcome.program?_eq_some_iff {outcome : Outcome} {program : Program} :
    outcome.program? = some program ↔ outcome = .parsed program := by
  cases outcome <;> simp [program?]

namespace Grammar

variable {grammar : Grammar}

def readAll (grammar : Grammar) (progress : Progress) (tokens : List Token) :
    Except ParseError Progress := tokens.foldlM grammar.advance progress

@[simp] theorem readAll_nil (progress : Progress) : grammar.readAll progress [] = .ok progress :=
  rfl

theorem readAll_cons (progress : Progress) (token : Token) (tokens : List Token) :
    grammar.readAll progress (token :: tokens) =
      (grammar.advance progress token).bind (grammar.readAll · tokens) := rfl

theorem readAll_append (progress : Progress) (tokens others : List Token) :
    grammar.readAll progress (tokens ++ others) =
      (grammar.readAll progress tokens).bind (grammar.readAll · others) := by
  simp [readAll, bind]

theorem parseScan_eq (scan : Scan) :
    grammar.parseScan scan =
      match grammar.readAll {} scan.words with
      | .ok progress => grammar.finish progress scan.stop
      | .error error => .rejected error := rfl

theorem parse_eq_iff {text : String} {outcome : Outcome}
    (haccepted : ∀ error, outcome ≠ .rejected error) :
    grammar.parse text = outcome ↔
      ∃ scanned progress, scan text = .ok scanned ∧
        grammar.readAll {} scanned.words = .ok progress ∧
        grammar.finish progress scanned.stop = outcome := by
  unfold parse
  cases scan text with
  | error error =>
      constructor
      · exact fun h => absurd h.symm (haccepted _)
      · rintro ⟨scanned, progress, hscan, -, -⟩
        cases hscan
  | ok scanned =>
      simp only [parseScan_eq]
      constructor
      · intro h
        cases hread : grammar.readAll {} scanned.words with
        | error error =>
            rw [hread] at h
            exact absurd h.symm (haccepted _)
        | ok progress =>
            rw [hread] at h
            exact ⟨scanned, progress, rfl, hread, h⟩
      · rintro ⟨scanned, progress, hscan, hread, hfinish⟩
        cases hscan
        rw [hread]
        exact hfinish

theorem advance_of_read {reading : Reading} {token : Token} {step : Advance}
    (h : grammar.read reading token = .ok step) (latestFirst : List Declaration) :
    grammar.advance ⟨latestFirst, reading⟩ token =
      .ok ⟨step.completed.toList ++ latestFirst, step.reading⟩ := by
  simp [advance, h, Except.map]

theorem advance_eq_ok_iff {progress progress' : Progress} {token : Token} :
    grammar.advance progress token = .ok progress' ↔
      ∃ step, grammar.read progress.reading token = .ok step ∧
        (⟨step.completed.toList ++ progress.latestFirst, step.reading⟩ : Progress) = progress' :=
  map_eq_ok_iff

theorem readAll_concat_eq_ok_iff {progress reached : Progress} {tokens : List Token}
    {last : Token} :
    grammar.readAll progress (tokens ++ [last]) = .ok reached ↔
      ∃ next, grammar.readAll progress tokens = .ok next ∧
        grammar.advance next last = .ok reached := by
  simp [readAll_append, bind_eq_ok_iff, readAll_cons]

/-- What every token keeps, all tokens keep. -/
theorem readAll_induction {motive : List Token → Progress → Prop}
    (step : ∀ before progress token progress', motive before progress →
      grammar.advance progress token = .ok progress' → motive (before ++ [token]) progress')
    {tokens : List Token} {progress progress' : Progress} (before : List Token)
    (hstart : motive before progress) (h : grammar.readAll progress tokens = .ok progress') :
    motive (before ++ tokens) progress' := by
  induction tokens generalizing before progress with
  | nil =>
      cases h
      simpa using hstart
  | cons token tokens ih =>
      obtain ⟨next, hnext, hrest⟩ := bind_eq_ok_iff.mp h
      simpa using ih _ (step before progress token next hstart hnext) hrest

end Grammar

end Fixity
