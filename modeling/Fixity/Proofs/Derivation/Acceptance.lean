import Fixity.Proofs.Derivation.Completeness
import Fixity.Proofs.Parse.Nesting
import Fixity.Proofs.Parse.Precedence

/-! # The parser accepts what the grammar derives

A text that is not nested too deep is parsed just if the grammar derives its tokens. -/

namespace Fixity

namespace Grammar

variable {grammar : Grammar}

theorem finish_of_betweenStatements {reading : Reading} (h : reading.BetweenStatements)
    (latestFirst : List Declaration) (stop : Token) :
    ∃ program, grammar.finish ⟨latestFirst, reading⟩ stop = .parsed program := by
  cases h with
  | ready => exact ⟨_, rfl⟩
  | ends h =>
      cases h with
      | afterName name hsite =>
          simp only [finish, finishExpr, Surroundings.complete?_of_site hsite]
          exact ⟨_, rfl⟩
      | afterOperand e hsite =>
          simp only [finish, finishExpr, Surroundings.complete?_of_site hsite]
          exact ⟨_, rfl⟩

/-- Without a limit to nesting, every text that is derived is parsed. -/
theorem parsed_of_derives (hlimit : grammar.nestingLimit = none) {text : String} {scanned : Scan}
    (hscan : scan text = .ok scanned) (h : Derives grammar.operators .unit scanned.words) :
    ∃ program, grammar.parse text = .parsed program := by
  obtain ⟨reading, hreading, hpasses⟩ := follows_of_derives hlimit h .ready .ready
  obtain ⟨latestFirst, hread⟩ := hpasses []
  obtain ⟨program, hprogram⟩ := finish_of_betweenStatements hreading latestFirst scanned.stop
  refine ⟨program, ?_⟩
  rw [parse, hscan]
  simp only [parseScan_eq]
  rw [show grammar.readAll {} scanned.words = .ok ⟨latestFirst, reading⟩ from hread]
  exact hprogram

end Grammar

/-- A text that is not nested too deep is parsed if and only if the grammar derives its tokens. -/
theorem parsed_iff_derives (grammar : Grammar) (text : String) (scanned : Scan)
    (hscan : scan text = .ok scanned)
    (hdeep : ∀ token, grammar.parse text ≠ .rejected (.tooDeep token)) :
    (∃ program, grammar.parse text = .parsed program) ↔
      Derives grammar.operators .unit scanned.words := by
  constructor
  · rintro ⟨program, hparse⟩
    obtain ⟨scanned', statements, hscan', hwritten, -⟩ := written_of_parse hparse
    have hsame : scanned' = scanned := Except.ok.inj (hscan'.symm.trans hscan)
    rw [← hsame]
    exact hwritten.spells.derives
  · intro hderives
    rcases grammar.parse_unlimited text with ⟨token, htoken⟩ | hsame
    · exact absurd htoken (hdeep token)
    · rw [hsame]
      exact Grammar.parsed_of_derives rfl hscan hderives

/-- A name with a group behind it is taken for a call, which the grammar derives as well. -/
theorem parsed_iff_derives_name_group :
    scan "a (b) c" = .ok ⟨[⟨.identifier, "a", ⟨1, 1⟩⟩, ⟨.reserved, "(", ⟨1, 3⟩⟩,
        ⟨.identifier, "b", ⟨1, 4⟩⟩, ⟨.reserved, ")", ⟨1, 5⟩⟩, ⟨.identifier, "c", ⟨1, 7⟩⟩],
        ⟨.stop, "", ⟨1, 8⟩⟩⟩ ∧
      (∀ token, ({} : Grammar).parse "a (b) c" ≠ .rejected (.tooDeep token)) ∧
      ((∃ program, ({} : Grammar).parse "a (b) c" = .parsed program) ↔
        Derives OperatorTable.standard .unit [⟨.identifier, "a", ⟨1, 1⟩⟩,
          ⟨.reserved, "(", ⟨1, 3⟩⟩, ⟨.identifier, "b", ⟨1, 4⟩⟩, ⟨.reserved, ")", ⟨1, 5⟩⟩,
          ⟨.identifier, "c", ⟨1, 7⟩⟩]) := by
  have hparse : ({} : Grammar).parse "a (b) c" =
      .parsed [.definition .anonymous (.call "a" [.var "b"]),
        .definition .anonymous (.var "c")] := by rfl
  have hdeep : ∀ token, ({} : Grammar).parse "a (b) c" ≠ .rejected (.tooDeep token) := by
    intro token h
    rw [hparse] at h
    cases h
  exact ⟨by rfl, hdeep, parsed_iff_derives {} "a (b) c" _ (by rfl) hdeep⟩

end Fixity
