import Fixity.Proofs.Derivation.Acceptance
import Fixity.Proofs.Reading.Completion
import Fixity.Proofs.Token.Lines

/-! # Texts that need more input can be completed

Whatever needs more input becomes a program with some lines behind it. -/

namespace Fixity

theorem exists_lays {lexemes : List Lexeme} (h : ∀ lexeme ∈ lexemes, lexeme.WellFormed) :
    ∃ text, Lays text lexemes := by
  have hblank : Unicode.isWhiteSpace ' ' := by decide
  induction lexemes with
  | nil => exact ⟨[], .nil⟩
  | cons lexeme lexemes ih =>
      obtain ⟨text, hlays⟩ := ih fun other hother => h other (List.mem_cons_of_mem lexeme hother)
      cases h lexeme List.mem_cons_self with
      | @symbol c hreserved => exact ⟨c :: text, .symbol hreserved hlays⟩
      | @ofClass lexemeClass chars hadmits =>
          -- A space keeps the next lexeme from continuing this one.
          refine ⟨chars ++ ' ' :: text, .lexeme hadmits ?_ (.blank hblank hlays)⟩
          intro d hd
          cases hd
          cases lexemeClass <;> decide

namespace Grammar

variable {grammar : Grammar}

/-- If an expression may be opened at all, then whatever needs more input can be completed. -/
theorem exists_parsed_of_needsMoreInput (hallows : grammar.Allows 1) {text : String}
    (hnul : '\x00' ∉ text.toList) (h : grammar.parse text = .needsMoreInput) :
    ∃ rest program, grammar.parse (text ++ "\n" ++ rest) = .parsed program := by
  obtain ⟨scanned, progress, hscan, hread, hfinish⟩ := (parse_eq_iff (by simp)).mp h
  obtain ⟨chars, hlays⟩ := exists_lays progress.reading.wellFormed_of_mem_completion
  have hlays' : Lays (String.ofList chars).toList progress.reading.completion := by
    simpa using hlays
  obtain ⟨alone, hrest, hlexemes⟩ := scan_of_lays hlays'
  obtain ⟨whole, more, hwhole, hwords, hmore⟩ := scan_append_line (.inl rfl) hnul hscan hrest
  obtain ⟨last, hlast, hpasses⟩ :=
    completes_completion hallows hfinish more (hmore.trans hlexemes)
  obtain ⟨latestFirst, hreadMore⟩ := hpasses progress.latestFirst
  obtain ⟨program, hprogram⟩ :
      ∃ program, grammar.finish ⟨latestFirst, last⟩ whole.stop = .parsed program :=
    finish_of_betweenStatements hlast latestFirst whole.stop
  refine ⟨.ofList chars, program, ?_⟩
  have hall : grammar.readAll {} whole.words = .ok ⟨latestFirst, last⟩ := by
    rw [hwords, readAll_append, hread]
    exact hreadMore
  exact (parse_eq_iff (by simp)).mpr ⟨whole, _, hwhole, hall, hprogram⟩

end Grammar

/-- Whatever the table, a text without NUL that needs more input becomes a program with some lines
behind it. -/
theorem completable_of_needsMoreInput (table : OperatorTable) (text : String)
    (hnul : '\x00' ∉ text.toList)
    (h : ({ operators := table } : Grammar).parse text = .needsMoreInput) :
    ∃ rest program,
      ({ operators := table } : Grammar).parse (text ++ "\n" ++ rest) = .parsed program := by
  refine Grammar.exists_parsed_of_needsMoreInput ?_ hnul h
  simp [Grammar.Allows]

/-- An operator waits for its operand, in an argument of a call in a group in a body. -/
theorem completable_of_needsMoreInput_nested :
    '\x00' ∉ "defn f(a b) \x7b (g(a, b + ".toList ∧
      ({} : Grammar).parse "defn f(a b) \x7b (g(a, b + " = .needsMoreInput ∧
      ∃ rest program,
        ({} : Grammar).parse ("defn f(a b) \x7b (g(a, b + " ++ "\n" ++ rest) =
          .parsed program := by
  have hnul : '\x00' ∉ "defn f(a b) \x7b (g(a, b + ".toList := by decide
  have h : ({} : Grammar).parse "defn f(a b) \x7b (g(a, b + " = .needsMoreInput := by rfl
  exact ⟨hnul, h, completable_of_needsMoreInput .standard _ hnul h⟩

end Fixity
