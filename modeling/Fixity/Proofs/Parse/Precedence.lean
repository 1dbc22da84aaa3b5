import Fixity.Proofs.Phrase.Uniqueness
import Fixity.Proofs.Reading.Accounts

/-! # Precedence climbing builds the tree that the table prescribes

A program is spelled by the tokens of its text, and its chains have the one shape that precedences
give to them. -/

namespace Fixity

variable {grammar : Grammar}

theorem accounts_of_readAll {tokens : List Token} {progress : Progress}
    (h : grammar.readAll {} tokens = .ok progress) :
    Accounts grammar.operators tokens progress.latestFirst.reverse progress.reading := by
  refine Grammar.readAll_induction (motive := fun before progress =>
    Accounts grammar.operators before progress.latestFirst.reverse progress.reading)
    ?_ [] (.of_reached .ready) h
  intro before progress token next haccounts hadvance
  obtain ⟨step, hread, rfl⟩ := Grammar.advance_eq_ok_iff.mp hadvance
  rw [List.reverse_append, reverse_toList]
  exact haccounts.append fun behind hreached => .read hreached hread

theorem written_of_finishExpr (phrase : Phrase) {surroundings : Surroundings}
    {tokens others : List Token} {progress : Progress} {program : Program}
    (h : Leads grammar.operators surroundings tokens) (hoperand : phrase.IsOperand)
    (hspells : Spells grammar.operators phrase others) (hgrouped : phrase.FullyGrouped)
    (hfinish : Grammar.finishExpr progress phrase.expr surroundings = .parsed program) :
    ∃ statements, Written grammar.operators statements (tokens ++ others) ∧
      program = progress.latestFirst.reverse ++ statements.map Statement.declaration := by
  obtain ⟨whole, before, behind, heq, hwhole, hlead, hspells, hgrouped⟩ :=
    h.close (.of_isOperand hoperand hspells hgrouped)
  have hbase := surroundings.base_base
  rw [Grammar.finishExpr, Surroundings.complete?_eq, hwhole] at hfinish
  generalize surroundings.base = base at hlead hfinish hbase
  cases hlead with
  | statement =>
      cases hfinish
      have hwritten : Written grammar.operators [.expression whole] behind :=
        .singleton (.expression hspells) (by simpa [Statement.body?])
      exact ⟨_, by simpa [heq] using hwritten, by simp [Statement.declaration]⟩
  | operand => exact absurd hbase (Surroundings.base_ne_operand _ _ _ _)
  | _ => cases hfinish

theorem written_of_finish {reading : Reading} {tokens : List Token}
    {latestFirst : List Declaration} {stop : Token} {program : Program}
    (h : Reached grammar.operators reading tokens)
    (hfinish : grammar.finish ⟨latestFirst, reading⟩ stop = .parsed program) :
    ∃ statements, Written grammar.operators statements tokens ∧
      program = latestFirst.reverse ++ statements.map Statement.declaration := by
  cases h with
  | ready =>
      cases hfinish
      exact ⟨[], .nil, by simp⟩
  | operand =>
      simp only [Grammar.finish] at hfinish
      split at hfinish <;> cases hfinish
  | afterName hlead hname =>
      exact written_of_finishExpr (.var _) hlead trivial (.var hname) (Phrase.fullyGrouped_var _)
        hfinish
  | afterOperand phrase hlead hoperand hspells hgrouped =>
      exact written_of_finishExpr phrase hlead hoperand hspells hgrouped hfinish
  | _ => cases hfinish

/-- A parsed text is spelled like the program, and all chains in it are grouped. -/
theorem written_of_parse {text : String} {program : Program}
    (h : grammar.parse text = .parsed program) :
    ∃ scanned statements, scan text = .ok scanned ∧
      Written grammar.operators statements scanned.words ∧
      statements.map Statement.declaration = program := by
  obtain ⟨scanned, progress, hscan, hread, hfinish⟩ := (Grammar.parse_eq_iff (by simp)).mp h
  obtain ⟨statements, before, behind, heq, hwritten, hmap, hreached⟩ := accounts_of_readAll hread
  obtain ⟨last, hlast, hprogram⟩ := written_of_finish hreached hfinish
  refine ⟨scanned, statements ++ last, hscan, ?_, ?_⟩
  · rw [heq]
    exact hwritten.append hlast
  · rw [List.map_append, hmap, hprogram]

/-! ## The tree -/

/-- Every chain of a parsed text becomes the one tree over its operands and operators that
precedences and associativities allow. -/
theorem parsed_chain_unique (grammar : Grammar) (text : String) (program : Program)
    (h : grammar.parse text = .parsed program) :
    ∃ scanned statements, scan text = .ok scanned ∧
      SpellsProgram grammar.operators statements scanned.words ∧
      statements.map Statement.declaration = program ∧
      ∀ statement ∈ statements, ∀ body ∈ statement.body?, ∀ phrase ∈ body.expressions,
        phrase.Grouped ∧
        ∀ other : Phrase, other.chain = phrase.chain → other.Grouped → other = phrase := by
  obtain ⟨scanned, statements, hscan, hwritten, hprogram⟩ := written_of_parse h
  refine ⟨scanned, statements, hscan, hwritten.spells, hprogram, ?_⟩
  intro statement hstatement body hbody phrase hphrase
  have hgrouped := hwritten.grouped statement hstatement body hbody phrase hphrase
  exact ⟨hgrouped, fun other hchain hother => hother.eq_of_chain_eq hgrouped hchain⟩

/-- Operators of one precedence that are grouped to different sides share a chain. -/
theorem parsed_chain_unique_mixed_sides :
    ({ operators := .ofList [⟨"-", 7, .left⟩, ⟨"^", 7, .right⟩] } : Grammar).parse "a ^ b - f(c)" =
        .parsed [.definition .anonymous
          (.binary "^" (.var "a") (.binary "-" (.var "b") (.call "f" [.var "c"])))] ∧
      ∃ scanned statements, scan "a ^ b - f(c)" = .ok scanned ∧
        SpellsProgram (.ofList [⟨"-", 7, .left⟩, ⟨"^", 7, .right⟩]) statements scanned.words ∧
        statements.map Statement.declaration = [.definition .anonymous
          (.binary "^" (.var "a") (.binary "-" (.var "b") (.call "f" [.var "c"])))] ∧
        ∀ statement ∈ statements, ∀ body ∈ statement.body?, ∀ phrase ∈ body.expressions,
          phrase.Grouped ∧
          ∀ other : Phrase, other.chain = phrase.chain → other.Grouped → other = phrase := by
  have h : ({ operators := .ofList [⟨"-", 7, .left⟩, ⟨"^", 7, .right⟩] } : Grammar).parse
      "a ^ b - f(c)" = .parsed [.definition .anonymous
        (.binary "^" (.var "a") (.binary "-" (.var "b") (.call "f" [.var "c"])))] := by rfl
  exact ⟨h, parsed_chain_unique _ _ _ h⟩

end Fixity
