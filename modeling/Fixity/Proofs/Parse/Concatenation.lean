import Fixity.Proofs.Parse.Precedence
import Fixity.Proofs.Reading.Opening
import Fixity.Proofs.Reading.Places
import Fixity.Proofs.Token.Lines

/-! # Programs behind one another

Two programs with a line break between them are parsed as the declarations of the one and then those
of the other. -/

namespace Fixity

/-- The tokens of a text, if it has any. -/
def wordsOf (text : String) : List Token :=
  match scan text with
  | .ok scanned => scanned.words
  | .error _ => []

/-- The back would continue the front: a name ends the front, and a parenthesis begins the back. -/
def MeetsName (front back : String) : Prop :=
  (∃ name ∈ (wordsOf front).getLast?, name.kind = .identifier) ∧
    ∃ opening ∈ (wordsOf back).head?, opening.isSymbol "("

instance (front back : String) : Decidable (MeetsName front back) :=
  inferInstanceAs (Decidable (_ ∧ _))

theorem Surroundings.complete?_eq_some {e : Expr} {surroundings : Surroundings}
    {declaration : Declaration} (h : surroundings.complete? e = some declaration) :
    surroundings.base = .statement ∧
      declaration = .definition .anonymous (surroundings.whole e) := by
  rw [complete?_eq] at h
  cases hbase : surroundings.base with
  | statement =>
      rw [hbase] at h
      cases h
      exact ⟨rfl, rfl⟩
  | operand left op outer => exact absurd hbase (base_ne_operand surroundings left op outer)
  | body prototype | group outer | argument callee latestFirst outer =>
      rw [hbase] at h
      cases h

namespace Grammar

variable {grammar : Grammar} {progress last : Progress} {program more : Program}
  {token stop : Token} {reading : Reading}

/-! ## The end of a program -/

theorem finishExpr_eq_parsed {e : Expr} {surroundings : Surroundings}
    (h : finishExpr progress e surroundings = .parsed program) :
    ∃ declaration, surroundings.complete? e = some declaration ∧
      program = progress.latestFirst.reverse ++ [declaration] := by
  unfold finishExpr at h
  cases hcomplete : surroundings.complete? e with
  | none =>
      rw [hcomplete] at h
      cases h
  | some declaration =>
      rw [hcomplete] at h
      cases h
      exact ⟨declaration, rfl, by simp⟩

/-- Declarations in front of a program come first in it. -/
theorem finish_frame (latestFirst : List Declaration) (stop' : Token)
    (h : grammar.finish progress stop = .parsed program) :
    grammar.finish ⟨progress.latestFirst ++ latestFirst, progress.reading⟩ stop' =
      .parsed (latestFirst.reverse ++ program) := by
  have hexpr : ∀ e surroundings, finishExpr progress e surroundings = .parsed program →
      finishExpr ⟨progress.latestFirst ++ latestFirst, progress.reading⟩ e surroundings =
        .parsed (latestFirst.reverse ++ program) := by
    intro e surroundings hfinish
    obtain ⟨declaration, hcomplete, rfl⟩ := finishExpr_eq_parsed hfinish
    simp [finishExpr, hcomplete]
  obtain ⟨declarations, reading⟩ := progress
  cases reading with
  | ready =>
      cases h
      simp [finish]
  | operand surroundings =>
      simp only [finish] at h
      split at h <;> cases h
  | afterName name surroundings => exact hexpr _ _ h
  | afterOperand e surroundings => exact hexpr _ _ h
  | _ => cases h

theorem kind_ne_operator_of_readStart (h : grammar.readStart token = .ok reading) :
    token.kind ≠ .operator := by
  intro hkind
  have hsymbol : ¬ token.isSymbol "(" := Token.not_isSymbol_of_kind (by simp [hkind]) _
  simp only [readStart, readOperand, hkind, if_neg hsymbol] at h
  split at h <;> cases h

/-- Behind a statement, the token that begins the next one completes it. -/
theorem readAfterOperand_of_complete? {e : Expr} {surroundings : Surroundings}
    {declaration : Declaration} (hcomplete : surroundings.complete? e = some declaration)
    (hstart : grammar.readStart token = .ok reading) :
    grammar.readAfterOperand e surroundings token = .ok ⟨some declaration, reading⟩ := by
  obtain ⟨hbase, rfl⟩ := Surroundings.complete?_eq_some hcomplete
  rw [readAfterOperand, if_neg (kind_ne_operator_of_readStart hstart), readAfterExpr_eq, hbase,
    readAfterExpr, hstart]
  rfl

/-- Where a text could end as a program, another one can begin. -/
theorem read_of_finish_eq_parsed (h : grammar.finish progress stop = .parsed program)
    (hstart : grammar.readStart token = .ok reading)
    (hcall : ∀ name surroundings, progress.reading = .afterName name surroundings →
      ¬ token.isSymbol "(") :
    ∃ completed, grammar.read progress.reading token = .ok ⟨completed, reading⟩ ∧
      program = progress.latestFirst.reverse ++ completed.toList := by
  obtain ⟨latestFirst, reached⟩ := progress
  cases reached with
  | ready =>
      cases h
      refine ⟨none, ?_, by simp⟩
      rw [read, hstart]
      rfl
  | operand surroundings =>
      simp only [finish] at h
      split at h <;> cases h
  | afterName name surroundings =>
      obtain ⟨declaration, hcomplete, rfl⟩ := finishExpr_eq_parsed h
      refine ⟨some declaration, ?_, rfl⟩
      rw [read, if_neg (hcall name surroundings rfl)]
      exact readAfterOperand_of_complete? hcomplete hstart
  | afterOperand e surroundings =>
      obtain ⟨declaration, hcomplete, rfl⟩ := finishExpr_eq_parsed h
      exact ⟨some declaration, readAfterOperand_of_complete? hcomplete hstart, rfl⟩
  | _ => cases h

/-! ## Another program behind it -/

/-- Tokens that make a program by themselves add it to the program in front of them. -/
theorem exists_readAll_of_finish_eq_parsed {stop' : Token} {tokens : List Token}
    (h : grammar.finish progress stop = .parsed program)
    (hread : grammar.readAll {} tokens = .ok last)
    (hlast : grammar.finish last stop' = .parsed more)
    (hcall : ∀ name surroundings, progress.reading = .afterName name surroundings →
      ∀ opening ∈ tokens.head?, ¬ opening.isSymbol "(") :
    ∃ whole, grammar.readAll progress tokens = .ok whole ∧
      ∀ stop, grammar.finish whole stop = .parsed (program ++ more) := by
  cases tokens with
  | nil =>
      cases hread
      cases hlast
      refine ⟨progress, rfl, ?_⟩
      intro stop'
      simpa using finish_frame [] stop' h
  | cons token tokens =>
      obtain ⟨next, hnext, hrest⟩ := bind_eq_ok_iff.mp hread
      obtain ⟨step, hstep, rfl⟩ := advance_eq_ok_iff.mp hnext
      obtain ⟨reading, hstart, rfl⟩ := map_eq_ok_iff.mp hstep
      obtain ⟨completed, hcompleted, rfl⟩ := read_of_finish_eq_parsed h hstart
        fun name surroundings heq => hcall name surroundings heq token rfl
      refine ⟨⟨last.latestFirst ++ (completed.toList ++ progress.latestFirst), last.reading⟩,
        ?_, ?_⟩
      · rw [readAll_cons, advance_of_read hcompleted progress.latestFirst]
        exact readAll_frame _ hrest
      · intro stop'
        rw [finish_frame _ stop' hlast, List.reverse_append, reverse_toList]

theorem getLast?_of_afterName {tokens : List Token} {name : String} {surroundings : Surroundings}
    (h : grammar.readAll {} tokens = .ok progress)
    (hreading : progress.reading = .afterName name surroundings) :
    ∃ last, tokens.getLast? = some last ∧ last.kind = .identifier := by
  obtain ⟨statements, before, behind, rfl, -, -, hreached⟩ := accounts_of_readAll h
  rw [hreading] at hreached
  cases hreached with
  | @afterName last _ tokens _ hkind => exact ⟨last, by simp, hkind⟩

/-- Two programs on lines of their own are parsed one after the other. -/
theorem parse_append_line {text rest : String} (hnul : '\x00' ∉ text.toList)
    (h : grammar.parse (text ++ "\n") = .parsed program) (hrest : grammar.parse rest = .parsed more)
    (hmeets : ¬ MeetsName (text ++ "\n") rest) :
    grammar.parse (text ++ "\n" ++ rest) = .parsed (program ++ more) := by
  obtain ⟨scanned, progress, hscan, hread, hfinish⟩ := (parse_eq_iff (by simp)).mp h
  obtain ⟨alone, last, hscanRest, hreadRest, hfinishRest⟩ := (parse_eq_iff (by simp)).mp hrest
  obtain ⟨whole, behind, hwhole, hwords, hbehind⟩ :=
    scan_append_line (.inr rfl) hnul hscan hscanRest
  have hreadBehind := readAll_of_lexemes_eq hbehind.symm hreadRest
  have hcall : ∀ name surroundings, progress.reading = .afterName name surroundings →
      ∀ opening ∈ behind.head?, ¬ opening.isSymbol "(" := by
    intro name surroundings hreading opening hopening hsymbol
    obtain ⟨lastWord, hlast, hkind⟩ := getLast?_of_afterName hread hreading
    have hhead : alone.words.head?.map Token.lexeme = some opening.lexeme := by
      rw [← List.head?_map, ← hbehind, List.head?_map, hopening]
      rfl
    obtain ⟨first, hfirst, hlexeme⟩ := Option.map_eq_some_iff.mp hhead
    refine hmeets ⟨⟨lastWord, ?_, hkind⟩, first, ?_, ?_⟩
    · rw [wordsOf, hscan]
      exact hlast
    · rw [wordsOf, hscanRest]
      exact hfirst
    · rw [Token.eq_moved_of_lexeme_eq hlexeme] at hsymbol
      exact hsymbol
  obtain ⟨final, hfinal, hparsed⟩ :=
    exists_readAll_of_finish_eq_parsed hfinish hreadBehind hfinishRest hcall
  have hall : grammar.readAll {} whole.words = .ok final := by
    rw [hwords, readAll_append, hread]
    exact hfinal
  exact (parse_eq_iff (by simp)).mpr ⟨whole, final, hwhole, hall, hparsed whole.stop⟩

/-- A line break does not keep a name from what it calls. -/
example : ({} : Grammar).parse ("f" ++ "\n" ++ "(x)") =
    .parsed [.definition .anonymous (.call "f" [.var "x"])] := by rfl

end Grammar

end Fixity
