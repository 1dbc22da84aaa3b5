import Fixity.Proofs.Parse.Concatenation

/-! # Commas that can be left out

A token that is read behind a comma is read alike without it, unless a name would then be called. -/

namespace Fixity

/-- A comma that does not keep a name apart from a parenthesis. -/
structure IsSpare (before : List Token) (comma : Token) (after : List Token) : Prop where
  isSymbol : comma.isSymbol ","
  apart : ¬ ((∃ name ∈ before.getLast?, name.kind = .identifier) ∧
    ∃ opening ∈ after.head?, opening.isSymbol "(")

/-- All tokens that are not kept, behind those that are done, are spare commas. -/
def DropsSpare (keep : Token → Bool) (done words : List Token) : Prop :=
  ∀ before comma after, words = before ++ comma :: after → keep comma = false →
    IsSpare (done ++ before) comma after

namespace DropsSpare

variable {keep : Token → Bool} {done words : List Token} {token : Token}
  (h : DropsSpare keep done (token :: words))
include h

theorem head (hdropped : keep token = false) : IsSpare done token words := by
  rw [← List.append_nil done]
  exact h [] token words rfl hdropped

theorem tail : DropsSpare keep (done ++ [token]) words := by
  intro before comma after heq hdropped
  rw [List.append_assoc]
  exact h (token :: before) comma after (by rw [heq, List.cons_append]) hdropped

end DropsSpare

/-- What a comma leads to behind a parameter and behind an argument. -/
inductive Separates : Reading → Reading → Prop
  | parameter {head name latestFirst} :
      Separates (.afterParameter head name latestFirst) (.parameter head name latestFirst)
  | name {name callee latestFirst surroundings outer} :
      Surroundings.base surroundings = .argument callee latestFirst outer →
      Separates (.afterName name surroundings)
        (.argument callee (surroundings.whole (.var name) :: latestFirst) outer)
  | operand {e callee latestFirst surroundings outer} :
      Surroundings.base surroundings = .argument callee latestFirst outer →
      Separates (.afterOperand e surroundings)
        (.argument callee (surroundings.whole e :: latestFirst) outer)

namespace Grammar

variable {grammar : Grammar} {reading next : Reading} {token comma : Token} {step : Advance}
  {e : Expr} {callee : String} {latestFirst : List Expr} {surroundings outer : Surroundings}

theorem beginsOperand_of_readOperand (h : grammar.readOperand surroundings token = .ok reading) :
    token.beginsOperand := by
  unfold readOperand at h
  split at h
  · cases h
  · split at h
    · next hsymbol => exact .inl hsymbol
    · split at h
      · next hkind => exact .inr (.inl hkind)
      · next hkind => exact .inr (.inr hkind)
      · cases h

/-- An argument does not begin with a comma, nor with an operator. -/
theorem not_comma_of_readArgument
    (h : grammar.readArgument callee latestFirst outer token = .ok reading) :
    ¬ token.isSymbol "," ∧ token.kind ≠ .operator := by
  unfold readArgument at h
  split at h
  · next hclosing =>
      have hkind : token.kind ≠ .operator := by simp [(Token.isSymbol_iff.mp hclosing).1]
      exact ⟨Token.not_isSymbol_of_isSymbol hclosing (by decide), hkind⟩
  · have hbegins := beginsOperand_of_readOperand h
    exact ⟨hbegins.not_isSymbol (by decide), hbegins.kind_ne_operator⟩

theorem not_comma_of_readParameter {head : HeadKind} {name : String} {parameters : List String}
    (h : readParameter head name parameters token = .ok step) : ¬ token.isSymbol "," := by
  unfold readParameter at h
  split at h
  · next hkind => exact Token.not_isSymbol_of_kind (by simp [hkind]) _
  · split at h
    · next hclosing => exact Token.not_isSymbol_of_isSymbol hclosing (by decide)
    · cases h

section Comma

variable (hcomma : comma.isSymbol ",")
include hcomma

theorem readOperand_comma_ne_ok :
    grammar.readOperand surroundings comma ≠ .ok reading :=
  fun h => (beginsOperand_of_readOperand h).not_isSymbol (by decide) hcomma

theorem readStart_comma_ne_ok : grammar.readStart comma ≠ .ok reading := by
  simp only [readStart, (Token.isSymbol_iff.mp hcomma).1]
  exact readOperand_comma_ne_ok hcomma

theorem base_of_readAfterOperand_comma
    (h : grammar.readAfterOperand e surroundings comma = .ok step) :
    ∃ callee latestFirst outer, surroundings.base = .argument callee latestFirst outer ∧
      step = { reading := .argument callee (surroundings.whole e :: latestFirst) outer } := by
  have hkind : comma.kind ≠ .operator := by simp [(Token.isSymbol_iff.mp hcomma).1]
  rw [readAfterOperand, if_neg hkind, readAfterExpr_eq] at h
  cases hbase : surroundings.base with
  | statement =>
      rw [hbase, readAfterExpr] at h
      obtain ⟨reading, hstart, -⟩ := map_eq_ok_iff.mp h
      exact absurd hstart (readStart_comma_ne_ok hcomma)
  | body prototype =>
      rw [hbase, readAfterExpr,
        if_neg (Token.not_isSymbol_of_isSymbol hcomma (by decide))] at h
      cases h
  | group outer =>
      rw [hbase, readAfterExpr,
        if_neg (Token.not_isSymbol_of_isSymbol hcomma (by decide))] at h
      cases h
  | argument callee latestFirst outer =>
      rw [hbase, readAfterExpr, if_pos hcomma] at h
      cases h
      exact ⟨callee, latestFirst, outer, rfl, rfl⟩
  | operand left op outer => exact absurd hbase (Surroundings.base_ne_operand _ left op outer)

theorem separates_of_read_comma (h : grammar.read reading comma = .ok step) :
    step.completed = none ∧ Separates reading step.reading := by
  have hother : ∀ symbol, "," ≠ symbol → ¬ comma.isSymbol symbol :=
    fun symbol hne => Token.not_isSymbol_of_isSymbol hcomma hne
  have hkind : comma.kind ≠ .identifier := by simp [(Token.isSymbol_iff.mp hcomma).1]
  cases reading with
  | ready =>
      obtain ⟨next, hstart, -⟩ := map_eq_ok_iff.mp h
      exact absurd hstart (readStart_comma_ne_ok hcomma)
  | functionName head =>
      rw [read, if_neg hkind] at h
      cases h
  | parameterList head name =>
      rw [read, if_neg (hother _ (by decide))] at h
      cases h
  | parameter head name parameters =>
      exact absurd hcomma (not_comma_of_readParameter h)
  | afterParameter head name parameters =>
      rw [read, if_pos hcomma] at h
      cases h
      exact ⟨rfl, .parameter⟩
  | bodyStart prototype =>
      rw [read, if_neg (hother _ (by decide))] at h
      cases h
  | operand surroundings =>
      obtain ⟨next, hoperand, -⟩ := map_eq_ok_iff.mp h
      exact absurd hoperand (readOperand_comma_ne_ok hcomma)
  | afterName name surroundings =>
      rw [read, if_neg (hother _ (by decide))] at h
      obtain ⟨callee, latestFirst, outer, hbase, rfl⟩ := base_of_readAfterOperand_comma hcomma h
      exact ⟨rfl, .name hbase⟩
  | afterOperand e surroundings =>
      obtain ⟨callee, latestFirst, outer, hbase, rfl⟩ := base_of_readAfterOperand_comma hcomma h
      exact ⟨rfl, .operand hbase⟩
  | argument callee latestFirst outer =>
      obtain ⟨next, hargument, -⟩ := map_eq_ok_iff.mp h
      exact absurd hcomma (not_comma_of_readArgument hargument).1

end Comma

/-- Behind an argument, the next one is read as behind the comma. -/
theorem readAfterOperand_of_readArgument
    (hbase : surroundings.base = .argument callee latestFirst outer)
    (h : grammar.readArgument callee (surroundings.whole e :: latestFirst) outer token =
      .ok next) :
    grammar.readAfterOperand e surroundings token = .ok { reading := next } := by
  obtain ⟨hcomma, hkind⟩ := not_comma_of_readArgument h
  rw [readAfterOperand, if_neg hkind, readAfterExpr_eq, hbase, readAfterExpr, if_neg hcomma, h]
  rfl

end Grammar

namespace Separates

variable {grammar : Grammar} {reading next : Reading} {token : Token} {step : Advance}

theorem finish_eq (h : Separates reading next) (latestFirst : List Declaration) (stop : Token) :
    grammar.finish ⟨latestFirst, next⟩ stop = .needsMoreInput := by
  cases h <;> rfl

theorem read_eq (h : Separates reading next) (hread : grammar.read next token = .ok step)
    (hcall : ∀ name surroundings, reading = .afterName name surroundings →
      ¬ token.isSymbol "(") :
    ¬ token.isSymbol "," ∧ grammar.read reading token = .ok step := by
  cases h with
  | parameter =>
      have hcomma := Grammar.not_comma_of_readParameter hread
      refine ⟨hcomma, ?_⟩
      rw [Grammar.read, if_neg hcomma]
      exact hread
  | name hbase =>
      obtain ⟨next, hargument, rfl⟩ := map_eq_ok_iff.mp hread
      refine ⟨(Grammar.not_comma_of_readArgument hargument).1, ?_⟩
      rw [Grammar.read, if_neg (hcall _ _ rfl)]
      exact Grammar.readAfterOperand_of_readArgument hbase hargument
  | operand hbase =>
      obtain ⟨next, hargument, rfl⟩ := map_eq_ok_iff.mp hread
      exact ⟨(Grammar.not_comma_of_readArgument hargument).1,
        Grammar.readAfterOperand_of_readArgument hbase hargument⟩

end Separates

namespace Grammar

variable {grammar : Grammar} {progress next last : Progress} {done after : List Token}
  {comma token stop : Token}

/-! ## Many tokens -/

theorem finish_of_advance_comma (hcomma : comma.isSymbol ",")
    (h : grammar.advance progress comma = .ok next) :
    grammar.finish next stop = .needsMoreInput := by
  obtain ⟨step, hread, rfl⟩ := advance_eq_ok_iff.mp h
  exact (separates_of_read_comma hcomma hread).2.finish_eq _ stop

/-- The token behind a spare comma is none, and leads on as well from in front of that comma. -/
theorem advance_of_isSpare (hdone : grammar.readAll {} done = .ok progress)
    (hspare : IsSpare done comma (token :: after))
    (hcomma : grammar.advance progress comma = .ok next)
    (htoken : grammar.advance next token = .ok last) :
    ¬ token.isSymbol "," ∧ grammar.advance progress token = .ok last := by
  obtain ⟨step, hread, rfl⟩ := advance_eq_ok_iff.mp hcomma
  obtain ⟨step', hread', rfl⟩ := advance_eq_ok_iff.mp htoken
  obtain ⟨hcompleted, hseparates⟩ := separates_of_read_comma hspare.isSymbol hread
  have hcall : ∀ name surroundings, progress.reading = .afterName name surroundings →
      ¬ token.isSymbol "(" := by
    intro name surroundings hreading hopening
    obtain ⟨before, hbefore, hkind⟩ := getLast?_of_afterName hdone hreading
    exact hspare.apart ⟨⟨before, hbefore, hkind⟩, token, rfl, hopening⟩
  obtain ⟨hnot, hskipped⟩ := hseparates.read_eq hread' hcall
  refine ⟨hnot, ?_⟩
  rw [hcompleted]
  exact advance_of_read hskipped progress.latestFirst

/-- Spare commas can be left out of the tokens of a program. -/
theorem readAll_filter {keep : Token → Bool} {done words : List Token} {progress last : Progress}
    {program : Program} (hdone : grammar.readAll {} done = .ok progress)
    (hwords : grammar.readAll progress words = .ok last)
    (hlast : grammar.finish last stop = .parsed program) (hspare : DropsSpare keep done words) :
    grammar.readAll progress (words.filter keep) = .ok last := by
  match words with
  | [] => exact hwords
  | token :: rest =>
      obtain ⟨next, hnext, hrest⟩ := bind_eq_ok_iff.mp hwords
      have hdone' : grammar.readAll {} (done ++ [token]) = .ok next :=
        readAll_concat_eq_ok_iff.mpr ⟨progress, hdone, hnext⟩
      cases hkeep : keep token with
      | true =>
          rw [List.filter_cons_of_pos hkeep, readAll_cons, hnext]
          exact readAll_filter hdone' hrest hlast hspare.tail
      | false =>
          have hcomma : IsSpare done token rest := hspare.head hkeep
          -- A text that ends behind a comma is no program, so another token follows.
          match rest with
          | [] =>
              cases hrest
              rw [finish_of_advance_comma hcomma.isSymbol hnext] at hlast
              cases hlast
          | second :: rest =>
              obtain ⟨further, hfurther, hrest'⟩ := bind_eq_ok_iff.mp hrest
              obtain ⟨hnot, hsecond⟩ := advance_of_isSpare hdone hcomma hnext hfurther
              have hkeep' : keep second = true := by
                cases hdropped : keep second with
                | true => rfl
                | false => exact absurd (hspare.tail.head hdropped).isSymbol hnot
              have hdone'' : grammar.readAll {} (done ++ [token] ++ [second]) = .ok further :=
                readAll_concat_eq_ok_iff.mpr ⟨next, hdone', hfurther⟩
              rw [List.filter_cons_of_neg (by simp [hkeep]), List.filter_cons_of_pos hkeep',
                readAll_cons, hsecond]
              exact readAll_filter hdone'' hrest' hlast hspare.tail.tail
termination_by words.length

end Grammar

end Fixity
