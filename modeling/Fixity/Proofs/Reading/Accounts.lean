import Fixity.Proofs.Reading.Run
import Fixity.Proofs.Reading.Spelling

/-! # Every token is accounted for

The tokens read so far are those of the completed declarations and then those up to the reading. -/

namespace Fixity

/-- The tokens are those of the declarations and, behind them, those up to the reading. -/
def Accounts (table : OperatorTable) (tokens : List Token) (declarations : List Declaration)
    (reading : Reading) : Prop :=
  ∃ statements before behind, tokens = before ++ behind ∧ Written table statements before ∧
    statements.map Statement.declaration = declarations ∧ Reached table reading behind

variable {table : OperatorTable} {grammar : Grammar} {tokens others : List Token} {token : Token}

theorem Accounts.of_reached {reading : Reading} (h : Reached table reading tokens) :
    Accounts table tokens [] reading :=
  ⟨[], [], tokens, rfl, .nil, rfl, h⟩

theorem Accounts.of_statement {statement : Statement} {reading : Reading}
    (hwritten : Written table [statement] tokens) (h : Reached table reading others) :
    Accounts table (tokens ++ others) [statement.declaration] reading :=
  ⟨[statement], tokens, others, rfl, hwritten, rfl, h⟩

theorem Accounts.append {declarations more : List Declaration} {reading reading' : Reading}
    (h : Accounts table tokens declarations reading)
    (hmore : ∀ behind, Reached table reading behind →
      Accounts table (behind ++ others) more reading') :
    Accounts table (tokens ++ others) (declarations ++ more) reading' := by
  obtain ⟨statements, before, behind, rfl, hwritten, rfl, hreached⟩ := h
  obtain ⟨statements', before', behind', heq, hwritten', rfl, hreached'⟩ := hmore behind hreached
  refine ⟨statements ++ statements', before ++ before', behind', ?_, hwritten.append hwritten',
    by simp, hreached'⟩
  rw [List.append_assoc, heq, List.append_assoc]

/-! ## One step -/

theorem Reached.readNumber {surroundings : Surroundings} {reading : Reading}
    (h : Leads table surroundings tokens) (hkind : token.kind = .number)
    (hread : Grammar.readNumber token surroundings = .ok reading) :
    Reached table reading (tokens ++ [token]) := by
  unfold Grammar.readNumber at hread
  split at hread
  · next value hvalue =>
      cases hread
      exact .afterOperand (.literal value) h trivial (.literal hkind hvalue)
        (Phrase.fullyGrouped_literal value)
  · cases hread
  · cases hread

theorem Reached.readOperand {surroundings : Surroundings} {reading : Reading}
    (h : Leads table surroundings tokens)
    (hread : grammar.readOperand surroundings token = .ok reading) :
    Reached table reading (tokens ++ [token]) := by
  unfold Grammar.readOperand at hread
  split at hread
  · cases hread
  · split at hread
    · next hopening =>
        cases hread
        exact .operand (.group h hopening)
    · split at hread
      · next hkind =>
          cases hread
          exact .afterName h hkind
      · next hkind => exact .readNumber h hkind hread
      · cases hread

theorem Reached.readStart {reading : Reading} (hread : grammar.readStart token = .ok reading) :
    Reached table reading [token] := by
  unfold Grammar.readStart at hread
  split at hread
  · next hkind =>
      cases hread
      exact .functionName hkind
  · next hkind =>
      cases hread
      exact .functionName hkind
  · exact .readOperand .statement hread

theorem Accounts.readParameter {word name opening : Token} {head : HeadKind} {names : List String}
    {step : Advance} (hword : word.kind = head.wordKind) (hname : name.kind = .identifier)
    (hopening : opening.isSymbol "(") (hnames : SpellsParameters names tokens)
    (hread : Grammar.readParameter head name.text names.reverse token = .ok step) :
    Accounts table (word :: name :: opening :: tokens ++ [token]) step.completed.toList
      step.reading := by
  unfold Grammar.readParameter at hread
  split at hread
  · next hkind =>
      cases hread
      exact .of_reached (.afterParameter hword hname hopening hnames hkind)
  · split at hread
    · next hclosing =>
        have hprototype := SpellsPrototype.mk hname hopening hnames hclosing
        rw [List.reverse_reverse] at hread
        cases head with
        | external =>
            cases hread
            have hwritten : Written table [.external _] _ :=
              .singleton (.external hword hprototype) (by simp [Statement.body?])
            simpa [Statement.declaration] using Accounts.of_statement hwritten .ready
        | definition =>
            cases hread
            exact .of_reached (.bodyStart hword hprototype)
    · cases hread

theorem Reached.readArgument {callee : String} {latestFirst : List Expr} {outer : Surroundings}
    {reading : Reading} (h : Leads table (.argument callee latestFirst outer) tokens)
    (hread : grammar.readArgument callee latestFirst outer token = .ok reading) :
    Reached table reading (tokens ++ [token]) := by
  unfold Grammar.readArgument at hread
  split at hread
  · next hclosing =>
      cases hread
      cases h with
      | @argument name opening _ tokens arguments others hlead hname hopening hspells hgrouped =>
          have hcall := Spells.call hname hopening hspells hclosing
          simpa [Phrase.expr] using Reached.afterOperand (.call _ _) hlead trivial hcall
            (Phrase.fullyGrouped_call hgrouped)
  · exact .readOperand h hread

theorem Leads.argument_concat {callee : String} {latestFirst : List Expr} {outer : Surroundings}
    {phrase : Phrase} {comma : List Token}
    (h : Leads table (.argument callee latestFirst outer) tokens)
    (hspells : Spells table phrase others) (hgrouped : phrase.FullyGrouped)
    (hcomma : OptionalComma comma) :
    Leads table (.argument callee (phrase.expr :: latestFirst) outer)
      (tokens ++ others ++ comma) := by
  cases h with
  | argument hlead hname hopening harguments hall =>
      have hone := SpellsArguments.cons hspells hcomma .nil
      have hmore := Leads.argument hlead hname hopening (harguments.append hone) (by
        intro argument hargument
        rcases List.mem_append.mp hargument with hmem | hmem
        · exact hall argument hmem
        · rw [List.mem_singleton.mp hmem]
          exact hgrouped)
      simpa [Phrase.exprs_eq_map] using hmore

/-- Behind a whole expression, what it stands in decides. -/
theorem Accounts.readAfterExpr_of_base {surroundings : Surroundings} {phrase : Phrase}
    {step : Advance} (h : Leads table surroundings tokens) (hspells : Spells table phrase others)
    (hgrouped : phrase.FullyGrouped) (hbase : surroundings.base = surroundings)
    (hread : grammar.readAfterExpr token phrase.expr surroundings = .ok step) :
    Accounts table (tokens ++ others ++ [token]) step.completed.toList step.reading := by
  cases h with
  | statement =>
      obtain ⟨reading, hstart, rfl⟩ := map_eq_ok_iff.mp hread
      have hwritten : Written table [.expression phrase] others :=
        .singleton (.expression hspells) (by simpa [Statement.body?])
      exact .of_statement hwritten (.readStart hstart)
  | body hword hprototype hopening =>
      simp only [Grammar.readAfterExpr] at hread
      split at hread
      · next hclosing =>
          cases hread
          have hwritten : Written table [.definition _ phrase] _ := .singleton
            (.definition hword hprototype hopening hspells hclosing) (by simpa [Statement.body?])
          simpa [Statement.declaration] using Accounts.of_statement hwritten .ready
      · cases hread
  | group hlead hopening =>
      simp only [Grammar.readAfterExpr] at hread
      split at hread
      · next hclosing =>
          cases hread
          have hgroup := Spells.group hopening hspells hclosing
          simpa [Phrase.expr] using Accounts.of_reached (Reached.afterOperand (.group _)
            hlead trivial hgroup (Phrase.fullyGrouped_group hgrouped))
      · cases hread
  | argument hlead hname hopening harguments hall =>
      have hlist := Leads.argument hlead hname hopening harguments hall
      simp only [Grammar.readAfterExpr] at hread
      split at hread
      · next hcomma =>
          cases hread
          exact .of_reached (.argument (hlist.argument_concat hspells hgrouped (.present _ hcomma)))
      · obtain ⟨reading, hargument, rfl⟩ := map_eq_ok_iff.mp hread
        have hmore := hlist.argument_concat hspells hgrouped .absent
        rw [List.append_nil] at hmore
        exact .of_reached (.readArgument hmore hargument)
  | operand => exact absurd hbase (Surroundings.base_ne_operand _ _ _ _)

theorem Accounts.readAfterExpr {surroundings : Surroundings} {phrase : Phrase} {step : Advance}
    (h : Leads table surroundings tokens) (hphrase : Climbed table surroundings.floor phrase others)
    (hread : grammar.readAfterExpr token phrase.expr surroundings = .ok step) :
    Accounts table (tokens ++ others ++ [token]) step.completed.toList step.reading := by
  obtain ⟨whole, before, behind, heq, hwhole, hlead, hspells, hgrouped⟩ := h.close hphrase
  rw [grammar.readAfterExpr_eq, hwhole] at hread
  rw [heq]
  exact readAfterExpr_of_base hlead hspells hgrouped (Surroundings.base_base _) hread

theorem Accounts.readAfterOperand (phrase : Phrase) {surroundings : Surroundings} {step : Advance}
    (h : Leads grammar.operators surroundings tokens) (hoperand : phrase.IsOperand)
    (hspells : Spells grammar.operators phrase others) (hgrouped : phrase.FullyGrouped)
    (hread : grammar.readAfterOperand phrase.expr surroundings token = .ok step) :
    Accounts grammar.operators (tokens ++ others ++ [token]) step.completed.toList
      step.reading := by
  unfold Grammar.readAfterOperand at hread
  split at hread
  · next hkind =>
      split at hread
      · cases hread
      · next op hop =>
          cases hread
          obtain ⟨left, before, behind, heq, hleft, hlead, hclimbed, hfloor, hbelow⟩ :=
            h.fold (.of_isOperand hoperand hspells hgrouped) op.precedence
              (by simp [Phrase.rightSpine_of_isOperand hoperand])
          rw [heq, hleft]
          exact .of_reached (.operand (.operand hlead hclimbed hfloor hbelow hkind hop))
  · exact .readAfterExpr h (.of_isOperand hoperand hspells hgrouped) hread

theorem Accounts.read {reading : Reading} {step : Advance}
    (h : Reached grammar.operators reading tokens)
    (hread : grammar.read reading token = .ok step) :
    Accounts grammar.operators (tokens ++ [token]) step.completed.toList step.reading := by
  cases h with
  | ready =>
      obtain ⟨reading, hstart, rfl⟩ := map_eq_ok_iff.mp hread
      exact .of_reached (.readStart hstart)
  | functionName hword =>
      simp only [Grammar.read] at hread
      split at hread
      · next hname =>
          cases hread
          exact .of_reached (.parameterList hword hname)
      · cases hread
  | parameterList hword hname =>
      simp only [Grammar.read] at hread
      split at hread
      · next hopening =>
          cases hread
          exact .of_reached (.parameter hword hname hopening .nil)
      · cases hread
  | parameter hword hname hopening hnames =>
      exact .readParameter hword hname hopening hnames hread
  | afterParameter hword hname hopening hnames hlast =>
      simp only [Grammar.read] at hread
      split at hread
      · next hcomma =>
          cases hread
          have hmore := hnames.append (.cons hlast (.present _ hcomma) .nil)
          simpa using Accounts.of_reached (Reached.parameter hword hname hopening hmore)
      · have hmore := hnames.append (.cons hlast .absent .nil)
        rw [← List.reverse_concat] at hread
        simpa using Accounts.readParameter hword hname hopening hmore hread
  | bodyStart hword hprototype =>
      simp only [Grammar.read] at hread
      split at hread
      · next hopening =>
          cases hread
          exact .of_reached (.operand (.body hword hprototype hopening))
      · cases hread
  | operand hlead =>
      obtain ⟨reading, hoperand, rfl⟩ := map_eq_ok_iff.mp hread
      exact .of_reached (.readOperand hlead hoperand)
  | afterName hlead hname =>
      simp only [Grammar.read] at hread
      split at hread
      · next hopening =>
          cases hread
          simpa [Phrase.exprs] using Accounts.of_reached (Reached.argument
            (Leads.argument hlead hname hopening .nil (by simp)))
      · exact .readAfterOperand (.var _) hlead trivial (.var hname)
          (Phrase.fullyGrouped_var _) hread
  | afterOperand phrase hlead hoperand hspells hgrouped =>
      exact .readAfterOperand phrase hlead hoperand hspells hgrouped hread
  | argument hlead =>
      obtain ⟨reading, hargument, rfl⟩ := map_eq_ok_iff.mp hread
      exact .of_reached (.readArgument hlead hargument)

end Fixity
