import Fixity.Proofs.Phrase.Climbing
import Fixity.Proofs.Reading.Surroundings

/-! # What a reading remembers of its tokens

`Leads` says which tokens stand in front of an expression, `Reached` which tokens a reading has
behind it. -/

namespace Fixity

/-- The tokens of a declaration up to an expression in these surroundings. -/
inductive Leads (table : OperatorTable) : Surroundings → List Token → Prop
  | statement : Leads table .statement []
  | body {word opening : Token} {prototype tokens} : word.kind = .definition →
      SpellsPrototype prototype tokens → opening.isSymbol "\x7b" →
      Leads table (.body prototype) (word :: tokens ++ [opening])
  | group {opening : Token} {outer tokens} : Leads table outer tokens → opening.isSymbol "(" →
      Leads table (.group outer) (tokens ++ [opening])
  | argument {name opening : Token} {outer tokens arguments others} : Leads table outer tokens →
      name.kind = .identifier → opening.isSymbol "(" → SpellsArguments table arguments others →
      (∀ argument ∈ arguments, argument.FullyGrouped) →
      Leads table (.argument name.text (Phrase.exprs arguments).reverse outer)
        (tokens ++ name :: opening :: others)
  | operand {operator : Token} {op left outer tokens others} : Leads table outer tokens →
      Climbed table outer.floor left others → outer.floor ≤ op.precedence →
      (∀ p ∈ left.rightSpine, op.precedence < p.rightFloor) → operator.kind = .operator →
      table.get? operator.text = some op →
      Leads table (.operand left.expr op outer) (tokens ++ others ++ [operator])

/-- The tokens of a declaration up to a reading. -/
inductive Reached (table : OperatorTable) : Reading → List Token → Prop
  | ready : Reached table .ready []
  | functionName {word : Token} {head : HeadKind} : word.kind = head.wordKind →
      Reached table (.functionName head) [word]
  | parameterList {word name : Token} {head : HeadKind} : word.kind = head.wordKind →
      name.kind = .identifier → Reached table (.parameterList head name.text) [word, name]
  | parameter {word name opening : Token} {head : HeadKind} {names tokens} :
      word.kind = head.wordKind → name.kind = .identifier → opening.isSymbol "(" →
      SpellsParameters names tokens →
      Reached table (.parameter head name.text names.reverse) (word :: name :: opening :: tokens)
  | afterParameter {word name opening last : Token} {head : HeadKind} {names tokens} :
      word.kind = head.wordKind → name.kind = .identifier → opening.isSymbol "(" →
      SpellsParameters names tokens → last.kind = .identifier →
      Reached table (.afterParameter head name.text (last.text :: names.reverse))
        (word :: name :: opening :: tokens ++ [last])
  | bodyStart {word : Token} {prototype tokens} : word.kind = .definition →
      SpellsPrototype prototype tokens → Reached table (.bodyStart prototype) (word :: tokens)
  | operand {surroundings tokens} : Leads table surroundings tokens →
      Reached table (.operand surroundings) tokens
  | afterName {name : Token} {surroundings tokens} : Leads table surroundings tokens →
      name.kind = .identifier → Reached table (.afterName name.text surroundings) (tokens ++ [name])
  | afterOperand (phrase : Phrase) {surroundings tokens others} : Leads table surroundings tokens →
      phrase.IsOperand → Spells table phrase others → phrase.FullyGrouped →
      Reached table (.afterOperand phrase.expr surroundings) (tokens ++ others)
  | argument {callee latestFirst outer tokens} :
      Leads table (.argument callee latestFirst outer) tokens →
      Reached table (.argument callee latestFirst outer) tokens

/-! ## Folding waiting operators -/

namespace Leads

variable {table : OperatorTable} {surroundings : Surroundings} {tokens others : List Token}
  {phrase : Phrase}

/-- Operators that bind tighter than the next one take the operand in front of it. -/
theorem fold (h : Leads table surroundings tokens)
    (hphrase : Climbed table surroundings.floor phrase others) (precedence : Nat)
    (hbelow : ∀ p ∈ phrase.rightSpine, precedence < p.rightFloor) :
    ∃ left before behind, tokens ++ others = before ++ behind ∧
      (surroundings.fold precedence phrase.expr).1 = left.expr ∧
      Leads table (surroundings.fold precedence phrase.expr).2 before ∧
      Climbed table (surroundings.fold precedence phrase.expr).2.floor left behind ∧
      (surroundings.fold precedence phrase.expr).2.floor ≤ precedence ∧
      ∀ p ∈ left.rightSpine, precedence < p.rightFloor := by
  induction surroundings generalizing phrase tokens others with
  | operand _ op outer ih =>
      cases h with
      | operand hlead hleft hfloor hleftBelow hkind hop =>
          by_cases hlt : precedence < op.rightFloor
          · have hjoined := hleft.binary hfloor hleftBelow hkind hop hphrase
            simpa [Surroundings.fold, hlt, Phrase.expr] using ih hlead hjoined (by
              intro p hp
              rcases List.mem_cons.mp hp with rfl | hp
              · exact hlt
              · exact hbelow p hp)
          · refine ⟨phrase, _, others, rfl, ?_⟩
            simp only [Surroundings.fold, hlt, ite_false]
            exact ⟨trivial, .operand hlead hleft hfloor hleftBelow hkind hop, hphrase,
              Nat.le_of_not_gt hlt, hbelow⟩
  | _ => exact ⟨phrase, tokens, others, rfl, rfl, h, hphrase, Nat.zero_le _, hbelow⟩

/-- At the end of an expression all waiting operators take their operands. -/
theorem close (h : Leads table surroundings tokens)
    (hphrase : Climbed table surroundings.floor phrase others) :
    ∃ whole before behind, tokens ++ others = before ++ behind ∧
      surroundings.whole phrase.expr = whole.expr ∧
      Leads table surroundings.base before ∧ Spells table whole behind ∧ whole.FullyGrouped := by
  induction surroundings generalizing phrase tokens others with
  | operand _ _ _ ih =>
      cases h with
      | operand hlead hleft hfloor hleftBelow hkind hop =>
          have hjoined := hleft.binary hfloor hleftBelow hkind hop hphrase
          simpa [Phrase.expr] using ih hlead hjoined
  | _ => exact ⟨phrase, tokens, others, rfl, rfl, h, hphrase.spells, hphrase.grouped⟩

end Leads

end Fixity
