import Fixity.Proofs.Phrase.Spelling

/-! # The grammar

An ambiguous grammar of programs, with one constructor for each production. It groups chains in any
way. -/

namespace Fixity

inductive Nonterminal where
  | unit
  | prototype
  | parameters
  | expr
  | operations
  | primary
  | arguments

/-- The grammar derives the tokens from the nonterminal. Operators are those of the table, and
numbers those that stand for a finite value. -/
inductive Derives (table : OperatorTable) : Nonterminal → List Token → Prop
  | noStatement : Derives table .unit []
  | external {word prototype rest} : word.kind = .external →
      Derives table .prototype prototype → Derives table .unit rest →
      Derives table .unit (word :: prototype ++ rest)
  | definition {word opening closing prototype body rest} : word.kind = .definition →
      Derives table .prototype prototype → opening.isSymbol "\x7b" → Derives table .expr body →
      closing.isSymbol "\x7d" → Derives table .unit rest →
      Derives table .unit (word :: prototype ++ opening :: body ++ closing :: rest)
  | statement {e rest} : Derives table .expr e → Derives table .unit rest →
      Derives table .unit (e ++ rest)
  | prototype {name opening parameters closing} : name.kind = .identifier →
      opening.isSymbol "(" → Derives table .parameters parameters → closing.isSymbol ")" →
      Derives table .prototype (name :: opening :: parameters ++ [closing])
  | noParameter : Derives table .parameters []
  | parameter {name comma rest} : name.kind = .identifier → OptionalComma comma →
      Derives table .parameters rest → Derives table .parameters (name :: comma ++ rest)
  | expr {first rest} : Derives table .primary first → Derives table .operations rest →
      Derives table .expr (first ++ rest)
  | noOperation : Derives table .operations []
  | operation {operator right rest} : operator.kind = .operator →
      (table.get? operator.text).isSome → Derives table .expr right →
      Derives table .operations rest → Derives table .operations (operator :: right ++ rest)
  | name {name} : name.kind = .identifier → Derives table .primary [name]
  | call {name opening arguments closing} : name.kind = .identifier → opening.isSymbol "(" →
      Derives table .arguments arguments → closing.isSymbol ")" →
      Derives table .primary (name :: opening :: arguments ++ [closing])
  | number {number value} : number.kind = .number → Binary64.ofNumeral number.text = .ok value →
      Derives table .primary [number]
  | group {opening e closing} : opening.isSymbol "(" → Derives table .expr e →
      closing.isSymbol ")" → Derives table .primary (opening :: e ++ [closing])
  | noArgument : Derives table .arguments []
  | argument {e comma rest} : Derives table .expr e → OptionalComma comma →
      Derives table .arguments rest → Derives table .arguments (e ++ comma ++ rest)

variable {table : OperatorTable}

/-! ## What is spelled is derived -/

theorem Derives.expr_of_primary {tokens : List Token} (h : Derives table .primary tokens) :
    Derives table .expr tokens := by
  have hexpr := Derives.expr h .noOperation
  rwa [List.append_nil] at hexpr

theorem Derives.operations_append {operations : List Token}
    (h : Derives table .operations operations) {more : List Token}
    (hmore : Derives table .operations more) : Derives table .operations (operations ++ more) := by
  generalize hsymbol : Nonterminal.operations = symbol at h
  induction h with
  | noOperation => exact hmore
  | operation hkind hknown hright _ _ ih =>
      simpa only [List.cons_append, List.append_assoc] using
        Derives.operation hkind hknown hright (ih hsymbol)
  | _ => cases hsymbol

theorem Derives.expr_operator_expr {operator : Token} {left right : List Token}
    (hleft : Derives table .expr left) (hkind : operator.kind = .operator)
    (hknown : (table.get? operator.text).isSome) (hright : Derives table .expr right) :
    Derives table .expr (left ++ operator :: right) := by
  cases hleft with
  | expr hprimary hoperations =>
      have hmore := hoperations.operations_append (.operation hkind hknown hright .noOperation)
      rw [List.append_nil] at hmore
      simpa only [List.append_assoc] using Derives.expr hprimary hmore

mutual

theorem Spells.derives {phrase : Phrase} {tokens : List Token} (h : Spells table phrase tokens) :
    Derives table .expr tokens := by
  match h with
  | .literal hkind hvalue => exact .expr_of_primary (.number hkind hvalue)
  | .var hkind => exact .expr_of_primary (.name hkind)
  | .call hname hopening harguments hclosing =>
      exact .expr_of_primary (.call hname hopening harguments.derives hclosing)
  | .group hopening hinner hclosing =>
      exact .expr_of_primary (.group hopening hinner.derives hclosing)
  | .binary hleft hkind hop hright =>
      exact hleft.derives.expr_operator_expr hkind (by simp [hop]) hright.derives

theorem SpellsArguments.derives {arguments : List Phrase} {tokens : List Token}
    (h : SpellsArguments table arguments tokens) : Derives table .arguments tokens := by
  match h with
  | .nil => exact .noArgument
  | .cons hargument hcomma hrest => exact .argument hargument.derives hcomma hrest.derives

end

theorem SpellsParameters.derives {names : List String} {tokens : List Token}
    (h : SpellsParameters names tokens) : Derives table .parameters tokens := by
  induction h with
  | nil => exact .noParameter
  | cons hname hcomma _ ih => exact .parameter hname hcomma ih

theorem SpellsPrototype.derives {prototype : Prototype} {tokens : List Token}
    (h : SpellsPrototype prototype tokens) : Derives table .prototype tokens := by
  cases h with
  | mk hname hopening hparameters hclosing =>
      exact .prototype hname hopening hparameters.derives hclosing

theorem SpellsProgram.derives {statements : List Statement} {tokens : List Token}
    (h : SpellsProgram table statements tokens) : Derives table .unit tokens := by
  induction h with
  | nil => exact .noStatement
  | cons hstatement _ ih =>
      cases hstatement with
      | external hword hprototype => exact .external hword hprototype.derives ih
      | definition hword hprototype hopening hbody hclosing =>
          simpa using Derives.definition hword hprototype.derives hopening hbody.derives hclosing ih
      | expression hbody => exact .statement hbody.derives ih

end Fixity
