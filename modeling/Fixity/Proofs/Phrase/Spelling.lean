import Fixity.Binary64.Basic
import Fixity.Proofs.Phrase.Basic
import Fixity.Token.Basic

/-! # How phrases and declarations are spelled

The tokens that a written program consists of, however its chains are made into trees. -/

namespace Fixity

/-- A comma that may be left out. -/
inductive OptionalComma : List Token → Prop
  | absent : OptionalComma []
  | present (comma : Token) : comma.isSymbol "," → OptionalComma [comma]

mutual

/-- The tokens that a phrase is written with. -/
inductive Spells (table : OperatorTable) : Phrase → List Token → Prop
  | literal {number : Token} {value : Binary64} : number.kind = .number →
      Binary64.ofNumeral number.text = .ok value → Spells table (.literal value) [number]
  | var {name : Token} : name.kind = .identifier → Spells table (.var name.text) [name]
  | call {name opening closing : Token} {arguments tokens} : name.kind = .identifier →
      opening.isSymbol "(" → SpellsArguments table arguments tokens → closing.isSymbol ")" →
      Spells table (.call name.text arguments) (name :: opening :: tokens ++ [closing])
  | group {opening closing : Token} {inner tokens} : opening.isSymbol "(" →
      Spells table inner tokens → closing.isSymbol ")" →
      Spells table (.group inner) (opening :: tokens ++ [closing])
  | binary {operator : Token} {op left right before behind} : Spells table left before →
      operator.kind = .operator → table.get? operator.text = some op →
      Spells table right behind →
      Spells table (.binary op left right) (before ++ operator :: behind)

inductive SpellsArguments (table : OperatorTable) : List Phrase → List Token → Prop
  | nil : SpellsArguments table [] []
  | cons {argument rest tokens comma others} : Spells table argument tokens →
      OptionalComma comma → SpellsArguments table rest others →
      SpellsArguments table (argument :: rest) (tokens ++ comma ++ others)

end

inductive SpellsParameters : List String → List Token → Prop
  | nil : SpellsParameters [] []
  | cons {name : Token} {rest comma others} : name.kind = .identifier → OptionalComma comma →
      SpellsParameters rest others →
      SpellsParameters (name.text :: rest) (name :: comma ++ others)

inductive SpellsPrototype : Prototype → List Token → Prop
  | mk {name opening closing : Token} {parameters tokens} : name.kind = .identifier →
      opening.isSymbol "(" → SpellsParameters parameters tokens → closing.isSymbol ")" →
      SpellsPrototype ⟨name.text, parameters⟩ (name :: opening :: tokens ++ [closing])

/-! ## Declarations and programs -/

/-- A declaration as it is written. -/
inductive Statement where
  | external (prototype : Prototype)
  | definition (prototype : Prototype) (body : Phrase)
  | expression (body : Phrase)

namespace Statement

def declaration : Statement → Declaration
  | external prototype => .external prototype
  | definition prototype body => .definition prototype body.expr
  | expression body => .definition .anonymous body.expr

def body? : Statement → Option Phrase
  | external _ => none
  | definition _ body | expression body => some body

end Statement

/-- The tokens of a declaration. -/
inductive SpellsStatement (table : OperatorTable) : Statement → List Token → Prop
  | external {word : Token} {prototype tokens} : word.kind = .external →
      SpellsPrototype prototype tokens →
      SpellsStatement table (.external prototype) (word :: tokens)
  | definition {word opening closing : Token} {prototype body tokens others} :
      word.kind = .definition → SpellsPrototype prototype tokens → opening.isSymbol "\x7b" →
      Spells table body others → closing.isSymbol "\x7d" →
      SpellsStatement table (.definition prototype body)
        (word :: tokens ++ opening :: others ++ [closing])
  | expression {body tokens} : Spells table body tokens →
      SpellsStatement table (.expression body) tokens

inductive SpellsProgram (table : OperatorTable) : List Statement → List Token → Prop
  | nil : SpellsProgram table [] []
  | cons {statement rest tokens others} : SpellsStatement table statement tokens →
      SpellsProgram table rest others →
      SpellsProgram table (statement :: rest) (tokens ++ others)

variable {table : OperatorTable}

/-! ## Adding to a list -/

theorem SpellsArguments.append {arguments others : List Phrase} {tokens rest : List Token}
    (h : SpellsArguments table arguments tokens) (hothers : SpellsArguments table others rest) :
    SpellsArguments table (arguments ++ others) (tokens ++ rest) := by
  match h with
  | .nil => exact hothers
  | .cons hargument hcomma hrest =>
      have happend := SpellsArguments.cons hargument hcomma (hrest.append hothers)
      simpa only [List.cons_append, List.append_assoc] using happend

theorem SpellsParameters.append {names others : List String} {tokens rest : List Token}
    (h : SpellsParameters names tokens) (hothers : SpellsParameters others rest) :
    SpellsParameters (names ++ others) (tokens ++ rest) := by
  induction h with
  | nil => exact hothers
  | cons hname hcomma _ ih =>
      simpa only [List.cons_append, List.append_assoc] using .cons hname hcomma ih

theorem SpellsProgram.append {statements others : List Statement} {tokens rest : List Token}
    (h : SpellsProgram table statements tokens) (hothers : SpellsProgram table others rest) :
    SpellsProgram table (statements ++ others) (tokens ++ rest) := by
  induction h with
  | nil => exact hothers
  | cons hstatement _ ih =>
      simpa only [List.cons_append, List.append_assoc] using .cons hstatement ih

end Fixity
