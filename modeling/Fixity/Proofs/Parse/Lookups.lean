import Fixity.Proofs.Operator.Spec
import Fixity.Proofs.Operator.Table
import Fixity.Proofs.Reading.Interchange

/-! # What a parse asks its table for

A parse looks up the operators of its text and nothing else in the table. -/

namespace Fixity

theorem interchanges_eq : Interchanges (· = ·) where
  symbol := by
    rintro op _ rfl
    rfl
  competes := by
    rintro op _ waiting _ rfl rfl
    rfl

theorem isOperatorSymbol_of_scan {text : String} {scanned : Scan} (h : scan text = .ok scanned)
    {token : Token} (htoken : token ∈ scanned.words) (hkind : token.kind = .operator) :
    IsOperatorSymbol token.text :=
  isOperatorSymbol_iff_admits.mpr ((wellFormed_of_scan h token htoken).admits_of_operator hkind)

namespace Grammar

variable {grammar : Grammar} {text : String}

/-- Tables that have the same operators for the tokens of a text make the same of it. -/
theorem parseScan_eq_of_get?_eq {other : OperatorTable} {scanned : Scan}
    (hget : ∀ token ∈ scanned.words, token.kind = .operator →
      grammar.operators.get? token.text = other.get? token.text) :
    grammar.parseScan scanned = { grammar with operators := other }.parseScan scanned := by
  have hlimit : grammar.nestingLimit = { grammar with operators := other }.nestingLimit := rfl
  refine parseScan_eq_of_alike interchanges_eq hlimit fun token htoken hkind => ?_
  rw [hget token htoken hkind]
  cases other.get? token.text with
  | none => exact .none
  | some op => exact .some rfl

theorem get?_register_of_ne {op : Operator} {symbol : String} (h : op.symbol ≠ symbol) :
    (grammar.register op).operators.get? symbol = grammar.operators.get? symbol :=
  (grammar.operators.get?_insert op symbol).trans (if_neg h)

end Grammar

/-- If two tables have the same operators for the operator tokens of a text, the text has the same
outcome. No text sees an operator whose symbol it cannot have. -/
theorem parse_eq_of_lookups_agree (grammar : Grammar) :
    (∀ (other : OperatorTable) (text : String) (scanned : Scan), scan text = .ok scanned →
      (∀ token ∈ scanned.words, token.kind = .operator →
        grammar.operators.get? token.text = other.get? token.text) →
      grammar.parse text = { grammar with operators := other }.parse text) ∧
    ∀ op : Operator, ¬ IsOperatorSymbol op.symbol →
      ∀ text, (grammar.register op).parse text = grammar.parse text := by
  constructor
  · intro other text scanned hscan hget
    simp only [Grammar.parse, hscan]
    exact Grammar.parseScan_eq_of_get?_eq hget
  · intro op hsymbol text
    unfold Grammar.parse
    cases hscan : scan text with
    | error error => rfl
    | ok scanned =>
        refine (Grammar.parseScan_eq_of_get?_eq fun token htoken hkind => ?_).symm
        refine (Grammar.get?_register_of_ne ?_).symm
        intro hfound
        rw [hfound] at hsymbol
        exact hsymbol (isOperatorSymbol_of_scan hscan htoken hkind)

/-- A table without products, with other powers and with one operator more makes the same of a sum
in a comparison, and so does a table with a word for an operator. -/
theorem parse_eq_of_lookups_agree_sum :
    let other := OperatorTable.ofList
      [⟨"<", 10, .left⟩, ⟨"+", 20, .left⟩, ⟨"-", 20, .left⟩, ⟨"^", 5, .left⟩, ⟨"&&", 7, .right⟩]
    let word : Operator := ⟨"plus", 20, .left⟩
    let text := "a + f(b) # * ^\n< c"
    let words : List Token := [⟨.identifier, "a", ⟨1, 1⟩⟩, ⟨.operator, "+", ⟨1, 3⟩⟩,
      ⟨.identifier, "f", ⟨1, 5⟩⟩, ⟨.reserved, "(", ⟨1, 6⟩⟩, ⟨.identifier, "b", ⟨1, 7⟩⟩,
      ⟨.reserved, ")", ⟨1, 8⟩⟩, ⟨.operator, "<", ⟨2, 1⟩⟩, ⟨.identifier, "c", ⟨2, 3⟩⟩]
    (scan text = .ok ⟨words, ⟨.stop, "", ⟨2, 4⟩⟩⟩ ∧
      (∀ token ∈ words, token.kind = .operator →
        OperatorTable.standard.get? token.text = other.get? token.text) ∧
      ({} : Grammar).parse text = ({ operators := other } : Grammar).parse text) ∧
    ¬ IsOperatorSymbol word.symbol ∧
      (({} : Grammar).register word).parse text = ({} : Grammar).parse text := by
  intro other word text words
  have hscan : scan "a + f(b) # * ^\n< c" = .ok ⟨words, ⟨.stop, "", ⟨2, 4⟩⟩⟩ := by rfl
  have hget : ∀ token ∈ words, token.kind = .operator →
      OperatorTable.standard.get? token.text = other.get? token.text := by
    decide
  have hword : ¬ IsOperatorSymbol word.symbol := by
    intro h
    exact absurd (h.2 'p' (by decide)) (by decide)
  exact ⟨⟨hscan, hget, (parse_eq_of_lookups_agree {}).1 other text _ hscan hget⟩, hword,
    (parse_eq_of_lookups_agree {}).2 word hword text⟩

end Fixity
