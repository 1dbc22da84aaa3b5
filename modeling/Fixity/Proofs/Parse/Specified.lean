import Fixity.Proofs.Operator.Spec
import Fixity.Proofs.Parse.Chains

/-! # Specified operators can be used

Every operator that a specification can mean can be written between two names. -/

namespace Fixity

/-- The lexemes of an operator between two names. -/
def operation (symbol : String) : List Lexeme :=
  [⟨.identifier, "a"⟩, ⟨.operator, symbol⟩, ⟨.identifier, "b"⟩]

theorem lays_operation {symbol : String} (h : IsOperatorSymbol symbol) :
    Lays ("a" ++ symbol ++ "b").toList (operation symbol) := by
  have hsymbol : LexemeClass.operator.Admits symbol.toList := isOperatorSymbol_iff_admits.mp h
  have hfront : ∀ d ∈ (symbol.toList ++ ['b']).head?, LexemeClass.word.continuedBy d = false := by
    intro d hd
    have hop : isOperatorChar d := by
      rw [List.head?_append_of_ne_nil _ (mt String.toList_eq_nil_iff.mp h.1)] at hd
      exact h.2 d (List.mem_of_mem_head? hd)
    by_contra hword
    have hnot := LexemeClass.not_isOperatorChar_of_continuedBy (by decide)
      (Bool.eq_true_of_not_eq_false hword)
    rw [hop] at hnot
    cases hnot
  have hbehind : ∀ d ∈ ['b'].head?, LexemeClass.operator.continuedBy d = false := by
    intro d hd
    cases hd
    decide
  have hb : Lays ['b'] [⟨.identifier, "b"⟩] :=
    Lays.lexeme (by decide : LexemeClass.word.Admits ['b']) nofun .nil
  have ha : LexemeClass.word.Admits ['a'] := by decide
  have hlays := Lays.lexeme ha hfront (.lexeme hsymbol hbehind hb)
  simpa [operation, LexemeClass.lexeme, LexemeClass.kind, TokenKind.ofWord] using hlays

namespace Grammar

variable {grammar : Grammar} {op : Operator}

/-- The second name waits for the end of the expression with the operator in front of it. -/
theorem takes_operation (hop : grammar.operators.get? op.symbol = some op) :
    grammar.Takes 2 (.operand .statement) (operation op.symbol) []
      (.afterName "b" (.operand (.var "a") op .statement)) := by
  have hoperator : grammar.Takes 0 (.afterName "a" .statement) [⟨.operator, op.symbol⟩] []
      (.operand (.operand (.var "a") op .statement)) := takes_operator hop "a" .statement
  exact (takes_name "a" .statement).append (hoperator.append (takes_name "b" _))

theorem parse_operation (hop : grammar.operators.get? op.symbol = some op)
    (hsymbol : IsOperatorSymbol op.symbol) (hallows : grammar.Allows 2) :
    grammar.parse ("a" ++ op.symbol ++ "b") =
      .parsed [.definition .anonymous (.binary op.symbol (.var "a") (.var "b"))] := by
  obtain ⟨scanned, hscan, hwords⟩ := scan_of_lays (lays_operation hsymbol)
  have hbegins : ∃ first rest, operation op.symbol = first :: rest ∧ first.BeginsOperand :=
    ⟨_, _, rfl, .inr (.inl rfl)⟩
  have hread := (Behind.ready.takes_statement hbegins (takes_operation hop)).passes hallows
    scanned.words [] hwords
  exact (parse_eq_iff (by simp)).mpr ⟨scanned, _, hscan, hread, rfl⟩

end Grammar

/-- A specification is read as what it means. An operator that is read makes a program of two names,
whatever table it is inserted in. -/
theorem ofSpec_eq_iff_means (spec : String) :
    (∀ result, Operator.ofSpec spec = result ↔ Spec.Means spec result) ∧
      ∀ op, Operator.ofSpec spec = .ok op → ∀ table : OperatorTable,
        ({ operators := table.insert op } : Grammar).parse ("a" ++ op.symbol ++ "b") =
          .parsed [.definition .anonymous (.binary op.symbol (.var "a") (.var "b"))] := by
  refine ⟨fun result => Spec.ofSpec_eq_iff, fun op hop table => ?_⟩
  refine Grammar.parse_operation ?_ (Spec.isOperatorSymbol_of_ofSpec hop) ?_
  · exact (table.get?_insert op op.symbol).trans (if_pos rfl)
  · intro limit hlimit
    cases hlimit
    decide

/-- The greatest precedence with a plus and zeros in front of it, and a side in mixed case. -/
theorem ofSpec_eq_iff_means_greatest :
    let op : Operator := ⟨"<|>", 4294967295, .right⟩
    Operator.ofSpec "<|>:+004294967295:rIGHT" = .ok op ∧
      Spec.Means "<|>:+004294967295:rIGHT" (.ok op) ∧
      ({ operators := OperatorTable.standard.insert op } : Grammar).parse "a<|>b" =
        .parsed [.definition .anonymous (.binary "<|>" (.var "a") (.var "b"))] := by
  intro op
  have hread : Operator.ofSpec "<|>:+004294967295:rIGHT" = .ok op := by decide
  obtain ⟨hmeans, hparse⟩ := ofSpec_eq_iff_means "<|>:+004294967295:rIGHT"
  exact ⟨hread, (hmeans (.ok op)).mp hread, hparse op hread .standard⟩

end Fixity
