import Fixity.Proofs.Reading.Run
import Fixity.Proofs.Reading.Surroundings

/-! # Reading the first token of an expression

Wherever an expression can begin, its first token is read in the same way. -/

namespace Fixity

theorem Token.isSymbol_iff {token : Token} {symbol : String} :
    token.isSymbol symbol ↔ token.kind = .reserved ∧ token.text = symbol := by
  simp [isSymbol]

theorem Token.not_isSymbol_of_kind {token : Token} (h : token.kind ≠ .reserved)
    (symbol : String) : ¬ token.isSymbol symbol := by
  rw [isSymbol_iff]
  exact fun hsymbol => h hsymbol.1

theorem Token.not_isSymbol_of_isSymbol {token : Token} {symbol other : String}
    (h : token.isSymbol symbol) (hne : symbol ≠ other) : ¬ token.isSymbol other := by
  rw [isSymbol_iff] at h ⊢
  exact fun hother => hne (h.2.symm.trans hother.2)

namespace Token.beginsOperand

variable {token : Token}

theorem kind_ne_operator (h : token.beginsOperand) : token.kind ≠ .operator := by
  rcases h with h | h | h
  · simp [(isSymbol_iff.mp h).1]
  · simp [h]
  · simp [h]

theorem not_isSymbol (h : token.beginsOperand) {symbol : String} (hne : "(" ≠ symbol) :
    ¬ token.isSymbol symbol := by
  rcases h with h | h | h
  · exact not_isSymbol_of_isSymbol h hne
  · exact not_isSymbol_of_kind (by simp [h]) symbol
  · exact not_isSymbol_of_kind (by simp [h]) symbol

theorem readStart_eq (grammar : Grammar) (h : token.beginsOperand) :
    grammar.readStart token = grammar.readOperand .statement token := by
  unfold Grammar.readStart
  rcases h with h | h | h
  · simp [(isSymbol_iff.mp h).1]
  · simp [h]
  · simp [h]

end Token.beginsOperand

namespace Grammar

variable {grammar : Grammar} {token : Token}

theorem readArgument_of_beginsOperand (h : token.beginsOperand) (callee : String)
    (latestFirst : List Expr) (outer : Surroundings) :
    grammar.readArgument callee latestFirst outer token =
      grammar.readOperand (.argument callee latestFirst outer) token := by
  rw [readArgument, if_neg (h.not_isSymbol (by decide))]

/-- Behind an expression, the first token of another one completes the statement or argument. -/
theorem readAfterOperand_of_opening? {e : Expr} {surroundings : Surroundings} {opening : Opening}
    (hopening : surroundings.opening? e = some opening) (htoken : token.beginsOperand) :
    grammar.readAfterOperand e surroundings token =
      (grammar.readOperand opening.surroundings token).map (⟨opening.completed, ·⟩) := by
  rw [readAfterOperand, if_neg htoken.kind_ne_operator, readAfterExpr_eq]
  unfold Surroundings.opening? at hopening
  split at hopening
  · next hbase =>
      cases hopening
      rw [hbase, readAfterExpr, htoken.readStart_eq]
  · next callee latestFirst outer hbase =>
      cases hopening
      rw [hbase, readAfterExpr, if_neg (htoken.not_isSymbol (by decide)),
        readArgument_of_beginsOperand htoken]
  · cases hopening

theorem read_of_opening? (grammar : Grammar) {reading : Reading} {opening : Opening}
    (hopening : reading.opening? = some opening) (htoken : token.beginsOperand)
    (hcall : ∀ name surroundings, reading = .afterName name surroundings → ¬ token.isSymbol "(") :
    grammar.read reading token =
      (grammar.readOperand opening.surroundings token).map (⟨opening.completed, ·⟩) := by
  cases reading with
  | ready =>
      cases hopening
      rw [read, htoken.readStart_eq]
  | operand surroundings =>
      cases hopening
      rfl
  | argument callee latestFirst outer =>
      cases hopening
      rw [read, readArgument_of_beginsOperand htoken]
  | afterName name surroundings =>
      rw [read, if_neg (hcall name surroundings rfl)]
      exact readAfterOperand_of_opening? hopening htoken
  | afterOperand e surroundings => exact readAfterOperand_of_opening? hopening htoken
  | _ => cases hopening

end Grammar

end Fixity
