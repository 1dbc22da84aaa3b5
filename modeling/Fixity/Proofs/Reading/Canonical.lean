import Fixity.Proofs.Program.Cost
import Fixity.Proofs.Program.Lexemes
import Fixity.Proofs.Reading.Depth

/-! # Reading canonical source

The lexemes of a program lead to it under every table with its operators, at the depth that it
costs. -/

namespace Fixity

/-- The reading behind an operand. -/
def Reading.behind : Expr → Surroundings → Reading
  | .var name, surroundings => .afterName name surroundings
  | e, surroundings => .afterOperand e surroundings

theorem Expr.exists_lexemes_eq_cons (e : Expr) :
    ∃ first rest, e.lexemes = first :: rest ∧ first.BeginsOperand := by
  cases e with
  | literal value => exact ⟨_, _, rfl, .inr (.inr rfl)⟩
  | var name => exact ⟨_, _, rfl, .inr (.inl rfl)⟩
  | binary symbol left right => exact ⟨_, _, rfl, .inl rfl⟩
  | call callee arguments => exact ⟨_, _, rfl, .inr (.inl rfl)⟩

theorem Expr.exists_statementLexemes_eq_cons (e : Expr) :
    ∃ first rest, e.statementLexemes = first :: rest ∧ first.BeginsOperand := by
  cases e with
  | var name => exact ⟨_, _, rfl, .inl rfl⟩
  | _ => exact exists_lexemes_eq_cons _

namespace Grammar

variable {grammar : Grammar}

theorem read_behind {token : Token} (h : ¬ token.isSymbol "(") (e : Expr)
    (surroundings : Surroundings) :
    grammar.read (.behind e surroundings) token =
      grammar.readAfterOperand e surroundings token := by
  cases e with
  | var name => rw [Reading.behind, read, if_neg h]
  | _ => rfl

/-- A symbol behind an operand ends the expression. -/
theorem read_behind_of_isSymbol {token : Token} {symbol : String} (h : token.isSymbol symbol)
    (hne : symbol ≠ "(") (e : Expr) (surroundings : Surroundings) :
    grammar.read (.behind e surroundings) token = grammar.readAfterExpr token e surroundings := by
  have hkind : token.kind ≠ .operator := by simp [(Token.isSymbol_iff.mp h).1]
  rw [read_behind (Token.not_isSymbol_of_isSymbol h hne), readAfterOperand, if_neg hkind]

/-- An operator in a group waits for the group's right operand. -/
theorem read_behind_of_operator {token : Token} {symbol : String} {op : Operator}
    (htoken : token.lexeme = ⟨.operator, symbol⟩) (hop : grammar.operators.get? symbol = some op)
    (e : Expr) (outer : Surroundings) :
    grammar.read (.behind e (.group outer)) token =
      .ok { reading := .operand (.operand e op (.group outer)) } := by
  have hkind := Token.kind_of_lexeme htoken
  have hsymbol : ¬ token.isSymbol "(" := Token.not_isSymbol_of_kind (by simp [hkind]) _
  rw [read_behind hsymbol, readAfterOperand, if_pos hkind, Token.text_of_lexeme htoken, hop]
  rfl

/-! ## Single lexemes -/

theorem takes_opening (surroundings : Surroundings) :
    grammar.Takes (surroundings.depth + 1) (.operand surroundings) [.symbol '('] []
      (.operand (.group surroundings)) := by
  refine .operand ?_
  intro token htoken hexceeds
  rw [readOperand, if_neg hexceeds, if_pos (Token.isSymbol_of_lexeme htoken)]

theorem takes_name (name : String) (surroundings : Surroundings) :
    grammar.Takes (surroundings.depth + 1) (.operand surroundings) [⟨.identifier, name⟩] []
      (.afterName name surroundings) := by
  refine .operand ?_
  intro token htoken hexceeds
  have hkind := Token.kind_of_lexeme htoken
  have hsymbol : ¬ token.isSymbol "(" := Token.not_isSymbol_of_kind (by simp [hkind]) _
  simp only [readOperand, if_neg hexceeds, if_neg hsymbol, hkind, Token.text_of_lexeme htoken]

theorem takes_number {value : Binary64} (hfinite : value.isFinite)
    (hsign : value.negative = false) (surroundings : Surroundings) :
    grammar.Takes (surroundings.depth + 1) (.operand surroundings) [⟨.number, value.toText⟩] []
      (.afterOperand (.literal value) surroundings) := by
  refine .operand ?_
  intro token htoken hexceeds
  have hkind := Token.kind_of_lexeme htoken
  have hsymbol : ¬ token.isSymbol "(" := Token.not_isSymbol_of_kind (by simp [hkind]) _
  simp only [readOperand, if_neg hexceeds, if_neg hsymbol, hkind, readNumber,
    Token.text_of_lexeme htoken, Binary64.ofNumeral_toText hfinite hsign]

theorem takes_closing_of_group (e : Expr) (surroundings : Surroundings) {outer : Surroundings}
    (h : surroundings.base = .group outer) :
    grammar.Takes 0 (.behind e surroundings) [.symbol ')'] []
      (.afterOperand (surroundings.whole e) outer) := by
  refine .step { reading := .afterOperand (surroundings.whole e) outer } ?_
  intro token htoken
  have hsymbol : token.isSymbol ")" := Token.isSymbol_of_lexeme htoken
  rw [read_behind_of_isSymbol hsymbol (by decide), readAfterExpr_eq, h, readAfterExpr,
    if_pos hsymbol]

theorem takes_closing_of_arguments (callee : String) (outer : Surroundings) :
    grammar.Takes 0 (.argument callee [] outer) [.symbol ')'] []
      (.afterOperand (.call callee []) outer) := by
  refine .step { reading := .afterOperand (.call callee []) outer } ?_
  intro token htoken
  rw [read, readArgument, if_pos (Token.isSymbol_of_lexeme htoken)]
  rfl

theorem takes_closing_of_argument (e : Expr) (callee : String) (latestFirst : List Expr)
    (outer : Surroundings) :
    grammar.Takes 0 (.behind e (.argument callee latestFirst outer)) [.symbol ')'] []
      (.afterOperand (.call callee (latestFirst.reverse ++ [e])) outer) := by
  refine .step { reading := .afterOperand (.call callee (latestFirst.reverse ++ [e])) outer } ?_
  intro token htoken
  have hsymbol : token.isSymbol ")" := Token.isSymbol_of_lexeme htoken
  rw [read_behind_of_isSymbol hsymbol (by decide), readAfterExpr,
    if_neg (Token.not_isSymbol_of_isSymbol hsymbol (by decide)), readArgument, if_pos hsymbol,
    List.reverse_cons]
  rfl

theorem takes_comma (e : Expr) (callee : String) (latestFirst : List Expr) (outer : Surroundings) :
    grammar.Takes 0 (.behind e (.argument callee latestFirst outer)) [.symbol ','] []
      (.argument callee (e :: latestFirst) outer) := by
  refine .step { reading := .argument callee (e :: latestFirst) outer } ?_
  intro token htoken
  have hsymbol : token.isSymbol "," := Token.isSymbol_of_lexeme htoken
  rw [read_behind_of_isSymbol hsymbol (by decide), readAfterExpr, if_pos hsymbol]

/-! ## Expressions -/

mutual

theorem takes_expr (e : Expr) (h : e.WellFormed)
    (hknown : ∀ symbol ∈ e.symbols, (grammar.operators.get? symbol).isSome)
    (surroundings : Surroundings) :
    grammar.Takes (surroundings.depth + e.cost) (.operand surroundings) e.lexemes []
      (.behind e surroundings) := by
  match e with
  | .literal value => exact takes_number h.1 h.2 surroundings
  | .var name => exact takes_name name surroundings
  | .binary symbol left right =>
      have hleft := takes_expr left h.2.1
        (fun other hother => hknown other (by simp [Expr.symbols, hother])) (.group surroundings)
      obtain ⟨op, hop⟩ := Option.isSome_iff_exists.mp (hknown symbol (by simp [Expr.symbols]))
      have hoperator : grammar.Takes 0 (.behind left (.group surroundings)) [⟨.operator, symbol⟩] []
          (.operand (.operand left op (.group surroundings))) :=
        .step { reading := .operand (.operand left op (.group surroundings)) }
          fun token htoken => read_behind_of_operator htoken hop left surroundings
      have hright := takes_expr right h.2.2
        (fun other hother => hknown other (by simp [Expr.symbols, hother]))
        (.operand left op (.group surroundings))
      have hclosing : grammar.Takes 0 (.behind right (.operand left op (.group surroundings)))
          [.symbol ')'] [] (.afterOperand (.binary op.symbol left right) surroundings) :=
        takes_closing_of_group right _ rfl
      rw [OperatorTable.symbol_of_get? hop] at hclosing
      have hall := (takes_opening surroundings).append (hleft.append (hoperator.append
        (hright.append hclosing)))
      refine hall.of_eq ?_ (by simp [Expr.lexemes])
      simp only [Surroundings.depth, Expr.cost]
      omega
  | .call callee arguments =>
      have hcallee : grammar.Takes (surroundings.depth + 1) (.operand surroundings)
          [⟨.identifier, callee⟩] [] (.afterName callee surroundings) :=
        takes_name callee surroundings
      have hopening : grammar.Takes 0 (.afterName callee surroundings) [.symbol '('] []
          (.argument callee [] surroundings) :=
        .step { reading := .argument callee [] surroundings } fun token htoken => by
          rw [read, if_pos (Token.isSymbol_of_lexeme htoken)]
      by_cases hempty : arguments = []
      · subst hempty
        have hall := hcallee.append (hopening.append
          (takes_closing_of_arguments callee surroundings))
        refine hall.of_eq ?_ (by simp [Expr.lexemes, Expr.lexemesOfAll, commaSeparated])
        simp only [Expr.cost, Expr.greatestCost]
        omega
      · have harguments := takes_arguments arguments hempty h.2 hknown callee [] surroundings
        have hall := hcallee.append (hopening.append harguments)
        refine hall.of_eq ?_ (by simp [Expr.lexemes])
        simp only [Expr.cost]
        omega

theorem takes_arguments (arguments : List Expr) (hne : arguments ≠ [])
    (h : Expr.AllWellFormed arguments)
    (hknown : ∀ symbol ∈ Expr.symbolsOfAll arguments, (grammar.operators.get? symbol).isSome)
    (callee : String) (latestFirst : List Expr) (outer : Surroundings) :
    grammar.Takes (outer.depth + 1 + Expr.greatestCost arguments)
      (.argument callee latestFirst outer)
      (commaSeparated (Expr.lexemesOfAll arguments) ++ [.symbol ')']) []
      (.afterOperand (.call callee (latestFirst.reverse ++ arguments)) outer) := by
  match arguments with
  | [] => exact absurd rfl hne
  | argument :: rest =>
      have hoperand := takes_expr argument h.1
        (fun other hother => hknown other (by simp [Expr.symbolsOfAll, hother]))
        (.argument callee latestFirst outer)
      have hargument : grammar.Takes (outer.depth + 1 + argument.cost)
          (.argument callee latestFirst outer) argument.lexemes []
          (.behind argument (.argument callee latestFirst outer)) := by
        have hopening : (Reading.argument callee latestFirst outer).opening? =
            some ⟨none, .argument callee latestFirst outer⟩ := rfl
        exact hoperand.of_opening? argument.exists_lexemes_eq_cons hopening (by simp)
      cases rest with
      | nil =>
          have hall := hargument.append
            (takes_closing_of_argument argument callee latestFirst outer)
          refine hall.of_eq ?_ (by simp [Expr.lexemesOfAll, commaSeparated])
          simp only [Expr.greatestCost]
          omega
      | cons second others =>
          have hrest := takes_arguments (second :: others) (by simp) h.2
            (fun other hother => hknown other (by
              rw [Expr.symbolsOfAll]
              exact List.mem_append_right _ hother))
            callee (argument :: latestFirst) outer
          have hall := hargument.append
            ((takes_comma argument callee latestFirst outer).append hrest)
          rw [List.reverse_cons, List.append_assoc, List.singleton_append] at hall
          refine hall.of_eq ?_ (by simp [Expr.lexemesOfAll, commaSeparated])
          simp only [Expr.greatestCost]
          omega

end

end Grammar

end Fixity
