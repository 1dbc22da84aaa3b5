import Fixity.Proofs.Parse.Canonical

/-! # Chains of one operator

A chain that is grouped to the left is a program however long it is; its canonical source is not. -/

namespace Fixity

/-- A chain of so many operations. -/
def chain (symbol : String) : Nat → String
  | 0 => "x"
  | n + 1 => chain symbol n ++ " " ++ symbol ++ " x"

def chainLexemes (symbol : String) : Nat → List Lexeme
  | 0 => [⟨.identifier, "x"⟩]
  | n + 1 => chainLexemes symbol n ++ [⟨.operator, symbol⟩, ⟨.identifier, "x"⟩]

theorem isName_x : IsName "x" := by decide

namespace Operator

/-- What a chain of so many operations comes to. -/
def chainTree (op : Operator) : Nat → Expr
  | 0 => .var "x"
  | n + 1 =>
    match op.associativity with
    | .left => .binary op.symbol (op.chainTree n) (.var "x")
    | .right => .binary op.symbol (.var "x") (op.chainTree n)

/-- What the last operand of a chain stands in. -/
def waiting (op : Operator) : Nat → Surroundings
  | 0 => .statement
  | n + 1 =>
    match op.associativity with
    | .left => .operand (op.chainTree n) op .statement
    | .right => .operand (.var "x") op (op.waiting n)

def chainProgram (op : Operator) (n : Nat) : Program := [.definition .anonymous (op.chainTree n)]

variable {op : Operator}

theorem depth_waiting_of_left (h : op.associativity = .left) (n : Nat) :
    (op.waiting (n + 1)).depth = 1 := by
  rw [waiting, h]
  rfl

theorem depth_waiting_of_right (h : op.associativity = .right) (n : Nat) :
    (op.waiting n).depth = n := by
  induction n with
  | zero => rfl
  | succ n ih => simp only [waiting, h, Surroundings.depth, ih]

theorem depth_waiting_le (op : Operator) (n : Nat) :
    (op.waiting n).depth ≤ (op.waiting (n + 1)).depth := by
  cases h : op.associativity with
  | left =>
      rw [depth_waiting_of_left h]
      cases n with
      | zero => simp [waiting, Surroundings.depth]
      | succ n => exact Nat.le_of_eq (depth_waiting_of_left h n)
  | right =>
      rw [depth_waiting_of_right h, depth_waiting_of_right h]
      exact Nat.le_succ n

/-- The next operator of a chain finds the operands in front of it grouped. -/
theorem waiting_succ (op : Operator) (n : Nat) :
    op.waiting (n + 1) = .operand ((op.waiting n).fold op.precedence (.var "x")).1 op
      ((op.waiting n).fold op.precedence (.var "x")).2 := by
  cases h : op.associativity with
  | left => cases n <;> simp [waiting, chainTree, h, Surroundings.fold, rightFloor]
  | right => cases n <;> simp [waiting, h, Surroundings.fold, rightFloor]

theorem complete?_waiting_of_right (h : op.associativity = .right) (n m : Nat) :
    (op.waiting n).complete? (op.chainTree m) =
      some (.definition .anonymous (op.chainTree (n + m))) := by
  induction n generalizing m with
  | zero => simp [waiting, Surroundings.complete?]
  | succ n ih =>
      have htree : Expr.binary op.symbol (.var "x") (op.chainTree m) = op.chainTree (m + 1) := by
        simp only [chainTree, h]
      simp only [waiting, h, Surroundings.complete?, htree, ih]
      congr 3
      omega

theorem complete?_waiting (op : Operator) (n : Nat) :
    (op.waiting n).complete? (.var "x") = some (.definition .anonymous (op.chainTree n)) := by
  cases h : op.associativity with
  | left => cases n <;> simp [waiting, chainTree, h, Surroundings.complete?]
  | right => simpa [chainTree] using complete?_waiting_of_right h n 0

theorem cost_chainTree_of_left (h : op.associativity = .left) (n : Nat) :
    (op.chainTree (n + 1)).cost = n + 3 := by
  induction n with
  | zero => simp [chainTree, h, Expr.cost]
  | succ n ih =>
      rw [chainTree, h]
      simp only [Expr.cost, ih]
      omega

theorem cost_chainTree_of_right (h : op.associativity = .right) (n : Nat) :
    (op.chainTree n).cost = 2 * n + 1 := by
  induction n with
  | zero => simp [chainTree, Expr.cost]
  | succ n ih =>
      rw [chainTree, h]
      simp only [Expr.cost, ih]
      omega

theorem wellFormed_chainTree (h : IsOperatorText op.symbol) (n : Nat) :
    (op.chainTree n).WellFormed := by
  induction n with
  | zero => exact isName_x
  | succ n ih =>
      rw [chainTree]
      split
      · exact ⟨h, ih, isName_x⟩
      · exact ⟨h, isName_x, ih⟩

theorem symbols_chainTree (op : Operator) (n : Nat) :
    ∀ symbol ∈ (op.chainTree n).symbols, symbol = op.symbol := by
  induction n with
  | zero => simp [chainTree, Expr.symbols]
  | succ n ih =>
      rw [chainTree]
      split <;> simpa [Expr.symbols] using ih

end Operator

theorem laysAs_chain {symbol : String} (h : IsOperatorText symbol) (n : Nat) :
    LaysAs (chain symbol n) (chainLexemes symbol n) := by
  have hx : LaysAs "x" [⟨.identifier, "x"⟩] := .of_isName isName_x
  induction n with
  | zero => exact hx
  | succ n ih =>
      intro text others hfree hlays
      have hoperand := hx text others hfree hlays
      have hoperator : LaysAs symbol [⟨.operator, symbol⟩] := .of_admits h
      have hoperation := hoperator _ _ (free_cons (by simp) _) (.blank blank_space hoperand)
      have hall := ih _ _ (free_cons (by simp) _) (.blank blank_space hoperation)
      simpa [chain, chainLexemes] using hall

theorem exists_chainLexemes_eq_cons (symbol : String) (n : Nat) :
    ∃ first rest, chainLexemes symbol n = first :: rest ∧ first.BeginsOperand := by
  induction n with
  | zero => exact ⟨_, [], rfl, .inr (.inl rfl)⟩
  | succ n ih =>
      obtain ⟨first, rest, hlexemes, hbegins⟩ := ih
      exact ⟨first, _, by rw [chainLexemes, hlexemes, List.cons_append], hbegins⟩

namespace Grammar

variable {grammar : Grammar} {op : Operator}

/-- Behind a name, an operator takes up those that bind tighter and waits for its operand. -/
theorem takes_operator {symbol : String} (hop : grammar.operators.get? symbol = some op)
    (name : String) (surroundings : Surroundings) :
    grammar.Takes 0 (.afterName name surroundings) [⟨.operator, symbol⟩] []
      (.operand (.operand (surroundings.fold op.precedence (.var name)).1 op
        (surroundings.fold op.precedence (.var name)).2)) := by
  refine .step { reading := _ } ?_
  intro token htoken
  have hkind := Token.kind_of_lexeme htoken
  have hsymbol : ¬ token.isSymbol "(" := Token.not_isSymbol_of_kind (by simp [hkind]) _
  rw [read, if_neg hsymbol, readAfterOperand, if_pos hkind, Token.text_of_lexeme htoken, hop]

/-- A chain is as deep as the surroundings of its last operand. -/
theorem takes_chain (hop : grammar.operators.get? op.symbol = some op) (n : Nat) :
    grammar.Takes ((op.waiting n).depth + 1) (.operand .statement) (chainLexemes op.symbol n) []
      (.afterName "x" (op.waiting n)) := by
  induction n with
  | zero => exact takes_name "x" .statement
  | succ n ih =>
      have hoperator := takes_operator hop "x" (op.waiting n)
      rw [← op.waiting_succ n] at hoperator
      have hall := ih.append (hoperator.append (takes_name "x" (op.waiting (n + 1))))
      have hle := op.depth_waiting_le n
      exact hall.of_eq (by omega) rfl

/-- A chain is the program that its operator makes of it, if the depth of its last operand is
allowed. -/
theorem parse_chain (hop : grammar.operators.get? op.symbol = some op)
    (htext : IsOperatorText op.symbol) {n : Nat}
    (hallows : grammar.Allows ((op.waiting n).depth + 1)) :
    grammar.parse (chain op.symbol n) = .parsed (op.chainProgram n) := by
  have hlays := laysAs_chain htext n [] [] (fun d hd => nomatch hd) .nil
  rw [List.append_nil, List.append_nil] at hlays
  obtain ⟨scanned, hscan, hwords⟩ := scan_of_lays hlays
  have hbegins := exists_chainLexemes_eq_cons op.symbol n
  have hread := (Behind.ready.takes_statement hbegins (takes_chain hop n)).passes hallows
    scanned.words [] hwords
  have hall : grammar.readAll {} scanned.words = .ok ⟨[], .afterName "x" (op.waiting n)⟩ := hread
  refine (parse_eq_iff (by simp)).mpr ⟨scanned, _, hscan, hall, ?_⟩
  simp only [finish, finishExpr, op.complete?_waiting]
  rfl

theorem parse_source_chainProgram (hop : grammar.operators.get? op.symbol = some op)
    (htext : IsOperatorText op.symbol) (n : Nat) :
    (grammar.Allows (op.chainTree (n + 1)).cost →
        grammar.parse (op.chainProgram (n + 1)).source = .parsed (op.chainProgram (n + 1))) ∧
      (¬ grammar.Allows (op.chainTree (n + 1)).cost →
        ∃ token, grammar.parse (op.chainProgram (n + 1)).source = .rejected (.tooDeep token)) := by
  have hformed : (op.chainProgram (n + 1)).WellFormed := by
    intro declaration hdeclaration
    cases List.mem_singleton.mp hdeclaration
    exact .expression (op.wellFormed_chainTree htext (n + 1))
  have hknown : ∀ symbol ∈ (op.chainProgram (n + 1)).symbols,
      (grammar.operators.get? symbol).isSome := by
    intro symbol hsymbol
    have hmem : symbol ∈ (op.chainTree (n + 1)).symbols := by
      simpa [Operator.chainProgram, Program.symbols, Declaration.symbols] using hsymbol
    rw [op.symbols_chainTree (n + 1) symbol hmem, hop]
    rfl
  have hcost : (op.chainProgram (n + 1)).cost = (op.chainTree (n + 1)).cost := by
    have hanonymous : Prototype.anonymous.isAnonymous = true := by decide
    have hstatement : (op.chainTree (n + 1)).statementCost = (op.chainTree (n + 1)).cost := by
      cases h : op.associativity <;> simp only [Operator.chainTree, h, Expr.statementCost]
    simp [Operator.chainProgram, Program.cost, Declaration.cost, hanonymous, hstatement]
  rw [← hcost]
  exact parse_source grammar hformed hknown

end Grammar

/-- Chains that are grouped to the left are programs at every length, and those that are grouped to
the right up to 255 operations. Canonical source of the former is too deep from 255 operations on,
and of the latter from 128. -/
theorem parse_chain_and_source (table : OperatorTable) (op : Operator) (n : Nat)
    (hop : table.get? op.symbol = some op) (htext : IsOperatorText op.symbol) :
    let grammar : Grammar := { operators := table }
    let program := op.chainProgram (n + 1)
    (op.associativity = .left →
      grammar.parse (chain op.symbol (n + 1)) = .parsed program ∧
        (n + 3 ≤ 256 → grammar.parse program.source = .parsed program) ∧
        (256 < n + 3 → ∃ token, grammar.parse program.source = .rejected (.tooDeep token))) ∧
    (op.associativity = .right →
      (n + 2 ≤ 256 → grammar.parse (chain op.symbol (n + 1)) = .parsed program) ∧
        (2 * n + 3 ≤ 256 → grammar.parse program.source = .parsed program) ∧
        (256 < 2 * n + 3 →
          ∃ token, grammar.parse program.source = .rejected (.tooDeep token))) := by
  intro grammar program
  have hallows : ∀ depth, grammar.Allows depth ↔ depth ≤ 256 := by simp [grammar, Grammar.Allows]
  obtain ⟨hparsed, hdeep⟩ :
      (grammar.Allows (op.chainTree (n + 1)).cost →
          grammar.parse program.source = .parsed program) ∧
        (¬ grammar.Allows (op.chainTree (n + 1)).cost →
          ∃ token, grammar.parse program.source = .rejected (.tooDeep token)) :=
    Grammar.parse_source_chainProgram hop htext n
  rw [hallows] at hparsed hdeep
  constructor
  · intro hleft
    have hcost := op.cost_chainTree_of_left hleft n
    have hdepth := op.depth_waiting_of_left hleft n
    refine ⟨Grammar.parse_chain hop htext ?_, ?_, ?_⟩
    · rw [hallows]
      omega
    · exact fun hle => hparsed (by omega)
    · exact fun hlt => hdeep (by omega)
  · intro hright
    have hcost := op.cost_chainTree_of_right hright (n + 1)
    have hdepth := op.depth_waiting_of_right hright (n + 1)
    refine ⟨?_, ?_, ?_⟩
    · intro hle
      refine Grammar.parse_chain hop htext ?_
      rw [hallows]
      omega
    · exact fun hle => hparsed (by omega)
    · exact fun hlt => hdeep (by omega)

theorem parse_chain_and_source_powers :
    OperatorTable.standard.get? "^" = some ⟨"^", 50, .right⟩ ∧ IsOperatorText "^" ∧
      ({} : Grammar).parse (chain "^" 128) =
        .parsed (Operator.chainProgram ⟨"^", 50, .right⟩ 128) ∧
      ∃ token, ({} : Grammar).parse (Operator.chainProgram ⟨"^", 50, .right⟩ 128).source =
        .rejected (.tooDeep token) := by
  have hop : OperatorTable.standard.get? "^" = some ⟨"^", 50, .right⟩ := by decide
  have htext : IsOperatorText "^" := by decide
  obtain ⟨hparsed, -, hdeep⟩ :=
    (parse_chain_and_source .standard ⟨"^", 50, .right⟩ 127 hop htext).2 rfl
  exact ⟨hop, htext, hparsed (by decide), hdeep (by decide)⟩

/-- 255 sums make a program, but not their canonical source. -/
theorem parse_chain_source_ne_parsed :
    ¬ ∀ (table : OperatorTable) (text : String) (program : Program),
      ({ operators := table } : Grammar).parse text = .parsed program →
        ({ operators := table } : Grammar).parse program.source = .parsed program := by
  intro h
  let sum : Operator := ⟨"+", 20, .left⟩
  have hop : OperatorTable.standard.get? sum.symbol = some sum := by decide
  have htext : IsOperatorText "+" := by decide
  have hallows : ({} : Grammar).Allows ((sum.waiting (254 + 1)).depth + 1) := by
    rw [Operator.depth_waiting_of_left rfl 254]
    simp [Grammar.Allows]
  have hcost : ¬ ({} : Grammar).Allows (sum.chainTree (254 + 1)).cost := by
    rw [Operator.cost_chainTree_of_left rfl 254]
    simp [Grammar.Allows]
  have hsource := h .standard _ _ (Grammar.parse_chain hop htext hallows)
  obtain ⟨token, hdeep⟩ := (Grammar.parse_source_chainProgram hop htext 254).2 hcost
  exact absurd (hdeep.symm.trans hsource) (by simp)

end Fixity
