import Fixity.Proofs.Operator.Table
import Fixity.Proofs.Parse.Nesting
import Fixity.Proofs.Reading.Interchange
import Fixity.Proofs.Reading.Surroundings

/-! # Reading under another grouping

Tables with operators for the same symbols make the same of a text, up to the grouping of its
expressions. -/

namespace Fixity

/-- A member of an expression as it is written. A call is one member and has those of its arguments
in it. -/
inductive Item where
  | literal (value : Binary64)
  | var (name : String)
  | operator (symbol : String)
  | call (callee : String) (arguments : List (List Item))

mutual

/-- The operands and operators of an expression in the order in which they are written. -/
def Expr.items : Expr → List Item
  | .literal value => [.literal value]
  | .var name => [.var name]
  | .binary symbol left right => left.items ++ .operator symbol :: right.items
  | .call callee arguments => [.call callee (Expr.itemsOfAll arguments)]

def Expr.itemsOfAll : List Expr → List (List Item)
  | [] => []
  | e :: es => e.items :: Expr.itemsOfAll es

end

def Declaration.items : Declaration → Prototype × Option (List Item)
  | external prototype => (prototype, none)
  | definition prototype body => (prototype, some body.items)

def Program.items (program : Program) : List (Prototype × Option (List Item)) :=
  program.map Declaration.items

theorem Expr.itemsOfAll_eq_map (es : List Expr) : Expr.itemsOfAll es = es.map Expr.items := by
  induction es with
  | nil => rfl
  | cons e es ih => rw [Expr.itemsOfAll, ih, List.map_cons]

theorem Expr.items_call_reverse {callee : String} {arguments arguments' : List Expr}
    (h : Expr.itemsOfAll arguments = Expr.itemsOfAll arguments') :
    (Expr.call callee arguments.reverse).items = (Expr.call callee arguments'.reverse).items := by
  rw [itemsOfAll_eq_map, itemsOfAll_eq_map] at h
  rw [items, items, itemsOfAll_eq_map, itemsOfAll_eq_map, List.map_reverse, List.map_reverse, h]

/-! ## Surroundings -/

namespace Surroundings

/-- What is written of an expression in front of its next operand. -/
def itemsBefore : Surroundings → List Item
  | operand left op outer => outer.itemsBefore ++ (left.items ++ [.operator op.symbol])
  | _ => []

theorem items_whole (e : Expr) (surroundings : Surroundings) :
    (surroundings.whole e).items = surroundings.itemsBefore ++ e.items := by
  induction surroundings generalizing e with
  | operand left op outer ih =>
      rw [whole_operand, ih, itemsBefore, Expr.items]
      simp
  | _ => rfl

theorem items_fold (precedence : Nat) (e : Expr) (surroundings : Surroundings) :
    (surroundings.fold precedence e).2.itemsBefore ++ (surroundings.fold precedence e).1.items =
      surroundings.itemsBefore ++ e.items := by
  induction surroundings generalizing e with
  | operand left op outer ih =>
      rw [fold]
      split
      · rw [ih, itemsBefore, Expr.items]
        simp
      · rfl
  | _ => rfl

/-- The same construct around an expression, with the same written in front of it. -/
inductive SameConstruct : Surroundings → Surroundings → Prop
  | statement : SameConstruct .statement .statement
  | body {prototype} : SameConstruct (.body prototype) (.body prototype)
  | group {outer outer'} : outer.itemsBefore = outer'.itemsBefore →
      SameConstruct outer.base outer'.base → SameConstruct (.group outer) (.group outer')
  | argument {callee latestFirst latestFirst' outer outer'} :
      Expr.itemsOfAll latestFirst = Expr.itemsOfAll latestFirst' →
      outer.itemsBefore = outer'.itemsBefore → SameConstruct outer.base outer'.base →
      SameConstruct (.argument callee latestFirst outer) (.argument callee latestFirst' outer')

/-- The same was written, however it has been grouped so far. -/
structure Regrouped (surroundings surroundings' : Surroundings) : Prop where
  items : surroundings.itemsBefore = surroundings'.itemsBefore
  construct : SameConstruct surroundings.base surroundings'.base

variable {surroundings surroundings' : Surroundings}

theorem Regrouped.items_whole_eq (h : surroundings.Regrouped surroundings') {e e' : Expr}
    (he : e.items = e'.items) : (surroundings.whole e).items = (surroundings'.whole e').items := by
  rw [items_whole, items_whole, h.items, he]

theorem Regrouped.statement : Regrouped .statement .statement := ⟨rfl, .statement⟩

theorem Regrouped.body {prototype : Prototype} : Regrouped (.body prototype) (.body prototype) :=
  ⟨rfl, .body⟩

theorem Regrouped.group (h : surroundings.Regrouped surroundings') :
    Regrouped (.group surroundings) (.group surroundings') :=
  ⟨rfl, .group h.items h.construct⟩

theorem Regrouped.argument (h : surroundings.Regrouped surroundings') {callee : String}
    {latestFirst latestFirst' : List Expr}
    (hitems : Expr.itemsOfAll latestFirst = Expr.itemsOfAll latestFirst') :
    Regrouped (.argument callee latestFirst surroundings)
      (.argument callee latestFirst' surroundings') :=
  ⟨rfl, .argument hitems h.items h.construct⟩

/-- An operator waits behind the same items, whichever operands the others took because of it. -/
theorem Regrouped.operand {e e' : Expr} {op op' : Operator}
    (hitems : (surroundings.whole e).items = (surroundings'.whole e').items)
    (hconstruct : SameConstruct surroundings.base surroundings'.base)
    (hsymbol : op.symbol = op'.symbol) :
    Regrouped
      (.operand (surroundings.fold op.precedence e).1 op (surroundings.fold op.precedence e).2)
      (.operand (surroundings'.fold op'.precedence e').1 op'
        (surroundings'.fold op'.precedence e').2) := by
  rw [items_whole, items_whole] at hitems
  constructor
  · rw [itemsBefore, itemsBefore, ← List.append_assoc, ← List.append_assoc, items_fold, items_fold,
      hitems, hsymbol]
  · simpa using hconstruct

end Surroundings

/-! ## Readings -/

/-- The same place in the same declaration, however its expressions are grouped. -/
inductive Reading.Regrouped : Reading → Reading → Prop
  | head {reading} : reading.InHead → Regrouped reading reading
  | operand {surroundings surroundings'} : surroundings.Regrouped surroundings' →
      Regrouped (.operand surroundings) (.operand surroundings')
  | afterName {name surroundings surroundings'} : surroundings.Regrouped surroundings' →
      Regrouped (.afterName name surroundings) (.afterName name surroundings')
  | afterOperand {e e' surroundings surroundings'} :
      (surroundings.whole e).items = (surroundings'.whole e').items →
      Surroundings.SameConstruct surroundings.base surroundings'.base →
      Regrouped (.afterOperand e surroundings) (.afterOperand e' surroundings')
  | argument {callee latestFirst latestFirst' outer outer'} :
      Expr.itemsOfAll latestFirst = Expr.itemsOfAll latestFirst' → outer.Regrouped outer' →
      Regrouped (.argument callee latestFirst outer) (.argument callee latestFirst' outer')

structure Advance.Regrouped (step step' : Advance) : Prop where
  completed : step.completed.map Declaration.items = step'.completed.map Declaration.items
  reading : step.reading.Regrouped step'.reading

structure Progress.Regrouped (progress progress' : Progress) : Prop where
  latestFirst : Program.items progress.latestFirst = Program.items progress'.latestFirst
  reading : progress.reading.Regrouped progress'.reading

/-- The same outcome, up to the grouping of expressions. -/
inductive Outcome.Regrouped : Outcome → Outcome → Prop
  | needsMoreInput : Regrouped .needsMoreInput .needsMoreInput
  | rejected (error : ParseError) : Regrouped (.rejected error) (.rejected error)
  | parsed {program program'} : Program.items program = Program.items program' →
      Regrouped (.parsed program) (.parsed program')

/-- Tables that have operators for the same symbols. -/
def SameSymbols (table other : OperatorTable) : Prop :=
  ∀ symbol, (table.get? symbol).isSome = (other.get? symbol).isSome

namespace Grammar

variable {grammar other : Grammar} {token : Token} {surroundings surroundings' : Surroundings}

/-! ## One token -/

theorem readNumber_regrouped (h : surroundings.Regrouped surroundings') :
    InStep Reading.Regrouped (readNumber token surroundings) (readNumber token surroundings') := by
  unfold readNumber
  split
  · exact .read (.afterOperand (h.items_whole_eq rfl) h.construct)
  · exact .refused _
  · exact .refused _

theorem readOperand_regrouped (h : surroundings.Regrouped surroundings') :
    InStep Reading.Regrouped (grammar.unlimited.readOperand surroundings token)
      (other.unlimited.readOperand surroundings' token) := by
  simp only [readOperand, exceeds_unlimited, Bool.false_eq_true, if_false]
  refine .ite (fun _ => .read (.operand h.group)) fun _ => ?_
  cases token.kind with
  | identifier => exact .read (.afterName h)
  | number => exact readNumber_regrouped h
  | _ => exact .refused _

theorem readStart_regrouped :
    InStep Reading.Regrouped (grammar.unlimited.readStart token)
      (other.unlimited.readStart token) := by
  unfold readStart
  split
  · exact .read (.head trivial)
  · exact .read (.head trivial)
  · exact readOperand_regrouped .statement

theorem readParameter_regrouped (head : HeadKind) (name : String) (latestFirst : List String) :
    InStep Advance.Regrouped (readParameter head name latestFirst token)
      (readParameter head name latestFirst token) := by
  unfold readParameter
  refine .ite (fun _ => .read ⟨rfl, .head trivial⟩) fun _ => .ite (fun _ => ?_)
    fun _ => .refused _
  cases head with
  | external => exact .read ⟨rfl, .head trivial⟩
  | definition => exact .read ⟨rfl, .head trivial⟩

theorem readArgument_regrouped (h : surroundings.Regrouped surroundings') (callee : String)
    {latestFirst latestFirst' : List Expr}
    (hitems : Expr.itemsOfAll latestFirst = Expr.itemsOfAll latestFirst') :
    InStep Reading.Regrouped
      (grammar.unlimited.readArgument callee latestFirst surroundings token)
      (other.unlimited.readArgument callee latestFirst' surroundings' token) := by
  refine .ite (fun _ => .read (.afterOperand ?_ h.construct)) fun _ => ?_
  · exact h.items_whole_eq (Expr.items_call_reverse hitems)
  · exact readOperand_regrouped (h.argument hitems)

/-- A token that is no operator sees the same items in the same construct. -/
theorem readAfterExpr_regrouped {e e' : Expr}
    (hitems : (surroundings.whole e).items = (surroundings'.whole e').items)
    (hconstruct : Surroundings.SameConstruct surroundings.base surroundings'.base) :
    InStep Advance.Regrouped (grammar.unlimited.readAfterExpr token e surroundings)
      (other.unlimited.readAfterExpr token e' surroundings') := by
  rw [readAfterExpr_eq _ _ e, readAfterExpr_eq _ _ e']
  generalize surroundings.whole e = whole at hitems ⊢
  generalize surroundings'.whole e' = whole' at hitems ⊢
  generalize surroundings.base = base at hconstruct ⊢
  generalize surroundings'.base = base' at hconstruct ⊢
  have hdefinition : ∀ prototype : Prototype,
      (some (Declaration.definition prototype whole)).map Declaration.items =
        (some (Declaration.definition prototype whole')).map Declaration.items := by
    intro prototype
    simp [Declaration.items, hitems]
  cases hconstruct with
  | statement => exact readStart_regrouped.map fun hreading => ⟨hdefinition _, hreading⟩
  | body => exact .ite (fun _ => .read ⟨hdefinition _, .head trivial⟩) fun _ => .refused _
  | group houter hconstruct =>
      refine .ite (fun _ => .read ⟨rfl, .afterOperand ?_ hconstruct⟩) fun _ => .refused _
      rw [Surroundings.items_whole, Surroundings.items_whole, houter, hitems]
  | @argument callee latestFirst latestFirst' outer outer' harguments houter hconstruct =>
      have hall : Expr.itemsOfAll (whole :: latestFirst) =
          Expr.itemsOfAll (whole' :: latestFirst') := by
        rw [Expr.itemsOfAll, Expr.itemsOfAll, hitems, harguments]
      have hregrouped : outer.Regrouped outer' := ⟨houter, hconstruct⟩
      refine .ite (fun _ => .read ⟨rfl, .argument hall hregrouped⟩) fun _ => ?_
      exact (readArgument_regrouped hregrouped callee hall).map fun hreading => ⟨rfl, hreading⟩

theorem readAfterOperand_regrouped (hsymbols : SameSymbols grammar.operators other.operators)
    {e e' : Expr} (hitems : (surroundings.whole e).items = (surroundings'.whole e').items)
    (hconstruct : Surroundings.SameConstruct surroundings.base surroundings'.base) :
    InStep Advance.Regrouped (grammar.unlimited.readAfterOperand e surroundings token)
      (other.unlimited.readAfterOperand e' surroundings' token) := by
  refine .ite (fun _ => ?_) fun _ => readAfterExpr_regrouped hitems hconstruct
  have hknown := hsymbols token.text
  simp only [unlimited]
  cases hop : grammar.operators.get? token.text with
  | none =>
      rw [hop] at hknown
      rw [Option.isSome_eq_false_iff.mp hknown.symm |> Option.isNone_iff_eq_none.mp]
      exact .refused _
  | some op =>
      rw [hop] at hknown
      obtain ⟨op', hop'⟩ := Option.isSome_iff_exists.mp hknown.symm
      have hsymbol : op.symbol = op'.symbol :=
        (OperatorTable.symbol_of_get? hop).trans (OperatorTable.symbol_of_get? hop').symm
      rw [hop']
      exact .read ⟨rfl, .operand (.operand hitems hconstruct hsymbol)⟩

theorem read_regrouped (hsymbols : SameSymbols grammar.operators other.operators)
    {reading reading' : Reading} (h : reading.Regrouped reading') :
    InStep Advance.Regrouped (grammar.unlimited.read reading token)
      (other.unlimited.read reading' token) := by
  cases h with
  | operand hsurroundings =>
      exact (readOperand_regrouped hsurroundings).map fun hreading => ⟨rfl, hreading⟩
  | afterName hsurroundings =>
      refine .ite (fun _ => .read ⟨rfl, .argument rfl hsurroundings⟩) fun _ => ?_
      exact readAfterOperand_regrouped hsymbols (hsurroundings.items_whole_eq rfl)
        hsurroundings.construct
  | afterOperand hitems hconstruct =>
      exact readAfterOperand_regrouped hsymbols hitems hconstruct
  | argument hitems houter =>
      exact (readArgument_regrouped houter _ hitems).map fun hreading => ⟨rfl, hreading⟩
  | head hhead =>
      cases reading with
      | ready => exact readStart_regrouped.map fun hreading => ⟨rfl, hreading⟩
      | functionName => exact .ite (fun _ => .read ⟨rfl, .head trivial⟩) fun _ => .refused _
      | parameterList => exact .ite (fun _ => .read ⟨rfl, .head trivial⟩) fun _ => .refused _
      | parameter head name latestFirst => exact readParameter_regrouped head name latestFirst
      | afterParameter head name latestFirst =>
          exact .ite (fun _ => .read ⟨rfl, .head trivial⟩) fun _ =>
            readParameter_regrouped head name latestFirst
      | bodyStart => exact .ite (fun _ => .read ⟨rfl, .operand .body⟩) fun _ => .refused _
      | operand | afterName | afterOperand | argument => exact hhead.elim

/-! ## All tokens -/

theorem readAll_regrouped (hsymbols : SameSymbols grammar.operators other.operators)
    {progress progress' : Progress} (h : progress.Regrouped progress') (tokens : List Token) :
    InStep Progress.Regrouped (grammar.unlimited.readAll progress tokens)
      (other.unlimited.readAll progress' tokens) := by
  induction tokens generalizing progress progress' with
  | nil => exact .read h
  | cons token tokens ih =>
      have hadvance : InStep Progress.Regrouped (grammar.unlimited.advance progress token)
          (other.unlimited.advance progress' token) := by
        refine (read_regrouped hsymbols h.reading).map fun hstep => ⟨?_, hstep.reading⟩
        have hcompleted := congrArg Option.toList hstep.completed
        simp only [Option.toList_map] at hcompleted
        have hbefore := h.latestFirst
        simp only [Program.items, List.map_append] at hbefore ⊢
        rw [hcompleted, hbefore]
      exact hadvance.bind fun hnext => ih hnext

theorem finishExpr_regrouped {progress progress' : Progress}
    (hdone : Program.items progress.latestFirst = Program.items progress'.latestFirst) {e e' : Expr}
    (hitems : (surroundings.whole e).items = (surroundings'.whole e').items)
    (hconstruct : Surroundings.SameConstruct surroundings.base surroundings'.base) :
    (finishExpr progress e surroundings).Regrouped (finishExpr progress' e' surroundings') := by
  rw [finishExpr, finishExpr, Surroundings.complete?_eq e, Surroundings.complete?_eq e']
  generalize surroundings.whole e = whole at hitems ⊢
  generalize surroundings'.whole e' = whole' at hitems ⊢
  generalize surroundings.base = base at hconstruct ⊢
  generalize surroundings'.base = base' at hconstruct ⊢
  cases hconstruct with
  | statement =>
      refine .parsed ?_
      simp only [Program.items] at hdone ⊢
      simp [hdone, Declaration.items, hitems]
  | _ => exact .needsMoreInput

theorem finish_regrouped {progress progress' : Progress} (h : progress.Regrouped progress')
    (stop : Token) :
    (grammar.unlimited.finish progress stop).Regrouped (other.unlimited.finish progress' stop) := by
  obtain ⟨latestFirst, reading⟩ := progress
  obtain ⟨latestFirst', reading'⟩ := progress'
  obtain ⟨hdone, hreading⟩ := h
  cases hreading with
  | operand =>
      simp only [finish, exceeds_unlimited, Bool.false_eq_true, if_false]
      exact .needsMoreInput
  | afterName hsurroundings =>
      exact finishExpr_regrouped hdone (hsurroundings.items_whole_eq rfl) hsurroundings.construct
  | afterOperand hitems hconstruct => exact finishExpr_regrouped hdone hitems hconstruct
  | argument => exact .needsMoreInput
  | head hhead =>
      cases reading with
      | ready =>
          refine .parsed ?_
          simp only [Program.items] at hdone ⊢
          simp [hdone]
      | operand | afterName | afterOperand | argument => exact hhead.elim
      | _ => exact .needsMoreInput

/-- Without a limit to nesting, tables with the same symbols make the same of every text, up to
grouping. -/
theorem parse_unlimited_regrouped (hsymbols : SameSymbols grammar.operators other.operators)
    (text : String) :
    (grammar.unlimited.parse text).Regrouped (other.unlimited.parse text) := by
  unfold parse
  cases scan text with
  | error error => exact .rejected _
  | ok scanned =>
      have hstart : Progress.Regrouped {} {} := ⟨rfl, .head trivial⟩
      have hread := readAll_regrouped hsymbols hstart scanned.words
      simp only [parseScan_eq]
      generalize grammar.unlimited.readAll {} scanned.words = result at hread ⊢
      generalize other.unlimited.readAll {} scanned.words = result' at hread ⊢
      cases hread with
      | refused error => exact .rejected error
      | read hregrouped => exact finish_regrouped hregrouped scanned.stop

end Grammar

/-- With operators for the same symbols, however they are grouped, a text has the same outcome up to
grouping, as long as it is not too deep for either parse. -/
theorem parse_regrouped (grammar other : Grammar)
    (hsymbols : SameSymbols grammar.operators other.operators) (text : String)
    (hdeep : ∀ token, grammar.parse text ≠ .rejected (.tooDeep token))
    (hdeepOther : ∀ token, other.parse text ≠ .rejected (.tooDeep token)) :
    (grammar.parse text).Regrouped (other.parse text) := by
  rcases grammar.parse_unlimited text with ⟨token, htoken⟩ | hunlimited
  · exact absurd htoken (hdeep token)
  rcases other.parse_unlimited text with ⟨token, htoken⟩ | hunlimitedOther
  · exact absurd htoken (hdeepOther token)
  rw [hunlimited, hunlimitedOther]
  exact Grammar.parse_unlimited_regrouped hsymbols text

/-- With sums to the right and tighter than products, the trees differ, also inside of
arguments. -/
theorem parse_regrouped_sums :
    let other : Grammar := (({} : Grammar).register ⟨"+", 60, .right⟩).register ⟨"-", 60, .right⟩
    let text := "x * y + f(a - b - c, d) < z"
    let tree : Expr := .binary "<" (.binary "+" (.binary "*" (.var "x") (.var "y")) (.call "f"
      [.binary "-" (.binary "-" (.var "a") (.var "b")) (.var "c"), .var "d"])) (.var "z")
    let regrouped : Expr := .binary "<" (.binary "*" (.var "x") (.binary "+" (.var "y") (.call "f"
      [.binary "-" (.var "a") (.binary "-" (.var "b") (.var "c")), .var "d"]))) (.var "z")
    ({} : Grammar).parse text = .parsed [.definition .anonymous tree] ∧
      other.parse text = .parsed [.definition .anonymous regrouped] ∧
      tree.items = regrouped.items ∧ (({} : Grammar).parse text).Regrouped (other.parse text) := by
  refine ⟨rfl, rfl, rfl, parse_regrouped {} _ (fun symbol => ?_) _ ?_ ?_⟩
  · rw [← Bool.coe_iff_coe, OperatorTable.isSome_get?_iff, OperatorTable.isSome_get?_iff]
    rfl
  · exact fun token hdeep => Bool.noConfusion (congrArg Outcome.isParsed hdeep)
  · exact fun token hdeep => Bool.noConfusion (congrArg Outcome.isParsed hdeep)

end Fixity
