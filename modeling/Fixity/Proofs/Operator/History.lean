import Fixity.Parse.Basic
import Fixity.Proofs.CommandLine.Operators
import Fixity.Proofs.Operator.Table

/-! # The history of a table

A table is the map of the last operator registered for every symbol, whatever its history was. -/

namespace Fixity

/-- A change of the operators of a grammar. -/
inductive Change where
  | register (op : Operator)
  | reset
deriving DecidableEq

/-- The operator that a change registers for a symbol. -/
def Change.registers? (symbol : String) : Change → Option Operator
  | register op => if op.symbol = symbol then some op else none
  | reset => none

/-- The last operator that was registered for a symbol, unless a reset came behind it. -/
def lastRegistered (changes : List Change) (symbol : String) : Option Operator :=
  (changes.reverse.takeWhile (· ≠ .reset)).findSome? (Change.registers? symbol)

/-- The table behind everything that was registered since the last reset. -/
def tableBelow (start : OperatorTable) (changes : List Change) : OperatorTable :=
  if .reset ∈ changes then .standard else start

/-- The operator that was the last to be written for a symbol. -/
def lastWritten (start : OperatorTable) (changes : List Change) (symbol : String) :
    Option Operator :=
  (lastRegistered changes symbol).or ((tableBelow start changes).get? symbol)

variable {start : OperatorTable} {changes : List Change} {op : Operator} {symbol : String}

theorem lastWritten_register :
    lastWritten start (changes ++ [.register op]) symbol =
      if op.symbol = symbol then some op else lastWritten start changes symbol := by
  have hbelow : tableBelow start (changes ++ [.register op]) = tableBelow start changes := by
    simp [tableBelow]
  simp only [lastWritten, lastRegistered, hbelow]
  split
  · simp [Change.registers?, *]
  · simp [Change.registers?, *]

theorem lastWritten_reset :
    lastWritten start (changes ++ [.reset]) symbol = OperatorTable.standard.get? symbol := by
  simp [lastWritten, lastRegistered, tableBelow]

namespace Grammar

/-- Makes a change. A registration answers with the operator that it replaces. -/
def change (grammar : Grammar) : Change → Option Operator × Grammar
  | .register op => (grammar.operators.replaced? op, grammar.register op)
  | .reset => (none, grammar.reset)

def changeAll (grammar : Grammar) : List Change → List (Option Operator) × Grammar
  | [] => ([], grammar)
  | change :: changes =>
    let (answer, changed) := grammar.change change
    let (answers, last) := changed.changeAll changes
    (answer :: answers, last)

def operatorsAfter (grammar : Grammar) (changes : List Change) : OperatorTable :=
  (grammar.changeAll changes).2.operators

theorem changeAll_append (grammar : Grammar) (before after : List Change) :
    grammar.changeAll (before ++ after) =
      ((grammar.changeAll before).1 ++ ((grammar.changeAll before).2.changeAll after).1,
        ((grammar.changeAll before).2.changeAll after).2) := by
  induction before generalizing grammar with
  | nil => rfl
  | cons change changes ih => simp only [List.cons_append, changeAll, ih]

theorem length_changeAll (grammar : Grammar) (changes : List Change) :
    (grammar.changeAll changes).1.length = changes.length := by
  induction changes generalizing grammar with
  | nil => rfl
  | cons change changes ih => simp only [changeAll, List.length_cons, ih]

theorem operatorsAfter_concat (grammar : Grammar) (changes : List Change) (change : Change) :
    grammar.operatorsAfter (changes ++ [change]) =
      ((grammar.changeAll changes).2.change change).2.operators := by
  rw [operatorsAfter, changeAll_append]
  rfl

theorem get?_operatorsAfter (grammar : Grammar) (changes : List Change) (symbol : String) :
    (grammar.operatorsAfter changes).get? symbol =
      lastWritten grammar.operators changes symbol := by
  induction changes using List.reverseRecOn with
  | nil => rfl
  | append_singleton changes change ih =>
      rw [operatorsAfter_concat]
      cases change with
      | register op =>
          rw [lastWritten_register, ← ih]
          exact OperatorTable.get?_insert _ op symbol
      | reset => exact lastWritten_reset.symm

/-- The registration of an operator answers with what was written for its symbol before. -/
theorem getElem?_changeAll_register (grammar : Grammar) (before after : List Change)
    (op : Operator) :
    (grammar.changeAll (before ++ .register op :: after)).1[before.length]? =
      some (lastWritten grammar.operators before op.symbol) := by
  rw [changeAll_append, ← grammar.length_changeAll before, List.getElem?_append_right le_rfl,
    Nat.sub_self, ← get?_operatorsAfter, ← OperatorTable.replaced?_eq_get?]
  rfl

theorem operatorsAfter_map_register (grammar : Grammar) (ops : List Operator) :
    grammar.operatorsAfter (ops.map .register) =
      ops.foldl OperatorTable.insert grammar.operators := by
  induction ops generalizing grammar with
  | nil => rfl
  | cons op ops ih => exact ih (grammar.register op)

theorem holds_operatorsAfter (grammar : Grammar) (changes : List Change) :
    (grammar.operatorsAfter changes).Holds (lastWritten grammar.operators changes) := by
  have hfind : (grammar.operatorsAfter changes).get? = lastWritten grammar.operators changes :=
    funext (grammar.get?_operatorsAfter changes)
  exact hfind ▸ OperatorTable.holds_get? _

end Grammar

/-- Behind every history, a table and its listing show what was written last for each symbol and
nothing else, and registering answers with what was written last. The operators of a command line
are such a history. -/
theorem changeAll_lastWritten (start : Grammar) (changes : List Change) :
    (start.operatorsAfter changes).Holds (lastWritten start.operators changes) ∧
      (∀ before op after, changes = before ++ .register op :: after →
        (start.changeAll changes).1[before.length]? =
          some (lastWritten start.operators before op.symbol)) ∧
      (∀ (other : Grammar) (changes' : List Change),
        (∀ symbol, (start.operatorsAfter changes).get? symbol =
          (other.operatorsAfter changes').get? symbol) →
        start.operatorsAfter changes = other.operatorsAfter changes' ∧
          (start.operatorsAfter changes).listing = (other.operatorsAfter changes').listing) ∧
      (∀ arguments settings, CommandLine.Request.ofArguments arguments = .run settings →
        List.SublistForall₂ (fun spec argument => spec.toList <:+ argument.toList)
            settings.operators arguments ∧
          ∀ table, CommandLine.operatorTable settings.operators = .ok table ↔ ∃ ops,
            List.Forall₂ (fun spec op => Operator.ofSpec spec = .ok op) settings.operators ops ∧
              table = ({} : Grammar).operatorsAfter (ops.map .register)) ∧
      ∀ specs : List String, (∀ spec ∈ specs, spec.toList.head? ≠ some '-') →
        CommandLine.Request.ofArguments (specs.flatMap fun spec => ["-o", spec]) =
          .run { operators := specs } := by
  refine ⟨start.holds_operatorsAfter changes, ?_, ?_, ?_, ?_⟩
  · rintro before op after rfl
    exact start.getElem?_changeAll_register before after op
  · intro other changes' hsame
    have htables := OperatorTable.ext_get? hsame
    exact ⟨htables, htables ▸ rfl⟩
  · intro arguments settings hsettings
    obtain ⟨specs, hoperators, hspecs⟩ := CommandLine.Given.exists_operators_of_readAll hsettings
    refine ⟨hoperators ▸ hspecs, fun table => ?_⟩
    simp only [CommandLine.operatorTable, CommandLine.foldlM_insertSpec_eq_ok_iff,
      Grammar.operatorsAfter_map_register]
  · exact fun specs hspecs => CommandLine.Given.readAll_flatMap [] hspecs

/-- A reset takes a registration back, symbols need not be operators of texts, and options may be
written in one argument or two. -/
theorem changeAll_lastWritten_reset :
    let changes : List Change := [.register ⟨"+", 60, .right⟩, .register ⟨"+", 70, .left⟩, .reset,
      .register ⟨"over", 5, .left⟩, .register ⟨"+", 45, .right⟩]
    let arguments := ["-o+:60:r", "--operator", "&:1", "program", "-to=+:2"]
    let settings : CommandLine.Settings :=
      { showTokens := true, operators := ["+:60:r", "&:1", "+:2"], file := some "program" }
    (({} : Grammar).changeAll changes).1 =
        [some ⟨"+", 20, .left⟩, some ⟨"+", 60, .right⟩, none, none, some ⟨"+", 20, .left⟩] ∧
      lastWritten .standard changes "+" = some ⟨"+", 45, .right⟩ ∧
      CommandLine.Request.ofArguments arguments = .run settings ∧
      (({} : Grammar).operatorsAfter changes).Holds (lastWritten .standard changes) ∧
      List.SublistForall₂ (fun spec argument => spec.toList <:+ argument.toList)
        settings.operators arguments := by
  intro changes arguments settings
  obtain ⟨hholds, -, -, hcommandLine, -⟩ := changeAll_lastWritten {} changes
  have hsettings : CommandLine.Request.ofArguments arguments = .run settings := by decide
  exact ⟨by decide, by decide, hsettings, hholds, (hcommandLine arguments settings hsettings).1⟩

end Fixity
