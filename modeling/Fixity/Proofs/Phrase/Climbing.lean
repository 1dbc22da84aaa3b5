import Fixity.Proofs.Phrase.Spelling

/-! # Phrases that precedence climbing builds

Such a phrase is grouped in all of its chains, and its left spine keeps a floor. -/

namespace Fixity

namespace Phrase

theorem grouped_of_fullyGrouped {phrase : Phrase} (h : phrase.FullyGrouped) : phrase.Grouped :=
  h phrase (by simp [expressions])

theorem mem_innerOfAll {chain : Phrase} {phrases : List Phrase} :
    chain ∈ innerOfAll phrases ↔ ∃ phrase ∈ phrases, chain ∈ phrase.expressions := by
  induction phrases with
  | nil => simp [innerOfAll]
  | cons phrase rest ih => simp [innerOfAll, expressions, ih, or_assoc]

theorem fullyGrouped_literal (value : Binary64) : (literal value).FullyGrouped := by
  simp [FullyGrouped, expressions, inner, Grouped]

theorem fullyGrouped_var (name : String) : (var name).FullyGrouped := by
  simp [FullyGrouped, expressions, inner, Grouped]

theorem fullyGrouped_call {callee : String} {arguments : List Phrase}
    (h : ∀ argument ∈ arguments, argument.FullyGrouped) :
    (call callee arguments).FullyGrouped := by
  intro chain hchain
  rcases List.mem_cons.mp hchain with rfl | hchain
  · trivial
  · obtain ⟨argument, hargument, hchain⟩ := mem_innerOfAll.mp hchain
    exact h argument hargument chain hchain

theorem fullyGrouped_group {content : Phrase} (h : content.FullyGrouped) :
    (group content).FullyGrouped := by
  intro chain hchain
  rcases List.mem_cons.mp hchain with rfl | hchain
  · trivial
  · exact h chain hchain

theorem fullyGrouped_binary {op : Operator} {left right : Phrase} (hleft : left.FullyGrouped)
    (hright : right.FullyGrouped) (hbelow : ∀ p ∈ left.rightSpine, op.precedence < p.rightFloor)
    (habove : ∀ q ∈ right.leftSpine, op.rightFloor ≤ q.precedence) :
    (binary op left right).FullyGrouped := by
  intro chain hchain
  rcases List.mem_cons.mp hchain with rfl | hchain
  · exact ⟨habove, hbelow, grouped_of_fullyGrouped hleft, grouped_of_fullyGrouped hright⟩
  · rcases List.mem_append.mp hchain with hchain | hchain
    · exact hleft chain (List.mem_cons_of_mem _ hchain)
    · exact hright chain (List.mem_cons_of_mem _ hchain)

end Phrase

/-- The tokens spell the phrase, and it is what climbing from the floor makes of them. -/
structure Climbed (table : OperatorTable) (floor : Nat) (phrase : Phrase) (tokens : List Token) :
    Prop where
  spells : Spells table phrase tokens
  grouped : phrase.FullyGrouped
  floor_le : ∀ q ∈ phrase.leftSpine, floor ≤ q.precedence

namespace Climbed

variable {table : OperatorTable} {floor : Nat}

theorem of_isOperand {phrase : Phrase} {tokens : List Token} (h : phrase.IsOperand)
    (hspells : Spells table phrase tokens) (hgrouped : phrase.FullyGrouped) :
    Climbed table floor phrase tokens :=
  ⟨hspells, hgrouped, by simp [Phrase.leftSpine_of_isOperand h]⟩

/-- An operator joins what was climbed in front of it with what is climbed from its own floor. -/
theorem binary {op : Operator} {operator : Token} {left right : Phrase} {before behind : List Token}
    (hleft : Climbed table floor left before) (hfloor : floor ≤ op.precedence)
    (hbelow : ∀ p ∈ left.rightSpine, op.precedence < p.rightFloor)
    (hkind : operator.kind = .operator) (hop : table.get? operator.text = some op)
    (hright : Climbed table op.rightFloor right behind) :
    Climbed table floor (.binary op left right) (before ++ operator :: behind) where
  spells := .binary hleft.spells hkind hop hright.spells
  grouped := Phrase.fullyGrouped_binary hleft.grouped hright.grouped hbelow hright.floor_le
  floor_le := by
    intro q hq
    simp only [Phrase.leftSpine, List.mem_cons] at hq
    rcases hq with rfl | hq
    · exact hfloor
    · exact hleft.floor_le q hq

end Climbed

/-! ## Programs -/

/-- The tokens spell the declarations, and climbing has grouped all of their bodies. -/
structure Written (table : OperatorTable) (statements : List Statement) (tokens : List Token) :
    Prop where
  spells : SpellsProgram table statements tokens
  grouped : ∀ statement ∈ statements, ∀ body ∈ statement.body?, body.FullyGrouped

namespace Written

variable {table : OperatorTable}

theorem nil : Written table [] [] := ⟨.nil, by simp⟩

theorem singleton {statement : Statement} {tokens : List Token}
    (h : SpellsStatement table statement tokens)
    (hgrouped : ∀ body ∈ statement.body?, body.FullyGrouped) :
    Written table [statement] tokens := by
  have hspells := SpellsProgram.cons h .nil
  rw [List.append_nil] at hspells
  exact ⟨hspells, by simpa using hgrouped⟩

theorem append {statements others : List Statement} {tokens rest : List Token}
    (h : Written table statements tokens) (hothers : Written table others rest) :
    Written table (statements ++ others) (tokens ++ rest) where
  spells := h.spells.append hothers.spells
  grouped := by
    intro statement hstatement
    rcases List.mem_append.mp hstatement with hmem | hmem
    · exact h.grouped statement hmem
    · exact hothers.grouped statement hmem

end Written

end Fixity
