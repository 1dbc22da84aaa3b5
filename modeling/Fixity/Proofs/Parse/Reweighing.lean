import Fixity.Proofs.Operator.Table
import Fixity.Proofs.Reading.Interchange
import Mathlib.Order.Monotone.Basic

/-! # Only the order of precedences matters

Precedences are only ever compared, so others in the same order make the same of every text. -/

namespace Fixity

/-- The same operator with its precedence replaced. -/
def Operator.reweigh (f : Nat → Nat) (op : Operator) : Operator :=
  { op with precedence := f op.precedence }

namespace OperatorTable

/-- The same operators with their precedences replaced. -/
def reweigh (table : OperatorTable) (f : Nat → Nat) : OperatorTable where
  entries := table.entries.map (Operator.reweigh f)
  ascending := List.pairwise_map.mpr table.ascending

def precedences (table : OperatorTable) : Set Nat := {p | ∃ op ∈ table.entries, op.precedence = p}

variable {table : OperatorTable} {f : Nat → Nat}

theorem get?_reweigh (table : OperatorTable) (f : Nat → Nat) (symbol : String) :
    (table.reweigh f).get? symbol = (table.get? symbol).map (Operator.reweigh f) := by
  simp only [get?, reweigh, List.find?_map]
  rfl

theorem precedence_mem {op : Operator} (h : op ∈ table.entries) :
    op.precedence ∈ table.precedences := ⟨op, h, rfl⟩

/-- An operator of the table and what it becomes. -/
def Reweighed (table : OperatorTable) (f : Nat → Nat) (op op' : Operator) : Prop :=
  op ∈ table.entries ∧ op' = op.reweigh f

/-- A floor is a precedence or the next one above it. The same operators reach it as before. -/
theorem interchanges_reweighed (hf : StrictMonoOn f table.precedences) :
    Interchanges (table.Reweighed f) where
  symbol := by
    rintro op _ ⟨-, rfl⟩
    rfl
  competes := by
    rintro op _ waiting _ ⟨hop, rfl⟩ ⟨hwaiting, rfl⟩
    have hle := hf.le_iff_le (precedence_mem hop) (precedence_mem hwaiting)
    have hlt := hf.lt_iff_lt (precedence_mem hop) (precedence_mem hwaiting)
    cases hside : waiting.associativity with
    | left =>
        simp only [Operator.rightFloor, Operator.reweigh, hside, Nat.lt_succ_iff]
        exact hle.symm
    | right =>
        simp only [Operator.rightFloor, Operator.reweigh, hside]
        exact hlt.symm

end OperatorTable

def Grammar.reweigh (grammar : Grammar) (f : Nat → Nat) : Grammar :=
  { grammar with operators := grammar.operators.reweigh f }

theorem Grammar.looksUpAlike_reweigh (grammar : Grammar) (f : Nat → Nat) (token : Token) :
    LooksUpAlike (grammar.operators.Reweighed f) grammar (grammar.reweigh f) token := by
  intro _
  have hget := grammar.operators.get?_reweigh f token.text
  rw [reweigh, hget]
  cases hfound : grammar.operators.get? token.text with
  | none => exact .none
  | some op => exact .some ⟨OperatorTable.mem_of_get? hfound, rfl⟩

/-- Whatever the new precedences are, as long as they are in the order of the old ones, a text has
the same outcome: the same program, the same error at the same token, or the same need for more. -/
theorem parse_reweigh (grammar : Grammar) (f : Nat → Nat)
    (hf : StrictMonoOn f grammar.operators.precedences) (text : String) :
    (grammar.reweigh f).parse text = grammar.parse text := by
  have hpartners := OperatorTable.interchanges_reweighed hf
  have hlimit : grammar.nestingLimit = (grammar.reweigh f).nestingLimit := rfl
  unfold Grammar.parse
  cases scan text with
  | error error => rfl
  | ok scanned =>
      exact (Grammar.parseScan_eq_of_alike hpartners hlimit
        fun token _ => grammar.looksUpAlike_reweigh f token).symm

/-- The lowest levels become adjacent ones from zero on, the highest the greatest of 32 bits. -/
theorem parse_reweigh_stretched :
    let f := fun p => if p = 50 then 4294967295 else p / 10 - 1
    StrictMonoOn f OperatorTable.standard.precedences ∧
      (({} : Grammar).reweigh f).parse "a < b - c * d ^ e ^ f - g" = .parsed [.definition .anonymous
        (.binary "<" (.var "a") (.binary "-" (.binary "-" (.var "b") (.binary "*" (.var "c")
          (.binary "^" (.var "d") (.binary "^" (.var "e") (.var "f"))))) (.var "g")))] := by
  intro f
  have hentries : ∀ op ∈ OperatorTable.standard.entries, ∀ op' ∈ OperatorTable.standard.entries,
      op.precedence < op'.precedence → f op.precedence < f op'.precedence := by
    decide
  have hf : StrictMonoOn f OperatorTable.standard.precedences := by
    rintro _ ⟨op, hop, rfl⟩ _ ⟨op', hop', rfl⟩ hlt
    exact hentries op hop op' hop' hlt
  refine ⟨hf, ?_⟩
  rw [parse_reweigh {} f hf]
  rfl

end Fixity
