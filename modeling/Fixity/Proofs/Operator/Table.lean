import Fixity.Operator.Basic
import Mathlib.Data.Finset.Card
import Mathlib.Data.List.Sort
import Mathlib.Data.String.Basic

/-! # Looking up and listing

A table is known by its look-ups, and so is its listing. -/

namespace Fixity

/-- The order of a listing: by precedence, and by symbol within one precedence. -/
def Operator.Before (a b : Operator) : Prop :=
  a.precedence < b.precedence ∨ a.precedence = b.precedence ∧ a.symbol < b.symbol

instance (a b : Operator) : Decidable (a.Before b) := inferInstanceAs (Decidable (_ ∨ _))

instance : Std.Irrefl Operator.Before where
  irrefl op := by simp [Operator.Before]

instance : Std.Antisymm Operator.Before where
  antisymm := by
    rintro a b (hab | ⟨hab, hsymbol⟩) (hba | ⟨hba, hsymbol'⟩)
    · omega
    · omega
    · omega
    · exact absurd hsymbol' (lt_asymm hsymbol)

theorem Operator.before_or_before {a b : Operator} (h : a.symbol ≠ b.symbol) :
    a.Before b ∨ b.Before a := by
  rcases lt_trichotomy a.precedence b.precedence with hlt | heq | hgt
  · exact .inl (.inl hlt)
  · exact (lt_or_gt_of_ne h).imp (fun hlt => .inr ⟨heq, hlt⟩) fun hgt => .inr ⟨heq.symm, hgt⟩
  · exact .inr (.inl hgt)

theorem Operator.not_before_trans {a b c : Operator} (hab : ¬ b.Before a) (hbc : ¬ c.Before b) :
    ¬ c.Before a := by
  unfold Before at *
  push Not at *
  refine ⟨by omega, fun hprecedence => ?_⟩
  exact (hab.2 (by omega)).trans (hbc.2 (by omega))

namespace OperatorTable

variable {table other : OperatorTable} {op : Operator} {symbol : String}

/-! ## Looking up -/

theorem nodup_symbols (table : OperatorTable) : (table.entries.map Operator.symbol).Nodup := by
  rw [List.Nodup, List.pairwise_map]
  exact table.ascending.imp ne_of_lt

theorem mem_of_get? (h : table.get? symbol = some op) : op ∈ table.entries :=
  List.mem_of_find?_eq_some h

theorem symbol_of_get? (h : table.get? symbol = some op) : op.symbol = symbol := by
  simpa using List.find?_some h

theorem get?_eq_some_iff :
    table.get? symbol = some op ↔ op ∈ table.entries ∧ op.symbol = symbol := by
  constructor
  · exact fun h => ⟨mem_of_get? h, symbol_of_get? h⟩
  · rintro ⟨hmem, rfl⟩
    cases hfound : table.get? op.symbol with
    | none => simpa using List.find?_eq_none.mp hfound op hmem
    | some found =>
        have hsame := List.inj_on_of_nodup_map table.nodup_symbols (mem_of_get? hfound) hmem
          (symbol_of_get? hfound)
        rw [hsame]

theorem mem_entries_iff : op ∈ table.entries ↔ table.get? op.symbol = some op := by
  simp [get?_eq_some_iff]

theorem isSome_get?_iff :
    (table.get? symbol).isSome ↔ symbol ∈ table.entries.map Operator.symbol := by
  simp [Option.isSome_iff_exists, get?_eq_some_iff]

theorem replaced?_eq_get? (table : OperatorTable) (op : Operator) :
    table.replaced? op = table.get? op.symbol := by
  have hsame : ∀ other : Operator,
      (!(other.symbol < op.symbol) && !(op.symbol < other.symbol)) =
        (other.symbol == op.symbol) := by
    intro other
    rcases lt_trichotomy other.symbol op.symbol with hlt | heq | hgt
    · simp [hlt, ne_of_lt hlt]
    · simp [heq]
    · simp [hgt, ne_of_gt hgt]
  simp only [replaced?, get?, hsame]

theorem mem_insert {new : Operator} :
    op ∈ (table.insert new).entries ↔ op = new ∨ op ∈ table.entries ∧ op.symbol ≠ new.symbol := by
  simp only [insert, List.mem_append, List.mem_cons, List.mem_filter, decide_eq_true_eq]
  rw [lt_or_lt_iff_ne.symm]
  tauto

/-- Inserting an operator changes the look-up of its symbol, and no other. -/
theorem get?_insert (table : OperatorTable) (op : Operator) (symbol : String) :
    (table.insert op).get? symbol = if op.symbol = symbol then some op else table.get? symbol := by
  ext found
  rw [get?_eq_some_iff, mem_insert]
  split
  · rename_i hsymbol
    simp only [Option.some.injEq]
    constructor
    · rintro ⟨rfl | ⟨-, hne⟩, rfl⟩
      · rfl
      · exact absurd hsymbol.symm hne
    · rintro rfl
      exact ⟨.inl rfl, hsymbol⟩
  · rename_i hsymbol
    rw [get?_eq_some_iff]
    constructor
    · rintro ⟨rfl | ⟨hmem, -⟩, rfl⟩
      · exact absurd rfl hsymbol
      · exact ⟨hmem, rfl⟩
    · rintro ⟨hmem, rfl⟩
      exact ⟨.inr ⟨hmem, Ne.symm hsymbol⟩, rfl⟩

theorem ext_get? (h : ∀ symbol, table.get? symbol = other.get? symbol) : table = other := by
  have hmem : ∀ op, op ∈ table.entries ↔ op ∈ other.entries := fun op => by
    rw [mem_entries_iff, mem_entries_iff, h]
  have : Std.Irrefl fun a b : Operator => a.symbol < b.symbol := ⟨fun op => lt_irrefl op.symbol⟩
  have : Std.Antisymm fun a b : Operator => a.symbol < b.symbol :=
    ⟨fun _ _ hab hba => absurd hba (lt_asymm hab)⟩
  have hentries : table.entries = other.entries :=
    table.ascending.eq_of_mem_iff other.ascending hmem
  obtain ⟨entries, _⟩ := table
  obtain ⟨entries', _⟩ := other
  subst hentries
  rfl

theorem card_symbols (table : OperatorTable) :
    (table.entries.map Operator.symbol).toFinset.card = table.size := by
  rw [List.toFinset_card_of_nodup table.nodup_symbols, List.length_map, size]

/-! ## Listing -/

theorem mem_listing_iff : op ∈ table.listing ↔ table.get? op.symbol = some op := by
  rw [listing, List.mem_mergeSort, mem_entries_iff]

/-- A sort by precedence alone keeps the order of symbols within one precedence. -/
theorem pairwise_mergeSort_of_ascending {ops : List Operator}
    (h : ops.Pairwise fun a b => a.symbol < b.symbol) :
    (ops.mergeSort fun a b => a.precedence ≤ b.precedence).Pairwise Operator.Before := by
  have htrans : ∀ a b c : Operator, decide (a.precedence ≤ b.precedence) →
      decide (b.precedence ≤ c.precedence) → decide (a.precedence ≤ c.precedence) := by
    simpa using fun a b c => Nat.le_trans
  have htotal : ∀ a b : Operator,
      (decide (a.precedence ≤ b.precedence) || decide (b.precedence ≤ a.precedence)) := by
    simpa using fun a b => Nat.le_total _ _
  induction ops with
  | nil => simp
  | cons op ops ih =>
      -- The first operator goes behind the looser ones and in front of its equals.
      obtain ⟨hop, hops⟩ := List.pairwise_cons.mp h
      obtain ⟨lower, upper, hsorted, hrest, hlower⟩ := List.mergeSort_cons htrans htotal op ops
      have hascending := List.pairwise_mergeSort htrans htotal (op :: ops)
      rw [hsorted] at hascending ⊢
      have hothers := ih hops
      rw [hrest] at hothers
      obtain ⟨hlowerOthers, hupperOthers, hbetween⟩ := List.pairwise_append.mp hothers
      obtain ⟨-, hbehind, -⟩ := List.pairwise_append.mp hascending
      refine List.pairwise_append.mpr ⟨hlowerOthers, List.pairwise_cons.mpr ⟨?_, hupperOthers⟩, ?_⟩
      · intro later hlater
        have hmem : later ∈ ops :=
          List.mem_mergeSort.mp (hrest ▸ List.mem_append_right lower hlater)
        have hle : op.precedence ≤ later.precedence := by
          simpa using (List.pairwise_cons.mp hbehind).1 later hlater
        rcases Nat.lt_or_eq_of_le hle with hlt | heq
        · exact .inl hlt
        · exact .inr ⟨heq, hop later hmem⟩
      · intro earlier hearlier later hlater
        rcases List.mem_cons.mp hlater with rfl | hlater
        · have hlt : earlier.precedence < later.precedence := by
            simpa using hlower earlier hearlier
          exact .inl hlt
        · exact hbetween earlier hearlier later hlater

theorem pairwise_listing (table : OperatorTable) : table.listing.Pairwise Operator.Before :=
  pairwise_mergeSort_of_ascending table.ascending

/-- Nothing but the look-ups of a table decides in which order it is listed. -/
theorem eq_listing_of_pairwise {ops : List Operator} (hops : ops.Pairwise Operator.Before)
    (hmem : ∀ op, op ∈ ops ↔ table.get? op.symbol = some op) : ops = table.listing :=
  hops.eq_of_mem_iff table.pairwise_listing fun op => (hmem op).trans mem_listing_iff.symm

/-- Whatever order the operators are in, sorting them gives the listing. -/
theorem mergeSort_eq_listing {ops : List Operator} (hnodup : ops.Nodup)
    (hmem : ∀ op, op ∈ ops ↔ table.get? op.symbol = some op) :
    (ops.mergeSort fun a b => !decide (b.Before a)) = table.listing := by
  have htrans : ∀ a b c : Operator, !decide (b.Before a) → !decide (c.Before b) →
      !decide (c.Before a) := by
    simpa using fun a b c => Operator.not_before_trans
  have htotal : ∀ a b : Operator, !decide (b.Before a) || !decide (a.Before b) := by
    intro a b
    by_cases hab : a.Before b
    · have hba : ¬ b.Before a := by
        intro hba
        cases antisymm hab hba
        exact irrefl a hab
      simp [hba]
    · simp [hab]
  have hperm := List.mergeSort_perm ops fun a b => !decide (b.Before a)
  refine eq_listing_of_pairwise ?_ fun op => hperm.mem_iff.trans (hmem op)
  have hsorted := List.pairwise_mergeSort htrans htotal ops
  refine (hsorted.and (hperm.nodup_iff.mpr hnodup)).imp_of_mem fun {a b} ha hb hab => ?_
  have hsymbol : a.symbol ≠ b.symbol := by
    intro hsame
    have hfound := (hmem a).mp (hperm.mem_iff.mp ha)
    have hfound' := (hmem b).mp (hperm.mem_iff.mp hb)
    rw [hsame, hfound'] at hfound
    exact hab.2 (Option.some.inj hfound).symm
  exact (Operator.before_or_before hsymbol).resolve_right (by simpa using hab.1)

/-- A table that answers look-ups as `find` does, and lists what is found, each operator once and in
the only order. -/
structure Holds (table : OperatorTable) (find : String → Option Operator) : Prop where
  get? : ∀ symbol, table.get? symbol = find symbol
  size : ∃ symbols : Finset String,
    (∀ symbol, symbol ∈ symbols ↔ (find symbol).isSome) ∧ table.size = symbols.card
  once : ∀ op, table.listing.count op = if find op.symbol = some op then 1 else 0
  ascending : table.listing.Pairwise Operator.Before
  sorted : ∀ ops : List Operator, ops.Nodup → (∀ op, op ∈ ops ↔ find op.symbol = some op) →
    (ops.mergeSort fun a b => !decide (b.Before a)) = table.listing

theorem holds_get? (table : OperatorTable) : table.Holds table.get? where
  get? _ := rfl
  size := by
    refine ⟨(table.entries.map Operator.symbol).toFinset, fun symbol => ?_, table.card_symbols.symm⟩
    rw [List.mem_toFinset, isSome_get?_iff]
  once op := by
    have hnodup : table.listing.Nodup := table.pairwise_listing.imp ne_of_irrefl
    simp only [hnodup.count, mem_listing_iff]
  ascending := table.pairwise_listing
  sorted _ := mergeSort_eq_listing

end OperatorTable

end Fixity
