import Fixity.Proofs.Outline.Contents

/-! # Different programs have different outlines

The rows of an expression show where they end, so programs are known by their outlines. -/

namespace Fixity

/-! ## Parameters -/

theorem ne_empty_of_isName {name : String} (h : IsName name) : name ≠ "" := by
  rintro rfl
  exact h.1

theorem intercalate_ne_empty {name : String} (names : List String) (h : IsName name) :
    " ".intercalate (name :: names) ≠ "" := by
  cases names with
  | nil => simpa using ne_empty_of_isName h
  | cons next names => simp [String.intercalate_cons_cons]

theorem intercalate_append_separator (name : String) (names : List String) :
    (" ".intercalate (name :: names)).toList ++ [' '] =
      (name :: names).flatMap (String.toList · ++ [' ']) := by
  induction names generalizing name with
  | nil => simp
  | cons next names ih =>
      rw [String.intercalate_cons_cons, List.flatMap_cons, ← ih]
      simp

theorem eq_of_intercalate_eq {names names' : List String} (h : ∀ name ∈ names, IsName name)
    (h' : ∀ name ∈ names', IsName name)
    (heq : " ".intercalate names = " ".intercalate names') : names = names' := by
  cases names with
  | nil =>
      cases names' with
      | nil => rfl
      | cons name' names' =>
          exact absurd heq.symm (intercalate_ne_empty names' (h' name' (by simp)))
  | cons name names =>
      cases names' with
      | nil => exact absurd heq (intercalate_ne_empty names (h name (by simp)))
      | cons name' names' =>
          have hblank : ∀ name, IsName name → ' ' ∉ name.toList := fun name hname =>
            notMem_of_admits hname.1 (by decide)
          have hsame := congrArg (·.toList ++ [' ']) heq
          simp only [intercalate_append_separator] at hsame
          exact eq_of_flatMap_concat_eq (fun name hname => hblank name (h name hname))
            (fun name hname => hblank name (h' name hname)) (fun _ _ _ _ => String.toList_inj.mp)
            hsame

/-! ## Expressions -/

/-- Rows that begin no deeper than a depth, if there are any. -/
def Shallow (depth : Nat) (rows : List Row) : Prop := ∀ row ∈ rows.head?, row.depth ≤ depth

variable {depth number : Nat} {rest rest' : List Row}

/-- What two rows show behind one label tells them apart. -/
theorem labelled_cons_eq_cons {label payload payload' : String} :
    (⟨depth, label ++ payload⟩ : Row) :: rest = ⟨depth, label ++ payload'⟩ :: rest' ↔
      payload = payload' ∧ rest = rest' := by
  simp

theorem Shallow.mono {depth' : Nat} (h : Shallow depth rest) (hle : depth ≤ depth') :
    Shallow depth' rest := fun row hrow => (h row hrow).trans hle

theorem shallow_cons {row : Row} (h : row.depth ≤ depth) : Shallow depth (row :: rest) := by
  rintro _ ⟨⟩
  exact h

theorem shallow_rows (e : Expr) : Shallow depth (e.rows depth ++ rest) := by
  cases e with
  | literal | var | binary | call => exact shallow_cons le_rfl

theorem shallow_rowsOfAll (es : List Expr) (h : Shallow depth rest) :
    Shallow (depth + 1) (Expr.rowsOfAll (depth + 1) number es ++ rest) := by
  cases es with
  | nil => exact h.mono (Nat.le_succ depth)
  | cons e es => exact shallow_cons le_rfl

/-- The first character of an expression's rows, which tells its form. -/
def Expr.initial : Expr → Char
  | .literal _ => 'D'
  | .var _ => 'V'
  | .binary .. => 'B'
  | .call .. => 'C'

theorem Expr.initial_eq {e f : Expr} (h : e.rows depth ++ rest = f.rows depth ++ rest') :
    e.initial = f.initial := by
  have hinitial : ∀ (e : Expr) (rest : List Row),
      (e.rows depth ++ rest).head?.bind (·.content.toList.head?) = some e.initial := by
    intro e rest
    cases e with
    | literal | var | binary | call => simp [Expr.rows, Expr.initial]
  have hsame := hinitial e rest
  rw [h, hinitial f rest'] at hsame
  exact (Option.some.inj hsame).symm

mutual

/-- Of what follows an expression no deeper than it, nothing can be taken for a part of it. -/
theorem Expr.eq_of_rows_append_eq (e f : Expr) {depth : Nat} {rest rest' : List Row}
    (he : e.WellFormed) (hf : f.WellFormed) (hrest : Shallow depth rest)
    (hrest' : Shallow depth rest') (h : e.rows depth ++ rest = f.rows depth ++ rest') :
    e = f ∧ rest = rest' := by
  have hinitial := Expr.initial_eq h
  match e with
  | .literal x =>
      cases f with
      | literal y =>
          simp only [Expr.rows, List.cons_append, List.nil_append, labelled_cons_eq_cons] at h
          rw [Binary64.eq_of_toText_eq he hf h.1, h.2]
          exact ⟨rfl, rfl⟩
      | _ => simp [Expr.initial] at hinitial
  | .var name =>
      cases f with
      | var name' =>
          simp only [Expr.rows, List.cons_append, List.nil_append, labelled_cons_eq_cons] at h
          rw [h.1, h.2]
          exact ⟨rfl, rfl⟩
      | _ => simp [Expr.initial] at hinitial
  | .binary symbol left right =>
      cases f with
      | binary symbol' left' right' =>
          simp only [Expr.rows, List.cons_append, List.append_assoc, labelled_cons_eq_cons] at h
          -- The right operand is no deeper than the left one, so it is no part of that.
          obtain ⟨rfl, hoperands⟩ := h
          obtain ⟨rfl, hright⟩ := left.eq_of_rows_append_eq left' he.2.1 hf.2.1
            (shallow_rows right) (shallow_rows right') hoperands
          obtain ⟨rfl, hbehind⟩ := right.eq_of_rows_append_eq right' he.2.2 hf.2.2
            (hrest.mono (Nat.le_succ depth)) (hrest'.mono (Nat.le_succ depth)) hright
          exact ⟨rfl, hbehind⟩
      | _ => simp [Expr.initial] at hinitial
  | .call callee arguments =>
      cases f with
      | call callee' arguments' =>
          obtain ⟨rfl, hlabel⟩ := labelled_cons_eq_cons.mp (List.cons.inj h).2
          obtain ⟨rfl, hbehind⟩ := Expr.eq_of_rowsOfAll_append_eq arguments arguments' he.2 hf.2
            (hrest.mono (Nat.le_succ depth)) (hrest'.mono (Nat.le_succ depth))
            (List.cons.inj hlabel).2
          exact ⟨rfl, hbehind⟩
      | _ => simp [Expr.initial] at hinitial

theorem Expr.eq_of_rowsOfAll_append_eq (es fs : List Expr) {depth number : Nat}
    {rest rest' : List Row} (hes : Expr.AllWellFormed es) (hfs : Expr.AllWellFormed fs)
    (hrest : Shallow depth rest) (hrest' : Shallow depth rest')
    (h : Expr.rowsOfAll (depth + 1) number es ++ rest =
      Expr.rowsOfAll (depth + 1) number fs ++ rest') : es = fs ∧ rest = rest' := by
  match es with
  | [] =>
      cases fs with
      | nil => exact ⟨rfl, h⟩
      | cons f fs =>
          have hdeep : depth + 1 ≤ depth := hrest _ (congrArg List.head? h)
          omega
  | e :: es =>
      cases fs with
      | nil =>
          have hdeep : depth + 1 ≤ depth := hrest' _ (congrArg List.head? h.symm)
          omega
      | cons f fs =>
          simp only [Expr.rowsOfAll, List.cons_append, List.append_assoc, List.cons.injEq,
            true_and] at h
          obtain ⟨rfl, hothers⟩ := e.eq_of_rows_append_eq f hes.1 hfs.1
            ((shallow_rowsOfAll es hrest).mono (Nat.le_succ _))
            ((shallow_rowsOfAll fs hrest').mono (Nat.le_succ _)) h
          obtain ⟨rfl, hbehind⟩ := Expr.eq_of_rowsOfAll_append_eq es fs hes.2 hfs.2 hrest hrest'
            hothers
          exact ⟨rfl, hbehind⟩

end

/-! ## Declarations -/

theorem Prototype.eq_of_rows_append_eq {prototype prototype' : Prototype}
    (h : ∀ name ∈ prototype.parameters, IsName name)
    (h' : ∀ name ∈ prototype'.parameters, IsName name)
    (hrows : prototype.rows ++ rest = prototype'.rows ++ rest') :
    prototype = prototype' ∧ rest = rest' := by
  obtain ⟨name, parameters⟩ := prototype
  obtain ⟨name', parameters'⟩ := prototype'
  simp only [Prototype.rows, List.cons_append, List.nil_append, labelled_cons_eq_cons] at hrows
  obtain ⟨rfl, hparameters, rfl⟩ := hrows
  obtain rfl := eq_of_intercalate_eq h h' hparameters
  exact ⟨rfl, rfl⟩

theorem Declaration.eq_of_rows_append_eq {declaration declaration' : Declaration}
    (h : declaration.WellFormed) (h' : declaration'.WellFormed)
    (hrows : declaration.rows ++ rest = declaration'.rows ++ rest') :
    declaration = declaration' ∧ rest = rest' := by
  cases declaration with
  | external prototype =>
      cases declaration' with
      | external prototype' =>
          simp only [Declaration.rows, List.cons_append, List.append_assoc, List.cons.injEq,
            true_and] at hrows
          obtain ⟨rfl, hbehind⟩ :=
            Prototype.eq_of_rows_append_eq h.parameters h'.parameters hrows
          exact ⟨rfl, (List.cons.inj hbehind).2⟩
      | definition prototype' body' => simp [Declaration.rows] at hrows
  | definition prototype body =>
      cases declaration' with
      | external prototype' => simp [Declaration.rows] at hrows
      | definition prototype' body' =>
          simp only [Declaration.rows, List.cons_append, List.append_assoc, List.cons.injEq,
            true_and] at hrows
          obtain ⟨rfl, hbodies⟩ :=
            Prototype.eq_of_rows_append_eq h.parameters h'.parameters hrows
          obtain ⟨rfl, hbehind⟩ := body.eq_of_rows_append_eq body' h.body h'.body
            (shallow_cons (Nat.zero_le 2)) (shallow_cons (Nat.zero_le 2)) (List.cons.inj hbodies).2
          exact ⟨rfl, (List.cons.inj hbehind).2⟩

theorem Program.eq_of_rows_eq {a b : Program} (ha : a.WellFormed) (hb : b.WellFormed)
    (h : a.rows = b.rows) : a = b := by
  have hne : ∀ (declaration : Declaration) (rest : Program),
      Program.rows (declaration :: rest) ≠ [] := by
    intro declaration rest
    cases declaration with
    | external | definition => simp [Program.rows, Declaration.rows]
  induction a generalizing b with
  | nil =>
      cases b with
      | nil => rfl
      | cons declaration b => exact absurd h.symm (hne declaration b)
  | cons declaration a ih =>
      cases b with
      | nil => exact absurd h (hne declaration a)
      | cons declaration' b =>
          rw [Program.WellFormed, List.forall_mem_cons] at ha hb
          obtain ⟨rfl, hrest⟩ := Declaration.eq_of_rows_append_eq ha.1 hb.1 h
          rw [ih ha.2 hb.2 hrest]

/-- Programs that were parsed, of whatever texts with whatever operators, have the same outline only
if they agree. -/
theorem outline_eq_iff_agrees {grammar grammar' : Grammar} {text text' : String} {a b : Program}
    (ha : grammar.parse text = .parsed a) (hb : grammar'.parse text' = .parsed b) :
    a.outline = b.outline ↔ a.agrees b := by
  have hwellFormed := wellFormed_of_parse ha
  have hwellFormed' := wellFormed_of_parse hb
  rw [Program.agrees_iff_eq hwellFormed hwellFormed']
  constructor
  · intro h
    rw [Program.outline_eq, Program.outline_eq] at h
    exact Program.eq_of_rows_eq hwellFormed hwellFormed' (Row.eq_of_textOfAll_eq
      (Program.isContent_of_mem_rows hwellFormed) (Program.isContent_of_mem_rows hwellFormed') h)
  · rintro rfl
    rfl

/-- The variable is an argument of one call or of the other, at another depth. -/
theorem outline_eq_iff_agrees_calls :
    let other : Grammar := ({} : Grammar).register ⟨"+", 45, .right⟩
    let a : Program := [.definition .anonymous (.call "f" [.call "g" [], .var "x"])]
    let b : Program := [.definition .anonymous (.call "f" [.call "g" [.var "x"]])]
    ({} : Grammar).parse "f(g(), x)" = .parsed a ∧ other.parse "f(g(x))" = .parsed b ∧
      (a.outline = b.outline ↔ a.agrees b) ∧ a.outline ≠ b.outline := by
  have hiff := outline_eq_iff_agrees
    (show ({} : Grammar).parse "f(g(), x)" =
      .parsed [.definition .anonymous (.call "f" [.call "g" [], .var "x"])] from rfl)
    (show (({} : Grammar).register ⟨"+", 45, .right⟩).parse "f(g(x))" =
      .parsed [.definition .anonymous (.call "f" [.call "g" [.var "x"]])] from rfl)
  refine ⟨rfl, rfl, hiff, fun h => ?_⟩
  cases hiff.mp h

end Fixity
