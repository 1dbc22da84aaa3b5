import Fixity.Proofs.Outline.Rows
import Fixity.Proofs.Program.WellFormed
import Fixity.Proofs.Token.Munch

/-! # What rows show

The contents of rows hold no line ends, and none begins like a mark of depth. -/

namespace Fixity

/-! ## What is behind a label -/

theorem notMem_of_admits {lexemeClass : LexemeClass} {text : List Char} {c : Char}
    (h : lexemeClass.Admits text) (hc : lexemeClass.continuedBy c = false) : c ∉ text := by
  intro hmem
  rw [h.continuedBy c hmem] at hc
  cases hc

theorem newline_notMem_toString (number : Nat) : '\n' ∉ (toString number).toList := by
  intro hmem
  have hdigit : '\n' ∈ Nat.toDigits 10 number := by simpa [Nat.repr] using hmem
  exact absurd (Binary64.isDigit_of_mem_toDigits hdigit) (by decide)

theorem newline_notMem_toText {x : Binary64} (hx : x.isFinite ∧ x.negative = false) :
    '\n' ∉ x.toText.toList := by
  obtain ⟨c, rest, htext, hc, hrest⟩ := Binary64.toList_toText hx.1 hx.2
  rw [htext, List.mem_cons, not_or]
  constructor
  · rintro rfl
    exact absurd hc (by decide)
  · exact fun hmem => absurd (hrest '\n' hmem) (by decide)

theorem newline_notMem_intercalate {names : List String} (h : ∀ name ∈ names, IsName name) :
    '\n' ∉ (" ".intercalate names).toList := by
  induction names with
  | nil => simp
  | cons name names ih =>
      rw [List.forall_mem_cons] at h
      have hname : '\n' ∉ name.toList := notMem_of_admits h.1.1 (by decide)
      cases names with
      | nil => simpa using hname
      | cons next names =>
          rw [String.intercalate_cons_cons, String.toList_append, String.toList_append]
          simp only [List.mem_append, not_or]
          exact ⟨⟨hname, by decide⟩, ih h.2⟩

/-! ## Contents -/

theorem isContent_append {label payload : String} (hlabel : IsContent label) (hne : label ≠ "")
    (hpayload : '\n' ∉ payload.toList) : IsContent (label ++ payload) := by
  refine ⟨by simpa using ⟨hlabel.1, hpayload⟩, ?_⟩
  cases hchars : label.toList with
  | nil => exact absurd (String.toList_eq_nil_iff.mp hchars) hne
  | cons c chars => simpa [IsContent, hchars] using hlabel.2

theorem isContent_append_of_admits {lexemeClass : LexemeClass} {label text : String}
    (h : lexemeClass.Admits text.toList) (hlabel : IsContent label) (hne : label ≠ "") :
    IsContent (label ++ text) :=
  isContent_append hlabel hne (notMem_of_admits h (by cases lexemeClass <;> decide))

mutual

theorem Expr.isContent_of_mem_rows (e : Expr) {depth : Nat} (h : e.WellFormed) :
    ∀ row ∈ e.rows depth, IsContent row.content := by
  match e with
  | .literal value =>
      simpa [Expr.rows] using isContent_append (by decide) (by decide) (newline_notMem_toText h)
  | .var name => simpa [Expr.rows] using isContent_append_of_admits h.1 (by decide) (by decide)
  | .binary symbol left right =>
      simp only [Expr.rows, List.forall_mem_cons, List.forall_mem_append]
      exact ⟨isContent_append_of_admits h.1 (by decide) (by decide),
        left.isContent_of_mem_rows h.2.1, right.isContent_of_mem_rows h.2.2⟩
  | .call callee arguments =>
      simp only [Expr.rows, List.forall_mem_cons]
      exact ⟨by decide, isContent_append_of_admits h.1.1 (by decide) (by decide), by decide,
        Expr.isContent_of_mem_rowsOfAll arguments h.2⟩

theorem Expr.isContent_of_mem_rowsOfAll (es : List Expr) {depth number : Nat}
    (h : Expr.AllWellFormed es) :
    ∀ row ∈ Expr.rowsOfAll depth number es, IsContent row.content := by
  match es with
  | [] => exact nofun
  | e :: es =>
      simp only [Expr.rowsOfAll, List.forall_mem_cons, List.forall_mem_append, String.append_assoc]
      refine ⟨isContent_append (by decide) (by decide) ?_, e.isContent_of_mem_rows h.1,
        Expr.isContent_of_mem_rowsOfAll es h.2⟩
      simpa using newline_notMem_toString number

end

theorem Prototype.isContent_of_mem_rows {prototype : Prototype}
    (hname : '\n' ∉ prototype.name.toList)
    (hparameters : ∀ parameter ∈ prototype.parameters, IsName parameter) :
    ∀ row ∈ prototype.rows, IsContent row.content := by
  have hlist := newline_notMem_intercalate hparameters
  simpa [Prototype.rows] using ⟨isContent_append (by decide) (by decide) hname,
    isContent_append (by decide) (by decide) hlist⟩

theorem Declaration.WellFormed.parameters {declaration : Declaration} (h : declaration.WellFormed) :
    ∀ name ∈ declaration.prototype.parameters, IsName name := by
  cases h with
  | external hprototype => exact hprototype.parameters
  | definition hprototype _ => exact hprototype.parameters
  | expression _ => exact nofun

theorem Declaration.isContent_of_mem_rows {declaration : Declaration} (h : declaration.WellFormed) :
    ∀ row ∈ declaration.rows, IsContent row.content := by
  have hname : '\n' ∉ declaration.prototype.name.toList := by
    cases h with
    | external hprototype => exact notMem_of_admits hprototype.name.1 (by decide)
    | definition hprototype _ => exact notMem_of_admits hprototype.name.1 (by decide)
    | expression _ => simp [Declaration.prototype, Prototype.anonymous]
  have hprototype := Prototype.isContent_of_mem_rows hname h.parameters
  have hblank : IsContent Row.blank.content := by decide
  cases declaration with
  | external prototype =>
      simp only [Declaration.rows, List.forall_mem_cons, List.forall_mem_append]
      exact ⟨by decide, hprototype, hblank, List.forall_mem_nil _⟩
  | definition prototype body =>
      simp only [Declaration.rows, List.forall_mem_cons, List.forall_mem_append]
      exact ⟨by decide, hprototype, by decide, body.isContent_of_mem_rows h.body, hblank,
        List.forall_mem_nil _⟩

theorem Program.isContent_of_mem_rows {program : Program} (h : program.WellFormed) :
    ∀ row ∈ program.rows, IsContent row.content := by
  intro row hrow
  obtain ⟨declaration, hmem, hrow⟩ := List.mem_flatMap.mp hrow
  exact Declaration.isContent_of_mem_rows (h declaration hmem) row hrow

end Fixity
