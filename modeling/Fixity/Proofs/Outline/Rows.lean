import Fixity.Program.Outline

/-! # The rows of an outline

An outline is the text of its rows, and tells where each row ends and how deep it is. -/

namespace Fixity

/-- A line of an outline. The empty line behind a declaration has no depth. -/
structure Row where
  depth : Nat
  content : String
deriving DecidableEq

namespace Row

def blank : Row := ⟨0, ""⟩

def text (row : Row) : String := Outliner.indentation row.depth ++ row.content ++ "\n"

def textOfAll (rows : List Row) : String := String.join (rows.map text)

end Row

/-- A content that holds no line end and does not begin like a mark of depth. -/
def IsContent (content : String) : Prop :=
  '\n' ∉ content.toList ∧ content.toList.head? ≠ some '|'

instance (content : String) : Decidable (IsContent content) := inferInstanceAs (Decidable (_ ∧ _))

/-! ## The rows of a program -/

mutual

/-- The rows of an expression whose own depth is given. -/
def Expr.rows (depth : Nat) : Expr → List Row
  | .literal value => [⟨depth, "DOUBLE: " ++ value.toText⟩]
  | .var name => [⟨depth, "VARIABLE: " ++ name⟩]
  | .binary symbol left right =>
    ⟨depth, "BINOP: " ++ symbol⟩ :: (left.rows (depth + 1) ++ right.rows (depth + 1))
  | .call callee arguments =>
    ⟨depth, "CALL:"⟩ :: ⟨depth + 1, "FUNCTION: " ++ callee⟩ :: ⟨depth + 1, "ARGUMENTS:"⟩ ::
      Expr.rowsOfAll (depth + 2) 1 arguments

def Expr.rowsOfAll (depth number : Nat) : List Expr → List Row
  | [] => []
  | e :: es =>
    ⟨depth, "ARG " ++ toString number ++ ":"⟩ ::
      (e.rows (depth + 1) ++ Expr.rowsOfAll depth (number + 1) es)

end

def Prototype.rows (prototype : Prototype) : List Row :=
  [⟨1, "FUNCTION NAME: " ++ prototype.name⟩,
    ⟨1, "FUNCTION ARGS: " ++ " ".intercalate prototype.parameters⟩]

def Declaration.rows : Declaration → List Row
  | .external prototype => ⟨0, "EXTERN:"⟩ :: (prototype.rows ++ [.blank])
  | .definition prototype body =>
    ⟨0, "DEFN:"⟩ :: (prototype.rows ++ ⟨1, "BODY:"⟩ :: (body.rows 2 ++ [.blank]))

def Program.rows (program : Program) : List Row := program.flatMap Declaration.rows

/-! ## The outline of a program -/

namespace Outliner

def add (rows : List Row) (outliner : Outliner) : Outliner :=
  { outliner with text := outliner.text ++ Row.textOfAll rows }

variable {rows : List Row} {outliner : Outliner}

@[simp] theorem depth_add : (outliner.add rows).depth = outliner.depth := rfl

theorem add_nil : outliner.add [] = outliner := by simp [add, Row.textOfAll]

@[simp] theorem add_add (rows rows' : List Row) :
    (outliner.add rows).add rows' = outliner.add (rows ++ rows') := by
  simp [add, Row.textOfAll, String.append_assoc]

theorem line_eq_add (content : String) :
    outliner.line content = outliner.add [⟨outliner.depth, content⟩] := by
  simp [line, add, Row.textOfAll, Row.text, String.append_assoc]

theorem blank_eq_add : outliner.blank = outliner.add [.blank] := by
  simp [blank, add, Row.textOfAll, Row.text, Row.blank, indentation]

/-- What a visit adds one level deeper, it adds in its place. -/
theorem nested_eq_add {visit : Outliner → Outliner} (rows : List Row)
    (h : ∀ inner : Outliner, inner.depth = outliner.depth + 1 → visit inner = inner.add rows) :
    outliner.nested visit = outliner.add rows := by
  simp [nested, h, add]

mutual

theorem visitExpr_eq_add (e : Expr) (outliner : Outliner) :
    visitExpr e outliner = outliner.add (e.rows outliner.depth) := by
  match e with
  | .literal value => exact line_eq_add _
  | .var name => exact line_eq_add _
  | .binary symbol left right =>
      rw [visitExpr, line_eq_add, nested_eq_add
        (left.rows (outliner.depth + 1) ++ right.rows (outliner.depth + 1)), add_add]
      · rfl
      · intro inner hinner
        rw [visitExpr_eq_add left, visitExpr_eq_add right, add_add, depth_add, hinner, depth_add]
  | .call callee arguments =>
      rw [visitExpr, line_eq_add, nested_eq_add
        (⟨outliner.depth + 1, "FUNCTION: " ++ callee⟩ :: ⟨outliner.depth + 1, "ARGUMENTS:"⟩ ::
          Expr.rowsOfAll (outliner.depth + 2) 1 arguments), add_add]
      · rfl
      · intro inner hinner
        rw [line_eq_add, line_eq_add, nested_eq_add
          (Expr.rowsOfAll (outliner.depth + 2) 1 arguments)]
        · simp only [add_add, depth_add, hinner]
          rfl
        · intro innermost hinnermost
          rw [visitArguments_eq_add, hinnermost, depth_add, depth_add, hinner, depth_add]

theorem visitArguments_eq_add (number : Nat) (es : List Expr) (outliner : Outliner) :
    visitArguments number es outliner =
      outliner.add (Expr.rowsOfAll outliner.depth number es) := by
  match es with
  | [] => exact add_nil.symm
  | e :: es =>
      rw [visitArguments, line_eq_add, nested_eq_add (e.rows (outliner.depth + 1)),
        visitArguments_eq_add, add_add, add_add, depth_add, depth_add, Expr.rowsOfAll]
      · rfl
      · intro inner hinner
        rw [visitExpr_eq_add, hinner, depth_add]

end

theorem visitPrototype_eq_add (prototype : Prototype) {outliner : Outliner}
    (h : outliner.depth = 1) : visitPrototype prototype outliner = outliner.add prototype.rows := by
  rw [visitPrototype, line_eq_add, line_eq_add, add_add, depth_add, h]
  rfl

theorem visitDeclaration_eq_add (declaration : Declaration) {outliner : Outliner}
    (h : outliner.depth = 0) :
    outliner.visitDeclaration declaration = outliner.add declaration.rows := by
  cases declaration with
  | external prototype =>
      rw [visitDeclaration, line_eq_add, nested_eq_add prototype.rows, blank_eq_add, add_add,
        add_add, h]
      · rfl
      · intro inner hinner
        exact visitPrototype_eq_add prototype (by simpa [h] using hinner)
  | definition prototype body =>
      rw [visitDeclaration, line_eq_add, nested_eq_add
        (prototype.rows ++ ⟨1, "BODY:"⟩ :: body.rows 2), blank_eq_add, add_add, add_add, h]
      · simp [Declaration.rows]
      · intro inner hinner
        have hdepth : inner.depth = 1 := by simpa [h] using hinner
        rw [visitPrototype_eq_add prototype hdepth, line_eq_add, nested_eq_add (body.rows 2)]
        · simp [hdepth]
        · intro innermost hinnermost
          rw [visitExpr_eq_add, hinnermost, depth_add, depth_add, hdepth]

theorem visit_eq_add (program : Program) {outliner : Outliner} (h : outliner.depth = 0) :
    outliner.visit program = outliner.add program.rows := by
  induction program generalizing outliner with
  | nil => exact add_nil.symm
  | cons declaration rest ih =>
      have hrest : (outliner.add declaration.rows).visit rest =
          (outliner.add declaration.rows).add (Program.rows rest) := ih h
      rw [add_add, ← visitDeclaration_eq_add declaration h] at hrest
      exact hrest

end Outliner

theorem Program.outline_eq (program : Program) : program.outline = Row.textOfAll program.rows := by
  simp [outline, Outliner.visit_eq_add, Outliner.add]

/-! ## Rows from a text -/

/-- The first occurrence of an item separates what is before it from what is behind it. -/
theorem append_cons_inj {α : Type} {a : α} {xs ys rest rest' : List α} (hxs : a ∉ xs)
    (hys : a ∉ ys) (h : xs ++ a :: rest = ys ++ a :: rest') : xs = ys ∧ rest = rest' := by
  induction xs generalizing ys with
  | nil =>
      cases ys with
      | nil => exact ⟨rfl, (List.cons.inj h).2⟩
      | cons y ys => exact absurd ((List.cons.inj h).1 ▸ List.mem_cons_self) hys
  | cons x xs ih =>
      cases ys with
      | nil => exact absurd ((List.cons.inj h).1 ▸ List.mem_cons_self) hxs
      | cons y ys =>
          obtain ⟨rfl, htails⟩ := List.cons.inj h
          obtain ⟨rfl, hrest⟩ := ih (List.not_mem_of_not_mem_cons hxs)
            (List.not_mem_of_not_mem_cons hys) htails
          exact ⟨rfl, hrest⟩

/-- Items are known from what they are written as, with a separator behind each that is in none. -/
theorem eq_of_flatMap_concat_eq {α β : Type} {a : α} {f : β → List α} {xs ys : List β}
    (hxs : ∀ x ∈ xs, a ∉ f x) (hys : ∀ y ∈ ys, a ∉ f y)
    (hf : ∀ x ∈ xs, ∀ y ∈ ys, f x = f y → x = y)
    (h : xs.flatMap (f · ++ [a]) = ys.flatMap (f · ++ [a])) : xs = ys := by
  induction xs generalizing ys with
  | nil =>
      cases ys with
      | nil => rfl
      | cons y ys => simp at h
  | cons x xs ih =>
      cases ys with
      | nil => simp at h
      | cons y ys =>
          simp only [List.forall_mem_cons, List.flatMap_cons, List.append_assoc,
            List.singleton_append] at hxs hys hf h
          obtain ⟨hfirst, hrest⟩ := append_cons_inj hxs.1 hys.1 h
          rw [hf.1.1 hfirst, ih hxs.2 hys.2 (fun x hx => (hf.2 x hx).2) hrest]

namespace Row

variable {rows rows' : List Row}

/-- The line of a row without its end. -/
def line (row : Row) : List Char :=
  (Outliner.indentation row.depth).toList ++ row.content.toList

theorem toList_textOfAll (rows : List Row) :
    (textOfAll rows).toList = rows.flatMap (line · ++ ['\n']) := by
  induction rows with
  | nil => simp [textOfAll]
  | cons row rows ih =>
      rw [List.flatMap_cons, ← ih]
      simp [textOfAll, text, line]

theorem toList_indentation_succ (depth : Nat) :
    (Outliner.indentation (depth + 1)).toList =
      '|' :: ' ' :: ' ' :: (Outliner.indentation depth).toList := by
  simp [Outliner.indentation, List.replicate_succ]

theorem newline_notMem_indentation (depth : Nat) :
    '\n' ∉ (Outliner.indentation depth).toList := by
  induction depth with
  | zero => simp [Outliner.indentation]
  | succ depth ih => simp [toList_indentation_succ, ih]

theorem newline_notMem_line {row : Row} (h : IsContent row.content) : '\n' ∉ row.line := by
  simpa [line] using ⟨newline_notMem_indentation row.depth, h.1⟩

/-- A content begins where there is no further mark. -/
theorem eq_of_line_eq {row row' : Row} (h : IsContent row.content)
    (h' : IsContent row'.content) (hline : row.line = row'.line) : row = row' := by
  obtain ⟨depth, content⟩ := row
  obtain ⟨depth', content'⟩ := row'
  obtain ⟨-, hcontent⟩ := h
  obtain ⟨-, hcontent'⟩ := h'
  simp only [line] at hline hcontent hcontent'
  induction depth generalizing depth' with
  | zero =>
      cases depth' with
      | zero => simpa [Outliner.indentation, String.toList_inj] using hline
      | succ depth' =>
          rw [toList_indentation_succ] at hline
          exact absurd (congrArg List.head? hline) hcontent
  | succ depth ih =>
      cases depth' with
      | zero =>
          rw [toList_indentation_succ] at hline
          exact absurd (congrArg List.head? hline.symm) hcontent'
      | succ depth' =>
          simp only [toList_indentation_succ, List.cons_append, List.cons.injEq, true_and] at hline
          obtain ⟨rfl, rfl⟩ := Row.mk.inj (ih depth' hline)
          rfl

theorem eq_of_textOfAll_eq (hrows : ∀ row ∈ rows, IsContent row.content)
    (hrows' : ∀ row ∈ rows', IsContent row.content) (h : textOfAll rows = textOfAll rows') :
    rows = rows' := by
  rw [← String.toList_inj, toList_textOfAll, toList_textOfAll] at h
  refine eq_of_flatMap_concat_eq ?_ ?_ ?_ h
  · exact fun row hrow => newline_notMem_line (hrows row hrow)
  · exact fun row hrow => newline_notMem_line (hrows' row hrow)
  · exact fun row hrow row' hrow' => eq_of_line_eq (hrows row hrow) (hrows' row' hrow')

end Row

end Fixity
