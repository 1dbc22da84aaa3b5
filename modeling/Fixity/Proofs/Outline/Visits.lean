import Fixity.Proofs.Outline.Rows

/-! # One outliner for many visits

Each visit adds what it would leave in a fresh outliner. -/

namespace Fixity

namespace Outliner

inductive Use where
  | declarations (program : Program)
  | expression (e : Expr)
  | take

/-- The text that a use leaves in a fresh outliner. -/
def Use.text : Use → String
  | declarations program => program.outline
  | expression e => (visitExpr e {}).text
  | take => ""

/-- Uses an outliner, with the text that is taken out of it, if the use is to take it. -/
def use (outliner : Outliner) : Use → Option String × Outliner
  | .declarations program => (none, outliner.visit program)
  | .expression e => (none, visitExpr e outliner)
  | .take => outliner.take.map some id

def useAll (outliner : Outliner) : List Use → List String × Outliner
  | [] => ([], outliner)
  | use :: uses =>
    let (taken, next) := outliner.use use
    let (later, last) := next.useAll uses
    (taken.toList ++ later, last)

/-- What an outliner is between two uses: it stands at no depth, and what was taken out of it and
what it holds are the texts of its uses, one behind the other. -/
structure Collects (outliner : Outliner) (taken : List String) (uses : List Use) : Prop where
  depth_eq : outliner.depth = 0
  text_eq : String.join taken ++ outliner.text = String.join (uses.map Use.text)

variable {outliner : Outliner} {taken : List String} {uses : List Use}

/-- Whatever is visited from no depth is put behind the text as the rows of a fresh outliner. -/
theorem Collects.add (h : outliner.Collects taken uses) {rows : List Row} {use : Use}
    (htext : use.text = Row.textOfAll rows) :
    (outliner.add rows).Collects taken (uses ++ [use]) := by
  refine ⟨h.depth_eq, ?_⟩
  rw [Outliner.add, ← String.append_assoc, h.text_eq, ← htext]
  simp

theorem Collects.use (h : outliner.Collects taken uses) (use : Use) :
    (outliner.use use).2.Collects (taken ++ (outliner.use use).1.toList) (uses ++ [use]) := by
  cases use with
  | declarations program =>
      have hadds : (outliner.use (.declarations program)).2 = outliner.add program.rows :=
        visit_eq_add program h.depth_eq
      have hfresh : (Use.declarations program).text = Row.textOfAll program.rows :=
        program.outline_eq
      rw [hadds]
      simpa [Outliner.use] using h.add hfresh
  | expression e =>
      have hadds : (outliner.use (.expression e)).2 = outliner.add (e.rows 0) := by
        rw [Outliner.use, visitExpr_eq_add, h.depth_eq]
      have hfresh : (Use.expression e).text = Row.textOfAll (e.rows 0) := by
        simp [Use.text, visitExpr_eq_add, Outliner.add]
      rw [hadds]
      simpa [Outliner.use] using h.add hfresh
  | take =>
      refine ⟨h.depth_eq, ?_⟩
      simpa [Outliner.use, Outliner.take, Use.text] using h.text_eq

theorem Collects.useAll (h : outliner.Collects taken uses) (later : List Use) :
    (outliner.useAll later).2.Collects (taken ++ (outliner.useAll later).1) (uses ++ later) := by
  induction later generalizing outliner taken uses with
  | nil => simpa [Outliner.useAll] using h
  | cons use later ih =>
      have hnext := ih (h.use use)
      rw [List.append_assoc, List.append_assoc] at hnext
      exact hnext

theorem outline_append (a b : Program) : Program.outline (a ++ b) = a.outline ++ b.outline := by
  simp [Program.outline_eq, Program.rows, Row.textOfAll]

/-- Behind any number of uses, an outliner stands at no depth, and all that is taken out of it is
what fresh outliners would show. -/
theorem useAll_fresh (uses : List Use) :
    (∀ n, (useAll {} (uses.take n)).2.depth = 0) ∧
      String.join (useAll {} uses).1 ++ (useAll {} uses).2.take.1 =
        String.join (uses.map Use.text) ∧
      ∀ a b : Program, Program.outline (a ++ b) = a.outline ++ b.outline := by
  have hcollects : ∀ uses, (useAll {} uses).2.Collects (useAll {} uses).1 uses := by
    intro uses
    have hstart : Collects {} [] [] := ⟨rfl, rfl⟩
    simpa using hstart.useAll uses
  exact ⟨fun n => (hcollects (uses.take n)).depth_eq, (hcollects uses).text_eq, outline_append⟩

end Outliner

end Fixity
