import Fixity.CommandLine.Execute

/-! # Reports of failures

A report is a context with its causes below it, and contexts that part tell reports apart. -/

namespace Fixity.CommandLine.Failure

/-- A cause behind its number, which ends in the fifth column. -/
def numberedRow (cause : String) (number : Nat) : String :=
  .ofList (List.replicate (5 - (toString number).length) ' ') ++ toString number ++ ": " ++
    hang 7 cause

/-- What stands below the context. -/
def causeRows : List String → List String
  | [] => []
  | [cause] => ["", "Caused by:", "    " ++ hang 4 cause]
  | first :: second :: causes => "" :: "Caused by:" ::
      (first :: second :: causes).zipIdx.map fun (cause, number) => numberedRow cause number

theorem numbered_eq (number : Nat) (causes : List String) :
    numbered number causes = String.join (((causes.zipIdx number).map fun (cause, number) =>
      numberedRow cause number).map ("\n" ++ ·)) := by
  induction causes generalizing number with
  | nil => rfl
  | cons cause causes ih =>
      rw [numbered, ih, List.zipIdx_cons, List.map_cons, List.map_cons, String.join_cons]
      simp only [numberedRow, String.append_assoc]

theorem causeReport_eq (causes : List String) :
    causeReport causes = String.join ((causeRows causes).map ("\n" ++ ·)) := by
  match causes with
  | [] => rfl
  | [cause] =>
      have hheading : "\n\nCaused by:\n    " =
          "\n" ++ "" ++ ("\n" ++ "Caused by:") ++ ("\n" ++ "    ") := rfl
      calc causeReport [cause]
        _ = "\n" ++ "" ++ ("\n" ++ "Caused by:") ++ ("\n" ++ "    ") ++ hang 4 cause :=
          congrArg (· ++ hang 4 cause) hheading
        _ = String.join ((causeRows [cause]).map ("\n" ++ ·)) := by
          simp only [causeRows, List.map_cons, List.map_nil, String.join_cons, String.join_nil,
            String.append_empty, String.append_assoc]
  | first :: second :: causes =>
      have hheading : "\n\nCaused by:" = "\n" ++ "" ++ ("\n" ++ "Caused by:") := rfl
      calc causeReport (first :: second :: causes)
        _ = "\n" ++ "" ++ ("\n" ++ "Caused by:") ++ numbered 0 (first :: second :: causes) :=
          congrArg (· ++ numbered 0 (first :: second :: causes)) hheading
        _ = String.join ((causeRows (first :: second :: causes)).map ("\n" ++ ·)) := by
          simp only [causeRows, numbered_eq, List.map_cons, String.join_cons, String.append_assoc]

/-- A report is its context behind a fixed word, and a row for each part of the causes. -/
theorem report_eq (failure : Failure) :
    failure.report = "Error: " ++ failure.context ++
      String.join ((causeRows failure.causes).map ("\n" ++ ·)) ++ "\n" := by
  rw [report, causeReport_eq]

theorem report_ne {a b : Failure} (hab : ¬ a.context.toList <+: b.context.toList)
    (hba : ¬ b.context.toList <+: a.context.toList) : a.report ≠ b.report := by
  intro h
  have hfront : ∀ failure : Failure,
      "Error: ".toList ++ failure.context.toList <+: failure.report.toList := by
    intro failure
    rw [report_eq]
    simp only [String.toList_append, List.append_assoc, List.prefix_append_right_inj]
    exact List.prefix_append _ _
  have hb : "Error: ".toList ++ b.context.toList <+: a.report.toList := h ▸ hfront b
  rcases List.prefix_or_prefix_of_prefix (hfront a) hb with hprefix | hprefix
  · exact hab ((List.prefix_append_right_inj _).mp hprefix)
  · exact hba ((List.prefix_append_right_inj _).mp hprefix)

/-- Of one file, a failed scan is never reported as a failed parse is. -/
theorem report_scan_ne_report_parse (path : String) (causes causes' : List String) :
    report ⟨s!"failed to lex {path}", causes⟩ ≠ report ⟨s!"failed to parse {path}", causes'⟩ := by
  have hscan : s!"failed to lex {path}".toList =
      "failed to ".toList ++ 'l' :: ("ex ".toList ++ path.toList) :=
    String.toList_append
  have hparse : s!"failed to parse {path}".toList =
      "failed to ".toList ++ 'p' :: ("arse ".toList ++ path.toList) :=
    String.toList_append
  apply report_ne <;> simp [hscan, hparse, List.cons_prefix_cons]

end Fixity.CommandLine.Failure
