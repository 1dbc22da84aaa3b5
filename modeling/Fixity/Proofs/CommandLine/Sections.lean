import Fixity.Proofs.CommandLine.Failure
import Fixity.Proofs.CommandLine.Operators

/-! # What a run writes about a file

The output is the source, the tokens if they are shown, and the tree if there is one. -/

namespace Fixity.CommandLine

/-- The source, without white space at its end. -/
def sourceSection (content : String) : String := "Source:\n" ++ Unicode.trimEnd content ++ "\n\n"

def tokenSection (scanned : Scan) : String :=
  "Tokens:\n" ++ String.join (scanned.tokens.map fun token => token.toText ++ "\n") ++ "\n"

def treeSection (settings : Settings) (program : Program) : String :=
  "AST:\n" ++ if settings.showSource then program.source else program.outline

/-- What a run says about a file: the code it exits with, the section of the tree, which is empty if
there is none, and the errors. All three follow the outcome of the file's content. -/
structure Reports (settings : Settings) (grammar : Grammar) (path content : String) (code : Nat)
    (tree errors : String) : Prop where
  code_le_one : code ≤ 1
  code_eq_zero_iff : code = 0 ↔ ∃ program, grammar.parse content = .parsed program
  tree_ne_empty_iff : tree ≠ "" ↔ code = 0
  parsed : ∀ program, grammar.parse content = .parsed program →
    tree = treeSection settings program ∧ errors = ""
  needsMoreInput : grammar.parse content = .needsMoreInput →
    errors = Failure.report ⟨s!"{path} ends in the middle of a statement", []⟩
  rejected : ∀ error, grammar.parse content = .rejected error →
    errors = Failure.report ⟨s!"failed to parse {path}", error.message :: error.cause?.toList⟩

variable {settings : Settings} {path content : String}
  {readFile : String → Except FileError String}

/-! ## Specifications -/

theorem exists_first_error {specs : List String}
    (h : ∃ spec ∈ specs, ∃ error, Operator.ofSpec spec = .error error) :
    ∃ valid bad others error, specs = valid ++ bad :: others ∧
      (∀ spec ∈ valid, ∃ op, Operator.ofSpec spec = .ok op) ∧
      Operator.ofSpec bad = .error error := by
  induction specs with
  | nil => simp at h
  | cons spec specs ih =>
      cases hspec : Operator.ofSpec spec with
      | error error => exact ⟨[], spec, specs, error, rfl, by simp, hspec⟩
      | ok op =>
          have hrest : ∃ spec ∈ specs, ∃ error, Operator.ofSpec spec = .error error := by
            simpa [hspec] using h
          obtain ⟨valid, bad, others, error, rfl, hvalid, hbad⟩ := ih hrest
          exact ⟨spec :: valid, bad, others, error, rfl,
            List.forall_mem_cons.mpr ⟨⟨op, hspec⟩, hvalid⟩, hbad⟩

/-- No specification behind the first wrong one is read. -/
theorem foldlM_insertSpec_of_first_error {valid others : List String} {bad : String}
    {error : SpecError} (hvalid : ∀ spec ∈ valid, ∃ op, Operator.ofSpec spec = .ok op)
    (hbad : Operator.ofSpec bad = .error error) (start : OperatorTable) :
    (valid ++ bad :: others).foldlM insertSpec start =
      .error ⟨s!"invalid operator `{bad}`", [error.message]⟩ := by
  induction valid generalizing start with
  | nil =>
      rw [List.nil_append, List.foldlM_cons, insertSpec, hbad]
      rfl
  | cons spec valid ih =>
      obtain ⟨⟨op, hop⟩, hvalid⟩ := List.forall_mem_cons.mp hvalid
      rw [List.cons_append, List.foldlM_cons, insertSpec, hop]
      exact ih hvalid (start.insert op)

/-! ## Sections -/

theorem exists_reports (settings : Settings) (grammar : Grammar) (path content : String) :
    ∃ code tree errors, Reports settings grammar path content code tree errors ∧
      ∀ front, Result.ofText (front ++ (treeReport settings grammar path content).1)
        (treeReport settings grammar path content).2 =
          .finished code (front ++ tree).toUTF8 errors := by
  cases houtcome : grammar.parse content with
  | parsed program =>
      refine ⟨0, treeSection settings program, "", ?_, ?_⟩
      · have htree : treeSection settings program ≠ "" := by simp [treeSection]
        exact ⟨Nat.zero_le 1, by simp [houtcome], by simp [htree], by simp [houtcome],
          by simp [houtcome], by simp [houtcome]⟩
      · simp only [treeReport, houtcome, treeSection, Result.ofText, implies_true]
  | needsMoreInput =>
      refine ⟨1, "", Failure.report ⟨s!"{path} ends in the middle of a statement", []⟩, ?_, ?_⟩
      · exact ⟨Nat.le_refl 1, by simp [houtcome], by simp, by simp [houtcome], fun _ => rfl,
          by simp [houtcome]⟩
      · simp only [treeReport, houtcome, Result.ofText, implies_true]
  | rejected error =>
      refine ⟨1, "", (rejection path error).report, ?_, ?_⟩
      · refine ⟨Nat.le_refl 1, by simp [houtcome], by simp, by simp [houtcome],
          by simp [houtcome], ?_⟩
        rintro _ hrejected
        cases houtcome.symm.trans hrejected
        rfl
      · simp only [treeReport, houtcome, Result.ofText, implies_true]

theorem fileReport_plain (settings : Settings) (grammar : Grammar) (path content : String) :
    fileReport { settings with showTokens := false } grammar path content =
      (sourceSection content ++ (treeReport settings grammar path content).1,
        (treeReport settings grammar path content).2) := rfl

theorem fileReport_tokens (settings : Settings) (grammar : Grammar) (path : String)
    {scanned : Scan} (h : scan content = .ok scanned) :
    fileReport { settings with showTokens := true } grammar path content =
      (sourceSection content ++ tokenSection scanned ++
          (treeReport settings grammar path content).1,
        (treeReport settings grammar path content).2) := by
  have htree : treeReport { settings with showTokens := true } grammar path content =
      treeReport settings grammar path content := rfl
  simp only [fileReport, h, htree, if_true, sourceSection, tokenSection, Scan.listing,
    String.append_assoc]

theorem fileReport_of_scan_error (settings : Settings) (grammar : Grammar) (path : String)
    {error : ScanError} (h : scan content = .error error) :
    fileReport { settings with showTokens := true } grammar path content =
      (sourceSection content ++ "Tokens:\n", some ⟨s!"failed to lex {path}", [error.message]⟩) := by
  simp [fileReport, h, sourceSection]

theorem parse_of_scan_error {error : ScanError} (h : scan content = .error error)
    (grammar : Grammar) : grammar.parse content = .rejected (.scan error) := by
  rw [Grammar.parse, h]

theorem Reports.of_scan_error {grammar : Grammar} {code : Nat} {tree errors : String}
    (h : Reports settings grammar path content code tree errors) {error : ScanError}
    (hscan : scan content = .error error) :
    code = 1 ∧ tree = "" ∧
      errors = Failure.report ⟨s!"failed to parse {path}", [error.message]⟩ := by
  have hrejected := parse_of_scan_error hscan grammar
  have hcode : code ≠ 0 := by
    intro hzero
    obtain ⟨program, hparsed⟩ := h.code_eq_zero_iff.mp hzero
    cases hrejected.symm.trans hparsed
  have htree : tree = "" := by
    by_contra hne
    exact hcode (h.tree_ne_empty_iff.mp hne)
  have herrors := h.rejected _ hrejected
  have hcauses : (ParseError.scan error).message :: (ParseError.scan error).cause?.toList =
      [error.message] := rfl
  rw [hcauses] at herrors
  exact ⟨Nat.le_antisymm h.code_le_one (Nat.pos_of_ne_zero hcode), htree, herrors⟩

theorem execute_of_operatorTable (hfile : settings.file = some path)
    (hread : readFile path = .ok content) {operators : OperatorTable}
    (htable : operatorTable settings.operators = .ok operators) (showTokens : Bool)
    {arguments : List String}
    (harguments : Request.ofArguments arguments = .run { settings with showTokens })
    (input : List UInt8) :
    execute arguments readFile input =
      .ofText (fileReport { settings with showTokens } { operators } path content).1
        (fileReport { settings with showTokens } { operators } path content).2 := by
  simp only [execute, harguments, runSettings, htable, hfile, hread]

/-- A run on a file exits with zero, and has a section for the tree, just if the content is a
program. Showing tokens only inserts their section, unless the content cannot be scanned. Of wrong
specifications, the first is reported and nothing else. -/
theorem execute_file (hfile : settings.file = some path) (hread : readFile path = .ok content)
    (input : List UInt8) :
    (∀ ops, List.Forall₂ (fun spec op => Operator.ofSpec spec = .ok op) settings.operators ops →
      ∃ code tree errors,
        Reports settings { operators := ops.foldl OperatorTable.insert .standard } path content
          code tree errors ∧
        ∀ arguments,
          (Request.ofArguments arguments = .run { settings with showTokens := false } →
            execute arguments readFile input =
              .finished code (sourceSection content ++ tree).toUTF8 errors) ∧
          (Request.ofArguments arguments = .run { settings with showTokens := true } →
            (∀ scanned, scan content = .ok scanned →
              execute arguments readFile input =
                .finished code (sourceSection content ++ tokenSection scanned ++ tree).toUTF8
                  errors) ∧
            ∀ error, scan content = .error error → code = 1 ∧ tree = "" ∧
              errors = Failure.report ⟨s!"failed to parse {path}", [error.message]⟩ ∧
              errors ≠ Failure.report ⟨s!"failed to lex {path}", [error.message]⟩ ∧
              execute arguments readFile input =
                .finished 1 (sourceSection content ++ "Tokens:\n").toUTF8
                  (Failure.report ⟨s!"failed to lex {path}", [error.message]⟩))) ∧
    ((∃ spec ∈ settings.operators, ∃ error, Operator.ofSpec spec = .error error) →
      ∃ valid bad others error, settings.operators = valid ++ bad :: others ∧
        (∀ spec ∈ valid, ∃ op, Operator.ofSpec spec = .ok op) ∧
        Operator.ofSpec bad = .error error ∧
        ∀ arguments, Request.ofArguments arguments = .run settings →
          execute arguments readFile input =
            .finished 1 "".toUTF8
              (Failure.report ⟨s!"invalid operator `{bad}`", [error.message]⟩)) := by
  constructor
  · intro ops hops
    have htable : operatorTable settings.operators =
        .ok (ops.foldl OperatorTable.insert .standard) :=
      foldlM_insertSpec_eq_ok_iff.mpr ⟨ops, hops, rfl⟩
    generalize ops.foldl OperatorTable.insert .standard = operators at htable
    obtain ⟨code, tree, errors, hreports, hwritten⟩ :=
      exists_reports settings { operators } path content
    refine ⟨code, tree, errors, hreports, fun arguments => ⟨fun hplain => ?_, fun hshown => ?_⟩⟩
    · rw [execute_of_operatorTable hfile hread htable false hplain, fileReport_plain]
      exact hwritten (sourceSection content)
    · have hexecute := execute_of_operatorTable hfile hread htable true hshown input
      refine ⟨fun scanned hscan => ?_, fun error hscan => ?_⟩
      · rw [hexecute, fileReport_tokens settings _ path hscan]
        exact hwritten (sourceSection content ++ tokenSection scanned)
      · obtain ⟨hcode, htree, herrors⟩ := hreports.of_scan_error hscan
        refine ⟨hcode, htree, herrors, ?_, ?_⟩
        · rw [herrors]
          exact (Failure.report_scan_ne_report_parse path _ _).symm
        · rw [hexecute, fileReport_of_scan_error settings _ path hscan]
          rfl
  · intro hwrong
    obtain ⟨valid, bad, others, error, hsplit, hvalid, hbad⟩ := exists_first_error hwrong
    refine ⟨valid, bad, others, error, hsplit, hvalid, hbad, fun arguments harguments => ?_⟩
    have htable : operatorTable settings.operators =
        .error ⟨s!"invalid operator `{bad}`", [error.message]⟩ := by
      rw [hsplit]
      exact foldlM_insertSpec_of_first_error hvalid hbad .standard
    simp only [execute, harguments, runSettings, htable]
    rfl

/-- A program behind an operator of the arguments; a file that cannot be scanned, with its tokens
shown and without; and the first of two wrong operators. -/
theorem execute_file_shown :
    let arguments := ["-s", "-o", "<>:5:right", "sum.g", "--tokens"]
    (Request.ofArguments arguments =
        .run { showTokens := true, showSource := true, operators := ["<>:5:right"],
               file := some "sum.g" } ∧
      execute arguments (fun _ => .ok "a<>b # c\n\n") [] =
        .finished 0 ("Source:\na<>b # c\n\nTokens:\nIDENTIFIER (1:1): a\nOPERATOR (1:2): <>\n" ++
          "IDENTIFIER (1:4): b\nEND (3:1): \n\nAST:\n(a <> b)\n").toUTF8 "") ∧
    (execute ["-t", "sum.g"] (fun _ => .ok "f ?x") [] =
        .finished 1 "Source:\nf ?x\n\nTokens:\n".toUTF8
          "Error: failed to lex sum.g\n\nCaused by:\n    unrecognized symbol '?x' at 1:3\n" ∧
      execute ["sum.g"] (fun _ => .ok "f ?x") [] =
        .finished 1 "Source:\nf ?x\n\n".toUTF8
          "Error: failed to parse sum.g\n\nCaused by:\n    unrecognized symbol '?x' at 1:3\n") ∧
    execute ["-o", "+:30", "-o", "a:1", "sum.g", "-o", "b"] (fun _ => .ok "f ?x") [] =
      .finished 1 "".toUTF8
        ("Error: invalid operator `a:1`\n\nCaused by:\n" ++
          "    `a` contains characters that can't form an operator\n") := by
  intro arguments
  refine ⟨?_, ?_, ?_⟩
  · have harguments : Request.ofArguments arguments =
        .run { showTokens := true, showSource := true, operators := ["<>:5:right"],
               file := some "sum.g" } := by decide
    refine ⟨harguments, ?_⟩
    have hops : List.Forall₂ (fun spec op => Operator.ofSpec spec = .ok op) ["<>:5:right"]
        [⟨"<>", 5, .right⟩] := .cons rfl .nil
    obtain ⟨code, tree, errors, hreports, hwritten⟩ :=
      (@execute_file { showSource := true, operators := ["<>:5:right"], file := some "sum.g" }
        "sum.g" "a<>b # c\n\n" (fun _ => .ok "a<>b # c\n\n") rfl rfl []).1 _ hops
    obtain ⟨rfl, rfl⟩ := hreports.parsed
      [.definition .anonymous (.binary "<>" (.var "a") (.var "b"))] rfl
    obtain rfl := hreports.code_eq_zero_iff.mpr ⟨_, rfl⟩
    have hscan : scan "a<>b # c\n\n" = .ok
        ⟨[⟨.identifier, "a", ⟨1, 1⟩⟩, ⟨.operator, "<>", ⟨1, 2⟩⟩, ⟨.identifier, "b", ⟨1, 4⟩⟩],
          ⟨.stop, "", ⟨3, 1⟩⟩⟩ := by rfl
    rw [((hwritten arguments).2 harguments).1 _ hscan]
    congr 2
  · have hshown : Request.ofArguments ["-t", "sum.g"] =
        .run { showTokens := true, file := some "sum.g" } := by decide
    have hplain : Request.ofArguments ["sum.g"] = .run { file := some "sum.g" } := by decide
    have hscan : scan "f ?x" = .error ⟨"?x", ⟨1, 3⟩⟩ := by rfl
    obtain ⟨code, tree, errors, -, hwritten⟩ :=
      (@execute_file { file := some "sum.g" } "sum.g" "f ?x" (fun _ => .ok "f ?x") rfl rfl []).1
        [] .nil
    obtain ⟨rfl, rfl, rfl, -, hlexed⟩ := ((hwritten _).2 hshown).2 _ hscan
    rw [hlexed, (hwritten _).1 hplain]
    exact ⟨rfl, rfl⟩
  · have harguments : Request.ofArguments ["-o", "+:30", "-o", "a:1", "sum.g", "-o", "b"] =
        .run { operators := ["+:30", "a:1", "b"], file := some "sum.g" } := by decide
    have hwrong : ∃ spec ∈ ["+:30", "a:1", "b"], ∃ error, Operator.ofSpec spec = .error error :=
      ⟨"b", by decide, _, rfl⟩
    obtain ⟨valid, bad, others, error, hsplit, hvalid, hbad, hwritten⟩ :=
      (@execute_file { operators := ["+:30", "a:1", "b"], file := some "sum.g" } "sum.g" "f ?x"
        (fun _ => .ok "f ?x") rfl rfl []).2 hwrong
    cases valid with
    | nil =>
        cases hsplit
        cases hbad
    | cons first valid =>
        cases valid with
        | nil =>
            cases hsplit
            cases hbad
            rw [hwritten _ harguments]
            rfl
        | cons second valid =>
            have hsecond : "a:1" = second := (List.cons.inj (List.cons.inj hsplit).2).1
            obtain ⟨op, hop⟩ := hvalid "a:1" (by simp [hsecond])
            cases hop

end Fixity.CommandLine
