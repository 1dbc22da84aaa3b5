import Fixity.Proofs.Token.Front
import Mathlib.Data.List.Forall2

/-! # Tokens that are set apart

The tokens of a text can be written again with other white space and comments between them. -/

namespace Fixity

open Unicode (isWhiteSpace)

/-! ## Gaps -/

/-- A white space character, or a comment with the end of its line. -/
inductive IsBlank : List Char → Prop
  | white {c} : isWhiteSpace c → IsBlank [c]
  | comment {body c} : (∀ d ∈ body, isLineEnd d = false) → isLineEnd c →
      IsBlank ('#' :: body ++ [c])

inductive IsGap : List Char → Prop
  | last {blank} : IsBlank blank → IsGap blank
  | cons {blank gap} : IsBlank blank → IsGap gap → IsGap (blank ++ gap)

/-- The text has a gap in front of each of the tokens and one behind the last. -/
inductive SetsApart : List Token → List Char → Prop
  | nil {gap} : IsGap gap → SetsApart [] gap
  | cons {gap token tokens text} : IsGap gap → SetsApart tokens text →
      SetsApart (token :: tokens) (gap ++ (token.text.toList ++ text))

theorem isWhiteSpace_of_isLineEnd {c : Char} (h : isLineEnd c) : isWhiteSpace c := by
  simp only [isLineEnd, Bool.or_eq_true, decide_eq_true_eq] at h
  rcases h with rfl | rfl <;> decide

theorem IsBlank.leaves {blank : List Char} (h : IsBlank blank) (lexemeClass : LexemeClass)
    (text : List Char) : Leaves lexemeClass.continuedBy (blank ++ text) := by
  intro c hc
  cases h with
  | white hwhite =>
      cases hc
      exact Unicode.continuedBy_of_isWhiteSpace hwhite lexemeClass
  | comment =>
      cases hc
      cases lexemeClass <;> decide

theorem IsGap.leaves {gap : List Char} (h : IsGap gap) (lexemeClass : LexemeClass)
    (text : List Char) : Leaves lexemeClass.continuedBy (gap ++ text) := by
  cases h with
  | last hblank => exact hblank.leaves lexemeClass text
  | cons hblank _ =>
      rw [List.append_assoc]
      exact hblank.leaves lexemeClass _

theorem SetsApart.leaves {tokens : List Token} {text : List Char} (h : SetsApart tokens text)
    (lexemeClass : LexemeClass) : Leaves lexemeClass.continuedBy text := by
  cases h with
  | nil hgap => simpa using hgap.leaves lexemeClass []
  | cons hgap _ => exact hgap.leaves lexemeClass _

/-! ## Runs -/

namespace Scanner

theorem run_of_isBlank {blank : List Char} (h : IsBlank blank) (here : Position)
    (latestFirst : List Token) (text : List Char) :
    Scanner.run ⟨here, .nothing, latestFirst⟩ (blank ++ text) =
      Scanner.run ⟨blank.foldl Position.after here, .nothing, latestFirst⟩ text := by
  cases h with
  | white hwhite => exact run_blank hwhite here latestFirst text
  | @comment body c hbody hend =>
      have hopened : ∀ d ∈ (c :: text).head?, isLineEnd d := by
        rintro d ⟨⟩
        exact hend
      have hwhite := isWhiteSpace_of_isLineEnd hend
      simp only [List.cons_append, List.append_assoc, List.nil_append, List.foldl_cons,
        List.foldl_append, List.foldl_nil]
      rw [run_numberSign, run_comment hbody hopened, run_blank hwhite]

theorem run_of_isGap {gap : List Char} (h : IsGap gap) (here : Position) (latestFirst : List Token)
    (text : List Char) :
    Scanner.run ⟨here, .nothing, latestFirst⟩ (gap ++ text) =
      Scanner.run ⟨gap.foldl Position.after here, .nothing, latestFirst⟩ text := by
  induction h generalizing here with
  | last hblank => exact run_of_isBlank hblank here latestFirst text
  | cons hblank _ ih =>
      rw [List.append_assoc, run_of_isBlank hblank, ih, List.foldl_append]

/-- The text of a token becomes a token again if nothing behind it continues any. -/
theorem run_of_wellFormed {lexeme : Lexeme} (h : lexeme.WellFormed) {text : List Char}
    (htext : ∀ lexemeClass : LexemeClass, Leaves lexemeClass.continuedBy text) (here : Position)
    (latestFirst : List Token) :
    Scanner.run ⟨here, .nothing, latestFirst⟩ (lexeme.text.toList ++ text) =
      Scanner.run ⟨lexeme.text.toList.foldl Position.after here, .nothing,
        ⟨lexeme.kind, lexeme.text, here⟩ :: latestFirst⟩ text := by
  cases h with
  | @ofClass lexemeClass chars hadmits =>
      simp only [LexemeClass.lexeme, String.toList_ofList]
      exact run_lexeme hadmits (htext lexemeClass) here latestFirst
  | symbol hreserved =>
      simp only [Lexeme.symbol, String.toList_ofList]
      exact run_symbol hreserved here latestFirst text

/-- A text that sets tokens apart is scanned as these tokens. -/
theorem run_of_setsApart {tokens : List Token} {text : List Char} (h : SetsApart tokens text)
    (hformed : ∀ token ∈ tokens, token.lexeme.WellFormed) (here : Position)
    (latestFirst : List Token) :
    ∃ scanned, Scanner.run ⟨here, .nothing, latestFirst⟩ text = .ok scanned ∧
      scanned.words.map Token.lexeme =
        latestFirst.reverse.map Token.lexeme ++ tokens.map Token.lexeme := by
  induction h generalizing here latestFirst with
  | @nil gap hgap =>
      have hrun := run_of_isGap hgap here latestFirst []
      rw [List.append_nil] at hrun
      exact ⟨_, hrun, by simp [finish, close]⟩
  | @cons gap token tokens text hgap hrest ih =>
      have hrun := run_of_wellFormed (hformed token List.mem_cons_self) hrest.leaves
      obtain ⟨scanned, hscanned, hwords⟩ := ih
        (fun other hother => hformed other (List.mem_cons_of_mem token hother))
        (token.text.toList.foldl Position.after (gap.foldl Position.after here))
        (⟨token.kind, token.text, gap.foldl Position.after here⟩ :: latestFirst)
      refine ⟨scanned, ?_, ?_⟩
      · rw [run_of_isGap hgap]
        exact (hrun _ latestFirst).trans hscanned
      · simpa [Token.lexeme] using hwords

end Scanner

/-! ## Scans -/

theorem Token.agrees_iff {token other : Token} :
    token.agrees other ↔ token.lexeme = other.lexeme := by
  simp [agrees, lexeme]

theorem lexeme_stop_of_scan {text : String} {scanned : Scan} (h : scan text = .ok scanned) :
    scanned.stop.lexeme = ⟨.stop, ""⟩ := by
  obtain ⟨tokens, -, rfl⟩ := yields_of_scan h
  rfl

theorem exists_scan_of_setsApart {text spaced : String} {scanned : Scan}
    (h : scan text = .ok scanned) (hspaced : SetsApart scanned.words spaced.toList) :
    ∃ scanned', scan spaced = .ok scanned' ∧
      scanned.tokens.map Token.lexeme = scanned'.tokens.map Token.lexeme := by
  obtain ⟨scanned', hrun, hwords⟩ := Scanner.run_of_setsApart hspaced (wellFormed_of_scan h) {} []
  have hscan : scan spaced = .ok scanned' := hrun
  refine ⟨scanned', hscan, ?_⟩
  have hstop := lexeme_stop_of_scan h
  have hstop' := lexeme_stop_of_scan hscan
  simp [Scan.tokens, hwords, hstop, hstop']

end Fixity
