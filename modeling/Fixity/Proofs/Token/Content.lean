import Fixity.Proofs.Token.Walk

/-! # The content of a text

A text counts up to its first NUL outside of comments. -/

namespace Fixity

open Unicode (isWhiteSpace)

/-- The characters in front of the first NUL that is in no comment. A comment is open from a number
sign up to the end of its line. -/
def upToNul (inComment : Bool) : List Char → List Char
  | [] => []
  | c :: rest =>
    if inComment then c :: upToNul (!isLineEnd c) rest
    else if c = '\x00' then []
    else c :: upToNul (c == '#') rest

/-- The part of a text that is scanned. -/
def content (text : String) : List Char := upToNul false text.toList

/-! ## Outside of comments -/

/-- A character that neither opens a comment nor ends the text. -/
def IsPlain (c : Char) : Prop := c ≠ '#' ∧ c ≠ '\x00'

namespace IsPlain

theorem of_isWhiteSpace {c : Char} (h : isWhiteSpace c) : IsPlain c := by
  constructor <;> rintro rfl <;> exact absurd h (by decide)

theorem of_isLineEnd {c : Char} (h : isLineEnd c) : IsPlain c := by
  constructor <;> rintro rfl <;> exact absurd h (by decide)

theorem of_isReservedChar {c : Char} (h : isReservedChar c) : IsPlain c := by
  constructor <;> rintro rfl <;> exact absurd h (by decide)

theorem of_begunBy? {c : Char} {lexemeClass : LexemeClass}
    (h : LexemeClass.begunBy? c = some lexemeClass) : IsPlain c := by
  constructor <;> rintro rfl <;> exact absurd h (by cases lexemeClass <;> decide)

theorem of_continuedBy {c : Char} {lexemeClass : LexemeClass} (h : lexemeClass.continuedBy c) :
    IsPlain c := by
  constructor <;> rintro rfl <;> exact absurd h (by cases lexemeClass <;> decide)

end IsPlain

theorem upToNul_cons_of_isPlain {c : Char} (h : IsPlain c) (rest : List Char) :
    upToNul false (c :: rest) = c :: upToNul false rest := by
  have hcomment : (c == '#') = false := beq_eq_false_iff_ne.mpr h.1
  simp [upToNul, hcomment, h.2]

theorem upToNul_comment (rest : List Char) :
    upToNul false ('#' :: rest) = '#' :: upToNul true rest := by
  simp [upToNul]

theorem upToNul_append {chars : List Char} (h : ∀ c ∈ chars, IsPlain c) (rest : List Char) :
    upToNul false (chars ++ rest) = chars ++ upToNul false rest := by
  induction chars with
  | nil => rfl
  | cons c chars ih =>
      have hrest := ih fun d hd => h d (List.mem_cons_of_mem c hd)
      rw [List.cons_append, upToNul_cons_of_isPlain (h c List.mem_cons_self), hrest,
        List.cons_append]

/-- Where a comment ends, it makes no difference whether it is still open. -/
theorem upToNul_of_lineEnd {rest : List Char} (h : ∀ c ∈ rest.head?, isLineEnd c) :
    upToNul true rest = upToNul false rest := by
  cases rest with
  | nil => rfl
  | cons c rest =>
      have hend : isLineEnd c := h c rfl
      rw [upToNul_cons_of_isPlain (.of_isLineEnd hend)]
      simp [upToNul, hend]

theorem upToNul_comment_append {body rest : List Char} (h : ∀ c ∈ body, isLineEnd c = false)
    (hrest : ∀ c ∈ rest.head?, isLineEnd c) :
    upToNul true (body ++ rest) = body ++ upToNul false rest := by
  induction body with
  | nil => exact upToNul_of_lineEnd hrest
  | cons c body ih =>
      have hbody := ih fun d hd => h d (List.mem_cons_of_mem c hd)
      simp [upToNul, h c List.mem_cons_self, hbody]

theorem mem_head?_of_upToNul {inComment : Bool} {text : List Char} {c : Char}
    (h : c ∈ (upToNul inComment text).head?) : c ∈ text.head? := by
  cases text with
  | nil => exact h
  | cons d text =>
      rw [upToNul] at h
      split at h
      · exact h
      · split at h
        · cases h
        · exact h

/-! ## What a text with given content begins with -/

theorem eq_nil_or_nul_of_upToNul_eq_nil {text : List Char} (h : upToNul false text = []) :
    text = [] ∨ ∃ rest, text = '\x00' :: rest := by
  cases text with
  | nil => exact .inl rfl
  | cons c text =>
      by_cases hnul : c = '\x00'
      · exact .inr ⟨text, by rw [hnul]⟩
      · simp [upToNul, hnul] at h

theorem eq_cons_of_upToNul_eq_cons {inComment : Bool} {text content : List Char} {c : Char}
    (h : upToNul inComment text = c :: content) : ∃ rest, text = c :: rest := by
  have hhead : c ∈ text.head? := mem_head?_of_upToNul (by rw [h]; rfl)
  cases text with
  | nil => cases hhead
  | cons d text =>
      cases hhead
      exact ⟨text, rfl⟩

theorem exists_of_upToNul_eq_append {text chars content : List Char}
    (hplain : ∀ c ∈ chars, IsPlain c) (h : upToNul false text = chars ++ content) :
    ∃ rest, text = chars ++ rest ∧ upToNul false rest = content := by
  induction chars generalizing text with
  | nil => exact ⟨text, rfl, h⟩
  | cons c chars ih =>
      obtain ⟨text, rfl⟩ := eq_cons_of_upToNul_eq_cons h
      rw [upToNul_cons_of_isPlain (hplain c List.mem_cons_self)] at h
      obtain ⟨rest, rfl, hrest⟩ :=
        ih (fun d hd => hplain d (List.mem_cons_of_mem c hd)) (List.cons.inj h).2
      exact ⟨rest, rfl, hrest⟩

theorem exists_of_upToNul_eq_comment {text body content : List Char}
    (hbody : ∀ c ∈ body, isLineEnd c = false) (hend : ∀ c ∈ content.head?, isLineEnd c)
    (h : upToNul true text = body ++ content) :
    ∃ rest, text = body ++ rest ∧ (∀ c ∈ rest.head?, isLineEnd c) ∧
      upToNul false rest = content := by
  induction body generalizing text with
  | nil =>
      have hrest : ∀ c ∈ text.head?, isLineEnd c := by
        intro c hc
        cases text with
        | nil => cases hc
        | cons d text =>
            cases hc
            refine hend c ?_
            rw [← List.nil_append content, ← h]
            simp [upToNul]
      exact ⟨text, rfl, hrest, by rw [← upToNul_of_lineEnd hrest]; exact h⟩
  | cons c body ih =>
      obtain ⟨text, rfl⟩ := eq_cons_of_upToNul_eq_cons h
      have hc : isLineEnd c = false := hbody c List.mem_cons_self
      simp only [upToNul, if_true, hc, Bool.not_false] at h
      obtain ⟨rest, rfl, hrest⟩ :=
        ih (fun d hd => hbody d (List.mem_cons_of_mem c hd)) (List.cons.inj h).2
      exact ⟨rest, rfl, hrest⟩

/-! ## Steps and walks -/

namespace Scanner

def inComment (scanner : Scanner) : Bool := scanner.unfinished = .comment

theorem upToNul_of_proceed {scanner next : Scanner} {c : Char}
    (h : scanner.next c = .proceed next) (rest : List Char) :
    upToNul scanner.inComment (c :: rest) = c :: upToNul next.inComment rest := by
  have hsteps := scanner.steps c
  rw [h] at hsteps
  cases hsteps with
  | comment hunfinished hend => simp [inComment, hunfinished, upToNul, hend]
  | lexeme hunfinished hcontinued =>
      have hplain := IsPlain.of_continuedBy hcontinued
      simp [inComment, hunfinished, upToNul_cons_of_isPlain hplain]
  | begin hend hbegins =>
      by_cases hcomment : scanner.unfinished = .comment
      · have hplain := IsPlain.of_isLineEnd (hend hcomment)
        cases hbegins with
        | comment hopened => exact absurd hopened hplain.1
        | _ => simp [inComment, hcomment, upToNul, hend hcomment]
      · cases hbegins with
        | blank hwhite =>
            simp [inComment, hcomment, upToNul_cons_of_isPlain (.of_isWhiteSpace hwhite)]
        | lexeme hbegun => simp [inComment, hcomment, upToNul_cons_of_isPlain (.of_begunBy? hbegun)]
        | comment hopened => simp [inComment, hcomment, hopened, upToNul_comment]
        | symbol hreserved =>
            simp [inComment, hcomment, upToNul_cons_of_isPlain (.of_isReservedChar hreserved)]

/-- What ends a scan early is not content, and neither is anything behind it. -/
theorem upToNul_of_stop {scanner : Scanner} {c : Char} (h : scanner.next c = .stop)
    (rest : List Char) : upToNul scanner.inComment (c :: rest) = [] := by
  have hsteps := scanner.steps c
  rw [h] at hsteps
  cases hsteps with
  | begin hend hbegins =>
      cases hbegins with
      | stop hnul =>
          have hcomment : scanner.unfinished ≠ .comment := by
            intro hcomment
            exact (IsPlain.of_isLineEnd (hend hcomment)).2 hnul
          simp [inComment, hcomment, hnul, upToNul]

theorem upToNul_of_walk_passed {scanner last : Scanner} {text : List Char}
    (h : scanner.walk text = .passed last) : upToNul scanner.inComment text = text := by
  induction text generalizing scanner with
  | nil => rfl
  | cons c text ih =>
      obtain ⟨next, hnext, hwalk⟩ := exists_next_of_walk h
      rw [upToNul_of_proceed hnext, ih hwalk]

/-- A text in which a walk is stopped has more than its content. -/
theorem upToNul_of_walk_stopped {scanner : Scanner} {text : List Char} {scanned : Scan}
    (h : scanner.walk text = .stopped scanned) : upToNul scanner.inComment text ≠ text := by
  induction text generalizing scanner with
  | nil => cases h
  | cons c text ih =>
      rw [walk] at h
      cases hnext : scanner.next c with
      | proceed next =>
          rw [hnext] at h
          rw [upToNul_of_proceed hnext]
          intro heq
          exact ih h (List.cons.inj heq).2
      | stop =>
          rw [upToNul_of_stop hnext]
          exact (List.cons_ne_nil c text).symm
      | unrecognized =>
          rw [hnext] at h
          cases h

end Scanner

/-- The scan of a text that is content as a whole is what a walk through it comes to. -/
theorem exists_walk_of_content {text : String} {scanned : Scan} (h : scan text = .ok scanned)
    (hcontent : content text = text.toList) :
    ∃ last, Scanner.walk {} text.toList = .passed last ∧ scanned = last.finish := by
  rw [scan, Scanner.run_eq_walk] at h
  cases hwalk : Scanner.walk {} text.toList with
  | passed last =>
      rw [hwalk] at h
      cases h
      exact ⟨last, rfl, rfl⟩
  | stopped ended => exact absurd hcontent (Scanner.upToNul_of_walk_stopped hwalk)
  | failed error =>
      rw [hwalk] at h
      cases h

end Fixity
