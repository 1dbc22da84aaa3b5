import Fixity.Proofs.Token.Content
import Fixity.Proofs.Token.Layout

/-! # Tokens that are as long as they can be

A text is cut into white space, comments and tokens, no token a part of a longer one. -/

namespace Fixity

open Unicode (isWhiteSpace isAlphabetic isAlphanumeric)

/-! ## Positions -/

/-- The place behind some characters at the start of a text. -/
def Position.behind (front : List Char) : Position where
  line := front.count '\n' + 1
  column := (front.reverse.takeWhile (· ≠ '\n')).length + 1

theorem Position.behind_concat (front : List Char) (c : Char) :
    behind (front ++ [c]) = (behind front).after c := by
  by_cases hc : c = '\n'
  · simp [behind, after, hc]
  · simp [behind, after, hc]

theorem Position.behind_append (front chars : List Char) :
    behind (front ++ chars) = chars.foldl after (behind front) := by
  induction chars generalizing front with
  | nil => simp
  | cons c chars ih =>
      rw [List.foldl_cons, ← behind_concat, ← ih]
      simp

/-- Within a line, columns count characters. -/
theorem Position.behind_append_of_notMem {chars : List Char} (h : '\n' ∉ chars)
    (front : List Char) :
    behind (front ++ chars) =
      ⟨(behind front).line, (behind front).column + chars.length⟩ := by
  have hline : ∀ c ∈ chars.reverse, c ≠ '\n' :=
    fun c hc => ne_of_mem_of_not_mem (List.mem_reverse.mp hc) h
  have htake : (front ++ chars).reverse.takeWhile (· ≠ '\n') =
      chars.reverse ++ front.reverse.takeWhile (· ≠ '\n') := by
    rw [List.reverse_append]
    exact List.takeWhile_append_of_pos (by simpa using hline)
  have hcount : chars.count '\n' = 0 := List.count_eq_zero.mpr h
  rw [behind, htake, List.count_append, hcount, List.length_append, List.length_reverse]
  simp only [behind, Nat.add_zero, Position.mk.injEq, true_and]
  omega

/-! ## Factorisations -/

/-- The rest does not begin with a character of this class. -/
def Leaves (continues : Char → Bool) (rest : List Char) : Prop :=
  ∀ c ∈ rest.head?, continues c = false

def IsWord (text : List Char) : Prop :=
  ∃ c more, text = c :: more ∧ isAlphabetic c ∧ ∀ d ∈ more, isAlphanumeric d

def IsNumeral (text : List Char) : Prop :=
  ∃ c more, text = c :: more ∧ c.isDigit ∧ ∀ d ∈ more, d.isDigit || d == '.'

/-- Between what is in front of it and the rest, the text is a token of the kind, and no part of a
longer one. -/
def TokenKind.Munches (front text rest : List Char) : TokenKind → Prop
  | definition => text = "defn".toList ∧ Leaves isAlphanumeric rest
  | external => text = "extern".toList ∧ Leaves isAlphanumeric rest
  | identifier => IsWord text ∧ text ≠ "defn".toList ∧ text ≠ "extern".toList ∧
      Leaves isAlphanumeric rest
  | operator => text ≠ [] ∧ (∀ c ∈ text, isOperatorChar c) ∧ Leaves isOperatorChar front.reverse ∧
      Leaves isOperatorChar rest
  | reserved => ∃ c, text = [c] ∧ isReservedChar c
  | number => IsNumeral text ∧ Leaves (fun c => c.isDigit || c == '.') rest
  | stop => False

/-- What stands behind the front is cut into white space, comments and the tokens. -/
inductive Factors : List Char → List Char → List Token → Prop
  | nil {front} : Factors front [] []
  | blank {front c rest tokens} : isWhiteSpace c → Factors (front ++ [c]) rest tokens →
      Factors front (c :: rest) tokens
  | comment {front body rest tokens} : (∀ c ∈ body, isLineEnd c = false) →
      (∀ c ∈ rest.head?, isLineEnd c) → Factors (front ++ '#' :: body) rest tokens →
      Factors front ('#' :: body ++ rest) tokens
  | token {front text rest kind tokens} : TokenKind.Munches front text rest kind →
      Factors (front ++ text) rest tokens →
      Factors front (text ++ rest) (⟨kind, .ofList text, .behind front⟩ :: tokens)

/-! ## Classes and kinds -/

namespace LexemeClass

theorem not_isOperatorChar_of_continuedBy {lexemeClass : LexemeClass} (h : lexemeClass ≠ operator)
    {c : Char} (hc : lexemeClass.continuedBy c) : isOperatorChar c = false := by
  have hall : ['<', '>', '+', '-', '*', '!', '@', '$', '%', '^', '&', '|'].all
      (fun c => !word.continuedBy c && !number.continuedBy c) := by decide
  cases hop : isOperatorChar c with
  | false => rfl
  | true =>
      have hother := List.all_eq_true.mp hall c (by simpa [isOperatorChar] using hop)
      obtain ⟨hword, hnumber⟩ : word.continuedBy c = false ∧ number.continuedBy c = false := by
        simpa using hother
      cases lexemeClass with
      | word => exact absurd hc (by simp [hword])
      | number => exact absurd hc (by simp [hnumber])
      | operator => exact absurd rfl h

/-- A character that begins a lexeme would continue it, too. -/
theorem continuedBy_of_begunBy? {lexemeClass : LexemeClass} {c : Char}
    (h : begunBy? c = some lexemeClass) : lexemeClass.continuedBy c := by
  unfold begunBy? at h
  split at h
  · next halpha =>
      cases h
      simp [continuedBy, Unicode.isAlphanumeric, halpha]
  · split at h
    · next hdigit =>
        cases h
        simp [continuedBy, hdigit]
    · split at h
      · next hop =>
          cases h
          exact hop
      · cases h

theorem Admits.continuedBy {lexemeClass : LexemeClass} {text : List Char}
    (h : lexemeClass.Admits text) : ∀ c ∈ text, lexemeClass.continuedBy c := by
  cases text with
  | nil => exact h.elim
  | cons first more =>
      intro c hc
      rcases List.mem_cons.mp hc with rfl | hc
      · exact continuedBy_of_begunBy? h.1
      · exact h.2 c hc

theorem begunBy?_eq_word_iff {c : Char} : begunBy? c = some word ↔ isAlphabetic c := by
  unfold begunBy?
  split
  · next h => simp [h]
  · next h =>
      split
      · simp [h]
      · split <;> simp [h]

theorem begunBy?_eq_number_iff {c : Char} : begunBy? c = some number ↔ c.isDigit := by
  refine ⟨?_, begunBy?_of_isDigit⟩
  unfold begunBy?
  split
  · simp
  · split
    · next h => exact fun _ => h
    · split <;> simp

theorem begunBy?_eq_operator_iff {c : Char} : begunBy? c = some operator ↔ isOperatorChar c := by
  constructor
  · exact fun h => continuedBy_of_begunBy? h
  · intro h
    have hword : ¬ isAlphabetic c := by
      intro halpha
      have hcontinued := continuedBy_of_begunBy? (begunBy?_eq_word_iff.mpr halpha)
      exact absurd h (by simp [not_isOperatorChar_of_continuedBy (by decide) hcontinued])
    have hnumber : ¬ c.isDigit := by
      intro hdigit
      have hcontinued := continuedBy_of_begunBy? (begunBy?_of_isDigit hdigit)
      exact absurd h (by simp [not_isOperatorChar_of_continuedBy (by decide) hcontinued])
    simp [begunBy?, hword, hnumber, h]

theorem begunBy?_eq_none_iff {c : Char} :
    begunBy? c = none ↔ isAlphabetic c = false ∧ c.isDigit = false ∧ isOperatorChar c = false := by
  unfold begunBy?
  split
  · next halpha => simp [halpha]
  · next halpha =>
    split
    · next hdigit => simp [hdigit]
    · next hdigit => simp [halpha, hdigit]

end LexemeClass

namespace TokenKind

variable {front text rest : List Char}

theorem munches_of_admits {lexemeClass : LexemeClass} (h : lexemeClass.Admits text)
    (hfront : lexemeClass = .operator → Leaves isOperatorChar front.reverse)
    (hrest : Leaves lexemeClass.continuedBy rest) :
    Munches front text rest (lexemeClass.kind (.ofList text)) := by
  cases text with
  | nil => exact h.elim
  | cons c more =>
      obtain ⟨hbegun, hmore⟩ := h
      cases lexemeClass with
      | word =>
          have hword : IsWord (c :: more) :=
            ⟨c, more, rfl, LexemeClass.begunBy?_eq_word_iff.mp hbegun, hmore⟩
          simp only [LexemeClass.kind, ofWord]
          split
          · next hdefn => exact ⟨by rw [← hdefn, String.toList_ofList], hrest⟩
          · next hdefn =>
              split
              · next hextern => exact ⟨by rw [← hextern, String.toList_ofList], hrest⟩
              · next hextern =>
                  refine ⟨hword, ?_, ?_, hrest⟩
                  · intro heq
                    exact hdefn (by rw [heq, String.ofList_toList])
                  · intro heq
                    exact hextern (by rw [heq, String.ofList_toList])
      | number =>
          exact ⟨⟨c, more, rfl, LexemeClass.begunBy?_eq_number_iff.mp hbegun, hmore⟩, hrest⟩
      | operator =>
          refine ⟨List.cons_ne_nil c more, ?_, hfront rfl, hrest⟩
          intro d hd
          rcases List.mem_cons.mp hd with rfl | hd
          · exact LexemeClass.begunBy?_eq_operator_iff.mp hbegun
          · exact hmore d hd

/-- A token is a reserved symbol or a lexeme. -/
theorem Munches.eq_reserved_or_admits {kind : TokenKind} (h : Munches front text rest kind) :
    (∃ c, kind = reserved ∧ text = [c] ∧ isReservedChar c) ∨
      ∃ lexemeClass : LexemeClass, lexemeClass.Admits text ∧
        kind = lexemeClass.kind (.ofList text) ∧ Leaves lexemeClass.continuedBy rest := by
  cases kind with
  | definition =>
      obtain ⟨rfl, hrest⟩ := h
      exact .inr ⟨.word, by decide, by decide, hrest⟩
  | external =>
      obtain ⟨rfl, hrest⟩ := h
      exact .inr ⟨.word, by decide, by decide, hrest⟩
  | identifier =>
      obtain ⟨⟨c, more, rfl, halpha, hmore⟩, hdefn, hextern, hrest⟩ := h
      refine .inr ⟨.word, ⟨LexemeClass.begunBy?_eq_word_iff.mpr halpha, hmore⟩, ?_, hrest⟩
      have hdefn' : String.ofList (c :: more) ≠ "defn" := by
        intro heq
        exact hdefn (by rw [← heq, String.toList_ofList])
      have hextern' : String.ofList (c :: more) ≠ "extern" := by
        intro heq
        exact hextern (by rw [← heq, String.toList_ofList])
      simp only [LexemeClass.kind, ofWord, if_neg hdefn', if_neg hextern']
  | operator =>
      obtain ⟨hne, hall, -, hrest⟩ := h
      refine .inr ⟨.operator, ?_, rfl, hrest⟩
      cases text with
      | nil => exact absurd rfl hne
      | cons c more =>
          exact ⟨LexemeClass.begunBy?_eq_operator_iff.mpr (hall c List.mem_cons_self),
            fun d hd => hall d (List.mem_cons_of_mem c hd)⟩
  | reserved =>
      obtain ⟨c, rfl, hreserved⟩ := h
      exact .inl ⟨c, rfl, rfl, hreserved⟩
  | number =>
      obtain ⟨⟨c, more, rfl, hdigit, hmore⟩, hrest⟩ := h
      exact .inr ⟨.number, ⟨LexemeClass.begunBy?_of_isDigit hdigit, hmore⟩, rfl, hrest⟩
  | stop => exact h.elim

end TokenKind

end Fixity
