import Fixity.Proofs.Token.Step

/-! # Lexemes

A lexeme is what a token is apart from its position. -/

namespace Fixity

structure Lexeme where
  kind : TokenKind
  text : String
deriving DecidableEq

def Token.lexeme (token : Token) : Lexeme := ⟨token.kind, token.text⟩

namespace LexemeClass

/-- The texts of a class: a character that begins one, and characters that continue it. -/
def Admits (lexemeClass : LexemeClass) : List Char → Prop
  | [] => False
  | c :: rest => begunBy? c = some lexemeClass ∧ ∀ d ∈ rest, lexemeClass.continuedBy d

-- The rest is checked as a list: there are too many characters to go through all of them.
instance (lexemeClass : LexemeClass) : DecidablePred lexemeClass.Admits
  | [] => instDecidableFalse
  | c :: rest => @instDecidableAnd (begunBy? c = some lexemeClass)
      (∀ d ∈ rest, lexemeClass.continuedBy d) inferInstance (List.decidableBAll _ rest)

theorem Admits.concat {lexemeClass : LexemeClass} {text : List Char} {c : Char}
    (h : lexemeClass.Admits text) (hc : lexemeClass.continuedBy c) :
    lexemeClass.Admits (text ++ [c]) := by
  cases text with
  | nil => exact h.elim
  | cons first rest =>
      refine ⟨h.1, ?_⟩
      intro d hd
      rcases List.mem_append.mp hd with hd | hd
      · exact h.2 d hd
      · rw [List.mem_singleton.mp hd]
        exact hc

/-- No digit is alphabetic: digits lie in front of all boundaries. -/
theorem isAlphabetic_of_isDigit {c : Char} (h : c.isDigit) : Unicode.isAlphabetic c = false := by
  have hdigit : c.val ≤ 57 := by
    simp only [Char.isDigit, Bool.and_eq_true, decide_eq_true_eq] at h
    exact h.2
  have hlt : c.toNat < 0x41 := Nat.lt_of_le_of_lt (UInt32.le_iff_toNat_le.mp hdigit) (by decide)
  exact if_pos hlt

theorem begunBy?_of_isDigit {c : Char} (h : c.isDigit) : begunBy? c = some number := by
  simp [begunBy?, isAlphabetic_of_isDigit h, h]

def lexeme (lexemeClass : LexemeClass) (text : List Char) : Lexeme :=
  ⟨lexemeClass.kind (.ofList text), .ofList text⟩

end LexemeClass

def Lexeme.symbol (c : Char) : Lexeme := ⟨.reserved, .ofList [c]⟩

/-- The lexemes that a scanner can produce. -/
inductive Lexeme.WellFormed : Lexeme → Prop
  | ofClass {lexemeClass text} : LexemeClass.Admits lexemeClass text →
      WellFormed (lexemeClass.lexeme text)
  | symbol {c} : isReservedChar c → WellFormed (.symbol c)

namespace Scanner

/-- All tokens of a scanner are well formed, and so is what is unfinished. -/
structure WellFormed (scanner : Scanner) : Prop where
  tokens : ∀ token ∈ scanner.latestFirst, token.lexeme.WellFormed
  unfinished : ∀ lexemeClass start text,
    scanner.unfinished = .lexeme lexemeClass start text → lexemeClass.Admits text.reverse

theorem WellFormed.close {scanner : Scanner} (h : scanner.WellFormed) :
    scanner.close.WellFormed := by
  unfold Scanner.close
  split
  · next lexemeClass start text hunfinished =>
      refine ⟨?_, nofun⟩
      intro token htoken
      rcases List.mem_cons.mp htoken with rfl | htoken
      · exact .ofClass (h.unfinished lexemeClass start text hunfinished)
      · exact h.tokens token htoken
  · exact ⟨h.tokens, nofun⟩

theorem WellFormed.begin {scanner next : Scanner} {c : Char} (h : scanner.WellFormed)
    (hnext : scanner.Begins c (.proceed next)) : next.WellFormed := by
  cases hnext with
  | blank => exact ⟨h.tokens, nofun⟩
  | lexeme hbegun =>
      refine ⟨h.tokens, ?_⟩
      intro _ _ _ hunfinished
      cases hunfinished
      exact ⟨hbegun, nofun⟩
  | comment => exact ⟨h.tokens, nofun⟩
  | symbol hreserved =>
      refine ⟨?_, nofun⟩
      intro token htoken
      rcases List.mem_cons.mp htoken with rfl | htoken
      · exact .symbol hreserved
      · exact h.tokens token htoken

theorem WellFormed.next {scanner next : Scanner} {c : Char} (h : scanner.WellFormed)
    (hnext : scanner.next c = .proceed next) : next.WellFormed := by
  have hsteps := scanner.steps c
  rw [hnext] at hsteps
  cases hsteps with
  | comment => exact ⟨h.tokens, nofun⟩
  | lexeme hunfinished hcontinued =>
      refine ⟨h.tokens, ?_⟩
      intro _ _ _ heq
      cases heq
      rw [List.reverse_cons]
      exact (h.unfinished _ _ _ hunfinished).concat hcontinued
  | begin _ hbegins => exact h.close.begin hbegins

theorem WellFormed.finish {scanner : Scanner} (h : scanner.WellFormed) :
    ∀ token ∈ scanner.finish.words, token.lexeme.WellFormed :=
  fun token htoken => h.close.tokens token (List.mem_reverse.mp htoken)

theorem WellFormed.run {scanner : Scanner} {text : List Char} {scanned : Scan}
    (h : scanner.WellFormed) (hrun : scanner.run text = .ok scanned) :
    ∀ token ∈ scanned.words, token.lexeme.WellFormed := by
  induction text generalizing scanner with
  | nil =>
      cases hrun
      exact h.finish
  | cons c text ih =>
      rw [Scanner.run] at hrun
      cases hnext : scanner.next c with
      | proceed next =>
          rw [hnext] at hrun
          exact ih (h.next hnext) hrun
      | stop =>
          rw [hnext] at hrun
          cases hrun
          exact h.finish
      | unrecognized =>
          rw [hnext] at hrun
          cases hrun

end Scanner

theorem wellFormed_of_scan {text : String} {scanned : Scan} (h : scan text = .ok scanned) :
    ∀ token ∈ scanned.words, token.lexeme.WellFormed :=
  Scanner.WellFormed.run ⟨by simp, by simp⟩ h

/-! ## What kind and text say -/

theorem TokenKind.ofWord_ne (word : String) :
    ofWord word ≠ .number ∧ ofWord word ≠ .operator ∧ ofWord word ≠ .reserved := by
  unfold ofWord
  split
  · decide
  · split <;> decide

/-- The kind of a lexeme tells its class. -/
theorem LexemeClass.eq_of_kind_eq {lexemeClass other : LexemeClass} {text : String}
    (h : lexemeClass.kind text = other.kind text) : lexemeClass = other := by
  obtain ⟨hnumber, hoperator, -⟩ := TokenKind.ofWord_ne text
  cases lexemeClass <;> cases other
  case word.number => exact absurd h hnumber
  case word.operator => exact absurd h hoperator
  case number.word => exact absurd h.symm hnumber
  case operator.word => exact absurd h.symm hoperator
  case number.operator => cases h
  case operator.number => cases h
  all_goals rfl

theorem LexemeClass.kind_ne_reserved (lexemeClass : LexemeClass) (text : String) :
    lexemeClass.kind text ≠ .reserved := by
  cases lexemeClass with
  | word => exact (TokenKind.ofWord_ne text).2.2
  | number => exact nofun
  | operator => exact nofun

namespace Lexeme.WellFormed

theorem admits {lexeme : Lexeme} (h : lexeme.WellFormed) {lexemeClass : LexemeClass}
    (hkind : lexeme.kind = lexemeClass.kind lexeme.text) :
    lexemeClass.Admits lexeme.text.toList := by
  cases h with
  | @ofClass own text hadmits =>
      have hclass : own = lexemeClass := LexemeClass.eq_of_kind_eq hkind
      rw [← hclass]
      simpa [LexemeClass.lexeme] using hadmits
  | symbol => exact absurd hkind.symm (lexemeClass.kind_ne_reserved _)

theorem admits_of_identifier {lexeme : Lexeme} (h : lexeme.WellFormed)
    (hkind : lexeme.kind = .identifier) :
    LexemeClass.word.Admits lexeme.text.toList ∧ TokenKind.ofWord lexeme.text = .identifier := by
  cases h with
  | @ofClass lexemeClass text hadmits =>
      cases lexemeClass with
      | word => exact ⟨by simpa [LexemeClass.lexeme] using hadmits, hkind⟩
      | number => cases hkind
      | operator => cases hkind
  | symbol => cases hkind

theorem admits_of_operator {lexeme : Lexeme} (h : lexeme.WellFormed)
    (hkind : lexeme.kind = .operator) : LexemeClass.operator.Admits lexeme.text.toList :=
  h.admits hkind

end Lexeme.WellFormed

end Fixity
