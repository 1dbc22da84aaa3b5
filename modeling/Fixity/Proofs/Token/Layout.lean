import Fixity.Proofs.Token.Lexeme

/-! # Texts that are laid out

A text is laid out as lexemes that stand in it one after another, with white space anywhere between
them. -/

namespace Fixity

namespace Unicode

/-! ## White space -/

theorem within_nil (n : Nat) : within [] n = false := rfl

theorem within_cons_cons (lower upper : Nat) (bounds : List Nat) (n : Nat) :
    within (lower :: upper :: bounds) n =
      (decide (lower ≤ n) && (decide (n < upper) || within bounds n)) := by
  simp only [within]
  by_cases hlower : n < lower
  · simp only [if_pos hlower]
    have hnot : ¬ lower ≤ n := by omega
    simp [hnot]
  · have hle : lower ≤ n := by omega
    by_cases hupper : n < upper
    · simp [hlower, hle, hupper]
    · simp [hlower, hle, hupper]

/-- The code points of all white space. -/
def whiteSpaceCodes : List Nat :=
  [0x9, 0xa, 0xb, 0xc, 0xd, 0x20, 0x85, 0xa0, 0x1680, 0x2000, 0x2001, 0x2002, 0x2003, 0x2004,
   0x2005, 0x2006, 0x2007, 0x2008, 0x2009, 0x200a, 0x2028, 0x2029, 0x202f, 0x205f, 0x3000]

theorem mem_whiteSpaceCodes {c : Char} (h : isWhiteSpace c) : c.toNat ∈ whiteSpaceCodes := by
  simp only [isWhiteSpace, whiteSpaceBoundaries, within_cons_cons, within_nil, Bool.and_eq_true,
    Bool.or_eq_true, decide_eq_true_eq, Bool.false_eq_true, or_false] at h
  simp only [whiteSpaceCodes, List.mem_cons, List.not_mem_nil]
  omega

theorem begunBy?_of_isWhiteSpace {c : Char} (h : isWhiteSpace c) :
    LexemeClass.begunBy? c = none := by
  have hall : ∀ n ∈ whiteSpaceCodes, LexemeClass.begunBy? (Char.ofNat n) = none := by
    decide +kernel
  have hbegun := hall c.toNat (mem_whiteSpaceCodes h)
  rwa [Char.ofNat_toNat] at hbegun

theorem continuedBy_of_isWhiteSpace {c : Char} (h : isWhiteSpace c) (lexemeClass : LexemeClass) :
    lexemeClass.continuedBy c = false := by
  have hall : ∀ n ∈ whiteSpaceCodes, lexemeClass.continuedBy (Char.ofNat n) = false := by
    cases lexemeClass <;> decide +kernel
  have hcontinued := hall c.toNat (mem_whiteSpaceCodes h)
  rwa [Char.ofNat_toNat] at hcontinued

end Unicode

open Unicode (isWhiteSpace)

/-! ## Layouts -/

inductive Lays : List Char → List Lexeme → Prop
  | nil : Lays [] []
  | blank {c text lexemes} : isWhiteSpace c → Lays text lexemes → Lays (c :: text) lexemes
  | symbol {c text lexemes} : isReservedChar c → Lays text lexemes →
      Lays (c :: text) (.symbol c :: lexemes)
  | lexeme {lexemeClass chars text lexemes} : LexemeClass.Admits lexemeClass chars →
      (∀ d ∈ text.head?, lexemeClass.continuedBy d = false) → Lays text lexemes →
      Lays (chars ++ text) (lexemeClass.lexeme chars :: lexemes)

namespace Scanner

/-! ## Single steps -/

theorem begin_of_isWhiteSpace (scanner : Scanner) {c : Char} (h : isWhiteSpace c) :
    scanner.begin c = scanner.pass c .nothing := by
  rw [begin, if_pos h]

theorem begin_of_begunBy? (scanner : Scanner) {c : Char} {lexemeClass : LexemeClass}
    (h : LexemeClass.begunBy? c = some lexemeClass) :
    scanner.begin c = scanner.pass c (.lexeme lexemeClass scanner.position [c]) := by
  have hwhite : ¬ isWhiteSpace c := by
    intro hwhite
    rw [Unicode.begunBy?_of_isWhiteSpace hwhite] at h
    cases h
  simp only [begin, if_neg hwhite, h]

theorem begin_of_isReservedChar (scanner : Scanner) {c : Char} (h : isReservedChar c) :
    scanner.begin c =
      ({ scanner with
        latestFirst := ⟨.reserved, .ofList [c], scanner.position⟩ :: scanner.latestFirst }).pass c
          .nothing := by
  have hother : isWhiteSpace c = false ∧ LexemeClass.begunBy? c = none ∧ c ≠ '#' ∧ c ≠ '\x00' := by
    simp only [isReservedChar, List.contains_eq_mem, List.mem_cons, List.not_mem_nil,
      decide_eq_true_eq, or_false] at h
    rcases h with rfl | rfl | rfl | rfl | rfl | rfl | rfl <;> decide
  obtain ⟨hwhite, hbegun, hcomment, hnul⟩ := hother
  simp [begin, hwhite, hbegun, hcomment, hnul, h]

/-! ## Runs -/

@[simp] theorem unfinished_close (scanner : Scanner) : scanner.close.unfinished = .nothing := by
  unfold close
  split <;> rfl

theorem close_of_nothing {scanner : Scanner} (h : scanner.unfinished = .nothing) :
    scanner.close = scanner := by
  obtain ⟨position, unfinished, latestFirst⟩ := scanner
  cases h
  rfl

/-- Where nothing is continued, it makes no difference whether a lexeme is closed already. -/
theorem run_close {scanner : Scanner} {lexemeClass : LexemeClass} {start : Position}
    {chars : List Char} (h : scanner.unfinished = .lexeme lexemeClass start chars)
    {text : List Char} (htext : ∀ d ∈ text.head?, lexemeClass.continuedBy d = false) :
    scanner.run text = scanner.close.run text := by
  cases text with
  | nil => simp only [run, finish, close_of_nothing scanner.unfinished_close, position_close]
  | cons d text =>
      have hcontinued : lexemeClass.continuedBy d = false := htext d rfl
      have hnext : scanner.next d = scanner.close.next d := by
        simp only [next, h, unfinished_close, hcontinued, Bool.false_eq_true, if_false]
      have hfinish : scanner.finish = scanner.close.finish := by
        simp only [finish, close_of_nothing scanner.unfinished_close, position_close]
      rw [run, run, hnext, hfinish, position_close]

theorem run_blank {c : Char} (h : isWhiteSpace c) (here : Position) (latestFirst : List Token)
    (text : List Char) :
    Scanner.run ⟨here, .nothing, latestFirst⟩ (c :: text) =
      Scanner.run ⟨here.after c, .nothing, latestFirst⟩ text := by
  have hnext : Scanner.next ⟨here, .nothing, latestFirst⟩ c =
      .proceed ⟨here.after c, .nothing, latestFirst⟩ := begin_of_isWhiteSpace _ h
  rw [run, hnext]

theorem run_symbol {c : Char} (h : isReservedChar c) (here : Position) (latestFirst : List Token)
    (text : List Char) :
    Scanner.run ⟨here, .nothing, latestFirst⟩ (c :: text) =
      Scanner.run ⟨here.after c, .nothing, ⟨.reserved, .ofList [c], here⟩ :: latestFirst⟩ text := by
  have hnext : Scanner.next ⟨here, .nothing, latestFirst⟩ c =
      .proceed ⟨here.after c, .nothing, ⟨.reserved, .ofList [c], here⟩ :: latestFirst⟩ :=
    begin_of_isReservedChar _ h
  rw [run, hnext]

/-- All characters that continue a lexeme are taken up by it. -/
theorem run_append_of_continuedBy {lexemeClass : LexemeClass} {more : List Char}
    (hmore : ∀ d ∈ more, lexemeClass.continuedBy d) (here start : Position) (chars : List Char)
    (latestFirst : List Token) (text : List Char) :
    Scanner.run ⟨here, .lexeme lexemeClass start chars, latestFirst⟩ (more ++ text) =
      Scanner.run ⟨more.foldl Position.after here,
        .lexeme lexemeClass start (more.reverse ++ chars), latestFirst⟩ text := by
  induction more generalizing here chars with
  | nil => rfl
  | cons d more ih =>
      have hd : lexemeClass.continuedBy d := hmore d (by simp)
      have hrun := ih (fun e he => hmore e (by simp [he])) (here.after d) (d :: chars)
      rw [List.foldl_cons, List.reverse_cons, List.append_assoc, List.singleton_append, ← hrun,
        List.cons_append, run]
      simp only [next, hd, if_true, pass]

/-- A text of a class becomes a token if nothing behind it continues it. -/
theorem run_lexeme {lexemeClass : LexemeClass} {chars text : List Char}
    (h : lexemeClass.Admits chars) (htext : ∀ d ∈ text.head?, lexemeClass.continuedBy d = false)
    (here : Position) (latestFirst : List Token) :
    Scanner.run ⟨here, .nothing, latestFirst⟩ (chars ++ text) =
      Scanner.run ⟨chars.foldl Position.after here, .nothing,
        ⟨lexemeClass.kind (.ofList chars), .ofList chars, here⟩ :: latestFirst⟩ text := by
  cases chars with
  | nil => exact h.elim
  | cons c more =>
      have hnext : Scanner.next ⟨here, .nothing, latestFirst⟩ c =
          .proceed ⟨here.after c, .lexeme lexemeClass here [c], latestFirst⟩ :=
        begin_of_begunBy? _ h.1
      rw [List.cons_append, run, hnext]
      simp only [run_append_of_continuedBy h.2 (here.after c) here [c] latestFirst text]
      rw [run_close rfl htext]
      simp [close]

/-- A text that is laid out is scanned as its lexemes. -/
theorem run_of_lays {text : List Char} {lexemes : List Lexeme} (h : Lays text lexemes)
    (here : Position) (latestFirst : List Token) :
    ∃ scanned, Scanner.run ⟨here, .nothing, latestFirst⟩ text = .ok scanned ∧
      scanned.words.map Token.lexeme = latestFirst.reverse.map Token.lexeme ++ lexemes := by
  induction h generalizing here latestFirst with
  | nil => exact ⟨Scanner.finish ⟨here, .nothing, latestFirst⟩, rfl, by simp [finish, close]⟩
  | @blank c text lexemes hwhite _ ih =>
      rw [run_blank hwhite]
      exact ih (here.after c) latestFirst
  | @symbol c text lexemes hreserved _ ih =>
      rw [run_symbol hreserved]
      obtain ⟨scanned, hrun, hwords⟩ :=
        ih (here.after c) (⟨.reserved, .ofList [c], here⟩ :: latestFirst)
      refine ⟨scanned, hrun, ?_⟩
      simpa [Token.lexeme, Lexeme.symbol] using hwords
  | @lexeme lexemeClass chars text lexemes hadmits hhead _ ih =>
      rw [run_lexeme hadmits hhead]
      obtain ⟨scanned, hrun, hwords⟩ := ih (chars.foldl Position.after here)
        (⟨lexemeClass.kind (.ofList chars), .ofList chars, here⟩ :: latestFirst)
      refine ⟨scanned, hrun, ?_⟩
      simpa [Token.lexeme, LexemeClass.lexeme] using hwords

end Scanner

theorem scan_of_lays {text : String} {lexemes : List Lexeme} (h : Lays text.toList lexemes) :
    ∃ scanned, scan text = .ok scanned ∧ scanned.words.map Token.lexeme = lexemes :=
  Scanner.run_of_lays h {} []

end Fixity
