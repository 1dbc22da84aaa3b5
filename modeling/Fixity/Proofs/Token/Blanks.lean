import Fixity.Proofs.Token.Front

/-! # Blanks in the place of commas

A space in the place of a comma takes the comma away from the tokens, and nothing else. -/

namespace Fixity

/-- The characters from a place on, with a space for each that stands at one of the places. -/
def blankedFrom (places : List Position) : Position → List Char → List Char
  | _, [] => []
  | here, c :: rest =>
    (if here ∈ places then ' ' else c) :: blankedFrom places (here.after c) rest

def blanked (places : List Position) (text : String) : String :=
  .ofList (blankedFrom places {} text.toList)

variable {places : List Position} {front chars rest text : List Char} {tokens : List Token}
  {token : Token}

/-- Characters stay where none of them stands at one of the places. -/
theorem blankedFrom_append (h : ∀ between c more, chars = between ++ c :: more →
      Position.behind (front ++ between) ∉ places) (rest : List Char) :
    blankedFrom places (.behind front) (chars ++ rest) =
      chars ++ blankedFrom places (.behind (front ++ chars)) rest := by
  induction chars generalizing front with
  | nil => simp
  | cons c chars ih =>
      have hhere : Position.behind front ∉ places := by simpa using h [] c chars rfl
      have hrest := @ih (front ++ [c]) fun between d more heq => by
        simpa using h (c :: between) d more (by rw [heq, List.cons_append])
      rw [List.cons_append, blankedFrom, if_neg hhere, ← Position.behind_concat, hrest]
      simp

/-- A space in the place of one character that does not end its line. -/
theorem blankedFrom_append_cons (front : List Char) (c : Char) (rest : List Char) :
    blankedFrom [.behind front] {} (front ++ c :: rest) = front ++ ' ' :: rest := by
  have hbefore : ∀ between d more, front = between ++ d :: more →
      Position.behind ([] ++ between) ∉ [Position.behind front] := by
    rintro between d more rfl hmem
    exact Position.behind_append_ne between (List.cons_ne_nil d more)
      (List.mem_singleton.mp hmem).symm
  have hbehind : ∀ between d more, rest = between ++ d :: more →
      Position.behind (front ++ [c] ++ between) ∉ [Position.behind front] := by
    intro between d more _ hmem
    rw [List.append_assoc] at hmem
    exact Position.behind_append_ne front (by simp) (List.mem_singleton.mp hmem)
  have hrest := blankedFrom_append hbehind []
  rw [List.append_nil, blankedFrom, List.append_nil] at hrest
  have hfront := blankedFrom_append hbefore (c :: rest)
  rw [List.nil_append, blankedFrom, if_pos (List.mem_singleton_self _), ← Position.behind_concat,
    hrest] at hfront
  exact hfront

theorem blanked_append (front rest : String) :
    blanked [.behind front.toList] (front ++ "," ++ rest) = front ++ " " ++ rest := by
  have hchars := blankedFrom_append_cons front.toList ',' rest.toList
  refine String.toList_injective ?_
  simpa [blanked] using hchars

/-! ## Places of tokens -/

/-- All of the places that lie in the text are those of commas among the tokens. -/
def Covers (places : List Position) (front text : List Char) (tokens : List Token) : Prop :=
  ∀ between c more, text = between ++ c :: more → Position.behind (front ++ between) ∈ places →
    c = ',' ∧ ∃ comma ∈ tokens, comma.position = .behind (front ++ between)

theorem Factors.exists_position (h : Factors front text tokens) (htoken : token ∈ tokens) :
    ∃ between, token.position = .behind (front ++ between) := by
  obtain ⟨before, after, rfl⟩ := List.append_of_mem htoken
  obtain ⟨between, -, -, hposition, -⟩ := h.cut rfl
  exact ⟨between, hposition⟩

namespace Covers

theorem append (h : Covers places front (chars ++ rest) tokens) :
    Covers places (front ++ chars) rest tokens := by
  intro between c more heq hmem
  rw [List.append_assoc] at hmem ⊢
  exact h (chars ++ between) c more (by rw [heq, List.append_assoc]) hmem

theorem tail (h : Covers places (front ++ chars) rest (token :: tokens)) (hchars : chars ≠ [])
    (htoken : token.position = .behind front) : Covers places (front ++ chars) rest tokens := by
  intro between c more heq hmem
  obtain ⟨hc, comma, hcomma, hposition⟩ := h between c more heq hmem
  rcases List.mem_cons.mp hcomma with rfl | hcomma
  · rw [htoken, List.append_assoc] at hposition
    exact absurd hposition.symm (Position.behind_append_ne front (by simp [hchars]))
  · exact ⟨hc, comma, hcomma, hposition⟩

theorem of_notMem (h : Covers places front text (token :: tokens))
    (htoken : token.position = .behind front) (hnot : Position.behind front ∉ places) :
    Covers places front text tokens := by
  intro between c more heq hmem
  obtain ⟨hc, comma, hcomma, hposition⟩ := h between c more heq hmem
  rcases List.mem_cons.mp hcomma with rfl | hcomma
  · rw [← hposition, htoken] at hmem
    exact absurd hmem hnot
  · exact ⟨hc, comma, hcomma, hposition⟩

theorem notMem (h : Covers places front (chars ++ rest) tokens)
    (hfactors : Factors (front ++ chars) text tokens) :
    ∀ between c more, chars = between ++ c :: more →
      Position.behind (front ++ between) ∉ places := by
  rintro between c more rfl hmem
  obtain ⟨-, comma, hcomma, hposition⟩ := h between c (more ++ rest) (by simp) hmem
  obtain ⟨further, hfurther⟩ := hfactors.exists_position hcomma
  rw [hposition, ← List.append_assoc, List.append_assoc (front ++ between)] at hfurther
  exact Position.behind_append_ne (front ++ between) (by simp) hfurther.symm

theorem head?_blankedFrom (h : Covers places front text tokens) {c : Char}
    (hc : c ∈ (blankedFrom places (.behind front) text).head?) :
    c ∈ text.head? ∨ c = ' ' ∧ ',' ∈ text.head? := by
  cases text with
  | nil => cases hc
  | cons d text =>
      cases hc
      split
      · next hmem =>
          obtain ⟨rfl, -⟩ := h [] d text rfl (by simpa using hmem)
          exact .inr ⟨rfl, rfl⟩
      · exact .inl rfl

/-- No lexeme goes on behind its end for a space that was put in. -/
theorem leaves (h : Covers places front rest tokens) {lexemeClass : LexemeClass}
    (hrest : Leaves lexemeClass.continuedBy rest) :
    Leaves lexemeClass.continuedBy (blankedFrom places (.behind front) rest) := by
  intro c hc
  rcases h.head?_blankedFrom hc with hc | ⟨rfl, -⟩
  · exact hrest c hc
  · cases lexemeClass <;> decide

/-- Only a comma can stand at one of the places, and none begins a lexeme. -/
theorem notMem_of_admits (h : Covers places front (chars ++ rest) tokens)
    {lexemeClass : LexemeClass} (hadmits : lexemeClass.Admits chars) :
    Position.behind front ∉ places := by
  intro hmem
  cases chars with
  | nil => exact hadmits
  | cons c more =>
      obtain ⟨rfl, -⟩ := h [] c (more ++ rest) rfl (by simpa using hmem)
      exact absurd hadmits.1 (by cases lexemeClass <;> decide)

end Covers

/-! ## Runs -/

namespace Scanner

/-- A text with spaces for some of its commas is scanned as its other tokens. -/
theorem run_blankedFrom {content : List Char} (h : Factors front content tokens)
    (htext : upToNul false text = content) (hcovers : Covers places front text tokens)
    (latestFirst : List Token) :
    Scanner.run ⟨.behind front, .nothing, latestFirst⟩ (blankedFrom places (.behind front) text) =
      .ok ⟨latestFirst.reverse ++ tokens.filter (·.position ∉ places),
        ⟨.stop, "", .behind (front ++ content)⟩⟩ := by
  -- Every piece of the factorisation hands on to the rest that its places are those of commas.
  induction h generalizing text latestFirst with
  | @nil front =>
      rcases eq_nil_or_nul_of_upToNul_eq_nil htext with rfl | ⟨rest, rfl⟩
      · simp [blankedFrom, run, finish, close]
      · have hhere : Position.behind front ∉ places := by
          intro hmem
          obtain ⟨hnul, -⟩ := hcovers [] '\x00' rest rfl (by simpa using hmem)
          cases hnul
        have hother : Unicode.isWhiteSpace '\x00' = false ∧
            LexemeClass.begunBy? '\x00' = none := by decide
        simp [blankedFrom, hhere, run, next, begin, hother, finish, close]
  | @blank front c content tokens hwhite hrest ih =>
      have hplain : ∀ d ∈ [c], IsPlain d := by simpa using IsPlain.of_isWhiteSpace hwhite
      obtain ⟨rest, rfl, hcontent⟩ := exists_of_upToNul_eq_append hplain htext
      have hrun := ih hcontent hcovers.append latestFirst
      rw [blankedFrom_append (hcovers.notMem hrest), List.singleton_append, run_blank hwhite,
        ← Position.behind_concat, hrun]
      simp
  | @comment front body content tokens hbody hend hrest ih =>
      obtain ⟨text, rfl⟩ := eq_cons_of_upToNul_eq_cons htext
      rw [upToNul_comment] at htext
      obtain ⟨rest, rfl, hopen, hcontent⟩ :=
        exists_of_upToNul_eq_comment hbody hend (List.cons.inj htext).2
      have hcovers' : Covers places front (('#' :: body) ++ rest) tokens := hcovers
      have hopen' : ∀ c ∈ (blankedFrom places (.behind (front ++ '#' :: body)) rest).head?,
          isLineEnd c := by
        intro c hc
        rcases hcovers'.append.head?_blankedFrom hc with hc | ⟨-, hcomma⟩
        · exact hopen c hc
        · exact absurd (hopen ',' hcomma) (by decide)
      have hrun := ih hcontent hcovers'.append latestFirst
      rw [← List.cons_append, blankedFrom_append (hcovers'.notMem hrest), List.cons_append,
        run_numberSign, run_comment hbody hopen']
      rw [Position.behind_append, List.foldl_cons] at hrun ⊢
      rw [hrun]
      simp
  | @token front chars content kind tokens hmunches hrest ih =>
      rcases hmunches.eq_reserved_or_admits with ⟨c, rfl, rfl, hreserved⟩ |
        ⟨lexemeClass, hadmits, rfl, hleaves⟩
      · have hplain : ∀ d ∈ [c], IsPlain d := by simpa using IsPlain.of_isReservedChar hreserved
        obtain ⟨rest, rfl, hcontent⟩ := exists_of_upToNul_eq_append hplain htext
        have hrun := ih hcontent (hcovers.append.tail (by simp) rfl)
        by_cases hmem : Position.behind front ∈ places
        · obtain ⟨rfl, -⟩ := hcovers [] c rest rfl (by simpa using hmem)
          have hafter : (Position.behind front).after ' ' = .behind (front ++ [',']) :=
            (Position.behind_concat front ',').symm
          rw [List.singleton_append, blankedFrom, if_pos hmem, run_blank (by decide), hafter,
            ← Position.behind_concat, hrun]
          simp [hmem]
        · have hothers := (hcovers.of_notMem rfl hmem).notMem hrest
          rw [blankedFrom_append hothers, List.singleton_append, run_symbol hreserved,
            ← Position.behind_concat, hrun]
          simp [hmem]
      · have hplain : ∀ d ∈ chars, IsPlain d :=
          fun d hd => .of_continuedBy (hadmits.continuedBy d hd)
        obtain ⟨rest, rfl, hcontent⟩ := exists_of_upToNul_eq_append hplain htext
        have hchars : chars ≠ [] := by
          rintro rfl
          exact hadmits
        have hrun := ih hcontent (hcovers.append.tail hchars rfl)
        rw [← hcontent, leaves_upToNul_iff] at hleaves
        have hbehind := hcovers.append.leaves hleaves
        have hmem := hcovers.notMem_of_admits hadmits
        have hothers := (hcovers.of_notMem rfl hmem).notMem hrest
        rw [blankedFrom_append hothers, run_lexeme hadmits hbehind, ← Position.behind_append, hrun]
        simp [hmem]

end Scanner

/-! ## Scans -/

theorem eq_of_position_eq {source : String} {scanned : Scan} (h : scan source = .ok scanned)
    {before after before' after' : List Token} {token' : Token}
    (hwords : scanned.words = before ++ token :: after)
    (hwords' : scanned.words = before' ++ token' :: after')
    (hposition : token.position = token'.position) :
    before = before' ∧ token = token' ∧ after = after' := by
  obtain ⟨cut, stop, hcut, hbefore⟩ := exists_isFrontOf_of_scan h hwords
  obtain ⟨cut', stop', hcut', hbefore'⟩ := exists_isFrontOf_of_scan h hwords'
  have hbehind : Position.behind cut.toList = .behind cut'.toList := by
    rw [← hcut.position, hposition, hcut'.position]
  have hsame : cut = cut' :=
    String.toList_injective (Position.eq_of_behind_eq hcut.isPrefix hcut'.isPrefix hbehind)
  rw [hsame, hbefore'] at hbefore
  cases hbefore
  rw [hwords] at hwords'
  obtain ⟨rfl, rfl⟩ := List.cons.inj (List.append_cancel_left hwords')
  exact ⟨rfl, rfl, rfl⟩

/-- Spaces for commas take these commas away from the tokens, and nothing else. -/
theorem scan_blanked {source : String} {scanned : Scan} (h : scan source = .ok scanned)
    {commas : List Token} (hcommas : ∀ comma ∈ commas, comma ∈ scanned.words ∧ comma.text = ",") :
    scan (blanked (commas.map Token.position) source) =
      .ok ⟨scanned.words.filter (·.position ∉ commas.map Token.position), scanned.stop⟩ := by
  have hcovers : Covers (commas.map Token.position) [] source.toList scanned.words := by
    intro between c more heq hmem
    obtain ⟨comma, hcomma, hposition⟩ := List.mem_map.mp hmem
    obtain ⟨hword, htext⟩ := hcommas comma hcomma
    refine ⟨?_, comma, hword, hposition⟩
    obtain ⟨before, after, hwords⟩ := List.append_of_mem hword
    obtain ⟨cut, -, hcut, -⟩ := exists_isFrontOf_of_scan h hwords
    have hprefix : between <+: source.toList := ⟨c :: more, heq.symm⟩
    have hsame : cut.toList = between :=
      Position.eq_of_behind_eq hcut.isPrefix hprefix (hcut.position.symm.trans hposition)
    obtain ⟨rest, hsource⟩ := hcut.followed
    rw [hsource, htext] at heq
    simp only [String.toList_append, hsame, List.append_assoc] at heq
    exact (List.cons.inj (List.append_cancel_left heq)).1.symm
  obtain ⟨tokens, hfactors, rfl⟩ := yields_of_scan h
  have hrun := Scanner.run_blankedFrom hfactors rfl hcovers []
  rw [scan, blanked, String.toList_ofList]
  exact hrun

end Fixity
