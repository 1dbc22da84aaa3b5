import Fixity.Proofs.Token.Munch
import Mathlib.Data.List.Basic
import Mathlib.Data.List.TakeWhile

/-! # The scan of a text is its factorisation

The scan of a text cuts its content into white space, comments and tokens that are as long as they
can be. -/

namespace Fixity

open Unicode (isWhiteSpace)

theorem exists_append_leaves (continues : Char → Bool) (text : List Char) :
    ∃ front rest, text = front ++ rest ∧ (∀ c ∈ front, continues c) ∧ Leaves continues rest := by
  refine ⟨text.takeWhile continues, text.dropWhile continues, ?_, ?_, ?_⟩
  · exact List.takeWhile_append_dropWhile.symm
  · exact fun c hc => List.mem_takeWhile_imp hc
  · have hhead := List.head?_dropWhile_not continues text
    intro c hc
    rw [Option.mem_def.mp hc] at hhead
    simpa using hhead

/-! ## Boundaries -/

/-- Between these parts of a text no operator is cut in two. -/
def IsBoundary (front rest : List Char) : Prop :=
  Leaves isOperatorChar front.reverse ∨ Leaves isOperatorChar rest

theorem not_isOperatorChar_of_isWhiteSpace {c : Char} (h : isWhiteSpace c) :
    isOperatorChar c = false := by
  have hbegun : LexemeClass.begunBy? c = none := Unicode.begunBy?_of_isWhiteSpace h
  have hiff := LexemeClass.begunBy?_eq_operator_iff (c := c)
  simpa [hbegun] using hiff

theorem not_isOperatorChar_of_isReservedChar {c : Char} (h : isReservedChar c) :
    isOperatorChar c = false := by
  have hall : ['(', ')', '{', '}', ',', ';', ':'].all (fun c => !isOperatorChar c) := by decide
  simpa using List.all_eq_true.mp hall c (by simpa [isReservedChar] using h)

theorem isBoundary_concat {c : Char} (hc : isOperatorChar c = false) (front rest : List Char) :
    IsBoundary (front ++ [c]) rest := by
  refine .inl ?_
  intro d hd
  rw [List.reverse_concat] at hd
  cases hd
  exact hc

theorem isBoundary_of_lineEnd {rest : List Char} (h : ∀ c ∈ rest.head?, isLineEnd c)
    (front : List Char) : IsBoundary front rest := by
  refine .inr ?_
  intro c hc
  have hend : isLineEnd c := h c hc
  simp only [isLineEnd, Bool.or_eq_true, decide_eq_true_eq] at hend
  rcases hend with rfl | rfl <;> decide

/-- Nothing else than an operator has operator characters at its end. -/
theorem isBoundary_append {lexemeClass : LexemeClass} {chars rest : List Char}
    (hadmits : lexemeClass.Admits chars) (hrest : Leaves lexemeClass.continuedBy rest)
    (front : List Char) : IsBoundary (front ++ chars) rest := by
  by_cases hclass : lexemeClass = .operator
  · subst hclass
    exact .inr hrest
  · rcases List.eq_nil_or_concat' chars with rfl | ⟨before, last, rfl⟩
    · exact hadmits.elim
    · have hlast : lexemeClass.continuedBy last := hadmits.continuedBy last (by simp)
      rw [← List.append_assoc]
      exact isBoundary_concat (LexemeClass.not_isOperatorChar_of_continuedBy hclass hlast) _ _

theorem leaves_upToNul_iff {lexemeClass : LexemeClass} {rest : List Char} :
    Leaves lexemeClass.continuedBy (upToNul false rest) ↔ Leaves lexemeClass.continuedBy rest := by
  refine ⟨?_, fun h c hc => h c (mem_head?_of_upToNul hc)⟩
  intro h c hc
  cases hcontinued : lexemeClass.continuedBy c with
  | false => rfl
  | true =>
      cases rest with
      | nil => cases hc
      | cons d rest =>
          cases hc
          rw [upToNul_cons_of_isPlain (.of_continuedBy hcontinued)] at h
          exact hcontinued.symm.trans (h c rfl)

namespace Scanner

/-! ## Runs over comments -/

theorem next_of_nothing (here : Position) (latestFirst : List Token) (c : Char) :
    next ⟨here, .nothing, latestFirst⟩ c = begin ⟨here, .nothing, latestFirst⟩ c := rfl

theorem run_comment {body rest : List Char} (hbody : ∀ c ∈ body, isLineEnd c = false)
    (hrest : ∀ c ∈ rest.head?, isLineEnd c) (here : Position) (latestFirst : List Token) :
    Scanner.run ⟨here, .comment, latestFirst⟩ (body ++ rest) =
      Scanner.run ⟨body.foldl Position.after here, .nothing, latestFirst⟩ rest := by
  induction body generalizing here with
  | nil =>
      cases rest with
      | nil => rfl
      | cons c rest =>
          have hend : isLineEnd c := hrest c rfl
          have hnext : next ⟨here, .comment, latestFirst⟩ c =
              next ⟨here, .nothing, latestFirst⟩ c := if_pos hend
          rw [List.nil_append, run, hnext]
          rfl
  | cons c body ih =>
      have hnext : next ⟨here, .comment, latestFirst⟩ c =
          .proceed ⟨here.after c, .comment, latestFirst⟩ := by
        have hc : isLineEnd c = false := hbody c List.mem_cons_self
        exact if_neg (by simpa [isLineEnd] using hc)
      rw [List.cons_append, run, hnext]
      exact ih (fun d hd => hbody d (List.mem_cons_of_mem c hd)) (here.after c)

theorem run_numberSign (here : Position) (latestFirst : List Token) (text : List Char) :
    Scanner.run ⟨here, .nothing, latestFirst⟩ ('#' :: text) =
      Scanner.run ⟨here.after '#', .comment, latestFirst⟩ text := by
  have hnext : next ⟨here, .nothing, latestFirst⟩ '#' =
      .proceed ⟨here.after '#', .comment, latestFirst⟩ := by
    have hother : isWhiteSpace '#' = false ∧ LexemeClass.begunBy? '#' = none := by decide
    simp [next, begin, hother, pass]
  rw [run, hnext]

end Scanner

/-! ## Scans and factorisations -/

/-- The scan has the tokens in front and those that the content of the text is cut into. -/
def Yields (front text : List Char) (latestFirst : List Token) (scanned : Scan) : Prop :=
  ∃ tokens, Factors front (upToNul false text) tokens ∧
    scanned = ⟨latestFirst.reverse ++ tokens, ⟨.stop, "", .behind (front ++ upToNul false text)⟩⟩

namespace Yields

variable {front text : List Char} {latestFirst : List Token} {scanned : Scan}

theorem stop (h : upToNul false text = []) :
    Yields front text latestFirst (Scanner.finish ⟨.behind front, .nothing, latestFirst⟩) := by
  refine ⟨[], ?_, ?_⟩
  · rw [h]
    exact .nil
  · simp [h, Scanner.finish, Scanner.close]

theorem blank {c : Char} (hwhite : isWhiteSpace c)
    (h : Yields (front ++ [c]) text latestFirst scanned) :
    Yields front (c :: text) latestFirst scanned := by
  obtain ⟨tokens, hfactors, rfl⟩ := h
  rw [Yields, upToNul_cons_of_isPlain (.of_isWhiteSpace hwhite)]
  exact ⟨tokens, .blank hwhite hfactors, by simp⟩

theorem comment {body : List Char} (hbody : ∀ c ∈ body, isLineEnd c = false)
    (htext : ∀ c ∈ text.head?, isLineEnd c)
    (h : Yields (front ++ '#' :: body) text latestFirst scanned) :
    Yields front ('#' :: (body ++ text)) latestFirst scanned := by
  obtain ⟨tokens, hfactors, rfl⟩ := h
  have hend : ∀ c ∈ (upToNul false text).head?, isLineEnd c :=
    fun c hc => htext c (mem_head?_of_upToNul hc)
  rw [Yields, upToNul_comment, upToNul_comment_append hbody htext, ← List.cons_append]
  exact ⟨tokens, .comment hbody hend hfactors, by simp⟩

theorem token {chars : List Char} {kind : TokenKind} (hplain : ∀ c ∈ chars, IsPlain c)
    (hmunches : TokenKind.Munches front chars (upToNul false text) kind)
    (h : Yields (front ++ chars) text (⟨kind, .ofList chars, .behind front⟩ :: latestFirst)
      scanned) :
    Yields front (chars ++ text) latestFirst scanned := by
  obtain ⟨tokens, hfactors, rfl⟩ := h
  rw [Yields, upToNul_append hplain]
  exact ⟨_, .token hmunches hfactors, by simp⟩

end Yields

namespace Scanner

/-- A run that succeeds has found a factorisation of the content. -/
theorem yields_of_run {front text : List Char} {latestFirst : List Token} {scanned : Scan}
    (hboundary : IsBoundary front text)
    (hrun : Scanner.run ⟨.behind front, .nothing, latestFirst⟩ text = .ok scanned) :
    Yields front text latestFirst scanned := by
  match text with
  | [] =>
      cases hrun
      exact .stop rfl
  | c :: text =>
      have hbegins := begins ⟨.behind front, .nothing, latestFirst⟩ c
      rw [← next_of_nothing] at hbegins
      generalize hstep : next ⟨.behind front, .nothing, latestFirst⟩ c = step at hbegins
      cases hbegins with
      | blank hwhite =>
          have hop := not_isOperatorChar_of_isWhiteSpace hwhite
          rw [run_blank hwhite, ← Position.behind_concat] at hrun
          exact .blank hwhite (yields_of_run (isBoundary_concat hop front text) hrun)
      | symbol hreserved =>
          have hop := not_isOperatorChar_of_isReservedChar hreserved
          rw [run_symbol hreserved, ← Position.behind_concat] at hrun
          have hplain : ∀ d ∈ [c], IsPlain d := by simpa using IsPlain.of_isReservedChar hreserved
          have hmunches : TokenKind.Munches front [c] (upToNul false text) .reserved :=
            ⟨c, rfl, hreserved⟩
          exact .token hplain hmunches (yields_of_run (isBoundary_concat hop front text) hrun)
      | comment hopened =>
          subst hopened
          obtain ⟨body, rest, rfl, hbody, hrest⟩ := exists_append_leaves (!isLineEnd ·) text
          have hbody' : ∀ c ∈ body, isLineEnd c = false := by simpa using hbody
          have hrest' : ∀ c ∈ rest.head?, isLineEnd c := by simpa [Leaves] using hrest
          rw [run_numberSign, run_comment hbody' hrest', ← List.foldl_cons,
            ← Position.behind_append] at hrun
          exact .comment hbody' hrest' (yields_of_run (isBoundary_of_lineEnd hrest' _) hrun)
      | @lexeme lexemeClass hbegun =>
          obtain ⟨more, rest, rfl, hmore, hrest⟩ :=
            exists_append_leaves lexemeClass.continuedBy text
          have hadmits : lexemeClass.Admits (c :: more) := ⟨hbegun, hmore⟩
          have hfront : lexemeClass = .operator → Leaves isOperatorChar front.reverse := by
            rintro rfl
            refine hboundary.resolve_right fun hright => ?_
            have hop : isOperatorChar c := LexemeClass.begunBy?_eq_operator_iff.mp hbegun
            simp [hright c rfl] at hop
          have hplain : ∀ d ∈ c :: more, IsPlain d :=
            fun d hd => .of_continuedBy (hadmits.continuedBy d hd)
          have hmunches := TokenKind.munches_of_admits hadmits hfront
            (leaves_upToNul_iff.mpr hrest)
          rw [← List.cons_append, run_lexeme hadmits hrest, ← Position.behind_append] at hrun
          exact .token hplain hmunches (yields_of_run (isBoundary_append hadmits hrest front) hrun)
      | stop hnul =>
          rw [run, hstep] at hrun
          cases hrun
          exact .stop (by simp [upToNul, hnul])
      | unrecognized =>
          rw [run, hstep] at hrun
          cases hrun
termination_by text.length

theorem run_of_factors {front content : List Char} {tokens : List Token}
    (h : Factors front content tokens) {text : List Char} (htext : upToNul false text = content)
    (latestFirst : List Token) :
    Scanner.run ⟨.behind front, .nothing, latestFirst⟩ text =
      .ok ⟨latestFirst.reverse ++ tokens, ⟨.stop, "", .behind (front ++ content)⟩⟩ := by
  induction h generalizing text latestFirst with
  | nil =>
      rcases eq_nil_or_nul_of_upToNul_eq_nil htext with rfl | ⟨rest, rfl⟩
      · simp [run, finish, close]
      · have hother : isWhiteSpace '\x00' = false ∧ LexemeClass.begunBy? '\x00' = none := by decide
        simp [run, next, begin, hother, finish, close]
  | @blank front c content tokens hwhite _ ih =>
      have hplain : ∀ d ∈ [c], IsPlain d := by simpa using IsPlain.of_isWhiteSpace hwhite
      obtain ⟨rest, rfl, hrest⟩ := exists_of_upToNul_eq_append hplain htext
      rw [List.singleton_append, run_blank hwhite, ← Position.behind_concat, ih hrest]
      simp
  | @comment front body content tokens hbody hend _ ih =>
      obtain ⟨text, rfl⟩ := eq_cons_of_upToNul_eq_cons htext
      rw [upToNul_comment] at htext
      obtain ⟨rest, rfl, hrest, hcontent⟩ :=
        exists_of_upToNul_eq_comment hbody hend (List.cons.inj htext).2
      have hrun := ih hcontent latestFirst
      rw [Position.behind_append, List.foldl_cons] at hrun
      rw [run_numberSign, run_comment hbody hrest, hrun]
      simp
  | @token front chars content kind tokens hmunches _ ih =>
      rcases hmunches.eq_reserved_or_admits with ⟨c, rfl, rfl, hreserved⟩ |
        ⟨lexemeClass, hadmits, rfl, hleaves⟩
      · have hplain : ∀ d ∈ [c], IsPlain d := by simpa using IsPlain.of_isReservedChar hreserved
        obtain ⟨rest, rfl, hrest⟩ := exists_of_upToNul_eq_append hplain htext
        rw [List.singleton_append, run_symbol hreserved, ← Position.behind_concat, ih hrest]
        simp
      · have hplain : ∀ d ∈ chars, IsPlain d :=
          fun d hd => .of_continuedBy (hadmits.continuedBy d hd)
        obtain ⟨rest, rfl, hrest⟩ := exists_of_upToNul_eq_append hplain htext
        have hbehind : Leaves lexemeClass.continuedBy rest := by
          rw [← leaves_upToNul_iff, hrest]
          exact hleaves
        rw [run_lexeme hadmits hbehind, ← Position.behind_append, ih hrest]
        simp

end Scanner

namespace Factors

variable {front rest text : List Char} {tokens tokens' : List Token}

theorem kind_ne_stop (h : Factors front rest tokens) : ∀ token ∈ tokens, token.kind ≠ .stop := by
  induction h with
  | nil => exact nofun
  | blank _ _ ih => exact ih
  | comment _ _ _ ih => exact ih
  | token hmunches _ ih =>
      intro token htoken
      rcases List.mem_cons.mp htoken with rfl | htoken
      · rintro rfl
        exact hmunches
      · exact ih token htoken

end Factors

/-- A scan succeeds just if the content of its text has a factorisation, and then it is that, with
the stop behind the content. -/
theorem scan_eq_ok_iff_factors (text : String) (scanned : Scan) :
    scan text = .ok scanned ↔
      Factors [] (content text) scanned.words ∧ (∀ token ∈ scanned.words, token.kind ≠ .stop) ∧
        scanned.stop = ⟨.stop, "", .behind (content text)⟩ := by
  constructor
  · intro h
    have hboundary : IsBoundary [] text.toList := .inl nofun
    obtain ⟨tokens, hfactors, rfl⟩ := Scanner.yields_of_run hboundary h
    exact ⟨hfactors, hfactors.kind_ne_stop, rfl⟩
  · rintro ⟨hfactors, -, hstop⟩
    obtain ⟨words, stop⟩ := scanned
    subst hstop
    exact Scanner.run_of_factors hfactors rfl []

end Fixity
