import Fixity.Proofs.Token.Factorisation

/-! # The text in front of a token

A text that is cut in front of one of its tokens is scanned as the tokens before that one. -/

namespace Fixity

/-! ## Places -/

/-- Whatever is added to a front, its end moves. -/
theorem Position.behind_append_ne (front : List Char) {more : List Char} (h : more ≠ []) :
    behind (front ++ more) ≠ behind front := by
  intro heq
  by_cases hline : '\n' ∈ more
  · have hcount : 0 < more.count '\n' := List.count_pos_iff.mpr hline
    have hlines := congrArg Position.line heq
    simp only [behind, List.count_append] at hlines
    omega
  · have hlength : 0 < more.length := List.length_pos_iff.mpr h
    have hcolumns := congrArg Position.column heq
    rw [behind_append_of_notMem hline] at hcolumns
    simp only at hcolumns
    omega

/-- The end of a front tells where a text is cut. -/
theorem Position.eq_of_behind_eq {text front front' : List Char} (h : front <+: text)
    (h' : front' <+: text) (heq : behind front = behind front') : front = front' := by
  have hshorter : ∀ {shorter longer : List Char}, shorter <+: longer →
      behind shorter = behind longer → shorter = longer := by
    rintro shorter _ ⟨more, rfl⟩ hbehind
    have hnil : more = [] := by
      by_contra hne
      exact behind_append_ne shorter hne hbehind.symm
    rw [hnil, List.append_nil]
  rcases List.prefix_or_prefix_of_prefix h h' with hprefix | hprefix
  · exact hshorter hprefix heq
  · exact (hshorter hprefix heq.symm).symm

/-- The text is cut in front of the token: it goes on with the token's text, at its position. -/
structure IsFrontOf (token : Token) (text front : String) : Prop where
  followed : ∃ rest, text = front ++ token.text ++ rest
  position : token.position = .behind front.toList

namespace IsFrontOf

variable {token : Token} {text front front' : String}

theorem isPrefix (h : IsFrontOf token text front) : front.toList <+: text.toList := by
  obtain ⟨rest, rfl⟩ := h.followed
  rw [String.append_assoc, String.toList_append]
  exact List.prefix_append _ _

theorem unique (h : IsFrontOf token text front) (h' : IsFrontOf token text front') :
    front = front' := by
  have hbehind : Position.behind front.toList = .behind front'.toList := by
    rw [← h.position, h'.position]
  exact String.toList_injective (Position.eq_of_behind_eq h.isPrefix h'.isPrefix hbehind)

end IsFrontOf

/-! ## Content -/

theorem upToNul_isPrefix (inComment : Bool) (text : List Char) :
    upToNul inComment text <+: text := by
  induction text generalizing inComment with
  | nil => exact List.nil_prefix
  | cons c text ih =>
      rw [upToNul]
      split
      · exact List.prefix_cons_inj c |>.mpr (ih _)
      · split
        · exact List.nil_prefix
        · exact List.prefix_cons_inj c |>.mpr (ih _)

/-- Every front of the content of a text is content as a whole. -/
theorem upToNul_of_upToNul_eq_append {inComment : Bool} {text front rest : List Char}
    (h : upToNul inComment text = front ++ rest) : upToNul inComment front = front := by
  induction front generalizing inComment text with
  | nil => rfl
  | cons c front ih =>
      obtain ⟨text, rfl⟩ := eq_cons_of_upToNul_eq_cons h
      rw [upToNul] at h ⊢
      split
      · next hcomment =>
          rw [if_pos hcomment] at h
          rw [ih (List.cons.inj h).2]
      · next hcomment =>
          rw [if_neg hcomment] at h
          split
          · next hnul =>
              rw [if_pos hnul] at h
              cases h
          · next hnul =>
              rw [if_neg hnul] at h
              rw [ih (List.cons.inj h).2]

/-! ## Factorisations -/

theorem Leaves.of_append {continues : Char → Bool} {rest more : List Char}
    (h : Leaves continues (rest ++ more)) : Leaves continues rest := by
  cases rest with
  | nil => exact nofun
  | cons c rest => exact h

/-- A token is as long as it can be in a shorter text, too. -/
theorem TokenKind.Munches.of_append {kind : TokenKind} {front text rest more : List Char}
    (h : Munches front text (rest ++ more) kind) : Munches front text rest kind := by
  cases kind with
  | definition => exact ⟨h.1, h.2.of_append⟩
  | external => exact ⟨h.1, h.2.of_append⟩
  | identifier => exact ⟨h.1, h.2.1, h.2.2.1, h.2.2.2.of_append⟩
  | operator => exact ⟨h.1, h.2.1, h.2.2.1, h.2.2.2.of_append⟩
  | reserved => exact h
  | number => exact ⟨h.1, h.2.of_append⟩
  | stop => exact h

/-- What stands in front of a token is cut into the tokens before it. -/
theorem Factors.cut {front text : List Char} {tokens before after : List Token} {token : Token}
    (h : Factors front text tokens) (htokens : tokens = before ++ token :: after) :
    ∃ between rest, text = between ++ (token.text.toList ++ rest) ∧
      token.position = .behind (front ++ between) ∧ Factors front between before := by
  induction h generalizing before with
  | nil => simp at htokens
  | @blank front c rest tokens hwhite _ ih =>
      obtain ⟨between, behind, rfl, hposition, hbefore⟩ := ih htokens
      exact ⟨c :: between, behind, rfl, by simpa using hposition, .blank hwhite hbefore⟩
  | @comment front body rest tokens hbody hend _ ih =>
      obtain ⟨between, behind, rfl, hposition, hbefore⟩ := ih htokens
      -- Cut right behind the comment, the text ends it.
      have hend' : ∀ c ∈ between.head?, isLineEnd c := by
        intro c hc
        refine hend c ?_
        cases between with
        | nil => cases hc
        | cons d between => exact hc
      exact ⟨'#' :: body ++ between, behind, by simp, by simpa using hposition,
        .comment hbody hend' hbefore⟩
  | @token front chars rest kind tokens hmunches _ ih =>
      cases before with
      | nil =>
          obtain ⟨rfl, rfl⟩ := List.cons.inj htokens
          exact ⟨[], rest, by simp, by simp, .nil⟩
      | cons first before =>
          obtain ⟨rfl, hrest⟩ := List.cons.inj htokens
          obtain ⟨between, behind, rfl, hposition, hbefore⟩ := ih hrest
          exact ⟨chars ++ between, behind, by simp, by simpa using hposition,
            .token hmunches.of_append hbefore⟩

/-! ## Scans -/

theorem yields_of_scan {text : String} {scanned : Scan} (h : scan text = .ok scanned) :
    Yields [] text.toList [] scanned := by
  have hboundary : IsBoundary [] text.toList := .inl nofun
  exact Scanner.yields_of_run hboundary h

theorem kind_ne_stop_of_scan {text : String} {scanned : Scan} (h : scan text = .ok scanned) :
    ∀ token ∈ scanned.words, token.kind ≠ .stop := by
  obtain ⟨tokens, hfactors, rfl⟩ := yields_of_scan h
  exact hfactors.kind_ne_stop

/-- A text can be cut in front of each of its tokens, and then it has the tokens before that one. -/
theorem exists_isFrontOf_of_scan {text : String} {scanned : Scan} (h : scan text = .ok scanned)
    {before after : List Token} {token : Token}
    (hwords : scanned.words = before ++ token :: after) :
    ∃ front stop, IsFrontOf token text front ∧ scan front = .ok ⟨before, stop⟩ := by
  obtain ⟨tokens, hfactors, rfl⟩ := yields_of_scan h
  obtain ⟨between, rest, hcontent, hposition, hbefore⟩ := hfactors.cut hwords
  obtain ⟨uncounted, htext⟩ := upToNul_isPrefix false text.toList
  refine ⟨.ofList between, ⟨.stop, "", .behind between⟩,
    ⟨⟨.ofList (rest ++ uncounted), ?_⟩, ?_⟩, ?_⟩
  · rw [hcontent] at htext
    refine String.toList_injective ?_
    simp [← htext]
  · simpa using hposition
  · have hrun := Scanner.run_of_factors hbefore (upToNul_of_upToNul_eq_append hcontent) []
    rw [scan, String.toList_ofList]
    exact hrun

end Fixity
