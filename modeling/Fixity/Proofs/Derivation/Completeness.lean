import Fixity.Proofs.Derivation.Basic
import Fixity.Proofs.Reading.Site

/-! # What the grammar derives is read

A derivation leads from a reading in front of it to one behind it at the same site. -/

namespace Fixity

namespace Surroundings

theorem site_of_opening? {e : Expr} {surroundings : Surroundings} {opening : Opening}
    (h : surroundings.opening? e = some opening) :
    opening.surroundings.site = surroundings.site := by
  rw [← site_base surroundings]
  unfold opening? at h
  split at h
  · next hbase =>
      cases h
      rw [hbase]
  · next callee latestFirst outer hbase =>
      cases h
      rw [hbase]
      rfl
  · cases h

end Surroundings

namespace Grammar

variable {grammar : Grammar} {reading : Reading} {site : Surroundings} {token : Token}
  {tokens : List Token}

/-! ## Operands -/

theorem passes_name (hlimit : grammar.nestingLimit = none) (h : reading.Admits site)
    (hkind : token.kind = .identifier) :
    ∃ surroundings, surroundings.site = site ∧
      grammar.Passes reading [token] (.afterName token.text surroundings) := by
  obtain ⟨opening, hopening, hsite⟩ := h
  have hsymbol : ¬ token.isSymbol "(" := Token.not_isSymbol_of_kind (by simp [hkind]) _
  have hread := read_of_opening? grammar hopening (.inr (.inl hkind)) (fun _ _ _ => hsymbol)
  refine ⟨opening.surroundings, hsite, ?_⟩
  simp only [readOperand, exceeds, hlimit, hkind, hsymbol, Option.any_none, Bool.false_eq_true,
    ite_false] at hread
  exact .singleton hread

theorem passes_number (hlimit : grammar.nestingLimit = none) (h : reading.Admits site)
    (hkind : token.kind = .number) {value : Binary64}
    (hvalue : Binary64.ofNumeral token.text = .ok value) :
    ∃ reading', reading'.Ends site ∧ grammar.Passes reading [token] reading' := by
  obtain ⟨opening, hopening, hsite⟩ := h
  have hsymbol : ¬ token.isSymbol "(" := Token.not_isSymbol_of_kind (by simp [hkind]) _
  have hread := read_of_opening? grammar hopening (.inr (.inr hkind)) (fun _ _ _ => hsymbol)
  refine ⟨.afterOperand (.literal value) opening.surroundings, .afterOperand _ hsite, ?_⟩
  simp only [readOperand, readNumber, exceeds, hlimit, hkind, hsymbol, hvalue, Option.any_none,
    Bool.false_eq_true, ite_false] at hread
  exact .singleton hread

/-- An opening parenthesis begins a group or, behind a name, the arguments of a call. -/
theorem passes_opening (hlimit : grammar.nestingLimit = none) (h : reading.Admits site)
    (htoken : token.isSymbol "(") :
    ∃ reading' outer, outer.site = site ∧ grammar.Passes reading [token] reading' ∧
      (reading' = .operand (.group outer) ∨ ∃ name, reading' = .argument name [] outer) := by
  obtain ⟨opening, hopening, hsite⟩ := h
  by_cases hname : ∃ name surroundings, reading = .afterName name surroundings
  · obtain ⟨name, surroundings, rfl⟩ := hname
    have hread : grammar.read (.afterName name surroundings) token =
        .ok { reading := .argument name [] surroundings } := by
      rw [read, if_pos htoken]
    exact ⟨_, surroundings, (Surroundings.site_of_opening? hopening).symm.trans hsite,
      .singleton hread, .inr ⟨name, rfl⟩⟩
  · have hread := read_of_opening? grammar hopening (.inl htoken)
      (fun name surroundings heq => absurd ⟨name, surroundings, heq⟩ hname)
    simp only [readOperand, exceeds, hlimit, htoken, Option.any_none, Bool.false_eq_true,
      ite_false, ite_true] at hread
    exact ⟨_, opening.surroundings, hsite, .singleton hread, .inl rfl⟩

theorem passes_operator {op : Operator} (h : reading.Ends site) (hkind : token.kind = .operator)
    (hop : grammar.operators.get? token.text = some op) :
    ∃ reading', reading'.Admits site ∧ grammar.Passes reading [token] reading' := by
  have hsymbol : ¬ token.isSymbol "(" := Token.not_isSymbol_of_kind (by simp [hkind]) _
  obtain ⟨e, surroundings, hsite, hread⟩ := read_of_ends grammar h hsymbol
  rw [readAfterOperand, if_pos hkind, hop] at hread
  refine ⟨_, ⟨_, rfl, ?_⟩, .singleton hread⟩
  have hfold := congrArg Surroundings.site (Surroundings.fold_base op.precedence e surroundings)
  rw [Surroundings.site_base, Surroundings.site_base, hsite] at hfold
  exact hfold

/-! ## Prototypes -/

theorem passes_parameter {head : HeadKind} (h : reading.BetweenParameters head)
    (hkind : token.kind = .identifier) {comma : List Token} (hcomma : OptionalComma comma) :
    ∃ reading', reading'.BetweenParameters head ∧
      grammar.Passes reading (token :: comma) reading' := by
  have hname : ∃ name latestFirst,
      grammar.read reading token = .ok { reading := .afterParameter head name latestFirst } := by
    cases h with
    | parameter name latestFirst => exact ⟨_, _, by rw [read, readParameter, if_pos hkind]⟩
    | afterParameter name latestFirst =>
        have hnot : ¬ token.isSymbol "," := Token.not_isSymbol_of_kind (by simp [hkind]) _
        exact ⟨_, _, by rw [read, if_neg hnot, readParameter, if_pos hkind]⟩
  obtain ⟨name, latestFirst, hread⟩ := hname
  cases hcomma with
  | absent => exact ⟨_, .afterParameter name latestFirst, .singleton hread⟩
  | present comma hcomma =>
      have hnext : grammar.read (.afterParameter head name latestFirst) comma =
          .ok { reading := .parameter head name latestFirst } := by
        rw [read, if_pos hcomma]
      exact ⟨_, .parameter name latestFirst, .cons hread (.singleton hnext)⟩

theorem passes_closing_of_parameters {head : HeadKind} (h : reading.BetweenParameters head)
    (htoken : token.isSymbol ")") :
    ∃ reading', reading'.EndsHead head ∧ grammar.Passes reading [token] reading' := by
  have hread : ∃ name latestFirst,
      grammar.read reading token = readParameter head name latestFirst token := by
    cases h with
    | parameter name latestFirst => exact ⟨name, latestFirst, rfl⟩
    | afterParameter name latestFirst =>
        have hnot := Token.not_isSymbol_of_isSymbol htoken (show ")" ≠ "," by decide)
        exact ⟨name, latestFirst, by rw [read, if_neg hnot]⟩
  obtain ⟨name, latestFirst, hread⟩ := hread
  have hkind : token.kind ≠ .identifier := by simp [(Token.isSymbol_iff.mp htoken).1]
  rw [readParameter, if_neg hkind, if_pos htoken] at hread
  cases head with
  | external => exact ⟨_, .external, .singleton hread⟩
  | definition => exact ⟨_, .definition _, .singleton hread⟩

theorem passes_word {head : HeadKind} (h : reading.BetweenStatements)
    (hkind : token.kind = head.wordKind) :
    grammar.Passes reading [token] (.functionName head) := by
  have hstart : grammar.readStart token = .ok (.functionName head) := by
    cases head <;> simp [readStart, hkind, HeadKind.wordKind]
  cases h with
  | ready =>
      have hread : grammar.read .ready token = .ok { reading := .functionName head } := by
        rw [read, hstart]
        rfl
      exact .singleton hread
  | ends h =>
      have hnot : token.kind ≠ .reserved ∧ token.kind ≠ .operator := by
        cases head <;> simp [hkind, HeadKind.wordKind]
      obtain ⟨e, surroundings, hsite, hread⟩ :=
        read_of_ends grammar h (Token.not_isSymbol_of_kind hnot.1 _)
      rw [readAfterOperand, if_neg hnot.2, readAfterExpr_eq,
        Surroundings.base_eq_statement hsite, readAfterExpr, hstart] at hread
      exact .singleton hread

/-! ## Derivations -/

/-- What the derivation of a nonterminal comes to in a parse. -/
def Follows (grammar : Grammar) : Nonterminal → List Token → Prop
  | .unit, tokens => ∀ reading : Reading, reading.BetweenStatements →
      ∃ reading', reading'.BetweenStatements ∧ grammar.Passes reading tokens reading'
  | .prototype, tokens => ∀ head,
      ∃ reading', reading'.EndsHead head ∧ grammar.Passes (.functionName head) tokens reading'
  | .parameters, tokens => ∀ head, ∀ reading : Reading, reading.BetweenParameters head →
      ∃ reading', reading'.BetweenParameters head ∧ grammar.Passes reading tokens reading'
  | .expr, tokens | .primary, tokens => ∀ (reading : Reading) (site : Surroundings),
      reading.Admits site → ∃ reading', reading'.Ends site ∧ grammar.Passes reading tokens reading'
  | .operations, tokens => ∀ (reading : Reading) (site : Surroundings),
      reading.Ends site → ∃ reading', reading'.Ends site ∧ grammar.Passes reading tokens reading'
  | .arguments, tokens => ∀ (reading : Reading) (callee : String) (outer : Surroundings),
      reading.BetweenArguments callee outer →
      ∃ reading', reading'.BetweenArguments callee outer ∧ grammar.Passes reading tokens reading'

theorem follows_prototype {name opening closing : Token} {parameters : List Token}
    (hname : name.kind = .identifier) (hopening : opening.isSymbol "(")
    (hclosing : closing.isSymbol ")") (hparameters : grammar.Follows .parameters parameters) :
    grammar.Follows .prototype (name :: opening :: parameters ++ [closing]) := by
  intro head
  have hreadName : grammar.read (.functionName head) name =
      .ok { reading := .parameterList head name.text } := by
    rw [read, if_pos hname]
  have hreadOpening : grammar.read (.parameterList head name.text) opening =
      .ok { reading := .parameter head name.text [] } := by
    rw [read, if_pos hopening]
  obtain ⟨between, hbetween, hpass⟩ := hparameters head _ (.parameter name.text [])
  obtain ⟨reading', hends, hclose⟩ := passes_closing_of_parameters hbetween hclosing
  exact ⟨reading', hends, .cons hreadName (.cons hreadOpening (hpass.append hclose))⟩

theorem follows_external {word : Token} {prototype rest : List Token}
    (hword : word.kind = .external) (hprototype : grammar.Follows .prototype prototype)
    (hrest : grammar.Follows .unit rest) : grammar.Follows .unit (word :: prototype ++ rest) := by
  intro reading hreading
  obtain ⟨ended, hends, hpass⟩ := hprototype .external
  cases hends with
  | external =>
      obtain ⟨reading', hreading', hpassRest⟩ := hrest .ready .ready
      exact ⟨reading', hreading', ((passes_word hreading hword).append hpass).append hpassRest⟩

theorem follows_definition {word opening closing : Token} {prototype body rest : List Token}
    (hword : word.kind = .definition) (hprototype : grammar.Follows .prototype prototype)
    (hopening : opening.isSymbol "\x7b") (hbody : grammar.Follows .expr body)
    (hclosing : closing.isSymbol "\x7d") (hrest : grammar.Follows .unit rest) :
    grammar.Follows .unit (word :: prototype ++ opening :: body ++ closing :: rest) := by
  intro reading hreading
  obtain ⟨ended, hends, hpass⟩ := hprototype .definition
  cases hends with
  | definition declared =>
      have hread : grammar.read (.bodyStart declared) opening =
          .ok { reading := .operand (.body declared) } := by
        rw [read, if_pos hopening]
      obtain ⟨after, hafter, hpassBody⟩ :=
        hbody (.operand (.body declared)) (.body declared) (Reading.admits_operand _)
      obtain ⟨reading', hreading', hpassRest⟩ := hrest .ready .ready
      have hpassWord : grammar.Passes reading [word] (.functionName .definition) :=
        passes_word hreading hword
      refine ⟨reading', hreading', ?_⟩
      simpa using (hpassWord.append hpass).append
        (.cons hread (hpassBody.append ((passes_closing_of_body hafter hclosing).append hpassRest)))

theorem follows_call {name opening closing : Token} {arguments : List Token}
    (hlimit : grammar.nestingLimit = none) (hname : name.kind = .identifier)
    (hopening : opening.isSymbol "(") (hclosing : closing.isSymbol ")")
    (harguments : grammar.Follows .arguments arguments) :
    grammar.Follows .primary (name :: opening :: arguments ++ [closing]) := by
  intro reading site hadmits
  obtain ⟨surroundings, hsite, hpassName⟩ := passes_name hlimit hadmits hname
  have hread : grammar.read (.afterName name.text surroundings) opening =
      .ok { reading := .argument name.text [] surroundings } := by
    rw [read, if_pos hopening]
  obtain ⟨between, hbetween, hpass⟩ := harguments _ name.text surroundings (.argument [])
  obtain ⟨e, hclose⟩ := passes_closing_of_arguments hbetween hclosing
  exact ⟨_, .afterOperand e hsite, hpassName.append (.cons hread (hpass.append hclose))⟩

/-- A group is read as one, or as the only argument of a call if a name stands in front of it. -/
theorem follows_group {opening closing : Token} {e : List Token}
    (hlimit : grammar.nestingLimit = none) (hopening : opening.isSymbol "(")
    (hclosing : closing.isSymbol ")") (he : grammar.Follows .expr e) :
    grammar.Follows .primary (opening :: e ++ [closing]) := by
  intro reading site hadmits
  obtain ⟨inside, outer, hsite, hpassOpening, hinside⟩ := passes_opening hlimit hadmits hopening
  rcases hinside with rfl | ⟨name, rfl⟩
  · obtain ⟨after, hafter, hpass⟩ :=
      he (.operand (.group outer)) (.group outer) (Reading.admits_operand _)
    obtain ⟨value, hclose⟩ := passes_closing_of_group hafter hclosing
    exact ⟨_, .afterOperand value hsite, hpassOpening.append (hpass.append hclose)⟩
  · obtain ⟨after, hafter, hpass⟩ := he _ (.argument name [] outer) (Reading.admits_argument ..)
    obtain ⟨value, hclose⟩ := passes_closing_of_arguments (.ends hafter) hclosing
    exact ⟨_, .afterOperand value hsite, hpassOpening.append (hpass.append hclose)⟩

/-- What the grammar derives is read to its end, and leaves the reading at its site. -/
theorem follows_of_derives (hlimit : grammar.nestingLimit = none) {symbol : Nonterminal}
    {tokens : List Token} (h : Derives grammar.operators symbol tokens) :
    grammar.Follows symbol tokens := by
  induction h with
  | noStatement => exact fun reading hreading => ⟨reading, hreading, .nil reading⟩
  | external hword _ _ ihprototype ihrest => exact follows_external hword ihprototype ihrest
  | definition hword _ hopening _ hclosing _ ihprototype ihbody ihrest =>
      exact follows_definition hword ihprototype hopening ihbody hclosing ihrest
  | statement _ _ ihexpr ihrest =>
      intro reading hreading
      obtain ⟨between, hends, hpass⟩ := ihexpr reading .statement hreading.admits
      obtain ⟨reading', hreading', hpassRest⟩ := ihrest between (.ends hends)
      exact ⟨reading', hreading', hpass.append hpassRest⟩
  | prototype hname hopening _ hclosing ihparameters =>
      exact follows_prototype hname hopening hclosing ihparameters
  | noParameter => exact fun head reading hreading => ⟨reading, hreading, .nil reading⟩
  | parameter hname hcomma _ ihrest =>
      intro head reading hreading
      obtain ⟨between, hbetween, hpass⟩ := passes_parameter hreading hname hcomma
      obtain ⟨reading', hreading', hpassRest⟩ := ihrest head between hbetween
      exact ⟨reading', hreading', hpass.append hpassRest⟩
  | expr _ _ ihprimary ihoperations =>
      intro reading site hadmits
      obtain ⟨between, hends, hpass⟩ := ihprimary reading site hadmits
      obtain ⟨reading', hends', hpassRest⟩ := ihoperations between site hends
      exact ⟨reading', hends', hpass.append hpassRest⟩
  | noOperation => exact fun reading site hends => ⟨reading, hends, .nil reading⟩
  | operation hkind hknown _ _ ihright ihrest =>
      intro reading site hends
      obtain ⟨op, hop⟩ := Option.isSome_iff_exists.mp hknown
      obtain ⟨operand, hadmits, hpassOperator⟩ := passes_operator hends hkind hop
      obtain ⟨between, hends', hpass⟩ := ihright operand site hadmits
      obtain ⟨reading', hends'', hpassRest⟩ := ihrest between site hends'
      exact ⟨reading', hends'', (hpassOperator.append hpass).append hpassRest⟩
  | name hkind =>
      intro reading site hadmits
      obtain ⟨surroundings, hsite, hpass⟩ := passes_name hlimit hadmits hkind
      exact ⟨_, .afterName _ hsite, hpass⟩
  | call hname hopening _ hclosing iharguments =>
      exact follows_call hlimit hname hopening hclosing iharguments
  | number hkind hvalue =>
      intro reading site hadmits
      exact passes_number hlimit hadmits hkind hvalue
  | group hopening _ hclosing ihexpr => exact follows_group hlimit hopening hclosing ihexpr
  | noArgument => exact fun reading callee outer hreading => ⟨reading, hreading, .nil reading⟩
  | argument _ hcomma _ ihexpr ihrest =>
      intro reading callee outer hreading
      obtain ⟨ended, hends, hpass⟩ := ihexpr reading _ hreading.admits
      obtain ⟨between, hbetween, hpassComma⟩ := passes_comma hends hcomma
      obtain ⟨reading', hreading', hpassRest⟩ := ihrest between callee outer hbetween
      exact ⟨reading', hreading', (hpass.append hpassComma).append hpassRest⟩

end Grammar

end Fixity
