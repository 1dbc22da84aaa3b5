import Fixity.Proofs.Program.WellFormed
import Fixity.Proofs.Reading.Commas
import Fixity.Proofs.Token.Blanks

/-! # Commas have no meaning

A space in the place of a comma leaves a program as it is, unless a name would then be called. -/

namespace Fixity.Grammar

variable {grammar : Grammar} {text : String} {scanned : Scan} {program : Program}

/-- Spaces in the places of some spare commas leave a program as it is. -/
theorem parse_blanked_of_isSpare (h : grammar.parse text = .parsed program)
    (hscan : scan text = .ok scanned) {commas : List Token}
    (hcommas : ∀ comma ∈ commas, ∃ before after,
      scanned.words = before ++ comma :: after ∧ IsSpare before comma after) :
    grammar.parse (blanked (commas.map Token.position) text) = .parsed program := by
  obtain ⟨scanned', progress, hscan', hread, hfinish⟩ := (parse_eq_iff (by simp)).mp h
  rw [hscan] at hscan'
  cases hscan'
  have hwords : ∀ comma ∈ commas, comma ∈ scanned.words ∧ comma.text = "," := by
    intro comma hcomma
    obtain ⟨before, after, hwords, hspare⟩ := hcommas comma hcomma
    exact ⟨by simp [hwords], (Token.isSymbol_iff.mp hspare.isSymbol).2⟩
  have hstart : grammar.readAll {} [] = .ok {} := rfl
  have hspare : DropsSpare (·.position ∉ commas.map Token.position) [] scanned.words := by
    intro before comma after heq hdropped
    have hplace : comma.position ∈ commas.map Token.position := by simpa using hdropped
    obtain ⟨other, hother, hposition⟩ := List.mem_map.mp hplace
    obtain ⟨before', after', heq', hspare⟩ := hcommas other hother
    obtain ⟨rfl, rfl, rfl⟩ := eq_of_position_eq hscan heq heq' hposition.symm
    exact hspare
  exact (parse_eq_iff (by simp)).mpr ⟨_, progress, scan_blanked hscan hwords,
    readAll_filter hstart hread hfinish hspare, hfinish⟩

/-- A space for one comma leaves a program as it is, and so do spaces for any number of commas, none
of which keeps a name apart from a parenthesis. -/
theorem parse_without_commas (h : grammar.parse text = .parsed program)
    (hscan : scan text = .ok scanned) :
    (∀ before comma after, scanned.words = before ++ comma :: after → IsSpare before comma after →
      ∃ front rest, IsFrontOf comma text front ∧ text = front ++ "," ++ rest ∧
        grammar.parse (front ++ " " ++ rest) = .parsed program) ∧
    (∀ commas : List Token, (∀ comma ∈ commas, ∃ before after,
        scanned.words = before ++ comma :: after ∧ IsSpare before comma after) →
      grammar.parse (blanked (commas.map Token.position) text) = .parsed program) ∧
    Program.agrees program program := by
  refine ⟨?_, fun commas => parse_blanked_of_isSpare h hscan,
    Program.agrees_self (wellFormed_of_parse h)⟩
  intro before comma after hwords hspare
  obtain ⟨front, -, hfront, -⟩ := exists_isFrontOf_of_scan hscan hwords
  obtain ⟨rest, htext⟩ := hfront.followed
  rw [(Token.isSymbol_iff.mp hspare.isSymbol).2] at htext
  refine ⟨front, rest, hfront, htext, ?_⟩
  have hcommas : ∀ other ∈ [comma], ∃ before after,
      scanned.words = before ++ other :: after ∧ IsSpare before other after := by
    intro other hother
    rw [List.mem_singleton.mp hother]
    exact ⟨before, after, hwords, hspare⟩
  have hparse := parse_blanked_of_isSpare h hscan hcommas
  rw [List.map_singleton, hfront.position, htext, blanked_append] at hparse
  exact hparse

theorem parse_without_commas_of_groups :
    ({} : Grammar).parse "f((a),(b))" =
        .parsed [.definition .anonymous (.call "f" [.var "a", .var "b"])] ∧
      ({} : Grammar).parse "f((a) (b))" =
        .parsed [.definition .anonymous (.call "f" [.var "a", .var "b"])] := by
  have hparse : ({} : Grammar).parse "f((a),(b))" =
      .parsed [.definition .anonymous (.call "f" [.var "a", .var "b"])] := by rfl
  have hscan : scan "f((a),(b))" = .ok ⟨[⟨.identifier, "f", ⟨1, 1⟩⟩, ⟨.reserved, "(", ⟨1, 2⟩⟩,
      ⟨.reserved, "(", ⟨1, 3⟩⟩, ⟨.identifier, "a", ⟨1, 4⟩⟩, ⟨.reserved, ")", ⟨1, 5⟩⟩] ++
      ⟨.reserved, ",", ⟨1, 6⟩⟩ :: [⟨.reserved, "(", ⟨1, 7⟩⟩, ⟨.identifier, "b", ⟨1, 8⟩⟩,
      ⟨.reserved, ")", ⟨1, 9⟩⟩, ⟨.reserved, ")", ⟨1, 10⟩⟩], ⟨.stop, "", ⟨1, 11⟩⟩⟩ := by rfl
  refine ⟨hparse, (parse_without_commas hparse hscan).2.1 [⟨.reserved, ",", ⟨1, 6⟩⟩] ?_⟩
  intro comma hcomma
  rw [List.mem_singleton.mp hcomma]
  refine ⟨_, _, rfl, by decide, ?_⟩
  rintro ⟨⟨name, hname, hkind⟩, -⟩
  cases hname
  cases hkind

/-! Without the comma, a name in front of a group is called. -/

example : ({} : Grammar).parse "f(a (b))" =
    .parsed [.definition .anonymous (.call "f" [.call "a" [.var "b"]])] := by rfl

end Fixity.Grammar
