import Fixity.Operator.Spec
import Fixity.Proofs.Token.Munch
import Mathlib.Data.List.Forall2

/-! # What specifications mean

The first part of a specification that is wrong is reported; if none is, the specification means one
operator. -/

namespace Fixity

def IsOperatorSymbol (text : String) : Prop := text ≠ "" ∧ ∀ c ∈ text.toList, isOperatorChar c

theorem isOperatorSymbol_iff_admits {text : String} :
    IsOperatorSymbol text ↔ LexemeClass.operator.Admits text.toList := by
  constructor
  · rintro ⟨hne, hall⟩
    cases hchars : text.toList with
    | nil => exact absurd (String.toList_eq_nil_iff.mp hchars) hne
    | cons c rest =>
        rw [hchars] at hall
        obtain ⟨hc, hrest⟩ := List.forall_mem_cons.mp hall
        exact ⟨LexemeClass.begunBy?_eq_operator_iff.mpr hc, hrest⟩
  · intro h
    refine ⟨?_, h.continuedBy⟩
    rintro rfl
    exact h

def Associativity.names : Associativity → List String
  | left => ["left", "l"]
  | right => ["right", "r"]

namespace Spec

/-! ## Parts and what they say -/

/-- A specification and its parts. One without an associativity has the left one. -/
inductive Parts : String → String → String → String → Prop
  | two {symbol precedence : String} : ':' ∉ symbol.toList → ':' ∉ precedence.toList →
      Parts (symbol ++ ":" ++ precedence) symbol precedence "left"
  | three {symbol precedence associativity : String} : ':' ∉ symbol.toList →
      ':' ∉ precedence.toList → ':' ∉ associativity.toList →
      Parts (symbol ++ ":" ++ precedence ++ ":" ++ associativity) symbol precedence associativity

/-- One or more digits, with or without a plus in front of them, for a number of 32 bits. -/
def SpellsLevel (text : String) (level : Nat) : Prop :=
  ∃ digits, (text = digits ∨ text = "+" ++ digits) ∧ digits ≠ "" ∧
    (∀ c ∈ digits.toList, c.isDigit) ∧ Nat.ofDigitChars 10 digits.toList 0 = level ∧
      level ≤ 4294967295

/-- The letters of a name, each in lower or in upper case. -/
def SpellsName (text name : String) : Prop :=
  List.Forall₂ (fun c letter => c = letter ∨ c = letter.toUpper) text.toList name.toList

/-- One of the names of a side, in any case. -/
def SpellsSide (text : String) (side : Associativity) : Prop :=
  ∃ name ∈ side.names, SpellsName text name

/-- What a specification means: an operator, or what is wrong with the first part that is wrong. -/
inductive Means (spec : String) : Except SpecError Operator → Prop
  | malformed : spec.toList.count ':' ≠ 1 → spec.toList.count ':' ≠ 2 →
      Means spec (.error (.malformed spec))
  | invalidSymbol {symbol precedence associativity} :
      Parts spec symbol precedence associativity → ¬ IsOperatorSymbol symbol →
      Means spec (.error (.invalidSymbol symbol))
  | invalidPrecedence {symbol precedence associativity} :
      Parts spec symbol precedence associativity → IsOperatorSymbol symbol →
      (∀ level, ¬ SpellsLevel precedence level) →
      Means spec (.error (.invalidPrecedence precedence))
  | invalidAssociativity {symbol precedence associativity level} :
      Parts spec symbol precedence associativity → IsOperatorSymbol symbol →
      SpellsLevel precedence level → (∀ side, ¬ SpellsSide associativity side) →
      Means spec (.error (.invalidAssociativity associativity))
  | operator {symbol precedence associativity level side} :
      Parts spec symbol precedence associativity → IsOperatorSymbol symbol →
      SpellsLevel precedence level → SpellsSide associativity side →
      Means spec (.ok ⟨symbol, level, side⟩)

/-! ## Cutting at the colons -/

theorem fields_of_notMem {separator : Char} {text : List Char} (h : separator ∉ text) :
    fields separator text = [text] := by
  induction text with
  | nil => rfl
  | cons c rest ih =>
      have hc : c ≠ separator := (List.ne_of_not_mem_cons h).symm
      rw [fields, if_neg hc, ih (List.not_mem_of_not_mem_cons h)]
      rfl

theorem fields_append {separator : Char} {front : List Char} (h : separator ∉ front)
    (rest : List Char) :
    fields separator (front ++ separator :: rest) = front :: fields separator rest := by
  induction front with
  | nil => exact if_pos rfl
  | cons c front ih =>
      have hc : c ≠ separator := (List.ne_of_not_mem_cons h).symm
      rw [List.cons_append, fields, if_neg hc, ih (List.not_mem_of_not_mem_cons h)]
      rfl

theorem length_fields (separator : Char) (text : List Char) :
    (fields separator text).length = text.count separator + 1 := by
  induction text with
  | nil => rfl
  | cons c rest ih =>
      rw [fields]
      split
      · next hc => rw [hc, List.length_cons, ih, List.count_cons_self]
      · next hc => rw [List.length_modifyHead, ih, List.count_cons_of_ne hc]

theorem exists_parts {spec : String}
    (h : spec.toList.count ':' = 1 ∨ spec.toList.count ':' = 2) :
    ∃ symbol precedence associativity, Parts spec symbol precedence associativity := by
  have hcolon : ':' ∈ spec.toList := List.count_pos_iff.mp (by omega)
  obtain ⟨symbol, rest, hspec, hsymbol⟩ := List.eq_append_cons_of_mem hcolon
  have hcount : rest.count ':' = 0 ∨ rest.count ':' = 1 := by
    rw [hspec, List.count_append, List.count_cons_self, List.count_eq_zero.mpr hsymbol] at h
    omega
  rcases hcount with hnone | hone
  · have htext : spec = .ofList symbol ++ ":" ++ .ofList rest := by
      refine String.toList_injective ?_
      simp [hspec]
    rw [htext]
    exact ⟨_, _, _, .two (by simpa using hsymbol) (by simpa using List.count_eq_zero.mp hnone)⟩
  · obtain ⟨precedence, associativity, rfl, hprecedence⟩ :=
      List.eq_append_cons_of_mem (List.count_pos_iff.mp (by omega : 0 < rest.count ':'))
    have hassociativity : ':' ∉ associativity := by
      rw [List.count_append, List.count_cons_self, List.count_eq_zero.mpr hprecedence] at hone
      exact List.count_eq_zero.mp (by omega)
    have htext : spec = .ofList symbol ++ ":" ++ .ofList precedence ++ ":" ++
        .ofList associativity := by
      refine String.toList_injective ?_
      simp [hspec]
    rw [htext]
    exact ⟨_, _, _, .three (by simpa using hsymbol) (by simpa using hprecedence)
      (by simpa using hassociativity)⟩

theorem ofSpec_of_parts {spec symbol precedence associativity : String}
    (h : Parts spec symbol precedence associativity) :
    Operator.ofSpec spec =
      Operator.ofFields symbol.toList precedence.toList associativity.toList := by
  cases h with
  | two hsymbol hprecedence =>
      have htext : (symbol ++ ":" ++ precedence).toList =
          symbol.toList ++ ':' :: precedence.toList := by simp
      rw [Operator.ofSpec, htext, fields_append hsymbol, fields_of_notMem hprecedence]
      rfl
  | three hsymbol hprecedence hassociativity =>
      have htext : (symbol ++ ":" ++ precedence ++ ":" ++ associativity).toList =
          symbol.toList ++ ':' :: (precedence.toList ++ ':' :: associativity.toList) := by simp
      rw [Operator.ofSpec, htext, fields_append hsymbol, fields_append hprecedence,
        fields_of_notMem hassociativity]

theorem ofSpec_of_count_ne {spec : String} (hone : spec.toList.count ':' ≠ 1)
    (htwo : spec.toList.count ':' ≠ 2) : Operator.ofSpec spec = .error (.malformed spec) := by
  have hlength := length_fields ':' spec.toList
  unfold Operator.ofSpec
  split
  · next hfields =>
      rw [hfields] at hlength
      exact absurd (Nat.succ.inj hlength).symm hone
  · next hfields =>
      rw [hfields] at hlength
      exact absurd (Nat.succ.inj hlength).symm htwo
  · rfl

/-! ## Reading the parts -/

theorem isSymbol_iff {text : String} : isSymbol text.toList ↔ IsOperatorSymbol text := by
  simp [isSymbol, IsOperatorSymbol]

/-- Behind a plus, or where there is none, digits are read as the number that they spell. -/
theorem readDigits_eq_some_iff {digits : List Char} {level : Nat} :
    (if digits.isEmpty || !digits.all Char.isDigit || maxPrecedence < digitsValue digits then none
      else some (digitsValue digits)) = some level ↔
        digits ≠ [] ∧ (∀ c ∈ digits, c.isDigit) ∧ Nat.ofDigitChars 10 digits 0 = level ∧
          level ≤ 4294967295 := by
  have hread : (digits.isEmpty || !digits.all Char.isDigit ||
      decide (maxPrecedence < digitsValue digits)) = false ↔
        digits ≠ [] ∧ (∀ c ∈ digits, c.isDigit) ∧ digitsValue digits ≤ maxPrecedence := by
    simp [and_assoc]
  rw [Option.ite_none_left_eq_some, Bool.not_eq_true, hread, Option.some.injEq]
  constructor
  · rintro ⟨⟨hne, hall, hle⟩, rfl⟩
    exact ⟨hne, hall, rfl, hle⟩
  · rintro ⟨hne, hall, rfl, hle⟩
    exact ⟨⟨hne, hall, hle⟩, rfl⟩

theorem precedence?_eq_some_iff {text : String} {level : Nat} :
    precedence? text.toList = some level ↔ SpellsLevel text level := by
  have hplus : '+'.isDigit = false := by decide
  by_cases hhead : text.toList.head? = some '+'
  · obtain ⟨digits, htext⟩ := List.head?_eq_some_iff.mp hhead
    simp only [precedence?, htext, List.head?_cons, if_true, List.drop_one, List.tail_cons]
    rw [readDigits_eq_some_iff]
    constructor
    · rintro ⟨hne, hall, hvalue, hle⟩
      refine ⟨.ofList digits, .inr ?_, ?_, ?_, ?_, hle⟩
      · exact String.toList_injective (by simp [htext])
      · simpa using hne
      · simpa using hall
      · simpa using hvalue
    · rintro ⟨digits', rfl | rfl, hne, hall, hvalue, hle⟩
      · have hdigit := hall '+' (by simp [htext])
        simp [hplus] at hdigit
      · have hdigits : digits'.toList = digits := by simpa using htext
        subst hdigits
        exact ⟨by simpa using hne, hall, hvalue, hle⟩
  · simp only [precedence?, if_neg hhead]
    rw [readDigits_eq_some_iff]
    constructor
    · rintro ⟨hne, hall, hvalue, hle⟩
      exact ⟨text, .inl rfl, by simpa using hne, hall, hvalue, hle⟩
    · rintro ⟨digits, rfl | rfl, hne, hall, hvalue, hle⟩
      · exact ⟨by simpa using hne, hall, hvalue, hle⟩
      · simp at hhead

/-- Only a letter in either case has the lower case of the letter. -/
theorem toLower_eq_iff {c letter : Char} (h : letter.isLower) :
    c.toLower = letter ↔ c = letter ∨ c = letter.toUpper := by
  have hletter : 'a'.val ≤ letter.val ∧ letter.val ≤ 'z'.val := by
    delta Char.isLower at h
    simpa using h
  have hupper : letter.toUpper.val = letter.val + ('A'.val - 'a'.val) := by
    delta Char.toUpper
    rw [dif_pos hletter]
  rw [Char.ext_iff, Char.ext_iff, Char.ext_iff, hupper]
  delta Char.toLower
  simp only [ge_iff_le, Char.reduceVal, UInt32.le_iff_toNat_le, UInt32.reduceToNat] at hletter ⊢
  split <;> simp only [← UInt32.toNat_inj, UInt32.toNat_add, UInt32.reduceSub, UInt32.reduceToNat]
  · omega
  · omega

theorem map_toLower_eq_iff {text name : List Char} (h : ∀ letter ∈ name, letter.isLower) :
    text.map Char.toLower = name ↔
      List.Forall₂ (fun c letter => c = letter ∨ c = letter.toUpper) text name := by
  induction name generalizing text with
  | nil => simp
  | cons letter name ih =>
      obtain ⟨hletter, hname⟩ := List.forall_mem_cons.mp h
      cases text with
      | nil => simp
      | cons c text =>
          rw [List.map_cons, List.cons.injEq, List.forall₂_cons, toLower_eq_iff hletter, ih hname]

theorem spellsSide_iff {text : String} {side : Associativity} :
    SpellsSide text side ↔ String.ofList (text.toList.map Char.toLower) ∈ side.names := by
  have hlower : ∀ name ∈ side.names, ∀ letter ∈ name.toList, letter.isLower := by
    have hall : side.names.all fun name => name.toList.all Char.isLower := by
      cases side <;> decide
    simpa using hall
  have hspells : ∀ name ∈ side.names,
      (SpellsName text name ↔ String.ofList (text.toList.map Char.toLower) = name) := by
    intro name hname
    rw [← String.toList_inj, String.toList_ofList]
    exact (map_toLower_eq_iff (hlower name hname)).symm
  constructor
  · rintro ⟨name, hname, hname'⟩
    rwa [(hspells name hname).mp hname']
  · intro hname
    exact ⟨_, hname, (hspells _ hname).mpr rfl⟩

theorem associativity?_eq_some_iff {text : String} {side : Associativity} :
    associativity? text.toList = some side ↔ SpellsSide text side := by
  rw [spellsSide_iff, associativity?]
  generalize String.ofList (text.toList.map Char.toLower) = lower
  cases side with
  | left => grind [Associativity.names]
  | right => grind [Associativity.names]

theorem precedence?_eq_none_iff {text : String} :
    precedence? text.toList = none ↔ ∀ level, ¬ SpellsLevel text level := by
  simp only [Option.eq_none_iff_forall_ne_some, ne_eq, precedence?_eq_some_iff]

theorem associativity?_eq_none_iff {text : String} :
    associativity? text.toList = none ↔ ∀ side, ¬ SpellsSide text side := by
  simp only [Option.eq_none_iff_forall_ne_some, ne_eq, associativity?_eq_some_iff]

/-! ## Reading specifications -/

theorem means_ofFields {spec symbol precedence associativity : String}
    (h : Parts spec symbol precedence associativity) :
    Means spec
      (Operator.ofFields symbol.toList precedence.toList associativity.toList) := by
  unfold Operator.ofFields
  split
  · next hsymbol =>
      rw [String.ofList_toList]
      exact .invalidSymbol h fun htext => by simp [isSymbol_iff.mpr htext] at hsymbol
  · next hsymbol =>
      have hsymbol' : IsOperatorSymbol symbol := isSymbol_iff.mp (by simpa using hsymbol)
      split
      · next hlevel =>
          rw [String.ofList_toList]
          exact .invalidPrecedence h hsymbol' (precedence?_eq_none_iff.mp hlevel)
      · next level hlevel =>
          have hlevel' := precedence?_eq_some_iff.mp hlevel
          split
          · next hside =>
              rw [String.ofList_toList]
              exact .invalidAssociativity h hsymbol' hlevel' (associativity?_eq_none_iff.mp hside)
          · next side hside =>
              rw [String.ofList_toList]
              exact .operator h hsymbol' hlevel' (associativity?_eq_some_iff.mp hside)

theorem means_ofSpec (spec : String) : Means spec (Operator.ofSpec spec) := by
  by_cases hcount : spec.toList.count ':' = 1 ∨ spec.toList.count ':' = 2
  · obtain ⟨symbol, precedence, associativity, hparts⟩ := exists_parts hcount
    rw [ofSpec_of_parts hparts]
    exact means_ofFields hparts
  · obtain ⟨hone, htwo⟩ := not_or.mp hcount
    rw [ofSpec_of_count_ne hone htwo]
    exact .malformed hone htwo

/-- A specification means what it is read as, and nothing else. -/
theorem Means.ofSpec_eq {spec : String} {result : Except SpecError Operator}
    (h : Means spec result) : Operator.ofSpec spec = result := by
  cases h with
  | malformed hone htwo => exact ofSpec_of_count_ne hone htwo
  | invalidSymbol hparts hsymbol =>
      rw [← isSymbol_iff] at hsymbol
      simp [ofSpec_of_parts hparts, Operator.ofFields, hsymbol]
  | invalidPrecedence hparts hsymbol hlevel =>
      rw [← isSymbol_iff] at hsymbol
      rw [← precedence?_eq_none_iff] at hlevel
      simp [ofSpec_of_parts hparts, Operator.ofFields, hsymbol, hlevel]
  | invalidAssociativity hparts hsymbol hlevel hside =>
      rw [← isSymbol_iff] at hsymbol
      rw [← precedence?_eq_some_iff] at hlevel
      rw [← associativity?_eq_none_iff] at hside
      simp [ofSpec_of_parts hparts, Operator.ofFields, hsymbol, hlevel, hside]
  | operator hparts hsymbol hlevel hside =>
      rw [← isSymbol_iff] at hsymbol
      rw [← precedence?_eq_some_iff] at hlevel
      rw [← associativity?_eq_some_iff] at hside
      simp [ofSpec_of_parts hparts, Operator.ofFields, hsymbol, hlevel, hside]

theorem ofSpec_eq_iff {spec : String} {result : Except SpecError Operator} :
    Operator.ofSpec spec = result ↔ Means spec result := by
  constructor
  · rintro rfl
    exact means_ofSpec spec
  · exact Means.ofSpec_eq

/-- The symbol of a specified operator is one that a text can have. -/
theorem isOperatorSymbol_of_ofSpec {spec : String} {op : Operator}
    (h : Operator.ofSpec spec = .ok op) : IsOperatorSymbol op.symbol := by
  cases ofSpec_eq_iff.mp h with
  | operator _ hsymbol _ _ => exact hsymbol

end Spec

end Fixity
