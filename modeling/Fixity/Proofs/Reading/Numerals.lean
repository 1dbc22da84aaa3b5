import Fixity.Proofs.Binary64.Nearest
import Fixity.Proofs.Reading.Canonical
import Fixity.Proofs.Token.Munch

/-! # Numerals

A numeral becomes the number nearest to its exact value, and the source of a number is such a
numeral. -/

namespace Fixity

/-! ## Exact values -/

/-- The exact value of the digits behind a point. -/
def fractionValue : List Char → ℚ
  | [] => 0
  | digit :: rest => ((digit.toNat - '0'.toNat : Nat) + fractionValue rest) / 10

/-- The exact value of a row of digits with at most one point. -/
def numeralValue (text : List Char) : ℚ :=
  digitsValue (text.takeWhile (· != '.')) + fractionValue ((text.dropWhile (· != '.')).drop 1)

theorem fractionValue_nonneg (fraction : List Char) : 0 ≤ fractionValue fraction := by
  induction fraction with
  | nil => exact le_rfl
  | cons digit rest ih => exact div_nonneg (add_nonneg (Nat.cast_nonneg _) ih) (by norm_num)

/-- A point behind so many digits from the end divides by that power of ten. -/
theorem digitsValue_append_eq (whole fraction : List Char) :
    (digitsValue (whole ++ fraction) : ℚ) =
      (digitsValue whole + fractionValue fraction) * 10 ^ fraction.length := by
  induction fraction generalizing whole with
  | nil => simp [fractionValue]
  | cons digit rest ih =>
      have hconcat : digitsValue (whole ++ [digit]) =
          10 * digitsValue whole + (digit.toNat - '0'.toNat) := by
        simp [digitsValue]
      rw [List.append_cons, ih, hconcat, fractionValue, List.length_cons, pow_succ]
      push_cast
      ring

theorem mem_fraction_iff (text : List Char) :
    '.' ∈ (text.dropWhile (· != '.')).drop 1 ↔ 2 ≤ text.count '.' := by
  induction text with
  | nil => simp
  | cons c text ih =>
      by_cases hpoint : c = '.'
      · subst hpoint
        have hsecond : 2 ≤ ('.' :: text).count '.' ↔ 0 < text.count '.' := by
          rw [List.count_cons_self]
          omega
        rw [hsecond, List.count_pos_iff]
        simp
      · rw [List.count_cons_of_ne hpoint, ← ih]
        simp [hpoint]

namespace Binary64

/-! ## Conversion -/

theorem exists_chooses_of_decimal (whole fraction : List Char) :
    ∃ below chosen,
      nearest (digitsValue (whole ++ fraction) * quantaPerUnit) (Nat.pow 10 fraction.length) =
        min chosen infinity ∧
      Chooses ((digitsValue whole + fractionValue fraction) * 2 ^ 1074) below chosen := by
  have hden : 0 < Nat.pow 10 fraction.length := Nat.pow_pos (by decide)
  obtain ⟨below, chosen, hnearest, hchooses⟩ :=
    exists_chooses (digitsValue (whole ++ fraction) * quantaPerUnit) hden
  refine ⟨below, chosen, hnearest, ?_⟩
  have hunit : ((quantaPerUnit : Nat) : ℚ) = 2 ^ 1074 := by
    rw [quantaPerUnit_eq]
    exact Nat.cast_pow 2 places
  have hten : ((Nat.pow 10 fraction.length : Nat) : ℚ) = 10 ^ fraction.length :=
    Nat.cast_pow 10 fraction.length
  have hexact : ((digitsValue (whole ++ fraction) * quantaPerUnit : Nat) : ℚ) /
      (Nat.pow 10 fraction.length : Nat) =
        (digitsValue whole + fractionValue fraction) * 2 ^ 1074 := by
    have hne : (10 : ℚ) ^ fraction.length ≠ 0 := pow_ne_zero _ (by norm_num)
    rw [Nat.cast_mul, digitsValue_append_eq, hunit, hten, mul_right_comm,
      mul_div_cancel_right₀ _ hne]
  rwa [hexact] at hchooses

theorem ofDecimal_cases (whole fraction : List Char) :
    (2 ^ 1024 - 2 ^ 970 ≤ (digitsValue whole + fractionValue fraction : ℚ) ∧
        ofDecimal whole fraction = .error .outOfRange) ∨
      ((digitsValue whole + fractionValue fraction : ℚ) < 2 ^ 1024 - 2 ^ 970 ∧
        ∃ x, ofDecimal whole fraction = .ok x ∧
          IsRounding (digitsValue whole + fractionValue fraction) x ∧
          ∀ y, IsRounding (digitsValue whole + fractionValue fraction) y → y = x) := by
  obtain ⟨below, chosen, hnearest, hchooses⟩ := exists_chooses_of_decimal whole fraction
  have hunit : (0 : ℚ) < 2 * 2 ^ 1074 := mul_pos two_pos (pow_pos two_pos _)
  have hnonneg : (0 : ℚ) ≤ digitsValue whole + fractionValue fraction :=
    add_nonneg (Nat.cast_nonneg _) (fractionValue_nonneg _)
  have hinfinity := hchooses.lt_infinity_iff
  rw [quanta_add_quanta_infinity] at hinfinity
  generalize (digitsValue whole + fractionValue fraction : ℚ) = exact at *
  have hlimit : chosen < infinity ↔ exact < 2 ^ 1024 - 2 ^ 970 := by
    rw [hinfinity, mul_left_comm, mul_left_comm 2 (2 ^ 1024 - 2 ^ 970)]
    exact mul_lt_mul_iff_left₀ hunit
  by_cases hfinite : chosen < infinity
  · right
    rw [Nat.min_eq_left hfinite.le] at hnearest
    refine ⟨hlimit.mp hfinite, ofFinite chosen hfinite, ?_, hchooses.isRounding hnonneg hfinite,
      fun y hy => hchooses.eq_of_isRounding hnonneg hfinite hy⟩
    simp only [ofDecimal, hnearest]
    rw [dif_pos hfinite]
  · left
    rw [Nat.min_eq_right (by omega)] at hnearest
    refine ⟨not_lt.mp (fun hlt => hfinite (hlimit.mpr hlt)), ?_⟩
    simp only [ofDecimal, hnearest]
    rw [dif_neg (lt_irrefl infinity)]

theorem ofNumeral_cases (text : String) :
    (2 ≤ text.toList.count '.' ∧ ofNumeral text = .error .malformed) ∨
      (text.toList.count '.' < 2 ∧ 2 ^ 1024 - 2 ^ 970 ≤ numeralValue text.toList ∧
        ofNumeral text = .error .outOfRange) ∨
      (text.toList.count '.' < 2 ∧ numeralValue text.toList < 2 ^ 1024 - 2 ^ 970 ∧
        ∃ x, ofNumeral text = .ok x ∧ IsRounding (numeralValue text.toList) x ∧
          ∀ y, IsRounding (numeralValue text.toList) y → y = x) := by
  have hpoint := mem_fraction_iff text.toList
  by_cases hsecond : 2 ≤ text.toList.count '.'
  · left
    refine ⟨hsecond, ?_⟩
    simp only [ofNumeral, List.contains_iff_mem]
    rw [if_pos (hpoint.mpr hsecond)]
  · have hof : ofNumeral text = ofDecimal (text.toList.takeWhile (· != '.'))
        ((text.toList.dropWhile (· != '.')).drop 1) := by
      simp only [ofNumeral, List.contains_iff_mem]
      rw [if_neg (fun hmem => hsecond (hpoint.mp hmem))]
    right
    rw [hof]
    exact (ofDecimal_cases _ _).imp (fun h => ⟨by omega, h⟩) (fun h => ⟨by omega, h⟩)

end Binary64

/-! ## Number tokens -/

theorem LexemeClass.admits_number_iff {text : List Char} :
    LexemeClass.number.Admits text ↔ IsNumeral text := by
  cases text with
  | nil => exact iff_of_false id (fun ⟨_, _, heq, _⟩ => List.cons_ne_nil _ _ heq.symm)
  | cons c more =>
      constructor
      · intro h
        exact ⟨c, more, rfl, begunBy?_eq_number_iff.mp h.1, h.2⟩
      · rintro ⟨_, _, ⟨⟩, hdigit, hmore⟩
        exact ⟨begunBy?_eq_number_iff.mpr hdigit, hmore⟩

theorem scan_of_isNumeral {text : String} (h : IsNumeral text.toList) :
    scan text = .ok ⟨[⟨.number, text, {}⟩], ⟨.stop, "", ⟨1, text.length + 1⟩⟩⟩ := by
  have hadmits := LexemeClass.admits_number_iff.mpr h
  have hline : '\n' ∉ text.toList := fun hmem =>
    absurd (hadmits.continuedBy '\n' hmem) (by decide)
  have hstop : text.toList.foldl Position.after {} = ⟨1, text.length + 1⟩ := by
    have hbehind := Position.behind_append [] text.toList
    rw [Position.behind_append_of_notMem hline] at hbehind
    simpa [Position.behind, Nat.add_comm, String.length_toList] using hbehind.symm
  have hnone : ∀ d ∈ [].head?, LexemeClass.number.continuedBy d = false := by simp
  have hrun := Scanner.run_lexeme hadmits hnone {} []
  rw [List.append_nil, String.ofList_toList, hstop] at hrun
  exact hrun

/-- A number token is a digit with any digits and points behind it, however many. -/
theorem isNumeral_iff_scanned {text : String} :
    IsNumeral text.toList ↔ ∃ source scanned token, scan source = .ok scanned ∧
      token ∈ scanned.words ∧ token.kind = .number ∧ token.text = text := by
  constructor
  · intro h
    exact ⟨text, _, _, scan_of_isNumeral h, List.mem_singleton_self _, rfl, rfl⟩
  · rintro ⟨source, scanned, token, hscan, htoken, hkind, rfl⟩
    exact LexemeClass.admits_number_iff.mp ((wellFormed_of_scan hscan token htoken).admits hkind)

namespace Grammar

/-- A number token is refused for a second point, and else for a value that is closer to the next
power of two than to the greatest finite number. Every other one is read as the nearest number. -/
theorem readNumber_exact (text : String) :
    (IsNumeral text.toList ↔ ∃ source scanned token, scan source = .ok scanned ∧
      token ∈ scanned.words ∧ token.kind = .number ∧ token.text = text) ∧
    (IsNumeral text.toList → ∀ (token : Token) (surroundings : Surroundings), token.text = text →
      (readNumber token surroundings = .error (.malformedNumber token) ↔
        2 ≤ text.toList.count '.') ∧
      (readNumber token surroundings = .error (.numberOutOfRange token) ↔
        text.toList.count '.' < 2 ∧ 2 ^ 1024 - 2 ^ 970 ≤ numeralValue text.toList) ∧
      (text.toList.count '.' < 2 → numeralValue text.toList < 2 ^ 1024 - 2 ^ 970 →
        ∃ x, readNumber token surroundings = .ok (.afterOperand (.literal x) surroundings) ∧
          Binary64.IsRounding (numeralValue text.toList) x ∧
          ∀ y, Binary64.IsRounding (numeralValue text.toList) y → y = x)) := by
  refine ⟨isNumeral_iff_scanned, ?_⟩
  rintro - token surroundings rfl
  generalize hlimit : (2 ^ 1024 - 2 ^ 970 : ℚ) = limit
  have hcases := Binary64.ofNumeral_cases token.text
  rw [hlimit] at hcases
  rcases hcases with ⟨hpoints, hread⟩ | ⟨hpoints, hvalue, hread⟩ |
    ⟨hpoints, hvalue, x, hread, hnearest, hunique⟩
  · have hnumber : readNumber token surroundings = .error (.malformedNumber token) := by
      simp only [readNumber, hread]
    rw [hnumber]
    refine ⟨iff_of_true rfl hpoints, iff_of_false (by simp) (fun h => by omega), ?_⟩
    intro hfew
    omega
  · have hnumber : readNumber token surroundings = .error (.numberOutOfRange token) := by
      simp only [readNumber, hread]
    rw [hnumber]
    refine ⟨iff_of_false (by simp) (by omega), iff_of_true rfl ⟨hpoints, hvalue⟩, ?_⟩
    intro _ hlow
    exact absurd hvalue (not_le.mpr hlow)
  · have hnumber : readNumber token surroundings =
        .ok (.afterOperand (.literal x) surroundings) := by
      simp only [readNumber, hread]
    rw [hnumber]
    refine ⟨iff_of_false (by simp) (by omega),
      iff_of_false (by simp) (fun h => not_le.mpr hvalue h.2), ?_⟩
    intro _ _
    exact ⟨x, rfl, hnearest, hunique⟩

/-- A value half way between two neighbours of a binade. -/
theorem readNumber_exact_of_tie :
    ∃ x, readNumber ⟨.number, "9007199254740993.", {}⟩ .statement =
        .ok (.afterOperand (.literal x) .statement) ∧
      Binary64.IsRounding (2 ^ 53 + 1) x ∧ ∀ y, Binary64.IsRounding (2 ^ 53 + 1) y → y = x := by
  have hvalue : numeralValue "9007199254740993.".toList = 2 ^ 53 + 1 := by
    have hwhole : digitsValue ("9007199254740993.".toList.takeWhile (· != '.')) = 2 ^ 53 + 1 := by
      decide
    have hfraction : ("9007199254740993.".toList.dropWhile (· != '.')).drop 1 = [] := by decide
    rw [numeralValue, hwhole, hfraction]
    norm_num [fractionValue]
  have hlow : (2 ^ 53 + 1 : ℚ) < 2 ^ 1024 - 2 ^ 970 := by
    have hpower : (1 : ℚ) ≤ 2 ^ 970 := one_le_pow₀ (by norm_num)
    have hsum : (2 : ℚ) ^ 1024 = 2 ^ 970 * 2 ^ 54 := by rw [← pow_add]
    rw [hsum]
    generalize (2 : ℚ) ^ 970 = power at hpower
    norm_num
    linarith
  have hread := ((readNumber_exact "9007199254740993.").2
    (LexemeClass.admits_number_iff.mp (by decide)) ⟨.number, "9007199254740993.", {}⟩ .statement
    rfl).2.2 (by decide)
  rw [hvalue] at hread
  exact hread hlow

/-- The source of a number is one token, and is read as that number. -/
theorem parse_source_literal (operators : OperatorTable) {value : Binary64}
    (hfinite : value.isFinite) (hsign : value.negative = false) :
    (∃ stop, scan (Expr.literal value).source =
      .ok ⟨[⟨.number, (Expr.literal value).source, {}⟩], stop⟩ ∧ stop.kind = .stop) ∧
    ({ operators } : Grammar).parse (Expr.literal value).source =
      .parsed [.definition .anonymous (.literal value)] := by
  obtain ⟨c, rest, htext, hdigit, hrest⟩ := Binary64.toList_toText hfinite hsign
  have hscan := scan_of_isNumeral ⟨c, rest, htext, hdigit, fun d hd => by simpa using hrest d hd⟩
  refine ⟨⟨_, hscan, rfl⟩, ?_⟩
  have hopening : Reading.ready.opening? = some ⟨none, .statement⟩ := rfl
  have hnumber : ({ operators } : Grammar).Takes (Surroundings.statement.depth + 1)
      (.operand .statement) [⟨.number, value.toText⟩] []
      (.afterOperand (.literal value) .statement) := takes_number hfinite hsign .statement
  have htakes := hnumber.of_opening? ⟨_, _, rfl, .inr (.inr rfl)⟩ hopening (by simp)
  have hallows : ({ operators } : Grammar).Allows (Surroundings.statement.depth + 1) := by
    intro limit hlimit
    cases hlimit
    decide
  exact (parse_eq_iff (by simp)).mpr ⟨_, _, hscan, htakes.passes hallows _ [] rfl, rfl⟩

/-- The least positive number, of more than three hundred places. -/
theorem parse_source_literal_least :
    (Binary64.ofBits 1).isFinite ∧ (Binary64.ofBits 1).negative = false ∧
      ({} : Grammar).parse (Expr.literal (.ofBits 1)).source =
        .parsed [.definition .anonymous (.literal (.ofBits 1))] := by
  have hfinite : (Binary64.ofBits 1).isFinite := by decide
  have hsign : (Binary64.ofBits 1).negative = false := by decide
  exact ⟨hfinite, hsign, (parse_source_literal .standard hfinite hsign).2⟩

end Grammar

end Fixity
