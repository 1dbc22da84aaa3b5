import Fixity.Binary64.Basic
import Fixity.Binary64.Shortest
import Fixity.Proofs.Binary64.Rounding

/-! # Numbers survive being written

The text of a finite nonnegative number reads back as the same number. -/

namespace Fixity

/-! ## Digits -/

theorem digitsValue_eq (digits : List Char) : digitsValue digits = Nat.ofDigitChars 10 digits 0 :=
  rfl

@[simp] theorem digitsValue_toDigits (n : Nat) : digitsValue (Nat.toDigits 10 n) = n := by
  rw [digitsValue_eq, Nat.ofDigitChars_ten_toDigits]

@[simp] theorem digitsValue_append_zeros (digits : List Char) (n : Nat) :
    digitsValue (digits ++ List.replicate n '0') = digitsValue digits * 10 ^ n := by
  rw [digitsValue_eq, Nat.ofDigitChars_append, Nat.ofDigitChars_replicate_zero, Nat.mul_comm,
    ← digitsValue_eq]

@[simp] theorem digitsValue_zeros_append (digits : List Char) (n : Nat) :
    digitsValue (List.replicate n '0' ++ digits) = digitsValue digits := by
  rw [digitsValue_eq, Nat.ofDigitChars_append, Nat.ofDigitChars_replicate_zero, Nat.mul_zero,
    ← digitsValue_eq]

namespace Binary64

/-! The exponents are generalized, so that nothing evaluates the powers. -/

theorem quantaPerUnit_eq : quantaPerUnit = 2 ^ places := by
  unfold quantaPerUnit places
  generalize 1074 = n
  exact Nat.one_shiftLeft n

theorem quantaPerUnit_mul_pointsPerQuantum : quantaPerUnit * pointsPerQuantum = 10 ^ places := by
  rw [quantaPerUnit_eq]
  unfold pointsPerQuantum
  generalize places = n
  rw [Nat.pow_eq, ← Nat.mul_pow]

theorem pointsPerQuantum_pos : 0 < pointsPerQuantum := by
  unfold pointsPerQuantum
  generalize places = n
  exact Nat.pow_pos (by decide)

/-! ## The shortest digits -/

theorem readsBack_iff {magnitude n : Nat} :
    readsBack magnitude n ↔ nearest n pointsPerQuantum = magnitude := by
  rw [readsBack]
  exact beq_iff_eq

theorem accepts_of_onGrid? {accepts : Nat → Bool} {exact spacing digits : Nat}
    (h : onGrid? accepts exact spacing = some digits) : accepts (digits * spacing) := by
  unfold onGrid? at h
  simp only at h
  split at h
  · next hlower hupper =>
      cases h
      split
      · exact hupper
      · exact hlower
  · next hlower _ =>
      cases h
      exact hlower
  · next _ hupper =>
      cases h
      exact hupper
  · cases h

theorem accepts_shortestFrom {accepts : Nat → Bool} {exact : Nat} (hexact : accepts exact)
    (power : Nat) :
    accepts ((shortestFrom accepts exact power).1 *
      10 ^ (shortestFrom accepts exact power).2) := by
  induction power with
  | zero => simpa [shortestFrom] using hexact
  | succ power ih =>
      rw [shortestFrom]
      split
      · next hgrid => exact accepts_of_onGrid? hgrid
      · exact ih

theorem readsBack_shortest {magnitude : Nat} (hfinite : magnitude < infinity) :
    readsBack magnitude ((shortest magnitude).1 * 10 ^ (shortest magnitude).2) := by
  have hexact : readsBack magnitude (quanta magnitude * pointsPerQuantum) :=
    readsBack_iff.mpr (nearest_quanta hfinite pointsPerQuantum_pos)
  exact accepts_shortestFrom hexact _

/-! ## Positional texts -/

/-- A text of digits before and, if there is a point, behind it. -/
structure IsPositional (text whole fraction : List Char) : Prop where
  whole_ne_nil : whole ≠ []
  digits : ∀ c ∈ whole ++ fraction, c.isDigit
  text_eq : text = whole ∧ fraction = [] ∨ text = whole ++ '.' :: fraction

theorem isDigit_of_mem_toDigits {n : Nat} {c : Char} (h : c ∈ Nat.toDigits 10 n) : c.isDigit :=
  Nat.isDigit_of_mem_toDigits (by decide) (by decide) h

theorem isDigit_of_mem_zeros {n : Nat} {c : Char} (h : c ∈ List.replicate n '0') : c.isDigit := by
  rw [List.eq_of_mem_replicate h]
  decide

/-- A positional text spells its digits, shifted by the power of ten. -/
theorem positional_spec (digits power : Nat) :
    ∃ whole fraction, IsPositional (positional digits power) whole fraction ∧
      digitsValue (whole ++ fraction) * 10 ^ places =
        digits * 10 ^ power * 10 ^ fraction.length := by
  by_cases hwhole : places ≤ power
  · refine ⟨Nat.toDigits 10 digits ++ List.replicate (power - places) '0', [], ⟨?_, ?_, ?_⟩, ?_⟩
    · simp [Nat.toDigits_ne_nil]
    · intro c hc
      rw [List.append_nil] at hc
      rcases List.mem_append.mp hc with hc | hc
      · exact isDigit_of_mem_toDigits hc
      · exact isDigit_of_mem_zeros hc
    · left
      simp only [positional, if_pos hwhole, and_self]
    · have hpower : power = power - places + places := by omega
      rw [List.append_nil, digitsValue_append_zeros, digitsValue_toDigits, Nat.mul_assoc,
        ← Nat.pow_add, ← hpower, List.length_nil, Nat.pow_zero, Nat.mul_one]
  · generalize hbehind : places - power = behind
    generalize hzeros : behind + 1 - (Nat.toDigits 10 digits).length = zeros
    generalize hpadded : List.replicate zeros '0' ++ Nat.toDigits 10 digits = padded
    have hlength : padded.length = zeros + (Nat.toDigits 10 digits).length := by
      rw [← hpadded, List.length_append, List.length_replicate]
    have hdigits : ∀ c ∈ padded, c.isDigit := by
      intro c hc
      rw [← hpadded] at hc
      rcases List.mem_append.mp hc with hc | hc
      · exact isDigit_of_mem_zeros hc
      · exact isDigit_of_mem_toDigits hc
    refine ⟨padded.take (padded.length - behind), padded.drop (padded.length - behind),
      ⟨?_, ?_, ?_⟩, ?_⟩
    · intro hnil
      have htaken := congrArg List.length hnil
      rw [List.length_take, List.length_nil] at htaken
      omega
    · rwa [List.take_append_drop]
    · right
      simp only [positional, if_neg hwhole, hbehind, hzeros, hpadded]
    · have hfraction : (padded.drop (padded.length - behind)).length = behind := by
        rw [List.length_drop]
        omega
      have hplaces : places = power + behind := by omega
      rw [List.take_append_drop, hfraction, ← hpadded, digitsValue_zeros_append,
        digitsValue_toDigits, hplaces, Nat.pow_add, Nat.mul_assoc]

theorem decimal_spec {magnitude : Nat} (hfinite : magnitude < infinity) :
    ∃ whole fraction, IsPositional (decimal magnitude) whole fraction ∧
      nearest (digitsValue (whole ++ fraction) * quantaPerUnit) (10 ^ fraction.length) =
        magnitude := by
  by_cases hzero : magnitude = 0
  · subst hzero
    refine ⟨['0'], [], ⟨by simp, by simp, .inl ⟨by simp [decimal], rfl⟩⟩, ?_⟩
    have hvalue : digitsValue (['0'] ++ []) = 0 := by decide
    rw [hvalue, Nat.zero_mul]
    decide
  · have hreads := readsBack_iff.mp (readsBack_shortest hfinite)
    obtain ⟨whole, fraction, htext, hvalue⟩ :=
      positional_spec (shortest magnitude).1 (shortest magnitude).2
    rw [decimal, if_neg hzero]
    refine ⟨whole, fraction, htext, Eq.trans ?_ hreads⟩
    refine nearest_eq_of_mul_eq (Nat.pow_pos (by decide)) pointsPerQuantum_pos ?_
    rw [Nat.mul_assoc, quantaPerUnit_mul_pointsPerQuantum, hvalue]

/-! ## Reading back -/

/-- A text with at most one point is read as the digits around it. -/
theorem ofNumeral_ofList {text whole fraction : List Char}
    (h : IsPositional text whole fraction) :
    ofNumeral (.ofList text) = ofDecimal whole fraction := by
  have hpoint : ∀ c ∈ whole ++ fraction, (c != '.') = true := by
    intro c hc
    have hdigit := h.digits c hc
    rw [bne_iff_ne]
    rintro rfl
    exact absurd hdigit (by decide)
  have hwhole : ∀ c ∈ whole, (c != '.') = true :=
    fun c hc => hpoint c (List.mem_append_left _ hc)
  have hfraction : '.' ∉ fraction := by
    intro hmem
    exact absurd (hpoint '.' (List.mem_append_right _ hmem)) (by decide)
  rcases h.text_eq with ⟨rfl, rfl⟩ | rfl
  · have htake : (text ++ []).takeWhile (· != '.') = text ++ [].takeWhile (· != '.') :=
      List.takeWhile_append_of_pos hwhole
    have hdrop : (text ++ []).dropWhile (· != '.') = [].dropWhile (· != '.') :=
      List.dropWhile_append_of_pos hwhole
    simp only [List.append_nil, List.takeWhile_nil, List.dropWhile_nil] at htake hdrop
    simp [ofNumeral, htake, hdrop]
  · simp [ofNumeral, List.takeWhile_append_of_pos hwhole, List.dropWhile_append_of_pos hwhole,
      hfraction]

variable {x : Binary64}

theorem toText_eq (hfinite : x.isFinite) (hsign : x.negative = false) :
    x.toText = .ofList (decimal x.magnitude) := by
  simp [toText, isNaN_of_isFinite hfinite, hsign, hfinite]

/-- A finite number that is not below zero reads back as itself. -/
theorem ofNumeral_toText (hfinite : x.isFinite) (hsign : x.negative = false) :
    ofNumeral x.toText = .ok x := by
  have hmagnitude : x.magnitude < infinity := by simpa [isFinite] using hfinite
  obtain ⟨whole, fraction, htext, hnearest⟩ := decimal_spec hmagnitude
  obtain ⟨negative, magnitude, hlt⟩ := x
  subst hsign
  rw [toText_eq hfinite rfl, ofNumeral_ofList htext, ofDecimal]
  simp only [Nat.pow_eq, hnearest]
  rw [dif_pos hmagnitude]
  rfl

theorem eq_of_toText_eq {y : Binary64} (hx : x.isFinite ∧ x.negative = false)
    (hy : y.isFinite ∧ y.negative = false) (h : x.toText = y.toText) : x = y := by
  have hread := ofNumeral_toText hx.1 hx.2
  rw [h, ofNumeral_toText hy.1 hy.2] at hread
  exact (Except.ok.inj hread).symm

/-- The text of such a number starts with a digit and has only digits and points behind it. -/
theorem toList_toText (hfinite : x.isFinite) (hsign : x.negative = false) :
    ∃ c rest, x.toText.toList = c :: rest ∧ c.isDigit ∧ ∀ d ∈ rest, d.isDigit ∨ d = '.' := by
  have hmagnitude : x.magnitude < infinity := by simpa [isFinite] using hfinite
  obtain ⟨whole, fraction, htext, -⟩ := decimal_spec hmagnitude
  rw [toText_eq hfinite hsign, String.toList_ofList]
  obtain ⟨hne, hdigits, htext⟩ := htext
  cases whole with
  | nil => exact absurd rfl hne
  | cons c whole =>
      have hfirst : c.isDigit := hdigits c (by simp)
      rcases htext with ⟨heq, rfl⟩ | heq
      · refine ⟨c, whole, heq, hfirst, ?_⟩
        intro d hd
        exact .inl (hdigits d (by simp [hd]))
      · refine ⟨c, whole ++ '.' :: fraction, heq, hfirst, ?_⟩
        intro d hd
        rcases List.mem_append.mp hd with hd | hd
        · exact .inl (hdigits d (by simp [hd]))
        · rcases List.mem_cons.mp hd with rfl | hd
          · exact .inr rfl
          · exact .inl (hdigits d (by simp [hd]))

/-- What a numeral stands for is finite and not below zero. -/
theorem of_ofNumeral {text : String} (h : ofNumeral text = .ok x) :
    x.isFinite ∧ x.negative = false := by
  unfold ofNumeral ofDecimal at h
  simp only at h
  split at h
  · cases h
  · split at h
    · next hfinite =>
        cases h
        exact ⟨by simpa [isFinite, ofFinite] using hfinite, rfl⟩
    · cases h

end Binary64

end Fixity
