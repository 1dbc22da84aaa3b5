import Mathlib.Algebra.Group.Nat.Defs
import Fixity.Binary64.Basic

/-! # Rounding

Rounding finds the magnitude of an exact value, and depends on the value of a fraction alone. -/

namespace Fixity.Binary64

theorem isNaN_of_isFinite {x : Binary64} (h : x.isFinite) : x.isNaN = false := by
  simp only [isFinite, decide_eq_true_eq] at h
  simp only [isNaN, decide_eq_false_iff_not]
  omega

/-! ## The scale of the values -/

theorem quanta_of_lt_binade {magnitude : Nat} (h : magnitude < binade) :
    quanta magnitude = magnitude := by
  simp [quanta, Nat.div_eq_of_lt h]

theorem quanta_of_div_eq {magnitude exponent : Nat} (h : magnitude / binade = exponent + 1) :
    quanta magnitude = (binade + magnitude % binade) * 2 ^ exponent := by
  unfold quanta
  split
  · next hzero => omega
  · next exponent' hexponent =>
      have hsame : exponent' = exponent := by omega
      rw [hsame, Nat.shiftLeft_eq]

/-- Behind the first binade, the exponent doubles the spacing. -/
theorem quanta_succ_mul_add (exponent : Nat) {fraction : Nat} (h : fraction < binade) :
    quanta ((exponent + 1) * binade + fraction) = (binade + fraction) * 2 ^ exponent := by
  have hpos : 0 < binade := by decide
  have hdiv : ((exponent + 1) * binade + fraction) / binade = exponent + 1 := by
    rw [Nat.mul_comm, Nat.mul_add_div hpos, Nat.div_eq_of_lt h, Nat.add_zero]
  have hmod : ((exponent + 1) * binade + fraction) % binade = fraction := by
    rw [Nat.mul_comm, Nat.mul_add_mod, Nat.mod_eq_of_lt h]
  rw [quanta_of_div_eq hdiv, hmod]

theorem binade_cases (magnitude : Nat) :
    magnitude < binade ∨ ∃ exponent fraction, fraction < binade ∧
      magnitude = (exponent + 1) * binade + fraction := by
  have hpos : 0 < binade := by decide
  rcases hexponent : magnitude / binade with _ | exponent
  · left
    exact (Nat.div_eq_zero_iff_lt hpos).mp hexponent
  · right
    refine ⟨exponent, magnitude % binade, Nat.mod_lt _ hpos, ?_⟩
    rw [← hexponent, Nat.mul_comm, Nat.div_add_mod]

theorem quanta_lt_quanta_succ (magnitude : Nat) : quanta magnitude < quanta (magnitude + 1) := by
  have hpos : 0 < binade := by decide
  rcases binade_cases magnitude with h | ⟨exponent, fraction, hfraction, rfl⟩
  · rw [quanta_of_lt_binade h]
    by_cases hnext : magnitude + 1 < binade
    · rw [quanta_of_lt_binade hnext]
      exact Nat.lt_succ_self _
    · have hborder : magnitude + 1 = (0 + 1) * binade + 0 := by omega
      rw [hborder, quanta_succ_mul_add 0 hpos]
      omega
  · rw [quanta_succ_mul_add exponent hfraction]
    have hscale : 0 < 2 ^ exponent := Nat.two_pow_pos exponent
    by_cases hnext : fraction + 1 < binade
    · rw [Nat.add_assoc, quanta_succ_mul_add exponent hnext]
      exact Nat.mul_lt_mul_of_pos_right (by omega) hscale
    · have hborder : (exponent + 1) * binade + fraction + 1 =
          (exponent + 1 + 1) * binade + 0 := by
        rw [Nat.succ_mul (exponent + 1)]
        omega
      rw [hborder, quanta_succ_mul_add (exponent + 1) hpos, Nat.pow_succ', Nat.add_zero,
        ← Nat.mul_assoc]
      exact Nat.mul_lt_mul_of_pos_right (by omega) hscale

theorem floor_quanta (magnitude : Nat) : floor (quanta magnitude) = magnitude := by
  have hbinade : binade = 2 ^ 52 := by decide
  rcases binade_cases magnitude with h | ⟨exponent, fraction, hfraction, rfl⟩
  · rw [quanta_of_lt_binade h]
    have hlog : magnitude.log2 - 52 = 0 := by
      by_cases hzero : magnitude = 0
      · simp [hzero]
      · have hlt := (Nat.log2_lt hzero).mpr (hbinade ▸ h)
        omega
    simp [floor, hlog]
  · rw [quanta_succ_mul_add exponent hfraction]
    have hscale : 0 < 2 ^ exponent := Nat.two_pow_pos exponent
    have hlog : ((binade + fraction) * 2 ^ exponent).log2 = 52 + exponent := by
      have hne : (binade + fraction) * 2 ^ exponent ≠ 0 :=
        Nat.ne_of_gt (Nat.mul_pos (by omega) hscale)
      refine (Nat.log2_eq_iff hne).mpr ⟨?_, ?_⟩
      · rw [Nat.pow_add, ← hbinade]
        exact Nat.mul_le_mul_right _ (by omega)
      · rw [Nat.add_right_comm, Nat.pow_add]
        exact Nat.mul_lt_mul_of_pos_right (by omega) hscale
    have hshift : ((binade + fraction) * 2 ^ exponent) >>> exponent = binade + fraction := by
      rw [Nat.shiftRight_eq_div_pow, Nat.mul_div_cancel _ hscale]
    simp only [floor, hlog, Nat.add_sub_cancel_left, hshift]
    rw [Nat.succ_mul]
    omega

/-! ## The nearest value -/

/-- What is a value already is not changed. -/
theorem nearest_quanta {magnitude den : Nat} (hfinite : magnitude < infinity) (hden : 0 < den) :
    nearest (quanta magnitude * den) den = magnitude := by
  have hbelow : floor (quanta magnitude * den / den) = magnitude := by
    rw [Nat.mul_div_cancel _ hden, floor_quanta]
  have hmiddle : 2 * (quanta magnitude * den) <
      (quanta magnitude + quanta (magnitude + 1)) * den := by
    rw [← Nat.mul_assoc]
    refine Nat.mul_lt_mul_of_pos_right ?_ hden
    have hlt := quanta_lt_quanta_succ magnitude
    omega
  simp only [nearest, hbelow, if_pos hmiddle]
  exact Nat.min_eq_left (Nat.le_of_lt hfinite)

theorem nearest_mul_mul {scale : Nat} (num den : Nat) (hscale : 0 < scale) :
    nearest (num * scale) (den * scale) = nearest num den := by
  have hmul : ∀ a b : Nat, a * scale < b * scale ↔ a < b :=
    fun a b => Nat.mul_lt_mul_right hscale
  simp only [nearest, Nat.mul_div_mul_right _ _ hscale, ← Nat.mul_assoc, hmul]

theorem nearest_eq_of_mul_eq {num den num' den' : Nat} (hden : 0 < den) (hden' : 0 < den')
    (h : num * den' = num' * den) : nearest num den = nearest num' den' := by
  calc
    nearest num den = nearest (num * den') (den * den') := (nearest_mul_mul num den hden').symm
    _ = nearest (num' * den) (den' * den) := by rw [h, Nat.mul_comm den den']
    _ = nearest num' den' := nearest_mul_mul num' den' hden

end Fixity.Binary64
