import Mathlib.Algebra.Order.Field.Basic
import Mathlib.Data.Rat.Cast.Order
import Mathlib.Order.Monotone.Basic
import Mathlib.Tactic.Linarith
import Mathlib.Tactic.Ring
import Fixity.Proofs.Binary64.RoundTrip

/-! # Rounding to nearest

The chosen magnitude is the nearer of the two around an exact value, and the even one of two that
are equally near. -/

namespace Fixity.Binary64

/-! ## The magnitudes around a value -/

theorem quanta_strictMono : StrictMono quanta := strictMono_nat_of_lt_succ quanta_lt_quanta_succ

/-- Between two powers of two the magnitudes are equally spaced, both ends included. -/
theorem quanta_mul_binade_add {exponent steps : Nat} (h : binade ≤ steps ∨ exponent = 0)
    (hsteps : steps ≤ 2 * binade) : quanta (exponent * binade + steps) = steps * 2 ^ exponent := by
  have hpos : 0 < binade := by decide
  by_cases hsmall : steps < binade
  · have hzero : exponent = 0 := h.resolve_left (by omega)
    subst hzero
    simp [quanta_of_lt_binade hsmall]
  · by_cases hlast : steps = 2 * binade
    · have hborder : exponent * binade + steps = (exponent + 1 + 1) * binade + 0 := by
        rw [Nat.succ_mul, Nat.succ_mul]
        omega
      rw [hborder, quanta_succ_mul_add (exponent + 1) hpos, hlast, Nat.pow_succ]
      ring
    · have hinside : exponent * binade + steps = (exponent + 1) * binade + (steps - binade) := by
        rw [Nat.succ_mul]
        omega
      have hcancel : binade + (steps - binade) = steps := by omega
      rw [hinside, quanta_succ_mul_add exponent (by omega), hcancel]

theorem floor_spec (n : Nat) :
    ∃ exponent steps, floor n = exponent * binade + steps ∧ (binade ≤ steps ∨ exponent = 0) ∧
      steps < 2 * binade ∧ steps * 2 ^ exponent ≤ n ∧ n < (steps + 1) * 2 ^ exponent := by
  have hbinade : binade = 2 ^ 52 := by decide
  have hscale : 0 < 2 ^ (n.log2 - 52) := Nat.two_pow_pos _
  refine ⟨n.log2 - 52, n / 2 ^ (n.log2 - 52), ?_, ?_, ?_, Nat.div_mul_le_self _ _, ?_⟩
  · simp only [floor, Nat.shiftRight_eq_div_pow]
  · by_cases hexponent : n.log2 - 52 = 0
    · exact .inr hexponent
    · left
      have hne : n ≠ 0 := by
        rintro rfl
        simp at hexponent
      have hself : 2 ^ n.log2 ≤ n := Nat.log2_self_le hne
      have hsum : 52 + (n.log2 - 52) = n.log2 := by omega
      rw [hbinade, Nat.le_div_iff_mul_le hscale, ← Nat.pow_add, hsum]
      exact hself
  · have hlt : n < 2 ^ (n.log2 + 1) := Nat.lt_log2_self
    have hpow : 2 ^ (n.log2 + 1) ≤ 2 ^ (53 + (n.log2 - 52)) :=
      Nat.pow_le_pow_right (by decide) (by omega)
    have hdouble : 2 * binade = 2 ^ 53 := by decide
    rw [hdouble, Nat.div_lt_iff_lt_mul hscale, ← Nat.pow_add]
    exact Nat.lt_of_lt_of_le hlt hpow
  · rw [Nat.mul_comm]
    exact Nat.lt_mul_div_succ n hscale

theorem quanta_floor_le (n : Nat) : quanta (floor n) ≤ n := by
  obtain ⟨exponent, steps, hfloor, hlow, hhigh, hle, -⟩ := floor_spec n
  rw [hfloor, quanta_mul_binade_add hlow (Nat.le_of_lt hhigh)]
  exact hle

theorem lt_quanta_floor_succ (n : Nat) : n < quanta (floor n + 1) := by
  obtain ⟨exponent, steps, hfloor, hlow, hhigh, -, hlt⟩ := floor_spec n
  have hnext : binade ≤ steps + 1 ∨ exponent = 0 := hlow.imp_left Nat.le_succ_of_le
  rw [hfloor, Nat.add_assoc, quanta_mul_binade_add hnext hhigh]
  exact hlt

/-- An exact value, in quanta, with the magnitude below it and the one that is chosen for it. -/
structure Chooses (exact : ℚ) (below chosen : Nat) : Prop where
  below_le : (quanta below : ℚ) ≤ exact
  lt_above : exact < quanta (below + 1)
  choice : chosen = below ∧ 2 * exact < quanta below + quanta (below + 1) ∨
    chosen = below + 1 ∧ (quanta below + quanta (below + 1) : ℚ) < 2 * exact ∨
    chosen = below + below % 2 ∧ 2 * exact = quanta below + quanta (below + 1)

theorem exists_chooses (num : Nat) {den : Nat} (hden : 0 < den) :
    ∃ below chosen, nearest num den = min chosen infinity ∧
      Chooses ((num : ℚ) / den) below chosen := by
  have hpos : (0 : ℚ) < den := by exact_mod_cast hden
  have hbelow : quanta (floor (num / den)) * den ≤ num := by
    have hfloor := quanta_floor_le (num / den)
    exact (Nat.le_div_iff_mul_le hden).mp hfloor
  have habove : num < quanta (floor (num / den) + 1) * den := by
    have hfloor := lt_quanta_floor_succ (num / den)
    exact (Nat.div_lt_iff_lt_mul hden).mp hfloor
  refine ⟨floor (num / den), _, rfl, ?_, ?_, ?_⟩
  · rw [le_div_iff₀ hpos]
    exact_mod_cast hbelow
  · rw [div_lt_iff₀ hpos]
    exact_mod_cast habove
  · rw [mul_div_assoc', div_lt_iff₀ hpos, lt_div_iff₀ hpos, div_eq_iff hpos.ne']
    norm_cast
    split
    · next hlt => exact .inl ⟨rfl, hlt⟩
    · split
      · next hlt => exact .inr (.inl ⟨rfl, hlt⟩)
      · next hge hle => exact .inr (.inr ⟨rfl, by omega⟩)

namespace Chooses

variable {exact : ℚ} {below chosen : Nat} (h : Chooses exact below chosen)
include h

/-- Every magnitude is at least as far away as one of the two around the exact value. -/
theorem distance_other (other : Nat) :
    other ≤ below ∧ (quanta other : ℚ) ≤ quanta below ∧
        |(quanta other : ℚ) - exact| = exact - quanta other ∨
      below + 1 ≤ other ∧ (quanta (below + 1) : ℚ) ≤ quanta other ∧
        |(quanta other : ℚ) - exact| = quanta other - exact := by
  have hbelow := h.below_le
  have habove := h.lt_above
  by_cases hle : other ≤ below
  · have hmono : (quanta other : ℚ) ≤ quanta below := by
      exact_mod_cast quanta_strictMono.monotone hle
    refine .inl ⟨hle, hmono, ?_⟩
    rw [abs_of_nonpos (by linarith)]
    ring
  · have hlt : below + 1 ≤ other := by omega
    have hmono : (quanta (below + 1) : ℚ) ≤ quanta other := by
      exact_mod_cast quanta_strictMono.monotone hlt
    exact .inr ⟨hlt, hmono, abs_of_nonneg (by linarith)⟩

theorem distance_chosen :
    |(quanta chosen : ℚ) - exact| ≤ exact - quanta below ∧
      |(quanta chosen : ℚ) - exact| ≤ quanta (below + 1) - exact := by
  have hbelow := h.below_le
  have habove := h.lt_above
  have hlower : |(quanta below : ℚ) - exact| = exact - quanta below := by
    rw [abs_of_nonpos (by linarith)]
    ring
  have hupper : |(quanta (below + 1) : ℚ) - exact| = quanta (below + 1) - exact :=
    abs_of_nonneg (by linarith)
  rcases h.choice with ⟨rfl, hlt⟩ | ⟨rfl, hlt⟩ | ⟨rfl, htie⟩
  · rw [hlower]
    constructor <;> linarith
  · rw [hupper]
    constructor <;> linarith
  · rcases Nat.mod_two_eq_zero_or_one below with heven | hodd
    · rw [heven, Nat.add_zero, hlower]
      constructor <;> linarith
    · rw [hodd, hupper]
      constructor <;> linarith

theorem nearest (other : Nat) :
    |(quanta chosen : ℚ) - exact| ≤ |(quanta other : ℚ) - exact| := by
  obtain ⟨hlower, hupper⟩ := h.distance_chosen
  rcases h.distance_other other with ⟨-, hmono, hdistance⟩ | ⟨-, hmono, hdistance⟩
  · linarith
  · linarith

theorem even {other : Nat} (hne : other ≠ chosen)
    (hequal : |(quanta other : ℚ) - exact| = |(quanta chosen : ℚ) - exact|) :
    chosen % 2 = 0 ∧ other % 2 = 1 := by
  obtain ⟨hlower, hupper⟩ := h.distance_chosen
  -- A magnitude that is equally near is one of the two around the exact value.
  rcases h.distance_other other with ⟨hle, hmono, hdistance⟩ | ⟨hle, hmono, hdistance⟩
  · have hother : other = below := by
      refine quanta_strictMono.injective (Nat.le_antisymm ?_ ?_)
      · exact_mod_cast hmono
      · have hge : (quanta below : ℚ) ≤ quanta other := by linarith
        exact_mod_cast hge
    subst hother
    rcases h.choice with ⟨rfl, hlt⟩ | ⟨rfl, hlt⟩ | ⟨rfl, htie⟩
    · exact absurd rfl hne
    · linarith
    · omega
  · have hother : other = below + 1 := by
      refine quanta_strictMono.injective (Nat.le_antisymm ?_ ?_)
      · have hge : (quanta other : ℚ) ≤ quanta (below + 1) := by linarith
        exact_mod_cast hge
      · exact_mod_cast hmono
    subst hother
    rcases h.choice with ⟨rfl, hlt⟩ | ⟨rfl, hlt⟩ | ⟨rfl, htie⟩
    · linarith
    · exact absurd rfl hne
    · omega

/-- The choice is finite just below the middle of the greatest finite value and the next power of
two, for the greatest finite magnitude is odd. -/
theorem lt_infinity_iff :
    chosen < infinity ↔ 2 * exact < quanta (infinity - 1) + quanta infinity := by
  have hbelow := h.below_le
  have habove := h.lt_above
  rcases Nat.lt_trichotomy (below + 1) infinity with hlt | heq | hgt
  · have hlast : (quanta (below + 1) : ℚ) ≤ quanta (infinity - 1) := by
      exact_mod_cast quanta_strictMono.monotone (by omega)
    have hnext : (quanta (infinity - 1) : ℚ) ≤ quanta infinity := by
      exact_mod_cast quanta_strictMono.monotone (Nat.sub_le _ _)
    refine iff_of_true ?_ (by linarith)
    rcases h.choice with ⟨rfl, -⟩ | ⟨rfl, -⟩ | ⟨rfl, -⟩ <;> omega
  · have hodd : below % 2 = 1 := by
      have hparity : infinity % 2 = 0 := by decide
      omega
    have hlast : infinity - 1 = below := by omega
    rw [hlast, ← heq]
    rcases h.choice with ⟨rfl, hlt⟩ | ⟨rfl, hlt⟩ | ⟨rfl, htie⟩
    · exact iff_of_true (by omega) hlt
    · exact iff_of_false (by omega) (by linarith)
    · exact iff_of_false (by omega) (by linarith)
  · have hpast : (quanta infinity : ℚ) ≤ quanta below := by
      exact_mod_cast quanta_strictMono.monotone (by omega)
    have hnext : (quanta (infinity - 1) : ℚ) ≤ quanta infinity := by
      exact_mod_cast quanta_strictMono.monotone (Nat.sub_le _ _)
    refine iff_of_false ?_ (by linarith)
    rcases h.choice with ⟨rfl, -⟩ | ⟨rfl, -⟩ | ⟨rfl, -⟩ <;> omega

end Chooses

theorem quanta_add_quanta_infinity :
    (quanta (infinity - 1) + quanta infinity : ℚ) = 2 * ((2 ^ 1024 - 2 ^ 970) * 2 ^ 1074) := by
  have hlast : infinity - 1 = 2045 * binade + (2 * binade - 1) := by decide
  have hnext : infinity = 2046 * binade + binade := by decide
  have hquantaLast : quanta (infinity - 1) = (2 * binade - 1) * 2 ^ 2045 := by
    rw [hlast]
    exact quanta_mul_binade_add (.inl (by decide)) (by decide)
  have hquantaNext : quanta infinity = binade * 2 ^ 2046 := by
    rw [hnext]
    exact quanta_mul_binade_add (.inl (by decide)) (by decide)
  have hdouble : 2 * binade - 1 = 2 ^ 53 - 1 := by decide
  have hbinade : binade = 2 ^ 52 := by decide
  -- All powers are multiples of the smallest, which is generalized so that nothing evaluates it.
  have hlimit : (2 : ℚ) ^ 1024 = 2 ^ 970 * 2 ^ 54 := by rw [← pow_add]
  have hunit : (2 : ℚ) ^ 1074 = 2 ^ 970 * 2 ^ 104 := by rw [← pow_add]
  have hspacing : (2 : ℚ) ^ 2045 = 2 ^ 970 * 2 ^ 970 * 2 ^ 105 := by rw [← pow_add, ← pow_add]
  have hpower : (2 : ℚ) ^ 2046 = 2 ^ 970 * 2 ^ 970 * 2 ^ 106 := by rw [← pow_add, ← pow_add]
  have hcast : ∀ steps exponent : Nat,
      ((steps * 2 ^ exponent : Nat) : ℚ) = steps * 2 ^ exponent := by
    intro steps exponent
    push_cast
    rfl
  rw [hquantaLast, hquantaNext, hdouble, hbinade, hcast, hcast, hlimit, hunit, hspacing, hpower]
  generalize (2 : ℚ) ^ 970 = power
  norm_num
  ring

/-! ## The nearest number -/

/-- The exact value of a finite number. -/
def value (x : Binary64) : ℚ :=
  if x.negative then -(quanta x.magnitude / 2 ^ 1074) else quanta x.magnitude / 2 ^ 1074

/-- No finite number is nearer to the exact value, and of two that are equally near this is the one
whose pattern ends in a zero. The sign bit is clear, also in front of a zero. -/
structure IsRounding (exact : ℚ) (x : Binary64) : Prop where
  isFinite : x.isFinite
  negative : x.negative = false
  nearest : ∀ y : Binary64, y.isFinite → |x.value - exact| ≤ |y.value - exact|
  even : ∀ y : Binary64, y.isFinite → y.magnitude ≠ x.magnitude →
    |y.value - exact| = |x.value - exact| → x.magnitude % 2 = 0

theorem distance_eq (magnitude : Nat) (exact : ℚ) :
    |(quanta magnitude : ℚ) / 2 ^ 1074 - exact| =
      |(quanta magnitude : ℚ) - exact * 2 ^ 1074| / 2 ^ 1074 := by
  have hunit : (0 : ℚ) < 2 ^ 1074 := pow_pos two_pos _
  generalize (2 : ℚ) ^ 1074 = unit at hunit
  have hscale : (quanta magnitude : ℚ) / unit - exact =
      (quanta magnitude - exact * unit) / unit := by
    rw [sub_div, mul_div_cancel_right₀ _ hunit.ne']
  rw [hscale, abs_div, abs_of_pos hunit]

theorem distance_value_of_nonneg {x : Binary64} (h : x.negative = false) (exact : ℚ) :
    |x.value - exact| = |(quanta x.magnitude : ℚ) - exact * 2 ^ 1074| / 2 ^ 1074 := by
  rw [← distance_eq, value, h]
  rfl

/-- A sign takes a number further away from what is not below zero. -/
theorem distance_le_value {exact : ℚ} (h : 0 ≤ exact) (y : Binary64) :
    |(quanta y.magnitude : ℚ) - exact * 2 ^ 1074| / 2 ^ 1074 ≤ |y.value - exact| := by
  have hunit : (0 : ℚ) < 2 ^ 1074 := pow_pos two_pos _
  have hquanta : (0 : ℚ) ≤ quanta y.magnitude / 2 ^ 1074 := div_nonneg (Nat.cast_nonneg _) hunit.le
  rw [← distance_eq, value]
  generalize (quanta y.magnitude : ℚ) / 2 ^ 1074 = absolute at hquanta
  split
  · have hfar : |-absolute - exact| = absolute + exact := by
      rw [abs_of_nonpos (by linarith)]
      ring
    rw [hfar, abs_le]
    constructor <;> linarith
  · exact le_rfl

namespace Chooses

variable {exact : ℚ} {below chosen : Nat}

/-- The chosen magnitude, if it is finite, is that of the nearest number. -/
theorem isRounding (h : Chooses (exact * 2 ^ 1074) below chosen) (hexact : 0 ≤ exact)
    (hfinite : chosen < infinity) : IsRounding exact (ofFinite chosen hfinite) := by
  have hunit : (0 : ℚ) < 2 ^ 1074 := pow_pos two_pos _
  have hself : |(ofFinite chosen hfinite).value - exact| =
      |(quanta chosen : ℚ) - exact * 2 ^ 1074| / 2 ^ 1074 := distance_value_of_nonneg rfl exact
  refine ⟨decide_eq_true hfinite, rfl, ?_, ?_⟩
  · intro y _
    rw [hself]
    exact le_trans (div_le_div_of_nonneg_right (h.nearest y.magnitude) hunit.le)
      (distance_le_value hexact y)
  · intro y _ hne hequal
    have hle := distance_le_value hexact y
    rw [hequal, hself, div_le_div_iff_of_pos_right hunit] at hle
    exact (h.even hne (le_antisymm hle (h.nearest y.magnitude))).1

/-- There is no other nearest number. -/
theorem eq_of_isRounding (h : Chooses (exact * 2 ^ 1074) below chosen) (hexact : 0 ≤ exact)
    (hfinite : chosen < infinity) {y : Binary64} (hy : IsRounding exact y) :
    y = ofFinite chosen hfinite := by
  have hunit : (0 : ℚ) < 2 ^ 1074 := pow_pos two_pos _
  have hx := h.isRounding hexact hfinite
  have hequal : |y.value - exact| = |(ofFinite chosen hfinite).value - exact| :=
    le_antisymm (hy.nearest _ hx.isFinite) (hx.nearest y hy.isFinite)
  have hmagnitude : y.magnitude = chosen := by
    by_contra hne
    have heven : y.magnitude % 2 = 0 := hy.even _ hx.isFinite (Ne.symm hne) hequal.symm
    rw [distance_value_of_nonneg hy.negative, distance_value_of_nonneg hx.negative,
      div_left_inj' hunit.ne'] at hequal
    have hodd := (h.even hne hequal).2
    omega
  obtain ⟨negative, magnitude, hlt⟩ := y
  cases hmagnitude
  cases hy.negative
  rfl

end Chooses

end Fixity.Binary64
