import PlayerCommands.Score.Basic

/-!
# Rounding keeps the order

A greater number never rounds to a smaller score.  Within one power of two the spacing is the same
and the nearest integer decides; between two different spacings lies a power of two, which is a
multiple of both and so stays where it is.

    s ≤ t → nearestInt s ≤ nearestInt t      (nearestInt_mono)
    a ≤ b → roundRat a ≤ roundRat b          (roundRat_mono)

Numbers of the format stay as they are, among them the whole numbers of up to 53 bits.

    (n : Rat) < 2 ^ 53 → roundRat n = n      (roundRat_natCast)
-/

namespace PlayerCommands.Score

/-! ## The nearest integer -/

theorem nearestInt_mono {s t : Rat} (h : s ≤ t) : nearestInt s ≤ nearestInt t := by
  have hfloor := Rat.floor_monotone h
  unfold nearestInt
  rcases Int.lt_or_eq_of_le hfloor with hlt | heq
  · split <;> split <;> omega
  · -- the same floor: the remainder of `t` is no smaller
    rw [heq]
    split
    · next hs =>
      have hupper : 1 < 2 * (t - t.floor) ∨ 2 * (t - t.floor) = 1 ∧ t.floor % 2 = 1 := by
        rcases hs with hs | ⟨hs, hodd⟩
        · left
          grind
        · by_cases hlt : 1 < 2 * (t - t.floor)
          · exact Or.inl hlt
          · exact Or.inr ⟨by grind, hodd⟩
      exact Int.le_of_eq (if_pos hupper).symm
    · split <;> omega

theorem nearestInt_intCast (n : Int) : nearestInt (n : Rat) = n := by
  have h0 : (n : Rat) - (n : Rat) = 0 := by grind
  unfold nearestInt
  rw [Rat.floor_intCast, h0, if_neg]
  rintro (h | ⟨h, -⟩) <;> grind

/-- `n` is at most one half away from `t`, and even if it is exactly that. -/
structure Near (t : Rat) (n : Int) : Prop where
  lower : -1 ≤ 2 * (t - n)
  upper : 2 * (t - n) ≤ 1
  tie : n % 2 = 1 → -1 < 2 * (t - n) ∧ 2 * (t - n) < 1

theorem near_nearestInt (t : Rat) : Near t (nearestInt t) := by
  have h1 := Rat.floor_le t
  have h2 := Rat.lt_floor_add_one t
  rw [Rat.intCast_add, Rat.intCast_one] at h2
  unfold nearestInt
  split
  · next h =>
    constructor <;> rw [Rat.intCast_add, Rat.intCast_one]
    · grind
    · grind
    · intro hodd
      rcases h with h | ⟨-, hodd'⟩
      · constructor <;> grind
      · omega
  · next h =>
    refine ⟨by grind, by grind, fun hodd => ⟨by grind, ?_⟩⟩
    have hne : 2 * (t - t.floor) ≠ 1 := fun he => h (Or.inr ⟨he, hodd⟩)
    grind

theorem Near.neg {t : Rat} {n : Int} (h : Near t n) : Near (-t) (-n) := by
  obtain ⟨h1, h2, h3⟩ := h
  constructor <;> rw [Rat.intCast_neg]
  · grind
  · grind
  · intro hodd
    have := h3 (by omega)
    constructor <;> grind

/-- Two neighbours are not both near: one of them is odd. -/
theorem Near.not_succ {t : Rat} {n : Int} (h : Near t n) : ¬ Near t (n + 1) := by
  rintro ⟨h1, h2, h3⟩
  obtain ⟨-, u2, u3⟩ := h
  rw [Rat.intCast_add, Rat.intCast_one] at h1 h2 h3
  by_cases hodd : n % 2 = 1
  · have := u3 hodd
    grind
  · have := h3 (by omega)
    grind

theorem Near.le_succ {t : Rat} {m n : Int} (hm : Near t m) (hn : Near t n) : m ≤ n + 1 := by
  have h : (m : Rat) ≤ ((n + 1 : Int) : Rat) := by
    rw [Rat.intCast_add, Rat.intCast_one]
    have := hm.lower
    have := hn.upper
    grind
  exact_mod_cast h

theorem Near.eq {t : Rat} {m n : Int} (hm : Near t m) (hn : Near t n) : m = n := by
  have h1 := hm.le_succ hn
  have h2 := hn.le_succ hm
  rcases (by omega : m = n ∨ m = n + 1 ∨ n = m + 1) with h | h | h
  · exact h
  · exact absurd (h ▸ hm) hn.not_succ
  · exact absurd (h ▸ hn) hm.not_succ

theorem nearestInt_neg (t : Rat) : nearestInt (-t) = -nearestInt t :=
  (near_nearestInt (-t)).eq (near_nearestInt t).neg

/-! ## Powers of two -/

theorem two_zpow_pos (e : Int) : (0 : Rat) < 2 ^ e := Rat.zpow_pos (by decide)

/-- A greater power of two is a multiple of a smaller one. -/
theorem two_zpow_eq_mul {k e : Int} (h : k ≤ e) :
    ∃ n : Int, 1 ≤ n ∧ (2 : Rat) ^ e = n * 2 ^ k := by
  refine ⟨2 ^ (e - k).toNat, Int.pow_pos (by decide), ?_⟩
  have he : e = ((e - k).toNat : Int) + k := by omega
  have hpow : (2 : Rat) ^ e = 2 ^ (((e - k).toNat : Int) + k) := by rw [← he]
  rw [hpow, Rat.zpow_add (by decide), Rat.zpow_natCast, Rat.intCast_pow]
  rfl

theorem two_zpow_le {k e : Int} (h : k ≤ e) : (2 : Rat) ^ k ≤ 2 ^ e := by
  obtain ⟨n, hn, he⟩ := two_zpow_eq_mul h
  have hone : (1 : Rat) ≤ n := by exact_mod_cast hn
  have hmul := Rat.mul_le_mul_of_nonneg_right hone (Rat.le_of_lt (two_zpow_pos k))
  rw [Rat.one_mul] at hmul
  rw [he]
  exact hmul

theorem two_zpow_mul (j k : Int) : (2 : Rat) ^ j * 2 ^ k = 2 ^ (j + k) :=
  (Rat.zpow_add (by decide) j k).symm

theorem two_zpow_log2_le {n : Nat} (h : n ≠ 0) : (2 : Rat) ^ (n.log2 : Int) ≤ n := by
  rw [Rat.zpow_natCast]
  exact_mod_cast Nat.log2_self_le h

theorem lt_two_zpow_log2 (n : Nat) : (n : Rat) < 2 ^ (n.log2 + 1 : Int) := by
  have h : ((n.log2 : Int) + 1) = ((n.log2 + 1 : Nat) : Int) := by omega
  rw [h, Rat.zpow_natCast]
  exact_mod_cast Nat.lt_log2_self

theorem lt_of_two_zpow_lt {k e : Int} (h : (2 : Rat) ^ k < 2 ^ e) : k < e := by
  apply Classical.byContradiction
  intro hn
  have := two_zpow_le (show e ≤ k by omega)
  grind

/-- A positive number lies between two neighbouring powers of two. -/
theorem floorLog2_spec {q : Rat} (hq : 0 < q) :
    2 ^ floorLog2 q ≤ q ∧ q < 2 ^ (floorLog2 q + 1) := by
  have hnum : (q.num.natAbs : Rat) = q * q.den := by
    have hpos : 0 ≤ q.num := Rat.num_nonneg.mpr (Rat.le_of_lt hq)
    have hcast : ((q.num.natAbs : Int) : Rat) = q.num := by rw [Int.natAbs_of_nonneg hpos]
    have hdiv := Rat.mkRat_self q
    rw [Rat.mkRat_eq_div] at hdiv
    rw [← Rat.intCast_natCast, hcast]
    conv => rhs; lhs; rw [← hdiv]
    exact (Rat.div_mul_cancel (by exact_mod_cast q.den_nz)).symm
  have hden : (0 : Rat) < q.den := by exact_mod_cast q.den_pos
  have hn0 : q.num.natAbs ≠ 0 := by
    intro h0
    have := Rat.mul_pos hq hden
    rw [← hnum, h0] at this
    exact absurd this (by decide)
  have n1 := two_zpow_log2_le hn0
  have n2 := lt_two_zpow_log2 q.num.natAbs
  have d1 := two_zpow_log2_le q.den_nz
  have d2 := lt_two_zpow_log2 q.den
  rw [hnum] at n1 n2
  generalize hA : (q.num.natAbs.log2 : Int) = a at *
  generalize hB : (q.den.log2 : Int) = b at *
  have hlow : (2 : Rat) ^ (a - b - 1) < q := by
    have h1 := Rat.mul_lt_mul_of_pos_left d2 (two_zpow_pos (a - b - 1))
    rw [two_zpow_mul, show a - b - 1 + (b + 1) = a by omega] at h1
    exact Rat.lt_of_mul_lt_mul_right (by grind) (Rat.le_of_lt hden)
  have hhigh : q < (2 : Rat) ^ (a - b + 1) := by
    have h1 := Rat.mul_le_mul_of_nonneg_left d1 (Rat.le_of_lt (two_zpow_pos (a - b + 1)))
    rw [two_zpow_mul, show a - b + 1 + b = a + 1 by omega] at h1
    exact Rat.lt_of_mul_lt_mul_right (by grind) (Rat.le_of_lt hden)
  have hdef : floorLog2 q = if q < (2 : Rat) ^ (a - b) then a - b - 1 else a - b := by
    unfold floorLog2
    rw [hA, hB]
  rw [hdef]
  split
  · next h =>
    rw [show a - b - 1 + 1 = a - b by omega]
    exact ⟨Rat.le_of_lt hlow, h⟩
  · next h => exact ⟨Rat.not_lt.mp h, hhigh⟩

theorem floorLog2_mono {a b : Rat} (ha : 0 < a) (h : a ≤ b) : floorLog2 a ≤ floorLog2 b := by
  obtain ⟨h1, -⟩ := floorLog2_spec ha
  obtain ⟨-, h2⟩ := floorLog2_spec (show 0 < b by grind)
  have := lt_of_two_zpow_lt (show (2 : Rat) ^ floorLog2 a < 2 ^ (floorLog2 b + 1) by grind)
  omega

/-! ## Rounding -/

theorem magnitude_of_nonneg {q : Rat} (h : 0 ≤ q) : magnitude q = q := by
  unfold magnitude
  rw [if_neg (by grind)]

theorem magnitude_neg (q : Rat) : magnitude (-q) = magnitude q := by
  unfold magnitude
  split <;> split <;> grind

theorem spacing_pos (q : Rat) : 0 < spacing q := two_zpow_pos _

theorem spacing_neg (q : Rat) : spacing (-q) = spacing q := by
  unfold spacing
  rw [magnitude_neg]

theorem roundRat_neg (q : Rat) : roundRat (-q) = -roundRat q := by
  unfold roundRat
  rw [spacing_neg, Rat.div_def, Rat.neg_mul, ← Rat.div_def, nearestInt_neg, Rat.intCast_neg,
    Rat.neg_mul]

/-- A multiple of the spacing bounds what is rounded on its lower side. -/
theorem roundRat_le_mul {q : Rat} {n : Int} (h : q ≤ n * spacing q) :
    roundRat q ≤ n * spacing q := by
  have hpos := spacing_pos q
  have hdiv : q / spacing q ≤ n := by
    apply Rat.le_of_mul_le_mul_right _ hpos
    rwa [Rat.div_mul_cancel (Rat.ne_of_gt hpos)]
  have hint : nearestInt (q / spacing q) ≤ n := by
    have := nearestInt_mono hdiv
    rwa [nearestInt_intCast] at this
  unfold roundRat
  exact Rat.mul_le_mul_of_nonneg_right (by exact_mod_cast hint) (Rat.le_of_lt hpos)

/-- A multiple of the spacing bounds what is rounded on its upper side. -/
theorem mul_le_roundRat {q : Rat} {n : Int} (h : n * spacing q ≤ q) :
    n * spacing q ≤ roundRat q := by
  have hpos := spacing_pos q
  have hdiv : (n : Rat) ≤ q / spacing q := by
    apply Rat.le_of_mul_le_mul_right _ hpos
    rwa [Rat.div_mul_cancel (Rat.ne_of_gt hpos)]
  have hint : n ≤ nearestInt (q / spacing q) := by
    have := nearestInt_mono hdiv
    rwa [nearestInt_intCast] at this
  unfold roundRat
  exact Rat.mul_le_mul_of_nonneg_right (by exact_mod_cast hint) (Rat.le_of_lt hpos)

theorem roundRat_nonneg {q : Rat} (h : 0 ≤ q) : 0 ≤ roundRat q := by
  have := mul_le_roundRat (q := q) (n := 0) (by rw [Rat.intCast_zero, Rat.zero_mul]; exact h)
  rwa [Rat.intCast_zero, Rat.zero_mul] at this

theorem roundRat_mono_of_pos {a b : Rat} (ha : 0 < a) (h : a ≤ b) : roundRat a ≤ roundRat b := by
  have hb : 0 < b := by grind
  have hlog := floorLog2_mono ha h
  have hsa : spacing a = 2 ^ max (floorLog2 a - 52) (-1074) := by
    unfold spacing; rw [magnitude_of_nonneg (Rat.le_of_lt ha)]
  have hsb : spacing b = 2 ^ max (floorLog2 b - 52) (-1074) := by
    unfold spacing; rw [magnitude_of_nonneg (Rat.le_of_lt hb)]
  by_cases heq : max (floorLog2 a - 52) (-1074) = max (floorLog2 b - 52) (-1074)
  · have hs : spacing a = spacing b := by rw [hsa, hsb, heq]
    have hdiv : a / spacing b ≤ b / spacing b := by
      rw [Rat.div_def, Rat.div_def]
      exact Rat.mul_le_mul_of_nonneg_right h
        (Rat.le_of_lt (Rat.inv_pos.mpr (spacing_pos b)))
    unfold roundRat
    rw [hs]
    exact Rat.mul_le_mul_of_nonneg_right (by exact_mod_cast nearestInt_mono hdiv)
      (Rat.le_of_lt (spacing_pos b))
  · -- the greatest power of two up to `b` separates the two numbers
    obtain ⟨-, a2⟩ := floorLog2_spec ha
    obtain ⟨b1, -⟩ := floorLog2_spec hb
    have hstep := two_zpow_le (show floorLog2 a + 1 ≤ floorLog2 b by omega)
    have hea : max (floorLog2 a - 52) (-1074) ≤ floorLog2 b := by omega
    have heb : max (floorLog2 b - 52) (-1074) ≤ floorLog2 b := by omega
    obtain ⟨m, -, ea⟩ := two_zpow_eq_mul hea
    obtain ⟨n, -, eb⟩ := two_zpow_eq_mul heb
    rw [← hsa] at ea
    rw [← hsb] at eb
    have hla := roundRat_le_mul (q := a) (by rw [← ea]; grind)
    have hlb := mul_le_roundRat (q := b) (by rw [← eb]; exact b1)
    rw [← ea] at hla
    rw [← eb] at hlb
    grind

/-- **Rounding keeps the order.** -/
theorem roundRat_mono {a b : Rat} (h : a ≤ b) : roundRat a ≤ roundRat b := by
  by_cases ha : 0 < a
  · exact roundRat_mono_of_pos ha h
  · by_cases hb : 0 ≤ b
    · have h1 := roundRat_nonneg (q := -a) (by grind)
      have h2 := roundRat_nonneg hb
      rw [roundRat_neg] at h1
      grind
    · have := roundRat_mono_of_pos (a := -b) (b := -a) (by grind) (by grind)
      rw [roundRat_neg, roundRat_neg] at this
      grind

/-! ## Exact numbers -/

theorem roundRat_eq_self {q : Rat} {n : Int} (h : q = n * spacing q) : roundRat q = q := by
  have hle := roundRat_le_mul (show q ≤ n * spacing q by grind)
  have hge := mul_le_roundRat (show n * spacing q ≤ q by grind)
  rw [← h] at hle hge
  exact Rat.le_antisymm hle hge

/-- Whole numbers of up to 53 bits are kept. -/
theorem roundRat_natCast {n : Nat} (h : (n : Rat) < 2 ^ (53 : Int)) :
    roundRat (n : Rat) = n := by
  rcases Nat.eq_zero_or_pos n with rfl | hn
  · exact roundRat_zero
  have hpos : (0 : Rat) < n := by exact_mod_cast hn
  have hlog : floorLog2 (n : Rat) < 53 := by
    obtain ⟨hlow, -⟩ := floorLog2_spec hpos
    exact lt_of_two_zpow_lt (by grind)
  have hspacing : spacing (n : Rat) = 2 ^ max (floorLog2 (n : Rat) - 52) (-1074) := by
    unfold spacing
    rw [magnitude_of_nonneg (Rat.le_of_lt hpos)]
  -- the spacing divides one, so it divides every whole number
  obtain ⟨m, -, hone⟩ := two_zpow_eq_mul
    (show max (floorLog2 (n : Rat) - 52) (-1074) ≤ 0 by omega)
  rw [← hspacing, Rat.zpow_zero] at hone
  refine roundRat_eq_self (n := n * m) ?_
  rw [Rat.intCast_mul, Rat.mul_assoc, ← hone, Rat.mul_one, Rat.intCast_natCast]

end PlayerCommands.Score
