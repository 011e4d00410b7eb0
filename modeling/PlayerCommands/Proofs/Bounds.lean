import PlayerCommands.Confidence
import PlayerCommands.Proofs.Rounding

/-!
# Bounds of confidence

Confidence always lies between 0 and 1.  An intent that asks stays at or below the ceiling, which
is under the threshold; an answer with any score of its own lifts it to the threshold at least.

    (i.ask q c).confidence ≤ askCeiling < threshold            (ask_confidence_le)
    0 ≤ score → threshold ≤ blend 1 score                      (threshold_le_blend_one)
-/

namespace PlayerCommands

namespace Score

theorem value_zero : (0 : Score).value = 0 := by decide +kernel

theorem le_refl (a : Score) : a ≤ a := Rat.le_refl

theorem le_trans {a b c : Score} (h1 : a ≤ b) (h2 : b ≤ c) : a ≤ c := Rat.le_trans h1 h2

theorem le_of_not_lt {a b : Score} (h : ¬ a < b) : b ≤ a := Rat.not_lt.mp h

theorem lt_of_le_of_lt {a b c : Score} (h1 : a ≤ b) (h2 : b < c) : a < c := by
  rw [lt_def] at h2 ⊢
  rw [le_def] at h1
  grind

theorem min_le_right (a b : Score) : min a b ≤ b := by
  show (if a ≤ b then a else b) ≤ b
  split
  · assumption
  · exact le_refl b

/-! ## Clamping -/

theorem zero_le_clamp (x : Score) : 0 ≤ x.clamp := by
  unfold clamp
  split
  · exact le_refl 0
  · next h =>
    split
    · decide +kernel
    · exact le_of_not_lt h

theorem clamp_le_one (x : Score) : x.clamp ≤ 1 := by
  unfold clamp
  split
  · decide +kernel
  · split
    · exact le_refl 1
    · next h => exact le_of_not_lt h

theorem clamp_le {x bound : Score} (h0 : 0 ≤ bound) (h : x ≤ bound) : x.clamp ≤ bound := by
  unfold clamp
  split
  · exact h0
  · split
    · next h1 => exact le_trans (Rat.le_of_lt h1) h
    · exact h

theorem le_clamp {x bound : Score} (h1 : bound ≤ 1) (h : bound ≤ x) : bound ≤ x.clamp := by
  unfold clamp
  split
  · next h0 => exact le_trans h (Rat.le_of_lt h0)
  · split
    · exact h1
    · exact h

end Score

namespace Confidence

theorem askCeiling_lt_threshold : askCeiling < threshold := by decide +kernel

theorem threshold_le_one : threshold ≤ 1 := by decide +kernel

theorem blend_le_one (command argument : Score) : blend command argument ≤ 1 :=
  Score.clamp_le_one _

/-- A certain verb alone carries an intent over the threshold. -/
theorem threshold_le_blend_one {score : Score} (h : 0 ≤ score) : threshold ≤ blend 1 score := by
  have hscore : (0 : Rat) ≤ score.value := by
    rw [Score.le_def, Score.value_zero] at h
    exact h
  have hpart : (0 : Rat) ≤ (0.25 * score : Score).value := by
    rw [Score.value_mul]
    exact Score.roundRat_nonneg (Rat.mul_nonneg (by decide +kernel) hscore)
  have hsum : (0.75 * 1 : Score).value ≤
      (0.75 * 1 : Score).value + (0.25 * score : Score).value := by
    grind
  -- the sum of the two parts is rounded once more, and rounding keeps the order
  have hround := Score.roundRat_mono hsum
  rw [← Score.value_add] at hround
  have hthreshold : threshold.value ≤ Score.roundRat (0.75 * 1 : Score).value := by decide +kernel
  exact Score.le_clamp threshold_le_one (Rat.le_trans hthreshold hround)

end Confidence

/-! ## Asking -/

namespace Intent

variable (i : Intent) (q : Question Intent) (c : Score)

theorem zero_le_ask_confidence : 0 ≤ (i.ask q c).confidence := Score.zero_le_clamp _

theorem ask_confidence_le : (i.ask q c).confidence ≤ Confidence.askCeiling :=
  Score.clamp_le (by decide +kernel) (Score.min_le_right _ _)

end Intent

end PlayerCommands
