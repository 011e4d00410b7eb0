/-!
# Scores

A score is a finite number of the binary64 format: a rational number with at most 53 significant
bits, or the zero that carries a minus sign.  Every operation computes the exact rational result
and rounds it once to the nearest such number, ties to the even one.  Comparisons go through
`Score.value`, so the two zeros are equal in the order.

    (a + b).value = roundRat (a.value + b.value)      (value_add)
    (a * b).value = roundRat (a.value * b.value)      (value_mul)
-/

namespace PlayerCommands

/-- A finite binary64 number. -/
inductive Score where
  /-- The number itself, zero without a sign included. -/
  | num (value : Rat)
  /-- The zero that carries a minus sign. -/
  | negZero
deriving DecidableEq

namespace Score

/-! ## Rounding -/

/-- The integer nearest to `q`, ties to even. -/
def nearestInt (q : Rat) : Int :=
  if 1 < 2 * (q - q.floor) ∨ (2 * (q - q.floor) = 1 ∧ q.floor % 2 = 1) then q.floor + 1
  else q.floor

/-- The greatest `e` with `2 ^ e ≤ q`, for a positive `q`. -/
def floorLog2 (q : Rat) : Int :=
  let e : Int := (q.num.natAbs.log2 : Int) - (q.den.log2 : Int)
  if q < (2 : Rat) ^ e then e - 1 else e

/-- The magnitude of `q`. -/
def magnitude (q : Rat) : Rat := if q < 0 then -q else q

/-- The distance between neighbouring numbers of the format around `q`: 53 bits reach down from
the leading bit, but never below `2 ^ (-1074)`. -/
def spacing (q : Rat) : Rat := (2 : Rat) ^ max (floorLog2 (magnitude q) - 52) (-1074)

/-- The number of the format nearest to `q`, ties to the even multiple of the spacing. -/
def roundRat (q : Rat) : Rat := nearestInt (q / spacing q) * spacing q

/-- `q` rounded to a score; a negative number that rounds to zero keeps its sign. -/
def ofRat (q : Rat) : Score :=
  if roundRat q = 0 ∧ q < 0 then negZero else num (roundRat q)

/-- The greatest finite number of the format. -/
def greatest : Rat := ((2 : Rat) ^ (53 : Nat) - 1) * (2 : Rat) ^ (971 : Nat)

/-- `q` rounded to a score, or nothing when it is out of the format's range. -/
def ofRat? (q : Rat) : Option Score :=
  if magnitude (roundRat q) ≤ greatest then some (ofRat q) else none

/-! ## Operations -/

/-- The number, without the sign of a zero. -/
def value : Score → Rat
  | num q => q
  | negZero => 0

/-- Whether the score carries a minus sign. -/
def isNegative : Score → Bool
  | num q => decide (q < 0)
  | negZero => true

instance (n : Nat) : OfNat Score n := ⟨ofRat (n : Rat)⟩

instance : OfScientific Score := ⟨fun m s e => ofRat (OfScientific.ofScientific m s e)⟩

/-- A count as a score. -/
def ofNat (n : Nat) : Score := ofRat (n : Rat)

/-- The sum; only two negative zeros make one. -/
def add : Score → Score → Score
  | negZero, negZero => negZero
  | a, b => ofRat (a.value + b.value)

/-- The opposite. -/
def neg : Score → Score
  | negZero => num 0
  | num q => if q = 0 then negZero else num (-q)

/-- The difference. -/
def sub (a b : Score) : Score := add a (neg b)

/-- The product; a zero product takes its sign from the factors. -/
def mul (a b : Score) : Score :=
  if a.value * b.value = 0 then (if a.isNegative = b.isNegative then num 0 else negZero)
  else ofRat (a.value * b.value)

instance : Add Score := ⟨add⟩
instance : Neg Score := ⟨neg⟩
instance : Sub Score := ⟨sub⟩
instance : Mul Score := ⟨mul⟩
instance : LE Score := ⟨fun a b => a.value ≤ b.value⟩
instance : LT Score := ⟨fun a b => a.value < b.value⟩
instance (a b : Score) : Decidable (a ≤ b) := inferInstanceAs (Decidable (a.value ≤ b.value))
instance (a b : Score) : Decidable (a < b) := inferInstanceAs (Decidable (a.value < b.value))
instance : Min Score := ⟨fun a b => if a ≤ b then a else b⟩
instance : Max Score := ⟨fun a b => if a < b then b else a⟩

/-- `x` held between `0` and `1`. -/
def clamp (x : Score) : Score := if x < 0 then 0 else if 1 < x then 1 else x

/-! ## Lemmas -/

theorem le_def {a b : Score} : a ≤ b ↔ a.value ≤ b.value := Iff.rfl

theorem lt_def {a b : Score} : a < b ↔ a.value < b.value := Iff.rfl

theorem value_ofRat (q : Rat) : (ofRat q).value = roundRat q := by
  unfold ofRat
  split
  · rename_i h; exact h.1.symm
  · rfl

theorem roundRat_zero : roundRat 0 = 0 := by
  unfold roundRat
  rw [Rat.div_def, Rat.zero_mul]
  decide +kernel

theorem value_add (a b : Score) : (a + b).value = roundRat (a.value + b.value) := by
  show (add a b).value = _
  unfold add
  split
  · show (0 : Rat) = roundRat (0 + 0)
    rw [Rat.add_zero, roundRat_zero]
  · exact value_ofRat _

theorem value_mul (a b : Score) : (a * b).value = roundRat (a.value * b.value) := by
  show (mul a b).value = _
  unfold mul
  split
  · rename_i h
    rw [h, roundRat_zero]
    split <;> rfl
  · exact value_ofRat _

end Score

end PlayerCommands
