import Mathlib.Tactic

/-!
# Integers in binary floating point

The conversion of an integer to a floating point number with `p` significant bits,
rounded to nearest with ties to even. The exponent is unbounded, which is exact for
integers far below the largest number of the format. `round_eq_self_iff` says which
integers are converted without loss.
-/

namespace Ubiq.Foundation.BinaryFloat

/-- The distance of two neighbours with `p` bits at the size of `n`. -/
def spacing (p n : Nat) : Nat := 2 ^ (n.log2 + 1 - p)

/-- The nearest multiple of the spacing; of two nearest ones the even multiple. -/
def roundNat (p n : Nat) : Nat :=
  if 2 * (n % spacing p n) < spacing p n ∨
      2 * (n % spacing p n) = spacing p n ∧ n / spacing p n % 2 = 0 then
    n / spacing p n * spacing p n
  else
    (n / spacing p n + 1) * spacing p n

/-- Rounding treats both signs alike. -/
def round (p : Nat) (n : Int) : Int :=
  if n < 0 then -(roundNat p n.natAbs : Int) else roundNat p n.natAbs

/-- `n` has at most `p` significant bits. -/
def Representable (p : Nat) (n : Int) : Prop :=
  ∃ mantissa exponent : Nat, mantissa < 2 ^ p ∧ n.natAbs = mantissa * 2 ^ exponent

theorem spacing_pos (p n : Nat) : 0 < spacing p n := Nat.two_pow_pos _

/-- Rounding is exact on the multiples of the spacing. -/
theorem roundNat_eq_self_iff (p n : Nat) : roundNat p n = n ↔ spacing p n ∣ n := by
  have hpos := spacing_pos p n
  have hdiv := Nat.div_add_mod' n (spacing p n)
  have hlt := Nat.mod_lt n hpos
  constructor
  · intro hround
    unfold roundNat at hround
    split at hround
    · exact ⟨n / spacing p n, by rw [mul_comm, hround]⟩
    · -- rounding up passes `n`
      rw [Nat.add_mul, Nat.one_mul] at hround
      omega
  · intro hdvd
    have hzero := Nat.mod_eq_zero_of_dvd hdvd
    unfold roundNat
    rw [if_pos (Or.inl (by omega))]
    omega

/-- Numbers with `p` bits are the multiples of their spacing. -/
theorem spacing_dvd_iff (p n : Nat) :
    spacing p n ∣ n ↔ ∃ mantissa exponent : Nat, mantissa < 2 ^ p ∧ n = mantissa * 2 ^ exponent := by
  constructor
  · rintro ⟨mantissa, hmantissa⟩
    refine ⟨mantissa, n.log2 + 1 - p, ?_, by rw [mul_comm]; exact hmantissa⟩
    rcases Nat.eq_zero_or_pos mantissa with rfl | hpos
    · exact Nat.two_pow_pos p
    -- `n < 2 ^ (log2 n + 1)`, and the spacing takes all but `p` of these bits
    have hlog : n < 2 ^ (n.log2 + 1) := Nat.lt_log2_self
    have hsplit : (2 : Nat) ^ (n.log2 + 1) ≤ spacing p n * 2 ^ p := by
      rw [spacing, ← pow_add]
      exact Nat.pow_le_pow_right (by decide) (by omega)
    have hlt : spacing p n * mantissa < spacing p n * 2 ^ p := hmantissa ▸ hlog.trans_le hsplit
    exact Nat.lt_of_mul_lt_mul_left hlt
  · rintro ⟨mantissa, exponent, hmantissa, hn⟩
    rcases Nat.eq_zero_or_pos n with rfl | hpos
    · exact dvd_zero _
    have hlow : 2 ^ n.log2 ≤ n := Nat.log2_self_le hpos.ne'
    have hhigh : n < 2 ^ (p + exponent) := by
      rw [hn, pow_add]
      exact Nat.mul_lt_mul_of_pos_right hmantissa (Nat.two_pow_pos exponent)
    have hlog : n.log2 < p + exponent :=
      (Nat.pow_lt_pow_iff_right (by decide)).mp (hlow.trans_lt hhigh)
    have hexponent : n.log2 + 1 - p ≤ exponent := by omega
    rw [hn]
    exact (hn ▸ Nat.pow_dvd_pow 2 hexponent).trans (Dvd.intro_left mantissa rfl)

/-- **Lossless conversion.** -/
theorem round_eq_self_iff (p : Nat) (n : Int) : round p n = n ↔ Representable p n := by
  have hround : round p n = n ↔ roundNat p n.natAbs = n.natAbs := by
    unfold round
    split <;> omega
  rw [hround, roundNat_eq_self_iff, spacing_dvd_iff]
  rfl

end Ubiq.Foundation.BinaryFloat
