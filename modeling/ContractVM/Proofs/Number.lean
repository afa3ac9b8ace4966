/-
Rounding natural numbers to 53 bits.

A place in the log is counted in `Number`s and stored as an integer.  What comes
back is the same number, because rounding a natural number gives a natural number
(`nearest_natCast`) that rounds to itself (`rounded_rounded`).  Up to 2⁵³ nothing
is rounded at all.
-/
import ContractVM.Number
import Mathlib.Algebra.Group.Nat.Defs

namespace ContractVM
namespace Number

/-- The natural number of 53 bits nearest to `n`. -/
def rounded (n : Nat) : Nat := roundDiv n (2 ^ (n.log2 - 52)) * 2 ^ (n.log2 - 52)

theorem roundDiv_mul (m d : Nat) (hd : 0 < d) : roundDiv (m * d) d = m := by
  unfold roundDiv
  simp only [Nat.mul_mod_left, Nat.mul_div_cancel m hd, Nat.mul_zero, if_pos hd]

theorem rounded_of_dvd {n : Nat} (h : 2 ^ (n.log2 - 52) ∣ n) : rounded n = n := by
  obtain ⟨m, hm⟩ := h
  unfold rounded
  generalize 2 ^ (n.log2 - 52) = d at hm ⊢
  rcases Nat.eq_zero_or_pos d with rfl | hd
  · rw [Nat.mul_zero, hm, Nat.zero_mul]
  · rw [hm, Nat.mul_comm d m, roundDiv_mul m d hd]

theorem rounded_of_le {n : Nat} (h : n ≤ 2 ^ 53) : rounded n = n := by
  rcases Nat.lt_or_eq_of_le h with hlt | rfl
  · refine rounded_of_dvd ?_
    have hlog : n.log2 - 52 = 0 := by
      rcases Nat.eq_zero_or_pos n with rfl | hn
      · rfl
      · have := (Nat.log2_lt (by omega)).2 hlt
        omega
    rw [hlog]
    exact Nat.one_dvd n
  · rfl

/-- A quotient of 53 bits stays one, or becomes the least number of 54. -/
theorem roundDiv_bounds {n d : Nat} (hd : 0 < d) (hlo : 2 ^ 52 * d ≤ n) (hhi : n < 2 ^ 53 * d) :
    2 ^ 52 ≤ roundDiv n d ∧ roundDiv n d ≤ 2 ^ 53 := by
  have hlo' : 2 ^ 52 ≤ n / d := (Nat.le_div_iff_mul_le hd).2 hlo
  have hhi' : n / d < 2 ^ 53 := (Nat.div_lt_iff_lt_mul hd).2 hhi
  unfold roundDiv
  simp only
  split
  · omega
  · split
    · omega
    · split <;> omega

theorem log2_mul_pow {m e : Nat} (hlo : 2 ^ 52 ≤ m) (hhi : m ≤ 2 ^ 53) :
    2 ^ ((m * 2 ^ e).log2 - 52) ∣ m * 2 ^ e := by
  have hpos : m * 2 ^ e ≠ 0 := Nat.mul_ne_zero (by omega) (Nat.ne_of_gt (Nat.two_pow_pos e))
  rcases Nat.lt_or_eq_of_le hhi with hlt | rfl
  · have hlog : (m * 2 ^ e).log2 < e + 53 := by
      rw [Nat.log2_lt hpos, Nat.add_comm, Nat.pow_add]
      exact Nat.mul_lt_mul_of_pos_right hlt (Nat.two_pow_pos e)
    exact Nat.dvd_trans (Nat.pow_dvd_pow 2 (by omega)) (Nat.dvd_mul_left _ _)
  · rw [← Nat.pow_add, Nat.log2_two_pow]
    exact Nat.pow_dvd_pow 2 (by omega)

theorem rounded_rounded (n : Nat) : rounded (rounded n) = rounded n := by
  by_cases h : n ≤ 2 ^ 53
  · rw [rounded_of_le h, rounded_of_le h]
  · have hn : n ≠ 0 := by omega
    have hlog : 52 ≤ n.log2 := by
      rw [Nat.le_log2 hn]
      omega
    have hsplit : ∀ k, 2 ^ (k + (n.log2 - 52)) = 2 ^ k * 2 ^ (n.log2 - 52) := fun k => Nat.pow_add ..
    have hlo : 2 ^ 52 * 2 ^ (n.log2 - 52) ≤ n := by
      rw [← hsplit, Nat.add_sub_cancel' hlog]
      exact Nat.log2_self_le hn
    have hhi : n < 2 ^ 53 * 2 ^ (n.log2 - 52) := by
      rw [← hsplit, show 53 + (n.log2 - 52) = n.log2 + 1 by omega]
      exact Nat.lt_log2_self
    obtain ⟨hmlo, hmhi⟩ := roundDiv_bounds (Nat.two_pow_pos _) hlo hhi
    exact rounded_of_dvd (log2_mul_pow hmlo hmhi)

theorem exponent_one {n : Nat} (hn : n ≠ 0) : exponent n 1 = (n.log2 : Int) - 52 := by
  have hone : Nat.log2 1 = 0 := by decide
  unfold exponent
  rw [hone]
  simp only [Int.natCast_zero, Int.sub_zero]
  have hreached : 1 <<< (n.log2 : Int).toNat ≤ n := by
    rw [Int.toNat_natCast, Nat.one_shiftLeft]
    exact Nat.log2_self_le hn
  rw [if_pos (Int.natCast_nonneg _), if_pos (decide_eq_true hreached), if_neg (by omega)]

theorem mkRat_natCast (n : Nat) : mkRat n 1 = (n : Rat) := Rat.mkRat_self (n : Rat)

theorem onGrid_one {n : Nat} (hn : n ≠ 0) : onGrid n 1 (exponent n 1) = (rounded n : Rat) := by
  rw [exponent_one hn]
  unfold onGrid
  by_cases h : 52 ≤ n.log2
  · have he : ((n.log2 : Int) - 52).toNat = n.log2 - 52 := by omega
    rw [if_pos (by omega), he, Nat.one_shiftLeft, Nat.shiftLeft_eq]
    exact mkRat_natCast (rounded n)
  · -- Below 2⁵² the grid is finer than the integers, and `n` lies on it.
    have he : n ≤ 2 ^ 53 := by
      have hlt := (Nat.log2_lt hn).1 (Nat.lt_of_not_le h)
      omega
    have hround : ∀ m, roundDiv m 1 = m := fun m => by
      rw [← Nat.mul_one m, roundDiv_mul m 1 Nat.one_pos, Nat.mul_one]
    rw [if_neg (by omega), rounded_of_le he, hround, Nat.one_shiftLeft, Nat.shiftLeft_eq]
    generalize hd : 2 ^ (-((n.log2 : Int) - 52)).toNat = d
    have hpos : d ≠ 0 := hd ▸ Nat.ne_of_gt (Nat.two_pow_pos _)
    have hmul := Rat.mkRat_mul_right (n := n) (d := 1) hpos
    rw [Nat.one_mul, mkRat_natCast] at hmul
    rw [Int.natCast_mul]
    exact hmul

/-- From here on rounding reaches infinity. -/
def limit : Nat := 1 <<< 1024

theorem lt_limit : 2 ^ 53 < limit := by
  have hpow : ∀ k, 53 < k → 2 ^ 53 < 1 <<< k := fun k hk => by
    rw [Nat.one_shiftLeft]
    exact Nat.pow_lt_pow_right (by decide) hk
  exact hpow 1024 (by decide)

/-- A natural number rounds to a natural number, or to infinity. -/
theorem nearest_natCast (n : Nat) :
    nearest (n : Rat) = if limit ≤ rounded n then .infinite false else .ofNat (rounded n) := by
  by_cases hn : n = 0
  · subst hn
    have hlimit := lt_limit
    rw [rounded_of_le (Nat.zero_le _), if_neg (by omega)]
    rfl
  · have hnum : ¬ (n : Rat).num = 0 := fun h => hn (Int.ofNat_eq_zero.1 h)
    have hneg : ¬ (n : Rat).num < 0 := Int.not_lt.2 (Int.natCast_nonneg n)
    have hgrid : onGrid (n : Rat).num.natAbs (n : Rat).den
        (exponent (n : Rat).num.natAbs (n : Rat).den) = (rounded n : Rat) := onGrid_one hn
    have hle : mkRat ((1 <<< 1024 : Nat) : Int) 1 ≤ (rounded n : Rat) ↔ limit ≤ rounded n := by
      rw [mkRat_natCast]
      exact Rat.natCast_le_natCast
    unfold nearest
    simp only [hgrid, if_neg hnum, if_neg hneg, decide_eq_false hneg]
    by_cases h : limit ≤ rounded n
    · rw [if_pos h]
      exact if_pos (hle.2 h)
    · rw [if_neg h]
      exact if_neg fun h' => h (hle.1 h')

theorem nearest_of_le {n : Nat} (h : n ≤ 2 ^ 53) : nearest (n : Rat) = .ofNat n := by
  have hlimit := lt_limit
  rw [nearest_natCast, rounded_of_le h, if_neg (by omega)]

/-- A natural number that rounds to an integer is read back from it. -/
theorem nearest_toInt {n : Nat} {i : Int} (h : (nearest (n : Rat)).toInt? = some i) :
    ∃ k : Nat, i = k ∧ nearest (k : Rat) = nearest (n : Rat) := by
  rw [nearest_natCast] at h
  split at h
  · cases h
  · next hfinite =>
    rw [toInt?_ofNat] at h
    cases h
    refine ⟨rounded n, rfl, ?_⟩
    rw [nearest_natCast, nearest_natCast, rounded_rounded]

end Number
end ContractVM
