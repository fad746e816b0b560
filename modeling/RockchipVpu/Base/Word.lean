import Mathlib.Algebra.Order.Floor.Div
import Mathlib.Tactic.NormNum
import Mathlib.Tactic.Ring

/-! Fixed-width word arithmetic of C drivers: rounding up to a power of two by
masks, the alignment test, clamping and division rounded up. Each operation is
written on bit vectors as the usual macros compute it; the lemmas say which
natural number the result stands for as long as nothing wraps, and give the
order laws of the least multiple above a number. -/

namespace RockchipVpu.Base

/-- An unsigned 32-bit integer. -/
abbrev U32 := BitVec 32

variable {w : ℕ}

/-! ### Multiples above a number -/

/-- The least multiple of `s` that is not below `x`. -/
def nextMultiple (s x : ℕ) : ℕ := x ⌈/⌉ s * s

theorem dvd_nextMultiple (s x : ℕ) : s ∣ nextMultiple s x := Nat.dvd_mul_left s _

theorem le_nextMultiple {s : ℕ} (hs : 0 < s) (x : ℕ) : x ≤ nextMultiple s x := by
  have h := le_smul_ceilDiv (b := x) hs
  rwa [smul_eq_mul, mul_comm] at h

theorem nextMultiple_le {s x m : ℕ} (hs : 0 < s) (hx : x ≤ m) (hm : s ∣ m) :
    nextMultiple s x ≤ m := by
  obtain ⟨c, rfl⟩ := hm
  have h : x ⌈/⌉ s ≤ c := (ceilDiv_le_iff_le_mul hs).mpr hx
  rw [nextMultiple, mul_comm]
  exact Nat.mul_le_mul_left s h

theorem nextMultiple_lt {s : ℕ} (hs : 0 < s) (x : ℕ) : nextMultiple s x < x + s := by
  rw [nextMultiple, Nat.ceilDiv_eq_add_pred_div]
  have h := Nat.div_mul_le_self (x + s - 1) s
  omega

theorem nextMultiple_eq_self {s x : ℕ} (hs : 0 < s) (hx : s ∣ x) : nextMultiple s x = x :=
  le_antisymm (nextMultiple_le hs le_rfl hx) (le_nextMultiple hs x)

/-! ### Masks -/

theorem or_mask (a k : ℕ) : a ||| (2 ^ k - 1) = 2 ^ k * (a / 2 ^ k) + (2 ^ k - 1) := by
  have hpos : 0 < 2 ^ k := Nat.two_pow_pos k
  have hr : a % 2 ^ k < 2 ^ k := Nat.mod_lt a hpos
  have hmask : a % 2 ^ k ||| (2 ^ k - 1) = 2 ^ k - 1 := by
    apply Nat.eq_of_testBit_eq
    intro i
    rw [Nat.testBit_or, Nat.testBit_two_pow_sub_one, Nat.testBit_mod_two_pow]
    by_cases hi : i < k <;> simp [hi]
  calc a ||| (2 ^ k - 1)
      = (2 ^ k * (a / 2 ^ k) + a % 2 ^ k) ||| (2 ^ k - 1) := by rw [Nat.div_add_mod]
    _ = 2 ^ k * (a / 2 ^ k) ||| (a % 2 ^ k ||| (2 ^ k - 1)) := by
        rw [Nat.two_pow_add_eq_or_of_lt hr, Nat.or_assoc]
    _ = 2 ^ k * (a / 2 ^ k) + (2 ^ k - 1) := by
        rw [hmask, Nat.two_pow_add_eq_or_of_lt (by omega)]

theorem or_mask_add_one (a k : ℕ) : (a ||| (2 ^ k - 1)) + 1 = nextMultiple (2 ^ k) (a + 1) := by
  have hpos : 0 < 2 ^ k := Nat.two_pow_pos k
  rw [or_mask, nextMultiple, Nat.ceilDiv_eq_add_pred_div,
    show a + 1 + 2 ^ k - 1 = a + 2 ^ k by omega, Nat.add_div_right _ hpos, add_mul, one_mul,
    mul_comm (a / 2 ^ k)]
  omega

/-! ### The macros -/

/-- `round_up(x, y)`: the mask form, meaningful for powers of two. -/
def roundUp (x y : BitVec w) : BitVec w := ((x - 1#w) ||| (y - 1#w)) + 1#w

/-- `IS_ALIGNED(x, a)`. -/
def isAligned (x a : BitVec w) : Bool := x &&& (a - 1#w) == 0#w

/-- `clamp(val, lo, hi)`: the minimum of `hi` and of the maximum of `val` and `lo`. -/
def clamp (x lo hi : BitVec w) : BitVec w :=
  let m := if lo < x then x else lo
  if m < hi then m else hi

/-- `DIV_ROUND_UP(n, d)`. -/
def divRoundUp (n d : BitVec w) : BitVec w := (n + d - 1#w) / d

theorem toNat_sub_one {x : BitVec w} (hx : 0 < x.toNat) : (x - 1#w).toNat = x.toNat - 1 := by
  have h1 : (1#w).toNat = 1 := by
    rw [BitVec.toNat_ofNat]
    exact Nat.mod_eq_of_lt (lt_of_le_of_lt hx x.isLt)
  rw [BitVec.toNat_sub_of_le (by rw [BitVec.le_def, h1]; exact hx), h1]

/-- `round_up` is the least multiple of the step, cut to the width of the word. -/
theorem toNat_roundUp_mod {x y : BitVec w} {k : ℕ} (hy : y.toNat = 2 ^ k) :
    (roundUp x y).toNat = nextMultiple (2 ^ k) x.toNat % 2 ^ w := by
  have hpos : 0 < 2 ^ k := Nat.two_pow_pos k
  have hy1 : (y - 1#w).toNat = 2 ^ k - 1 := by rw [toNat_sub_one (by omega), hy]
  rcases Nat.eq_zero_or_pos x.toNat with hx0 | hx0
  · obtain rfl : x = 0#w := BitVec.eq_of_toNat_eq (by simpa using hx0)
    have hall : (0#w - 1#w) ||| (y - 1#w) = BitVec.allOnes w := by
      rw [BitVec.zero_sub, BitVec.neg_one_eq_allOnes, BitVec.allOnes_or]
    rw [roundUp, hall, ← BitVec.neg_one_eq_allOnes, BitVec.add_left_neg]
    simp [nextMultiple]
  · have hval : ((x - 1#w) ||| (y - 1#w)).toNat + 1 = nextMultiple (2 ^ k) x.toNat := by
      rw [BitVec.toNat_or, toNat_sub_one hx0, hy1, or_mask_add_one, Nat.sub_add_cancel hx0]
    rw [roundUp, BitVec.toNat_add, BitVec.toNat_ofNat, Nat.add_mod_mod, hval]

/-- Without wrap `round_up` is the least multiple of the step. -/
theorem toNat_roundUp {x y : BitVec w} {k : ℕ} (hy : y.toNat = 2 ^ k)
    (hx : x.toNat + 2 ^ k ≤ 2 ^ w) : (roundUp x y).toNat = nextMultiple (2 ^ k) x.toNat := by
  have hlt : nextMultiple (2 ^ k) x.toNat < 2 ^ w :=
    (nextMultiple_lt (Nat.two_pow_pos k) _).trans_le hx
  rw [toNat_roundUp_mod hy, Nat.mod_eq_of_lt hlt]

/-- Within the last step below the end of the range `round_up` wraps to zero. -/
theorem roundUp_wrap {x y : BitVec w} {k : ℕ} (hy : y.toNat = 2 ^ k)
    (hx : 2 ^ w < x.toNat + 2 ^ k) : roundUp x y = 0#w := by
  have hdvd : 2 ^ k ∣ 2 ^ w := by
    have hlt : 2 ^ k < 2 ^ w := hy ▸ y.isLt
    exact pow_dvd_pow 2 ((Nat.pow_lt_pow_iff_right (by norm_num)).mp hlt).le
  have hle := nextMultiple_le (Nat.two_pow_pos k) x.isLt.le hdvd
  have hge := le_nextMultiple (Nat.two_pow_pos k) x.toNat
  have heq : nextMultiple (2 ^ k) x.toNat = 2 ^ w := by
    obtain ⟨a, ha⟩ := dvd_nextMultiple (2 ^ k) x.toNat
    obtain ⟨b, hb⟩ := hdvd
    rw [ha, hb] at hle ⊢
    have hab : 2 ^ k * b < 2 ^ k * (a + 1) := by
      rw [mul_add, mul_one]
      omega
    have hlt := Nat.lt_of_mul_lt_mul_left hab
    rw [le_antisymm (Nat.le_of_mul_le_mul_left hle (Nat.two_pow_pos k)) (Nat.lt_succ_iff.mp hlt)]
  apply BitVec.eq_of_toNat_eq
  rw [toNat_roundUp_mod hy, heq, Nat.mod_self]
  simp

/-- A step of zero gives zero. -/
theorem roundUp_zero_step (x : BitVec w) : roundUp x 0#w = 0#w := by
  rw [roundUp, BitVec.zero_sub, BitVec.neg_one_eq_allOnes, BitVec.or_allOnes,
    ← BitVec.neg_one_eq_allOnes, BitVec.add_left_neg]

/-- The alignment test decides divisibility. -/
theorem isAligned_iff {x a : BitVec w} {k : ℕ} (ha : a.toNat = 2 ^ k) :
    isAligned x a = true ↔ 2 ^ k ∣ x.toNat := by
  have ha1 : (a - 1#w).toNat = 2 ^ k - 1 := by
    rw [toNat_sub_one (by rw [ha]; exact Nat.two_pow_pos k), ha]
  rw [isAligned, beq_iff_eq, ← BitVec.toNat_inj, BitVec.toNat_and, ha1,
    Nat.and_two_pow_sub_one_eq_mod, Nat.dvd_iff_mod_eq_zero]
  simp

/-- Without wrap `DIV_ROUND_UP` is division rounded up. -/
theorem toNat_divRoundUp {n d : BitVec w} (hd : 0 < d.toNat) (h : n.toNat + d.toNat < 2 ^ w) :
    (divRoundUp n d).toNat = n.toNat ⌈/⌉ d.toNat := by
  have hsum : (n + d).toNat = n.toNat + d.toNat := by
    rw [BitVec.toNat_add, Nat.mod_eq_of_lt h]
  rw [divRoundUp, BitVec.toNat_udiv, toNat_sub_one (by omega), hsum, Nat.ceilDiv_eq_add_pred_div]

theorem toNat_clamp (x lo hi : BitVec w) :
    (clamp x lo hi).toNat = min (max x.toNat lo.toNat) hi.toNat := by
  have hmax : (if lo < x then x else lo).toNat = max x.toNat lo.toNat := by
    split_ifs with h <;> rw [BitVec.lt_def] at h <;> omega
  simp only [clamp]
  generalize (if lo < x then x else lo) = m at hmax ⊢
  split_ifs with h <;> rw [BitVec.lt_def, hmax] at h <;> omega

/-- What is within the limits is kept. -/
theorem clamp_eq_self {x lo hi : BitVec w} (hlo : lo.toNat ≤ x.toNat) (hhi : x.toNat ≤ hi.toNat) :
    clamp x lo hi = x := by
  apply BitVec.eq_of_toNat_eq
  rw [toNat_clamp]
  omega

theorem clamp_clamp (x lo hi : BitVec w) : clamp (clamp x lo hi) lo hi = clamp x lo hi := by
  apply BitVec.eq_of_toNat_eq
  simp only [toNat_clamp]
  omega

theorem le_clamp {x lo hi : BitVec w} (h : lo.toNat ≤ hi.toNat) :
    lo.toNat ≤ (clamp x lo hi).toNat := by
  rw [toNat_clamp]; omega

theorem clamp_le (x lo hi : BitVec w) : (clamp x lo hi).toNat ≤ hi.toNat := by
  rw [toNat_clamp]; omega

end RockchipVpu.Base
