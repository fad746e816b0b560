import Mathlib.Order.Fin.Basic
import Mathlib.Tactic.Ring

/-! Fields of words. A field is a range of bits read as a number. A word put together by
`|` from shifted values gives each value back, as far as its field is wide enough and no
other value reaches into it. -/

namespace RockchipVpu.Base

variable {w : ℕ}

/-- The `len` bits from bit `lo` on. -/
def field (lo len : ℕ) (x : BitVec w) : ℕ := (x.extractLsb' lo len).toNat

theorem field_or (lo len : ℕ) (x y : BitVec w) :
    field lo len (x ||| y) = field lo len x ||| field lo len y := by
  rw [field, BitVec.extractLsb'_or, BitVec.toNat_or]
  rfl

/-- A value shifted to its place is read back, cut to the width of the field. -/
theorem field_shiftLeft_self {lo len : ℕ} (h : lo + len ≤ w) (x : BitVec w) :
    field lo len (x <<< lo) = x.toNat % 2 ^ len := by
  have hset : (x <<< lo).extractLsb' lo len = x.setWidth len := by
    ext i hi
    have hlt : lo + i < w := by omega
    have hge : ¬ lo + i < lo := by omega
    simp [hlt, hge, BitVec.getLsbD_eq_getElem (show i < w by omega)]
  rw [field, hset, BitVec.toNat_setWidth]

/-- A value shifted past the end of the field leaves it empty. -/
theorem field_shiftLeft_of_le {lo len s : ℕ} (h : lo + len ≤ s) (x : BitVec w) :
    field lo len (x <<< s) = 0 := by
  have hzero : (x <<< s).extractLsb' lo len = BitVec.ofNat len 0 := by
    ext i hi
    have hlt : lo + i < s := by omega
    simp [hlt]
  rw [field, hzero, BitVec.toNat_zero]

/-- A value that ends before the field leaves it empty. -/
theorem field_shiftLeft_of_lt {lo len s : ℕ} {x : BitVec w} (hs : s ≤ lo)
    (hx : x.toNat < 2 ^ (lo - s)) : field lo len (x <<< s) = 0 := by
  have hzero : (x <<< s).extractLsb' lo len = BitVec.ofNat len 0 := by
    ext i hi
    have hle : 2 ^ (lo - s) ≤ 2 ^ (lo + i - s) := Nat.pow_le_pow_right (by decide) (by omega)
    have hbit : x.getLsbD (lo + i - s) = false :=
      Nat.testBit_lt_two_pow (Nat.lt_of_lt_of_le hx hle)
    simp [hbit]
  rw [field, hzero, BitVec.toNat_zero]

theorem field_zero {len : ℕ} (h : len ≤ w) (x : BitVec w) : field 0 len x = x.toNat % 2 ^ len := by
  have hself : field 0 len (x <<< 0) = x.toNat % 2 ^ len := field_shiftLeft_self (by omega) x
  rwa [BitVec.shiftLeft_zero] at hself

theorem field_of_lt {lo len : ℕ} {x : BitVec w} (hx : x.toNat < 2 ^ lo) : field lo len x = 0 := by
  rw [← BitVec.shiftLeft_zero x]
  exact field_shiftLeft_of_lt (Nat.zero_le lo) hx

/-- The mask of the `len` lowest bits. -/
theorem toNat_and_mask {len : ℕ} {m : BitVec w} (hm : m.toNat = 2 ^ len - 1) (x : BitVec w) :
    (x &&& m).toNat = x.toNat % 2 ^ len := by
  rw [BitVec.toNat_and, hm, Nat.and_two_pow_sub_one_eq_mod]

/-- A value masked to the width of its field ends where the field does. -/
theorem toNat_and_mask_lt {len : ℕ} {m : BitVec w} (hm : m.toNat = 2 ^ len - 1) (x : BitVec w) :
    (x &&& m).toNat < 2 ^ len := by
  rw [toNat_and_mask hm]
  exact Nat.mod_lt _ (Nat.two_pow_pos len)

/-! ### Two values above some low bits -/

/-- `c` at the bottom, `a` from bit `s` on and `b` from bit `t` on. -/
def stack (s t : ℕ) (c a b : BitVec w) : BitVec w := b <<< t ||| a <<< s ||| c

section Stack
variable {s n t m k : ℕ} {c : BitVec w} (hc : c.toNat < 2 ^ s) (a b : BitVec w)

theorem field_stack (lo len : ℕ) : field lo len (stack s t c a b) =
    field lo len (b <<< t) ||| field lo len (a <<< s) ||| field lo len c := by
  rw [stack, field_or, field_or]

include hc

theorem field_stack_low (hs : s ≤ w) (hst : s ≤ t) :
    field 0 s (stack s t c a b) = c.toNat := by
  rw [field_stack, field_shiftLeft_of_le (by omega), field_shiftLeft_of_le (by omega),
    field_zero hs, Nat.mod_eq_of_lt hc, Nat.zero_or, Nat.zero_or]

/-- The lower value is read back, cut to the width of its field. -/
theorem field_stack_mid (hst : s + n ≤ t) (hn : s + n ≤ w) :
    field s n (stack s t c a b) = a.toNat % 2 ^ n := by
  rw [field_stack, field_shiftLeft_of_le hst, field_shiftLeft_self hn, field_of_lt hc,
    Nat.zero_or, Nat.or_zero]

/-- A lower value that fits its field reaches no bit above it. -/
theorem field_stack_gap {a : BitVec w} (ha : a.toNat < 2 ^ n) (hst : s + n + k ≤ t) :
    field (s + n) k (stack s t c a b) = 0 := by
  have hc' : c.toNat < 2 ^ (s + n) := hc.trans_le (Nat.pow_le_pow_right (by decide) (by omega))
  rw [field_stack, field_shiftLeft_of_le hst,
    field_shiftLeft_of_lt (by omega) (by rwa [Nat.add_sub_cancel_left]), field_of_lt hc']
  rfl

/-- The upper value is read back when the lower one fits its field. -/
theorem field_stack_high {a : BitVec w} (ha : a.toNat < 2 ^ n) (hst : s + n ≤ t)
    (hm : t + m ≤ w) : field t m (stack s t c a b) = b.toNat % 2 ^ m := by
  have ha' : a.toNat < 2 ^ (t - s) := ha.trans_le (Nat.pow_le_pow_right (by decide) (by omega))
  have hc' : c.toNat < 2 ^ t := hc.trans_le (Nat.pow_le_pow_right (by decide) (by omega))
  rw [field_stack, field_shiftLeft_self hm, field_shiftLeft_of_lt (by omega) ha',
    field_of_lt hc', Nat.or_zero, Nat.or_zero]

/-- When both fit, nothing is above the upper one. -/
theorem field_stack_top {a b : BitVec w} (ha : a.toNat < 2 ^ n) (hb : b.toNat < 2 ^ m)
    (hst : s + n ≤ t) : field (t + m) k (stack s t c a b) = 0 := by
  have ha' : a.toNat < 2 ^ (t + m - s) :=
    ha.trans_le (Nat.pow_le_pow_right (by decide) (by omega))
  have hc' : c.toNat < 2 ^ (t + m) := hc.trans_le (Nat.pow_le_pow_right (by decide) (by omega))
  rw [field_stack, field_shiftLeft_of_lt (by omega) (by rwa [Nat.add_sub_cancel_left]),
    field_shiftLeft_of_lt (by omega) ha', field_of_lt hc']
  rfl

end Stack

/-! ### Bytes -/

/-- A byte shifted to place `j`, read at place `k`. -/
theorem field_byte {b : BitVec 32} (hb : b.toNat < 256) (j k : Fin 4) :
    field (8 * k) 8 (b <<< (8 * j.val)) = if j = k then b.toNat else 0 := by
  rcases lt_trichotomy j k with h | h | h
  · rw [if_neg h.ne]
    refine field_shiftLeft_of_lt (by omega) (Nat.lt_of_lt_of_le hb ?_)
    exact Nat.pow_le_pow_right (show 0 < 2 by decide) (show 8 ≤ 8 * k.val - 8 * j.val by omega)
  · subst h
    rw [if_pos rfl, field_shiftLeft_self (by omega)]
    exact Nat.mod_eq_of_lt hb
  · rw [if_neg h.ne']
    exact field_shiftLeft_of_le (by omega) b

/-- Each of four bytes packed into a word is read back. -/
theorem field_pack {b : Fin 4 → BitVec 32} (hb : ∀ j, (b j).toNat < 256) (k : Fin 4) :
    field (8 * k) 8 (b 0 ||| b 1 <<< 8 ||| b 2 <<< 16 ||| b 3 <<< 24) = (b k).toNat := by
  have h0 : field (8 * k) 8 (b 0) = if 0 = k then (b 0).toNat else 0 := by
    simpa using field_byte (hb 0) 0 k
  have h1 : field (8 * k) 8 (b 1 <<< 8) = if 1 = k then (b 1).toNat else 0 :=
    field_byte (hb 1) 1 k
  have h2 : field (8 * k) 8 (b 2 <<< 16) = if 2 = k then (b 2).toNat else 0 :=
    field_byte (hb 2) 2 k
  have h3 : field (8 * k) 8 (b 3 <<< 24) = if 3 = k then (b 3).toNat else 0 :=
    field_byte (hb 3) 3 k
  rw [field_or, field_or, field_or, h0, h1, h2, h3]
  clear h0 h1 h2 h3
  match k with
  | 0 => simp
  | 1 => simp
  | 2 => simp
  | 3 => simp

end RockchipVpu.Base
