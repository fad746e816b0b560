import Mathlib.Data.List.Basic
import Mathlib.Data.List.Nodup
import Mathlib.Data.BitVec

/-! Loops over a table with a counter of their own. A loop that counts the entries with a
property, up to an index, finds the entry of that index among them. A loop that stores
what it makes of the entries in the next free slot of an array leaves the results as a
prefix and the other slots empty, and a search that skips empty slots sees the results
only. -/

namespace RockchipVpu.Base

variable {α β : Type*}

/-! ### Counting -/

section CountTo
variable {w : ℕ} (p : α → Bool) (index : BitVec w)

/-- The entry with `p` at which the counter `j` meets the index. -/
def countTo : List α → BitVec w → Option α
  | [], _ => none
  | x :: xs, j =>
    if p x then
      if j = index then some x else countTo xs (j + 1)
    else countTo xs j

/-- As long as the counter has not passed the index it cannot wrap. -/
theorem countTo_eq (xs : List α) {j : BitVec w} (hj : j.toNat ≤ index.toNat) :
    countTo p index xs j = (xs.filter p)[index.toNat - j.toNat]? := by
  induction xs generalizing j with
  | nil => rfl
  | cons x xs ih =>
    rw [countTo]
    split_ifs with hp heq
    · rw [List.filter_cons_of_pos hp, heq, Nat.sub_self]
      rfl
    · have hlt : j.toNat < index.toNat := by
        have hne : j.toNat ≠ index.toNat := fun h => heq (BitVec.eq_of_toNat_eq h)
        omega
      have hsucc : (j + 1).toNat = j.toNat + 1 := by
        have hone : (1 : BitVec w).toNat = 1 % 2 ^ w := BitVec.toNat_ofNat _ _
        rw [BitVec.toNat_add, hone, Nat.add_mod_mod]
        exact Nat.mod_eq_of_lt (lt_of_le_of_lt hlt index.isLt)
      have hsub : index.toNat - j.toNat = index.toNat - (j.toNat + 1) + 1 := by omega
      rw [ih (by omega), List.filter_cons_of_pos hp, hsucc, hsub, List.getElem?_cons_succ]
    · rw [ih hj, List.filter_cons_of_neg hp]

theorem countTo_zero (xs : List α) : countTo p index xs 0 = (xs.filter p)[index.toNat]? := by
  have hzero : (0 : BitVec w).toNat = 0 := BitVec.toNat_zero
  rw [countTo_eq p index xs (by omega), hzero, Nat.sub_zero]

end CountTo

/-! ### Listings -/

/-- What is listed under the indices 0, 1, 2, ..., one after the other. -/
theorem filterMap_getElem?_range (xs : List α) (n : ℕ) :
    (List.range n).filterMap (xs[·]?) = xs.take n := by
  induction n with
  | zero => rfl
  | succ n ih =>
    have hlast : [n].filterMap (xs[·]?) = xs[n]?.toList := by cases h : xs[n]? <;> simp [h]
    rw [List.range_succ, List.filterMap_append, ih, hlast, List.take_add_one]

section Indexed
variable {w : ℕ} {xs ys : List α} (hlen : xs.length ≤ 2 ^ w)
include hlen

theorem getElem?_index {k : ℕ} (hk : k < xs.length) :
    xs[(BitVec.ofNat w k).toNat]? = some xs[k] := by
  have hto : (BitVec.ofNat w k).toNat = k := by
    rw [BitVec.toNat_ofNat, Nat.mod_eq_of_lt (hk.trans_le hlen)]
  rw [hto, List.getElem?_eq_getElem hk]

theorem exists_index_of_mem {x : α} (hx : x ∈ xs) : ∃ i : BitVec w, xs[i.toNat]? = some x := by
  obtain ⟨k, hk, rfl⟩ := List.mem_iff_getElem.mp hx
  exact ⟨BitVec.ofNat w k, getElem?_index hlen hk⟩

/-- Without duplicates each member is listed under one index. -/
theorem existsUnique_index (hnd : xs.Nodup) {x : α} (hx : x ∈ xs) :
    ∃! i : BitVec w, xs[i.toNat]? = some x := by
  obtain ⟨i, hi⟩ := exists_index_of_mem hlen hx
  refine ⟨i, hi, fun j hj => BitVec.eq_of_toNat_eq ?_⟩
  have hlt : j.toNat < xs.length := (List.getElem?_eq_some_iff.mp hj).1
  exact (List.getElem?_inj hlt hnd).mp (hj.trans hi.symm)

theorem nodup_of_unique_index (h : ∀ x ∈ xs, ∃! i : BitVec w, xs[i.toNat]? = some x) :
    xs.Nodup := by
  rw [List.nodup_iff_injective_getElem]
  intro i j hij
  have hi : xs[(BitVec.ofNat w i).toNat]? = some xs[i] := getElem?_index hlen i.isLt
  have hj : xs[(BitVec.ofNat w j).toNat]? = some xs[i] :=
    (getElem?_index hlen j.isLt).trans (congrArg some hij.symm)
  have hsame := congrArg BitVec.toNat ((h _ (List.getElem_mem i.isLt)).unique hi hj)
  rw [BitVec.toNat_ofNat, BitVec.toNat_ofNat, Nat.mod_eq_of_lt (i.isLt.trans_le hlen),
    Nat.mod_eq_of_lt (j.isLt.trans_le hlen)] at hsame
  exact Fin.ext hsame

/-- A listing names the members of `ys` and no other, each under exactly one index, when
it is `ys` in some order. -/
theorem indexed_iff_perm (hnd : ys.Nodup) :
    ((∀ (i : BitVec w) x, xs[i.toNat]? = some x → x ∈ ys) ∧
        ∀ x ∈ ys, ∃! i : BitVec w, xs[i.toNat]? = some x) ↔ xs.Perm ys := by
  constructor
  · rintro ⟨hsub, hunique⟩
    have hmem (x : α) (hx : x ∈ xs) : x ∈ ys := by
      obtain ⟨i, hi⟩ := exists_index_of_mem hlen hx
      exact hsub i x hi
    have hxs : xs.Nodup := nodup_of_unique_index hlen fun x hx => hunique x (hmem x hx)
    refine (List.perm_ext_iff_of_nodup hxs hnd).mpr fun x => ⟨hmem x, fun hx => ?_⟩
    obtain ⟨i, hi, -⟩ := hunique x hx
    exact List.mem_of_getElem? hi
  · intro hperm
    refine ⟨fun i x hi => hperm.mem_iff.mp (List.mem_of_getElem? hi), fun x hx => ?_⟩
    exact existsUnique_index hlen (hperm.nodup_iff.mpr hnd) (hperm.mem_iff.mpr hx)

end Indexed

/-! ### Slots -/

/-- An array of `n` slots of which the first ones hold `xs`. -/
def slots (n : ℕ) (xs : List α) : List (Option α) :=
  xs.map some ++ List.replicate (n - xs.length) none

theorem slots_nil (n : ℕ) : slots n ([] : List α) = List.replicate n none := rfl

@[simp] theorem length_slots {n : ℕ} {xs : List α} (h : xs.length ≤ n) :
    (slots n xs).length = n := by
  rw [slots, List.length_append, List.length_map, List.length_replicate]
  omega

/-- Storing in the next free slot. -/
theorem set_slots {n : ℕ} {xs : List α} (h : xs.length < n) (x : α) :
    (slots n xs).set xs.length (some x) = slots n (xs ++ [x]) := by
  have hfree : n - xs.length = n - (xs ++ [x]).length + 1 := by
    rw [List.length_append, List.length_singleton]
    omega
  rw [slots, hfree, List.replicate_succ, List.set_append_right _ _ (by simp), slots]
  simp

/-! ### Searches -/

/-- The search of `n` elements of an array from index `i` on, `none` when it looks beyond
the end of the array. -/
def searchFrom (f : α → Option β) (xs : List α) : ℕ → ℕ → Option (Option β)
  | 0, _ => some none
  | n + 1, i => xs[i]?.bind fun x =>
    match f x with
    | some y => some (some y)
    | none => searchFrom f xs n (i + 1)

theorem searchFrom_eq (f : α → Option β) {xs : List α} {n i : ℕ} (h : i + n ≤ xs.length) :
    searchFrom f xs n i = some (((xs.drop i).take n).findSome? f) := by
  induction n generalizing i with
  | zero => rfl
  | succ n ih =>
    have hi : i < xs.length := by omega
    rw [searchFrom, List.getElem?_eq_getElem hi, Option.bind_some, List.drop_eq_getElem_cons hi,
      List.take_succ_cons, List.findSome?_cons]
    cases f xs[i] with
    | some y => rfl
    | none => exact ih (by omega)

/-- Empty slots are skipped. -/
theorem findSome?_slots {f : Option α → Option β} (hf : f none = none) {n k : ℕ} {xs : List α}
    (hk : xs.length ≤ k) : ((slots n xs).take k).findSome? f = xs.findSome? fun x => f (some x) := by
  have hrest : ((List.replicate (n - xs.length) (none : Option α)).take
      (k - (xs.map some).length)).findSome? f = none := by
    rw [List.take_replicate, List.findSome?_replicate, hf]
    exact ite_self none
  rw [slots, List.take_append, List.findSome?_append, hrest, Option.or_none,
    List.take_of_length_le (by rwa [List.length_map]), List.findSome?_map]
  rfl

/-- All hits agree. -/
theorem findSome?_eq_some_of_unique {f : α → Option β} {xs : List α} {x : α} {y : β} (hx : x ∈ xs)
    (hy : f x = some y) (hunique : ∀ x ∈ xs, ∀ z, f x = some z → z = y) :
    xs.findSome? f = some y := by
  have hsome : (xs.findSome? f).isSome := List.findSome?_isSome_iff.mpr ⟨x, hx, by simp [hy]⟩
  obtain ⟨z, hz⟩ := Option.isSome_iff_exists.mp hsome
  obtain ⟨x', hx', hfx'⟩ := List.exists_of_findSome?_eq_some hz
  rw [hz, hunique x' hx' z hfx']

end RockchipVpu.Base
