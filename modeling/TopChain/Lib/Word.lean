import Mathlib.Order.Lattice
import Mathlib.Algebra.Group.Nat.Defs

/-!
# 64-bit words as an ordered type

The order of `UInt64` as a linear order, sums that do not wrap, and bit fields.
-/
namespace TopChain.Lib.Word

instance instLinearOrderUInt64 : LinearOrder UInt64 where
  le_refl _ := UInt64.le_refl _
  le_trans _ _ _ := UInt64.le_trans
  le_antisymm _ _ := UInt64.le_antisymm
  le_total := UInt64.le_total
  lt_iff_le_not_ge a b := by
    rw [UInt64.lt_iff_toNat_lt, UInt64.le_iff_toNat_le, UInt64.le_iff_toNat_le]
    omega
  toDecidableLE := inferInstance
  toMin := inferInstance
  toMax := inferInstance

def top : UInt64 := 18446744073709551615

theorem toNat_lt (a : UInt64) : a.toNat < 18446744073709551616 := a.toNat_lt

variable {a b : UInt64}

theorem lt_nat : a < b ↔ a.toNat < b.toNat := UInt64.lt_iff_toNat_lt

theorem le_nat : a ≤ b ↔ a.toNat ≤ b.toNat := UInt64.le_iff_toNat_le

theorem eq_nat : a = b ↔ a.toNat = b.toNat := UInt64.toNat_inj.symm

theorem toNat_add_one (a : UInt64) : (a + 1).toNat = (a.toNat + 1) % 18446744073709551616 := by
  simp [UInt64.toNat_add]

theorem toNat_add_two (a : UInt64) : (a + 2).toNat = (a.toNat + 2) % 18446744073709551616 := by
  simp [UInt64.toNat_add]

theorem toNat_sub_one (a : UInt64) :
    (a - 1).toNat = (a.toNat + 18446744073709551615) % 18446744073709551616 := by
  rw [UInt64.toNat_sub]
  simp [Nat.add_comm]

theorem toNat_of_eq_succ {c : UInt64} (h : b = a + 1) (hc : c < b) : b.toNat = a.toNat + 1 := by
  have ha := toNat_lt a
  rw [lt_nat] at hc
  rw [h, toNat_add_one] at hc ⊢
  omega

theorem toNat_of_eq_add_two (h : b = a + 2) (hlt : a < b) : b.toNat = a.toNat + 2 := by
  have ha := toNat_lt a
  rw [lt_nat] at hlt
  rw [h, toNat_add_two] at hlt ⊢
  omega

theorem eq_succ_or_eq_add_two (hlt : a < b) (hle : b ≤ a + 2) : b = a + 1 ∨ b = a + 2 := by
  have ha := toNat_lt a
  have hb := toNat_lt b
  rw [lt_nat] at hlt
  rw [le_nat, toNat_add_two] at hle
  rw [eq_nat, eq_nat, toNat_add_one, toNat_add_two]
  omega

theorem wrap_of_eq_pred (h : b = a - 1) (hlt : a < b) : a = 0 ∧ b = top := by
  have ha := toNat_lt a
  rw [lt_nat] at hlt
  have hb : b.toNat = (a.toNat + 18446744073709551615) % 18446744073709551616 := by
    rw [h, toNat_sub_one]
  rw [eq_nat, eq_nat]
  change a.toNat = 0 ∧ b.toNat = 18446744073709551615
  omega

def wsub (w a b : ℕ) : ℕ := (((a : ℤ) - b) % (2 ^ w : ℕ)).toNat

theorem wsub_of_le {w a b : ℕ} (hle : b ≤ a) (ha : a < 2 ^ w) : wsub w a b = a - b := by
  have hpos : (0 : ℤ) ≤ (a : ℤ) - b := by omega
  have hlt : (a : ℤ) - b < (2 ^ w : ℕ) := by omega
  rw [wsub, Int.emod_eq_of_lt hpos hlt]
  omega

theorem bmod_le_self {x : ℤ} (m : ℕ) (hx : 0 ≤ x) : x.bmod m ≤ x := by
  have hmod : x % m ≤ x := by
    obtain ⟨n, rfl⟩ := Int.eq_ofNat_of_zero_le hx
    exact Int.ofNat_le.mpr (Nat.mod_le n m)
  rw [Int.bmod_def]
  split
  · exact hmod
  · omega

theorem bmod_of_lt {n : ℕ} (h : n < 2 ^ 63) : (n : ℤ).bmod (2 ^ 64) = n := by
  rw [Int.bmod_def, Int.emod_eq_of_lt (Int.natCast_nonneg n) (by omega), if_pos (by omega)]

theorem and_mask_toNat (x : UInt64) {mask : UInt64} {w : ℕ} (hmask : mask.toNat = 2 ^ w - 1) :
    (x &&& mask).toNat = x.toNat % 2 ^ w := by
  rw [UInt64.toNat_and, hmask, Nat.and_two_pow_sub_one_eq_mod]

theorem field_toNat (x : UInt64) {off mask : UInt64} {o w : ℕ} (hoff : off.toNat % 64 = o)
    (hmask : mask.toNat = 2 ^ w - 1) :
    ((x >>> off) &&& mask).toNat = x.toNat / 2 ^ o % 2 ^ w := by
  rw [and_mask_toNat _ hmask, UInt64.toNat_shiftRight, hoff, Nat.shiftRight_eq_div_pow]

theorem or_shifted_toNat {x y : UInt64} {o : ℕ} {hi : ℕ} (hx : x.toNat < 2 ^ o)
    (hy : y.toNat = 2 ^ o * hi) : (x ||| y).toNat = x.toNat + 2 ^ o * hi := by
  rw [UInt64.toNat_or, hy, Nat.or_comm, ← Nat.two_pow_add_eq_or_of_lt hx, Nat.add_comm]

end TopChain.Lib.Word
