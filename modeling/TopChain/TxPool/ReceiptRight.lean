import Mathlib.Data.Finset.Card
import Mathlib.Data.Nat.ModEq

/-!
# The right to send a receipt (`xtxpool_service/src/xtxpool_service.cpp`)

The nodes of a window that starts at the digest of the transaction send a receipt, and each resend
moves the window on by one node.
-/
namespace TopChain.TxPool

open Finset

def isSelectedSender (pos randPos selectNum size : UInt32) : Bool :=
  if randPos ≤ pos then pos < randPos + selectNum
  else size < randPos + selectNum && pos < (randPos + selectNum) % size

/-- `digest` is the 32-bit digest of the transaction hash. -/
def hasReceiptRight (nodeId shardSize : UInt16) (digest resendTime : UInt32) : Bool :=
  let selectNum : UInt32 := if resendTime = 0 then 2 else 1
  let randPos := (digest + if resendTime = 0 then 0 else resendTime + 1) % shardSize.toUInt32
  isSelectedSender nodeId.toUInt32 randPos selectNum shardSize.toUInt32

def receiptSenders (shardSize : UInt16) (digest resendTime : UInt32) : Finset ℕ :=
  (Finset.range shardSize.toNat).filter fun pos =>
    hasReceiptRight (.ofNat pos) shardSize digest resendTime

def windowStart (shardSize : UInt16) (digest resendTime : UInt32) : ℕ :=
  (digest + if resendTime = 0 then 0 else resendTime + 1).toNat % shardSize.toNat

variable {n : UInt16} {digest r : UInt32}

theorem isSelectedSender_iff {pos randPos selectNum size : UInt32}
    (hsmall : randPos.toNat + selectNum.toNat < 2 ^ 32) :
    isSelectedSender pos randPos selectNum size ↔
      if randPos.toNat ≤ pos.toNat then pos.toNat < randPos.toNat + selectNum.toNat
      else size.toNat < randPos.toNat + selectNum.toNat ∧
        pos.toNat < (randPos.toNat + selectNum.toNat) % size.toNat := by
  have hsum : (randPos + selectNum).toNat = randPos.toNat + selectNum.toNat := by
    rw [UInt32.toNat_add, Nat.mod_eq_of_lt hsmall]
  unfold isSelectedSender
  simp only [UInt32.le_iff_toNat_le]
  split
  · simp [UInt32.lt_iff_toNat_lt, hsum]
  · simp [UInt32.lt_iff_toNat_lt, UInt32.toNat_mod, hsum]

theorem window_wraps {n start pos k : ℕ} (hn : 2 < n) (hstart : start < n) (hpos : pos < n)
    (hk : k = 1 ∨ k = 2) :
    (if start ≤ pos then pos < start + k else n < start + k ∧ pos < (start + k) % n) ↔
      pos = start ∨ k = 2 ∧ pos = (start + 1) % n := by
  rcases Nat.lt_or_ge (start + 1) n with hlt | hge
  · rw [Nat.mod_eq_of_lt hlt]
    split <;> omega
  · -- the window starts at the last node
    obtain rfl : n = start + 1 := by omega
    have hnext : (start + 1 + 1) % (start + 1) = 1 := by
      rw [Nat.add_mod_left, Nat.mod_eq_of_lt (by omega)]
    rw [Nat.mod_self]
    rcases hk with rfl | rfl
    · split <;> omega
    · rw [hnext]
      split <;> omega

theorem mem_receiptSenders (hn : 2 < n) {pos : ℕ} : pos ∈ receiptSenders n digest r ↔
    pos < n.toNat ∧ (pos = windowStart n digest r ∨
      r = 0 ∧ pos = (windowStart n digest r + 1) % n.toNat) := by
  have hsize : 2 < n.toNat := UInt16.lt_iff_toNat_lt.mp hn
  have hlt := n.toNat_lt
  rw [receiptSenders, mem_filter, mem_range]
  refine and_congr_right fun hpos => ?_
  have hstart : ((digest + if r = 0 then 0 else r + 1) % n.toUInt32).toNat =
      windowStart n digest r := by
    rw [UInt32.toNat_mod, UInt16.toNat_toUInt32]
    rfl
  have hbound : windowStart n digest r < n.toNat := Nat.mod_lt _ (by omega)
  have hnum : (if r = 0 then 2 else 1 : UInt32).toNat = if r = 0 then 2 else 1 := by
    split <;> rfl
  have hnode : (UInt16.ofNat pos).toUInt32.toNat = pos := by
    rw [UInt16.toNat_toUInt32, UInt16.toNat_ofNat_of_lt' (hpos.trans hlt)]
  rw [hasReceiptRight, isSelectedSender_iff, hstart, hnum, hnode, UInt16.toNat_toUInt32,
    window_wraps hsize hbound hpos]
  · split <;> simp_all
  · split <;> simp
  · rw [hstart, hnum]
    split <;> omega

theorem receiptSenders_first (hn : 2 < n) : receiptSenders n digest 0 =
    {(digest.toNat + 0) % n.toNat, (digest.toNat + 1) % n.toNat} := by
  have hsize : 0 < n.toNat := Nat.zero_lt_of_lt (UInt16.lt_iff_toNat_lt.mp hn)
  have hstart : windowStart n digest 0 = digest.toNat % n.toNat := by simp [windowStart]
  ext pos
  rw [mem_receiptSenders hn, hstart, Nat.mod_add_mod, mem_insert, mem_singleton]
  have hfirst := Nat.mod_lt digest.toNat hsize
  have hsecond := Nat.mod_lt (digest.toNat + 1) hsize
  simp only [true_and, Nat.add_zero]
  exact and_iff_right_of_imp (by omega)

theorem receiptSenders_resend (hn : 2 < n) (hr : r ≠ 0) :
    receiptSenders n digest r = {(digest + (r + 1)).toNat % n.toNat} := by
  have hsize : 0 < n.toNat := Nat.zero_lt_of_lt (UInt16.lt_iff_toNat_lt.mp hn)
  have hstart : windowStart n digest r = (digest + (r + 1)).toNat % n.toNat := by
    rw [windowStart, if_neg hr]
  ext pos
  rw [mem_receiptSenders hn, hstart, mem_singleton]
  refine ⟨fun h => h.2.resolve_right fun h => hr h.1, ?_⟩
  rintro rfl
  exact ⟨Nat.mod_lt _ hsize, .inl rfl⟩

theorem add_mod_inj {n k k' : ℕ} (a : ℕ) (hk : k < n) (hk' : k' < n) :
    (a + k) % n = (a + k') % n ↔ k = k' := by
  refine ⟨fun h => ?_, fun h => h ▸ rfl⟩
  exact (Nat.ModEq.add_left_cancel' a h).eq_of_lt_of_lt hk hk'

/-- In `n` steps from any start every position is met once. -/
theorem existsUnique_add_mod {n pos : ℕ} (a : ℕ) (hpos : pos < n) :
    ∃! k, k < n ∧ pos = (a + k) % n := by
  have hn : 0 < n := Nat.zero_lt_of_lt hpos
  have hmet : pos = (a + (pos + (n - a % n)) % n) % n := by
    have hsum : a + (pos + (n - a % n)) = pos + n * (a / n + 1) := by
      have hdiv := Nat.div_add_mod a n
      have hmod := Nat.mod_lt a hn
      rw [Nat.mul_succ]
      omega
    rw [Nat.add_mod_mod, hsum, Nat.add_mul_mod_self_left, Nat.mod_eq_of_lt hpos]
  refine ⟨(pos + (n - a % n)) % n, ⟨Nat.mod_lt _ hn, hmet⟩, fun k h => ?_⟩
  exact (add_mod_inj a h.1 (Nat.mod_lt _ hn)).mp (h.2.symm.trans hmet)

theorem mem_receiptSenders_resend (hn : 2 < n) (hr : r ≠ 0) (hlast : r.toNat + n.toNat ≤ 2 ^ 32)
    {pos k : ℕ} (hk : k < n.toNat) : pos ∈ receiptSenders n digest (r + .ofNat k) ↔
      pos = (digest.toNat + r.toNat + 1 + k) % 2 ^ 32 % n.toNat := by
  have hr0 : 0 < r.toNat := UInt32.lt_iff_toNat_lt.mp (UInt32.pos_iff_ne_zero.mpr hr)
  have hlt := n.toNat_lt
  have hk' : (r + .ofNat k).toNat = r.toNat + k := by
    rw [UInt32.toNat_add, UInt32.toNat_ofNat_of_lt' (hk.trans (hlt.trans (by decide)))]
    exact Nat.mod_eq_of_lt (by omega)
  have hne : r + .ofNat k ≠ 0 := by
    intro h
    rw [h] at hk'
    simp at hk'
    omega
  have hsum : (digest + (r + .ofNat k + 1)).toNat =
      (digest.toNat + r.toNat + 1 + k) % 2 ^ 32 := by
    rw [UInt32.toNat_add, UInt32.toNat_add, hk', Nat.add_mod_mod]
    congr 1
    simp only [UInt32.reduceToNat]
    omega
  rw [receiptSenders_resend hn hne, mem_singleton, hsum]

/-- The window starts at `s` and its sum is taken modulo `m`. When the sum wraps within the window,
the last position is met before the wrap, and the first one after it. -/
theorem rotates_iff {n s m : ℕ} (hn : 1 < n) (hm : s + n ≤ 2 * m) :
    (∀ pos < n, ∃! k, k < n ∧ pos = (s + k) % m % n) ↔ s + n ≤ m ∨ m ≤ s ∨ n ∣ m := by
  have hlow : ∀ k, s + k < m → (s + k) % m = s + k := fun k h => Nat.mod_eq_of_lt h
  have hhigh : ∀ k < n, m ≤ s + k → (s + k) % m = s + k - m := fun k hk h => by
    rw [Nat.mod_eq_sub_mod h]
    exact Nat.mod_eq_of_lt (by omega)
  constructor
  · intro h
    by_contra hnot
    obtain ⟨hlt, hwrap, hdvd⟩ : m < s + n ∧ s < m ∧ ¬ n ∣ m := by
      simpa only [not_or, not_le] using hnot
    obtain ⟨k, ⟨hk, hpos⟩, -⟩ := h (n - 1) (by omega)
    -- after the wrap only positions below the last are met
    have hbefore : s + k < m := by
      by_contra hge
      rw [hhigh k hk (not_lt.mp hge), Nat.mod_eq_of_lt (by omega)] at hpos
      omega
    rw [hlow k hbefore] at hpos
    have hnext : (s + (k + 1)) % n = 0 := by
      rw [← Nat.add_assoc, Nat.add_mod, ← hpos, Nat.mod_eq_of_lt hn, Nat.sub_add_cancel hn.le,
        Nat.mod_self]
    rcases Nat.lt_or_ge (s + (k + 1)) m with hless | hge
    · obtain ⟨j, -, hunique⟩ := h 0 (by omega)
      have hfirst : k + 1 = j := hunique (k + 1) ⟨by omega, by rw [hlow _ hless, hnext]⟩
      have hwrapped : m - s = j := hunique (m - s) ⟨by omega, by
        rw [hhigh _ (by omega) (by omega), Nat.add_sub_cancel' hwrap.le, Nat.sub_self,
          Nat.zero_mod]⟩
      omega
    · obtain rfl : m = s + (k + 1) := by omega
      exact hdvd (Nat.dvd_of_mod_eq_zero hnext)
  · intro h pos hpos
    rcases h with hnone | hall | hdvd
    · refine (existsUnique_congr fun k => and_congr_right fun hk => ?_).mpr
        (existsUnique_add_mod s hpos)
      rw [hlow k (by omega)]
    · refine (existsUnique_congr fun k => and_congr_right fun hk => ?_).mpr
        (existsUnique_add_mod (s - m) hpos)
      rw [hhigh k hk (by omega), Nat.sub_add_comm hall]
    · refine (existsUnique_congr fun k => and_congr_right fun hk => ?_).mpr
        (existsUnique_add_mod s hpos)
      rw [Nat.mod_mod_of_dvd _ hdvd]

theorem eq_mod_iff {a n e t : ℕ} (h : e + t < n) : e = a % n ↔ (a + t) % n = e + t := by
  have he : e % n = e := Nat.mod_eq_of_lt (by omega)
  constructor
  · intro heq
    rw [Nat.add_mod, ← heq, ← he, ← Nat.add_mod, he, Nat.mod_eq_of_lt h]
  · intro heq
    have hmod : a + t ≡ e + t [MOD n] := heq.trans (Nat.mod_eq_of_lt h).symm
    exact he.symm.trans (Nat.ModEq.add_right_cancel' t hmod).symm

/-- The first resend wraps to position 0 or 1, which one of the first senders may have. -/
theorem disjoint_first_resend (hn : 2 < n) :
    Disjoint (receiptSenders n digest 0) (receiptSenders n digest 1) ↔
      digest.toNat + 2 < 2 ^ 32 ∨ 2 ^ 32 % n.toNat ≠ 1 ∧ 2 ^ 32 % n.toNat ≠ 2 := by
  have hsize : 2 < n.toNat := UInt16.lt_iff_toNat_lt.mp hn
  have hword := digest.toNat_lt
  have hnext : (digest + (1 + 1)).toNat = (digest.toNat + 2) % 2 ^ 32 := UInt32.toNat_add _ _
  rw [receiptSenders_first hn, receiptSenders_resend hn (by decide), hnext,
    disjoint_singleton_right, mem_insert, mem_singleton]
  rcases Nat.lt_or_ge (digest.toNat + 2) (2 ^ 32) with hlt | hge
  · rw [Nat.mod_eq_of_lt hlt]
    refine iff_of_true ?_ (.inl hlt)
    rw [add_mod_inj _ hsize (by omega), add_mod_inj _ hsize (by omega)]
    decide
  · rw [or_iff_right (not_lt.mpr hge), not_or, and_comm]
    -- the sum wraps to 0 or to 1
    rcases (by omega : digest.toNat + 2 = 2 ^ 32 ∨ digest.toNat + 1 = 2 ^ 32) with hzero | hone
    · rw [hzero, Nat.mod_self, Nat.zero_mod, eq_mod_iff (t := 1) (by omega),
        eq_mod_iff (t := 2) (by omega), Nat.add_assoc, hzero]
    · rw [show digest.toNat + 2 = 1 + 2 ^ 32 by omega, Nat.add_mod_right,
        Nat.mod_eq_of_lt (show 1 < 2 ^ 32 by decide), Nat.mod_eq_of_lt (by omega : 1 < n.toNat),
        show digest.toNat + 0 = digest.toNat from rfl,
        eq_mod_iff (a := digest.toNat) (t := 1) (by omega), hone, eq_comm]

/-- Two nodes send first and one at each resend. The first resend is left to a third node, and `n`
resends in a row meet every node once, exactly when the 32-bit sum does not wrap on the way or its
wrap leaves the positions in their order. -/
theorem receipt_duty_rotates (n : UInt16) (hn : 2 < n) (digest : UInt32) :
    (∀ r, (receiptSenders n digest r).card = if r = 0 then 2 else 1) ∧
    (Disjoint (receiptSenders n digest 0) (receiptSenders n digest 1) ↔
      digest.toNat + 2 < 2 ^ 32 ∨ 2 ^ 32 % n.toNat ≠ 1 ∧ 2 ^ 32 % n.toNat ≠ 2) ∧
    ∀ r : UInt32, r ≠ 0 → r.toNat + n.toNat ≤ 2 ^ 32 →
      ((∀ pos < n.toNat, ∃! k, k < n.toNat ∧ pos ∈ receiptSenders n digest (r + .ofNat k)) ↔
        digest.toNat + r.toNat + 1 + n.toNat ≤ 2 ^ 32 ∨ 2 ^ 32 ≤ digest.toNat + r.toNat + 1 ∨
          n.toNat ∣ 2 ^ 32) := by
  have hsize : 2 < n.toNat := UInt16.lt_iff_toNat_lt.mp hn
  refine ⟨fun r => ?_, disjoint_first_resend hn, fun r hr hlast => ?_⟩
  · by_cases hr : r = 0
    · subst hr
      rw [receiptSenders_first hn, if_pos rfl, card_pair]
      rw [ne_eq, add_mod_inj _ (by omega) (by omega)]
      decide
    · rw [receiptSenders_resend hn hr, if_neg hr, card_singleton]
  · have hword := digest.toNat_lt
    rw [← rotates_iff (by omega) (by omega)]
    refine forall₂_congr fun pos hpos => existsUnique_congr fun k => and_congr_right fun hk => ?_
    exact mem_receiptSenders_resend hn hr hlast hk

theorem receipt_duty_rotates_sample :
    Disjoint (receiptSenders 3 7 0) (receiptSenders 3 7 1) ∧
      ∃! k, k < 3 ∧ 2 ∈ receiptSenders 3 7 (1 + .ofNat k) :=
  have h := receipt_duty_rotates 3 (by decide) 7
  ⟨h.2.1.mpr (by decide), (h.2.2 1 (by decide) (by decide)).mpr (by decide) 2 (by decide)⟩

theorem first_resend_by_first_sender :
    receiptSenders 3 4294967295 0 = {0, 1} ∧ receiptSenders 3 4294967295 1 = {1} := by
  decide

end TopChain.TxPool
