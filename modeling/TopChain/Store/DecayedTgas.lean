import TopChain.Lib.Word

/-!
# The decay of used gas in machine words

`calc_decayed_tgas` of `xstore/src/xaccount_context.cpp` and of `xdata/src/xblockchain.cpp`.
-/
namespace TopChain.Store

open TopChain.Lib Word

def decayedShare (usedTgas passed : UInt64) (decayTime : UInt32) : UInt64 :=
  if passed < decayTime.toUInt64 then
    (decayTime.toUInt64 - passed) * usedTgas / decayTime.toUInt64
  else 0

/-- `xaccount_context_t::calc_decayed_tgas`. -/
def contextDecayedTgas (usedTgas lastTxHour timerHeight : UInt64) (decayTime : UInt32) : UInt64 :=
  let lastHour := lastTxHour.toUInt32.toUInt64
  decayedShare usedTgas (timerHeight - lastHour) decayTime

/-- `xblockchain2_t::calc_decayed_tgas`. -/
def blockchainDecayedTgas (usedTgas lastTxHour timerHeight : UInt64) (decayTime : UInt32) :
    UInt64 :=
  let lastHour := lastTxHour.toUInt32.toUInt64
  if timerHeight ≤ lastHour then usedTgas
  else decayedShare usedTgas (timerHeight - lastHour) decayTime

variable {used passed passed' : UInt64} {decay : UInt32}

theorem decayedShare_toNat : (decayedShare used passed decay).toNat =
    (decay.toNat - passed.toNat) * used.toNat % 2 ^ 64 / decay.toNat := by
  unfold decayedShare
  split
  · rename_i hlt
    rw [UInt64.toNat_div, UInt64.toNat_mul, UInt64.toNat_sub_of_le _ _ hlt.le,
      UInt32.toNat_toUInt64]
  · rename_i hge
    have hle : decay.toNat ≤ passed.toNat := le_nat.mp (not_lt.mp hge)
    rw [Nat.sub_eq_zero_of_le hle, Nat.zero_mul, Nat.zero_mod, Nat.zero_div]
    rfl

theorem decayedShare_le : decayedShare used passed decay ≤ used := by
  rw [le_nat, decayedShare_toNat]
  refine Nat.div_le_of_le_mul ((Nat.mod_le _ _).trans ?_)
  exact Nat.mul_le_mul_right _ (Nat.sub_le _ _)

theorem decayedShare_zero (hdecay : 0 < decay) :
    decayedShare used 0 decay = used ↔ decay.toNat * used.toNat < 2 ^ 64 := by
  have hpos : 0 < decay.toNat := UInt32.lt_iff_toNat_lt.mp hdecay
  rw [eq_nat, decayedShare_toNat]
  change decay.toNat * used.toNat % 2 ^ 64 / decay.toNat = used.toNat ↔ _
  constructor
  · intro h
    -- a share that is the whole usage leaves the product as it is
    have hle := Nat.div_mul_le_self (decay.toNat * used.toNat % 2 ^ 64) decay.toNat
    rw [h, Nat.mul_comm] at hle
    exact hle.trans_lt (Nat.mod_lt _ (by decide))
  · intro hsmall
    rw [Nat.mod_eq_of_lt hsmall, Nat.mul_div_cancel_left _ hpos]

theorem decayedShare_anti (hsmall : decay.toNat * used.toNat < 2 ^ 64) (hle : passed ≤ passed') :
    decayedShare used passed' decay ≤ decayedShare used passed decay := by
  have hfits : ∀ p, (decay.toNat - p) * used.toNat < 2 ^ 64 := fun p =>
    (Nat.mul_le_mul_right _ (Nat.sub_le _ _)).trans_lt hsmall
  rw [le_nat] at hle ⊢
  rw [decayedShare_toNat, decayedShare_toNat, Nat.mod_eq_of_lt (hfits _),
    Nat.mod_eq_of_lt (hfits _)]
  exact Nat.div_le_div_right (Nat.mul_le_mul_right _ (Nat.sub_le_sub_left hle _))

variable {last clock clock' : UInt64}

theorem blockchainDecayedTgas_le : blockchainDecayedTgas used last clock decay ≤ used := by
  unfold blockchainDecayedTgas
  dsimp only
  split
  · exact le_rfl
  · exact decayedShare_le

theorem blockchainDecayedTgas_anti (hsmall : decay.toNat * used.toNat < 2 ^ 64)
    (hlater : clock ≤ clock') :
    blockchainDecayedTgas used last clock' decay ≤ blockchainDecayedTgas used last clock decay := by
  by_cases hback : clock ≤ last.toUInt32.toUInt64
  · rw [show blockchainDecayedTgas used last clock decay = used from if_pos hback]
    exact blockchainDecayedTgas_le
  · have hpast := (not_le.mp hback).le
    rw [blockchainDecayedTgas, if_neg fun h => hback (hlater.trans h), blockchainDecayedTgas,
      if_neg hback]
    refine decayedShare_anti hsmall ?_
    rw [le_nat, UInt64.toNat_sub_of_le _ _ hpast, UInt64.toNat_sub_of_le _ _ (hpast.trans hlater)]
    exact Nat.sub_le_sub_right (le_nat.mp hlater) _

/-- Before the last use the difference of the clocks wraps, and all usage counts as decayed. -/
theorem contextDecayedTgas_behind (h : clock < last.toUInt32.toUInt64) :
    contextDecayedTgas used last clock decay = 0 := by
  have hlast := last.toUInt32.toNat_lt
  have hdecay := decay.toNat_lt
  rw [lt_nat, UInt32.toNat_toUInt64] at h
  unfold contextDecayedTgas decayedShare
  refine if_neg ?_
  rw [lt_nat, UInt64.toNat_sub, UInt32.toNat_toUInt64, UInt32.toNat_toUInt64]
  omega

/-- When the two computations give the same value: the clock is past the last use, or at it and
the product of cycle and usage fits the word. -/
theorem contextDecayedTgas_eq_iff (hdecay : 0 < decay) :
    contextDecayedTgas used last clock decay = blockchainDecayedTgas used last clock decay ↔
      used = 0 ∨ last.toUInt32.toUInt64 < clock ∨
        clock = last.toUInt32.toUInt64 ∧ decay.toNat * used.toNat < 2 ^ 64 := by
  rcases lt_trichotomy clock last.toUInt32.toUInt64 with h | h | h
  · rw [contextDecayedTgas_behind h, blockchainDecayedTgas, if_pos h.le, eq_comm]
    refine ⟨.inl, ?_⟩
    rintro (hused | hlt | ⟨heq, -⟩)
    · exact hused
    · exact absurd hlt h.not_gt
    · exact absurd heq h.ne
  · rw [blockchainDecayedTgas, if_pos h.le, contextDecayedTgas, h, UInt64.sub_self,
      decayedShare_zero hdecay]
    refine ⟨fun hsmall => .inr (.inr ⟨rfl, hsmall⟩), ?_⟩
    rintro (rfl | hlt | ⟨-, hsmall⟩)
    · exact (Nat.mul_zero _).trans_lt (by decide)
    · exact absurd hlt (lt_irrefl _)
    · exact hsmall
  · rw [blockchainDecayedTgas, if_neg h.not_ge]
    exact iff_of_true rfl (.inr (.inl h))

/-- Neither exceeds the recorded usage, and the account's never goes up where no product wraps. The
two agree at a clock past the last use, at the last use if no product wraps, and before it if
nothing is used; at every clock they agree only if nothing is used or the last use is at 0. -/
theorem decays_agree (used last : UInt64) (decay : UInt32) (hdecay : 0 < decay) :
    (∀ clock, contextDecayedTgas used last clock decay ≤ used ∧
      blockchainDecayedTgas used last clock decay ≤ used) ∧
    (decay.toNat * used.toNat < 2 ^ 64 → ∀ clock clock', clock ≤ clock' →
      blockchainDecayedTgas used last clock' decay ≤
        blockchainDecayedTgas used last clock decay) ∧
    (∀ clock, contextDecayedTgas used last clock decay =
        blockchainDecayedTgas used last clock decay ↔
      used = 0 ∨ last.toUInt32.toUInt64 < clock ∨
        clock = last.toUInt32.toUInt64 ∧ decay.toNat * used.toNat < 2 ^ 64) ∧
    ((∀ clock clock', clock ≤ clock' →
        contextDecayedTgas used last clock decay = blockchainDecayedTgas used last clock decay ∧
        blockchainDecayedTgas used last clock' decay ≤
          blockchainDecayedTgas used last clock decay) ↔
      used = 0 ∨ last.toUInt32.toUInt64 = 0 ∧ decay.toNat * used.toNat < 2 ^ 64) := by
  have hagree : ∀ clock, contextDecayedTgas used last clock decay =
      blockchainDecayedTgas used last clock decay ↔ _ := fun clock =>
    contextDecayedTgas_eq_iff hdecay
  refine ⟨fun clock => ⟨decayedShare_le, blockchainDecayedTgas_le⟩,
    fun hsmall clock clock' => blockchainDecayedTgas_anti hsmall, hagree, ?_⟩
  constructor
  · intro h
    -- the clock 0 and that of the last use decide
    rcases (hagree _).mp (h last.toUInt32.toUInt64 _ le_rfl).1 with hused | hlt | ⟨-, hsmall⟩
    · exact .inl hused
    · exact absurd hlt (lt_irrefl _)
    · rcases (hagree 0).mp (h 0 0 le_rfl).1 with hused | hlt | ⟨hzero, -⟩
      · exact .inl hused
      · exact absurd hlt UInt64.not_lt_zero
      · exact .inr ⟨hzero.symm, hsmall⟩
  · rintro (rfl | ⟨hzero, hsmall⟩) clock clock' hlater
    · have hsmall : decay.toNat * (0 : UInt64).toNat < 2 ^ 64 := by simp
      exact ⟨(hagree clock).mpr (.inl rfl), blockchainDecayedTgas_anti hsmall hlater⟩
    · refine ⟨(hagree clock).mpr (.inr ?_), blockchainDecayedTgas_anti hsmall hlater⟩
      rw [hzero]
      rcases (UInt64.zero_le (a := clock)).lt_or_eq with hlt | heq
      · exact .inl hlt
      · exact .inr ⟨heq.symm, hsmall⟩

theorem decays_agree_sample :
    contextDecayedTgas 100 5 8 10 = blockchainDecayedTgas 100 5 8 10 ∧
      blockchainDecayedTgas 100 5 9 10 ≤ blockchainDecayedTgas 100 5 8 10 :=
  have h := decays_agree 100 5 10 (by decide)
  ⟨(h.2.2.1 8).mpr (by decide), h.2.1 (by decide) 8 9 (by decide)⟩

theorem clock_behind_last_use :
    contextDecayedTgas 100 5 4 10 = 0 ∧ blockchainDecayedTgas 100 5 4 10 = 100 := by
  decide

end TopChain.Store
