import TopChain.Bft.FinishEvent

/-!
# A packet of a view whose proposal is held (`xBFT/src/xconsdriver.cpp`)

`is_valid_packet` compares a packet with the held proposal of its view.
-/
namespace TopChain.Bft

open TopChain.Base TopChain.Lib
open BftDriver.LeaderRun (accepting block)

namespace BftRules
variable {chk : BlockChecks} {r : BftRules} {m : ProposalMsg} {b : XvBlock}

/-- The packet is not about this block, though the view may be the same. -/
def Differs (b : XvBlock) (p : Packet) : Prop :=
  b.account ≠ p.account ∨ b.height ≠ p.height ∨ b.chainid ≠ p.chainid ∨ b.viewtoken ≠ p.viewtoken

instance instDecidableDiffers (b : XvBlock) (p : Packet) : Decidable (Differs b p) :=
  inferInstanceAs (Decidable (_ ∨ _))

theorem isValidPacket_iff {p : Packet} (hview : b.viewid = p.viewid) :
    isValidPacket b p = true ↔ ¬ Differs b p := by
  simp only [isValidPacket, Differs, hview]
  simp
  tauto

def safeCheckForProposalPacket (r : BftRules) (m : ProposalMsg) : Bool :=
  match r.latestLockBlock with
  | none => false
  | some lock =>
    !(m.packet.chainid ≠ lock.chainid || m.packet.account ≠ lock.account || !m.decodes)

theorem handleProposalMsg_of_bad
    (h : (r.getLockBlock chk m.stored).safeCheckForProposalPacket m = false) :
    r.handleProposalMsg chk m = (r.getLockBlock chk m.stored, .error .badPacket) := by
  unfold safeCheckForProposalPacket at h
  unfold handleProposalMsg
  cases hlock : (r.getLockBlock chk m.stored).latestLockBlock with
  | none => simp only [hlock]
  | some lock =>
    simp only [hlock, Bool.not_eq_false'] at h
    simp only [hlock, checkProposalMsg, h, if_true]

theorem handleProposalMsg_of_ok
    (h : (r.getLockBlock chk m.stored).safeCheckForProposalPacket m = true) :
    (r.handleProposalMsg chk m).2 = .error .badPacket ↔
      (r.getLockBlock chk m.stored).localCode chk m.packet = some .badPacket := by
  unfold safeCheckForProposalPacket at h
  unfold handleProposalMsg
  generalize r.getLockBlock chk m.stored = r' at h ⊢
  cases hlock : r'.latestLockBlock with
  | none => simp [hlock] at h
  | some lock =>
    simp only [hlock, Bool.not_eq_true'] at h
    have hcheck : r'.checkProposalMsg chk lock m = .error .badPacket ↔
        r'.localCode chk m.packet = some .badPacket := by
      simp only [checkProposalMsg, h, Bool.false_eq_true, if_false]
      cases r'.localCode chk m.packet with
      | some code => simp
      | none =>
        cases m.block with
        | none => simp
        | some raw =>
          dsimp only
          split_ifs <;> simp
    simp only [hlock]
    rw [← hcheck]
    cases r'.checkProposalMsg chk lock m <;> simp

theorem localCode_of_held {p : Packet} (hheld : r.findProposal p.viewid = some b) :
    (isValidPacket b p = true → r.localCode chk p = some .badPacket) ∧
      (isValidPacket b p = false → r.localCode chk p ≠ some .badPacket) := by
  unfold localCode
  simp only [hheld]
  constructor
  · intro h
    simp [h]
  · intro h
    simp only [h, Bool.false_eq_true, if_false]
    split_ifs <;> simp

theorem handleVoteMsg_of_differs {v : VoteMsg} (hheld : r.findProposal v.packet.viewid = some b)
    (hv : isValidPacket b v.packet = false) : (r.handleVoteMsg chk v).2 = none := by
  have hkept := (lockRel_sheds chk).getLockBlock r v.stored |>.kept v.packet.viewid
  unfold handleVoteMsg
  dsimp only
  split_ifs
  · rfl
  · cases hf : (r.getLockBlock chk v.stored).findProposal v.packet.viewid with
    | none => rfl
    | some b' =>
      obtain rfl : b = b' := Option.some_inj.mp (hheld.symm.trans (hkept b' hf))
      simp [hv]

theorem handleCommitMsg_of_differs {c : CommitMsg}
    (hheld : r.findProposal c.packet.viewid = some b) (hv : isValidPacket b c.packet = false) :
    (r.handleCommitMsg chk c).2 = .ignore := by
  have hnone : commitAction c none = .ignore := by
    unfold commitAction
    split_ifs <;> rfl
  have hkept := (lockRel_sheds chk).getLockBlock r c.stored |>.kept c.packet.viewid
  unfold handleCommitMsg
  dsimp only
  cases hf : (r.getLockBlock chk c.stored).findProposal c.packet.viewid with
  | none =>
    simp only [hnone]
    split_ifs <;> rfl
  | some b' =>
    obtain rfl : b = b' := Option.some_inj.mp (hheld.symm.trans (hkept b' hf))
    simp only [hv, Bool.false_and, Bool.false_eq_true, if_false, hnone]
    split_ifs <;> rfl

/-- A packet of a held view is classified by whether it differs only if it differs and fails the
check before the lookup. The handlers of votes and commits refuse every packet that differs. -/
theorem proposal_redelivery_iff (chk : BlockChecks) (r : BftRules) (m : ProposalMsg) (b : XvBlock)
    (hheld : r.findProposal m.packet.viewid = some b) (hview : b.viewid = m.packet.viewid) :
    (r.handleProposalMsg chk m =
        (r, .error (if Differs b m.packet then .badPacket else .duplicated)) ↔
      Differs b m.packet ∧ r.getLockBlock chk m.stored = r ∧
        r.safeCheckForProposalPacket m = false) ∧
    (∀ v : VoteMsg, v.packet = m.packet → Differs b m.packet → (r.handleVoteMsg chk v).2 = none) ∧
    (∀ c : CommitMsg, c.packet = m.packet → Differs b m.packet →
      (r.handleCommitMsg chk c).2 = .ignore) := by
  have hvalid := isValidPacket_iff hview
  have hinvalid : Differs b m.packet → isValidPacket b m.packet = false := fun hd =>
    Bool.eq_false_iff.mpr fun h => hvalid.mp h hd
  refine ⟨⟨fun hresult => ?_, fun ⟨hd, hsame, hbad⟩ => ?_⟩, fun v hv hd => ?_, fun c hc hd => ?_⟩
  · -- an answer leaves only the lock to be loaded, so the lookup is in the same rules
    have hsame : r.getLockBlock chk m.stored = r := by
      rcases @handleProposalMsg_cases chk r m with ⟨code, he⟩ | ⟨_, _, _, _, he⟩
      · exact (congrArg Prod.fst (he.symm.trans hresult))
      · rw [he] at hresult
        cases (congrArg Prod.snd hresult)
    have hlocal := @localCode_of_held chk r b m.packet hheld
    cases hok : r.safeCheckForProposalPacket m with
    | false =>
      rw [handleProposalMsg_of_bad (by rw [hsame, hok])] at hresult
      by_cases hd : Differs b m.packet
      · exact ⟨hd, hsame, rfl⟩
      · rw [if_neg hd] at hresult
        cases (congrArg Prod.snd hresult)
    | true =>
      have hcode := @handleProposalMsg_of_ok chk r m (by rw [hsame, hok])
      rw [hresult, hsame] at hcode
      by_cases hd : Differs b m.packet
      · rw [if_pos hd] at hcode
        exact absurd (hcode.mp rfl) (hlocal.2 (hinvalid hd))
      · rw [if_neg hd] at hcode
        cases hcode.mpr (hlocal.1 (hvalid.mpr hd))
  · rw [handleProposalMsg_of_bad (by rw [hsame, hbad]), hsame, if_pos hd]
  · exact handleVoteMsg_of_differs (hv ▸ hheld) (hv ▸ hinvalid hd)
  · exact handleCommitMsg_of_differs (hc ▸ hheld) (hc ▸ hinvalid hd)

def sampleMsg : ProposalMsg :=
  ⟨⟨0, "T", 2, 2, 1⟩, ⟨1, 0⟩, ⟨2, 0⟩, true, true, some (block 2 "A" ""), true, true, 2, none⟩

def otherHeight : ProposalMsg := { sampleMsg with packet := ⟨0, "T", 1, 2, 1⟩ }

def otherAccount : ProposalMsg := { sampleMsg with packet := ⟨0, "U", 2, 2, 1⟩ }

def sampleRules : BftRules :=
  (Run.run (BftDriver.step accepting) .init
    [.consensusUpdate (some (block 1 "G" "A")), .proposalMsg sampleMsg]).1.rules

theorem proposal_redelivery_sample :
    sampleRules.findProposal 2 = some (block 2 "A" "") ∧
      sampleRules.handleProposalMsg accepting otherAccount = (sampleRules, .error .badPacket) :=
  ⟨by decide, (proposal_redelivery_iff accepting sampleRules otherAccount (block 2 "A" "")
    (by decide) (by decide)).1.mpr ⟨by decide, by decide, by decide⟩⟩

theorem redelivered_proposal_misread :
    sampleRules.findProposal 2 = some (block 2 "A" "") ∧
      ¬ Differs (block 2 "A" "") sampleMsg.packet ∧
      (sampleRules.handleProposalMsg accepting sampleMsg).2 = .error .badPacket ∧
      Differs (block 2 "A" "") otherHeight.packet ∧
      (sampleRules.handleProposalMsg accepting otherHeight).2 = .error .duplicated := by
  decide

end BftRules
end TopChain.Bft
