import TopChain.Bft.Signing

/-!
# Finish events of proposals (`xBFT/src/xconsdriver.cpp`, `xconsrules.cpp`, `xconsync.cpp`)

Every proposal that a driver holds is to end with one finish event for the layer above.
-/
namespace TopChain.Bft

open Option List TopChain.Base TopChain.Lib SortedMap

structure VoteMsg where
  packet : Packet
  toAddr : Xvip2
  decodes : Bool
  voteFinish : Bool
  certOk : Bool
  stored : Option XvBlock

structure CommitMsg where
  packet : Packet
  fromAddr : Xvip2
  decodes : Bool
  error : Option (Int × String)
  delivered : Bool
  outputReady : Bool
  certDeliver : Bool
  certViewid : UInt64
  certViewtoken : UInt32
  certEqual : Bool
  valid : Bool
  stored : Option XvBlock

structure SyncRespond where
  packet : Packet
  decodes : Bool
  block : Option XvBlock
  resourcesOk : Bool
  requested : Bool
  stored : Option XvBlock

inductive CommitAction where
  | ignore
  | verify (b : XvBlock)
  | fail (b : XvBlock) (code : Int) (reason : String)
deriving DecidableEq

namespace BftRules
variable (chk : BlockChecks) (r : BftRules)

def safeCheckForPacket (p : Packet) : Bool :=
  match r.latestLockBlock with
  | none => false
  | some lock =>
    !(p.viewid < p.height || p.viewid ≤ lock.viewid || p.height ≤ lock.height
      || p.chainid ≠ lock.chainid || p.account ≠ lock.account)

def handleVoteMsg (m : VoteMsg) : BftRules × Option XvBlock :=
  let r := r.getLockBlock chk m.stored
  if !(r.safeCheckForPacket m.packet && m.decodes) then (r, none)
  else match r.findProposal m.packet.viewid with
  | none => (r, none)
  | some b =>
    if isValidPacket b m.packet && b.getLeaderAddress = m.toAddr && !m.voteFinish && m.certOk then
      (r, some b)
    else (r, none)

def commitAction (m : CommitMsg) (matched : Option XvBlock) : CommitAction :=
  if !m.certDeliver then .ignore
  else match matched, m.error with
  | some b, none =>
    if m.certViewid = m.packet.viewid && m.certViewtoken = m.packet.viewtoken && m.certEqual
      && m.valid then .verify b else .ignore
  | some b, some (code, reason) => .fail b code reason
  | none, _ => .ignore

def handleCommitMsg (m : CommitMsg) : BftRules × CommitAction :=
  let r := r.getLockBlock chk m.stored
  if !(r.safeCheckForPacket m.packet && m.decodes) then (r, .ignore)
  else if (r.findCertBlock m.packet.viewid).isSome then (r, .ignore)
  else match r.findProposal m.packet.viewid with
  | none => (r, commitAction m none)
  | some b =>
    if m.delivered then (r, .ignore)
    else if b.getLeaderAddress ≠ m.fromAddr then (r, .ignore)
    else (r, commitAction m (if isValidPacket b m.packet && m.outputReady then some b else none))

def handleSyncRespondMsg (m : SyncRespond) : BftRules × Option XvBlock :=
  let r := r.getLockBlock chk m.stored
  match r.latestLockBlock, m.block with
  | some lock, some b =>
    if m.packet.viewid < m.packet.height || m.packet.chainid ≠ lock.chainid
      || m.packet.account ≠ lock.account || !m.decodes then (r, none)
    else if (r.findCertBlock m.packet.viewid).isSome then (r, none)
    else if chk.isValid b false && m.resourcesOk && m.requested && r.safeCheckForSyncBlock chk b
      && chk.isValid b.resetBlockFlags true then (r, some b.resetBlockFlags)
    else (r, none)
  | _, _ => (r, none)

def dropped (r' : BftRules) : List XvBlock :=
  r.proposalBlocks.values.filter fun b => (r'.findProposal b.viewid).isNone

end BftRules

inductive FinishCode where
  | successful | timeout | cancel | outofdate | badProposal
  | reported (code : Int) (reason : String)
deriving DecidableEq

inductive Job where
  | verifyProposal (b : XvBlock)
  | verifyVote (b : XvBlock)
  | verifyCommit (b : XvBlock)
  | verifySync (b : XvBlock)
  | refuse (b : XvBlock) (code : FinishCode)
deriving DecidableEq

/-- The jobs that votes and commit messages start: both need the lock. -/
def Job.certifies : Job → Bool
  | .verifyVote _ | .verifyCommit _ => true
  | _ => false

structure ProposalDriver where
  rules : BftRules
  jobs : List Job

/-- What can reach the driver, with the callback of any open job at any time. -/
inductive ProposalEvent where
  | consensusUpdate (lock : Option XvBlock)
  | proposalStart (e : ProposalStart)
  | proposalMsg (m : ProposalMsg)
  | voteMsg (m : VoteMsg)
  | commitMsg (m : CommitMsg)
  | syncRequest (b : XvBlock) (stored : Option XvBlock)
  | syncRespond (m : SyncRespond)
  /-- the `i`-th open job calls back, with an error or with the block hash that is certified -/
  | callback (i : Nat) (error : Option Int) (hash : String) (stored : Option XvBlock)
  | viewFire (viewid : UInt64) (stored : Option XvBlock)
  | clockFire (stored : Option XvBlock)

inductive FinishOutput where
  | admitted (b : XvBlock)
  | finished (b : XvBlock) (code : FinishCode)
  | refused (b : XvBlock) (code : FinishCode)
  | replicated (b : XvBlock)
deriving DecidableEq

def authenticatedAs (b : XvBlock) (hash : String) : XvBlock :=
  { b with blockHash := hash, flags := insert .authenticated b.flags }

namespace ProposalDriver
variable (chk : BlockChecks)

def init : ProposalDriver := ⟨.init, []⟩

def lockFinishes (r r' : BftRules) : List FinishOutput :=
  (r.dropped r').map (.finished · .outofdate)

def refusal (r : BftRules) (e : ProposalStart) : List Job :=
  match e.proposal with
  | none => []
  | some p =>
    if !BftRules.parentOk chk p e.prevBlock then [.refuse p .badProposal]
    else match r.latestLockBlock with
    | none => []
    | some lock =>
      let q := BftRules.stampJustify lock p
      if p.height > lock.height + 2 then [.refuse p .badProposal]
      else if !(chk.isInputReady q true && chk.isOutputReady q true && chk.isValid q true
        && q.blockHash = "" && !q.checkBlockFlag .authenticated) then [.refuse q .badProposal]
      else [.refuse q .outofdate]

def runJob (r : BftRules) (error : Option Int) (hash : String) (stored : Option XvBlock) :
    Job → BftRules × List FinishOutput
  | .verifyProposal b =>
    match error with
    | none =>
      -- the final check of the vote loads the lock
      (r.getLockBlock chk stored, lockFinishes r (r.getLockBlock chk stored))
    | some code => (r.removeProposal b.viewid, [.finished b (.reported code "")])
  | .verifyVote b =>
    let removed := r.removeProposal b.viewid
    let locked := removed.getLockBlock chk stored
    let res := locked.addCertBlock (authenticatedAs b hash)
    (res.1, lockFinishes removed locked ++
      if res.2 then [.finished (authenticatedAs b hash) .successful] else [])
  | .verifyCommit b =>
    let locked := r.getLockBlock chk stored
    let res := locked.addCertBlock (authenticatedAs b hash)
    if res.2 then
      (res.1.removeProposal b.viewid,
        lockFinishes r locked ++ [.finished (authenticatedAs b hash) .successful])
    else (res.1, lockFinishes r locked)
  | .verifySync b =>
    let locked := r.getLockBlock chk stored
    let res := locked.addCertBlock (authenticatedAs b hash)
    if res.2 then
      if (res.1.findProposal b.viewid).isSome then
        (res.1.removeProposal b.viewid,
          lockFinishes r locked ++ [.finished (authenticatedAs b hash) .successful])
      else (res.1, lockFinishes r locked ++ [.replicated (authenticatedAs b hash)])
    else (res.1, lockFinishes r locked)
  | .refuse b code => (r, [.refused b code])

def step (d : ProposalDriver) : ProposalEvent → ProposalDriver × List FinishOutput
  | .consensusUpdate lock =>
    let r := (d.rules.setLockBlock chk lock).1
    ({ d with rules := r }, lockFinishes d.rules r)
  | .proposalStart e =>
    match d.rules.onProposalStart chk e with
    | (r, none) => (⟨r, d.jobs ++ refusal chk r e⟩, lockFinishes d.rules r)
    | (r, some b) =>
      ({ d with rules := r }, lockFinishes d.rules (d.rules.signingRules chk e) ++ [.admitted b])
  | .proposalMsg m =>
    match d.rules.handleProposalMsg chk m with
    | (r, .error _) => ({ d with rules := r }, lockFinishes d.rules r)
    | (r, .ok b) =>
      (⟨r, d.jobs ++ [.verifyProposal b]⟩,
        lockFinishes d.rules (d.rules.getLockBlock chk m.stored) ++ [.admitted b])
  | .voteMsg m =>
    match d.rules.handleVoteMsg chk m with
    | (r, none) => ({ d with rules := r }, lockFinishes d.rules r)
    | (r, some b) => (⟨r, d.jobs ++ [.verifyVote b]⟩, lockFinishes d.rules r)
  | .commitMsg m =>
    match d.rules.handleCommitMsg chk m with
    | (r, .ignore) => ({ d with rules := r }, lockFinishes d.rules r)
    | (r, .verify b) => (⟨r, d.jobs ++ [.verifyCommit b]⟩, lockFinishes d.rules r)
    | (r, .fail b code reason) =>
      ({ d with rules := r.removeProposal b.viewid },
        lockFinishes d.rules r ++ [.finished b (.reported code reason)])
  | .syncRequest b stored =>
    let r := d.rules.getLockBlock chk stored
    ({ d with rules := (r.addCertBlock b).1 }, lockFinishes d.rules r)
  | .syncRespond m =>
    match d.rules.handleSyncRespondMsg chk m with
    | (r, none) => ({ d with rules := r }, lockFinishes d.rules r)
    | (r, some b) => (⟨r, d.jobs ++ [.verifySync b]⟩, lockFinishes d.rules r)
  | .callback i error hash stored =>
    match d.jobs[i]? with
    | none => (d, [])
    | some job =>
      let res := runJob chk d.rules error hash stored job
      (⟨res.1, d.jobs.eraseIdx i⟩, res.2)
  | .viewFire viewid stored =>
    -- only a proposal that is not timed out is checked against the lock
    let r := if d.rules.proposalBlocks.values.any fun b => !(viewid > b.viewid) then
      d.rules.getLockBlock chk stored else d.rules
    let timeouts := r.proposalBlocks.values.filter fun b => viewid > b.viewid
    let outofdates := r.proposalBlocks.values.filter fun b =>
      !(viewid > b.viewid) && !r.safeCheckForBlock b
    ({ d with rules := r.filterProposals fun b => !(viewid > b.viewid) && r.safeCheckForBlock b },
      lockFinishes d.rules r ++ (timeouts.map (.finished · .timeout) ++
        outofdates.map (.finished · .cancel)))
  | .clockFire stored =>
    let r := if d.rules.proposalBlocks.values.isEmpty then d.rules
      else d.rules.getLockBlock chk stored
    let outofdates := r.proposalBlocks.values.filter fun b => !r.safeCheckForBlock b
    ({ d with rules := r.filterProposals r.safeCheckForBlock },
      lockFinishes d.rules r ++ outofdates.map (.finished · .cancel))

end ProposalDriver

def BftRules.held (r : BftRules) (v : UInt64) : Nat := if (r.findProposal v).isSome then 1 else 0

def FinishOutput.isFinish (v : UInt64) : FinishOutput → Bool
  | .finished b _ => b.viewid = v
  | _ => false

def FinishOutput.isAdmission (v : UInt64) : FinishOutput → Bool
  | .admitted b => b.viewid = v
  | _ => false

def finishes (v : UInt64) (outs : List FinishOutput) : Nat := outs.countP (·.isFinish v)

def admissions (v : UInt64) (outs : List FinishOutput) : Nat := outs.countP (·.isAdmission v)

theorem finishes_append (v : UInt64) (outs outs' : List FinishOutput) :
    finishes v (outs ++ outs') = finishes v outs + finishes v outs' := countP_append

theorem admissions_append (v : UInt64) (outs outs' : List FinishOutput) :
    admissions v (outs ++ outs') = admissions v outs + admissions v outs' := countP_append

section
variable (v : UInt64) (l : List XvBlock) (code : FinishCode)
include v l code

theorem admissions_map_finished : admissions v (l.map (.finished · code)) = 0 := by
  unfold admissions
  rw [countP_map, countP_eq_zero]
  intro b _ h
  cases h

theorem finishes_map_finished :
    finishes v (l.map (.finished · code)) = l.countP (·.viewid = v) := by
  unfold finishes
  rw [countP_map]
  rfl

end

variable {b : XvBlock}

namespace BftRules

def Keyed (r : BftRules) : Prop :=
  ∀ v b, r.findProposal v = some b → b.viewid = v ∧ v ≤ r.latestVotedViewid

/-- Proposals leave and the lock stays known. -/
structure Sheds (r r' : BftRules) : Prop where
  kept : ∀ v b, r'.findProposal v = some b → r.findProposal v = some b
  viewid_le : r.latestVotedViewid ≤ r'.latestVotedViewid
  locked : r.latestLockBlock.isSome → r'.latestLockBlock.isSome

/-- `add_cert_block` takes a block that does not leave the locked branch, as the first of its
view. -/
def TakesCert (r : BftRules) (b : XvBlock) : Prop :=
  (∀ lock ∈ r.latestLockBlock, 0 ≤ safeCheckFollowLockedBranch lock b) ∧
    r.findCertBlock b.viewid = none

instance instDecidableTakesCert (r : BftRules) (b : XvBlock) : Decidable (r.TakesCert b) :=
  inferInstanceAs (Decidable (_ ∧ _))

variable {r r' : BftRules} {v : UInt64} {b : XvBlock}

theorem Keyed.of_sheds (hk : r.Keyed) (h : r.Sheds r') : r'.Keyed := by
  intro v b hb
  obtain ⟨hview, hle⟩ := hk v b (h.kept v b hb)
  exact ⟨hview, hle.trans h.viewid_le⟩

theorem find?_of_filter {m : SortedMap UInt64 XvBlock} {p : UInt64 × XvBlock → Bool}
    (h : (m.filter p).find? v = some b) : m.find? v = some b := by
  rw [find?_eq_some_iff] at h ⊢
  exact (mem_filter.mp h).1

theorem sheds_setLockBlock (chk : BlockChecks) (r : BftRules) (new : Option XvBlock) :
    Sheds r (r.setLockBlock chk new).1 := by
  rcases setLockBlock_cases chk r new with he | ⟨_, b, -, -, -, -, he⟩ | ⟨b, -, -, he⟩
  · rw [he]
    exact ⟨fun _ _ h => h, le_rfl, id⟩
  · rw [he]
    exact ⟨fun _ _ h => h, le_rfl, fun _ => rfl⟩
  · rw [he]
    exact ⟨fun _ _ h => find?_of_filter h, le_max_left _ _, fun _ => rfl⟩

theorem addCertBlock_snd (r : BftRules) (b : XvBlock) :
    (r.addCertBlock b).2 = true ↔ r.TakesCert b := by
  have hemplace : (r.certifiedBlocks.emplace b.viewid b).2 = true ↔
      r.findCertBlock b.viewid = none := by
    unfold SortedMap.emplace findCertBlock
    split
    · rename_i hsome
      simp [hsome]
    · rename_i hnone
      simp [hnone]
  unfold addCertBlock TakesCert
  cases r.latestLockBlock with
  | none => simpa using hemplace
  | some lock =>
    by_cases hoff : safeCheckFollowLockedBranch lock b < 0
    · simp [hoff]
    · simpa [hoff, not_lt.mp hoff] using hemplace

theorem findProposal_addCertBlock (r : BftRules) (b : XvBlock) (v : UInt64) :
    (r.addCertBlock b).1.findProposal v = r.findProposal v := by
  obtain ⟨m, he, -⟩ := addCertBlock_spec r b
  rw [he]
  rfl

theorem lockRel_sheds (chk : BlockChecks) : LockRel chk Sheds where
  refl _ := ⟨fun _ _ h => h, le_rfl, id⟩
  trans h h' := ⟨fun v b hb => h.kept v b (h'.kept v b hb), h.viewid_le.trans h'.viewid_le,
    fun hl => h'.locked (h.locked hl)⟩
  setLockBlock := sheds_setLockBlock chk
  addCertBlock r b := by
    obtain ⟨m, he, -⟩ := addCertBlock_spec r b
    rw [he]
    exact ⟨fun _ _ h => h, le_rfl, id⟩

theorem Keyed.countP_values (hk : r.Keyed) (v : UInt64) (p : XvBlock → Bool) :
    (r.proposalBlocks.values.filter p).countP (·.viewid = v) =
      if (r.findProposal v).any p then 1 else 0 := by
  unfold findProposal SortedMap.values
  rw [← countP_key, countP_filter, countP_map]
  refine countP_congr fun e he => ?_
  have hview : e.2.viewid = e.1 := (hk e.1 e.2 (find?_eq_some_iff.mpr he)).1
  simp only [Function.comp_apply, hview, Bool.and_eq_true, decide_eq_true_eq]

theorem Keyed.countP_dropped (hk : r.Keyed) (h : r.Sheds r') (v : UInt64) :
    (r.dropped r').countP (·.viewid = v) + r'.held v = r.held v := by
  unfold dropped
  rw [hk.countP_values v]
  unfold held
  cases hr : r.findProposal v with
  | none =>
    have hr' : r'.findProposal v = none := by
      by_contra hsome
      obtain ⟨b, hb⟩ := ne_none_iff_exists'.mp hsome
      rw [h.kept v b hb] at hr
      cases hr
    rw [hr']
    rfl
  | some b =>
    have hview : b.viewid = v := (hk v b hr).1
    rw [any_some, hview]
    cases r'.findProposal v with
    | none => rfl
    | some b' => rfl

theorem held_of_isSome (h : (r.findProposal v).isSome) : r.held v = 1 := if_pos h

theorem Keyed.held_of_lt (hk : r.Keyed) (h : r.latestVotedViewid < v) : r.held v = 0 := by
  refine if_neg fun hsome => ?_
  obtain ⟨b, hb⟩ := isSome_iff_exists.mp hsome
  exact (hk v b hb).2.not_gt h

theorem held_addProposal_self (r : BftRules) (b : XvBlock) :
    (r.addProposal b).held b.viewid = 1 := by
  unfold held addProposal findProposal
  rw [find?_insert_self]
  rfl

theorem held_addProposal_of_ne (r : BftRules) (h : v ≠ b.viewid) :
    (r.addProposal b).held v = r.held v := by
  unfold held addProposal findProposal
  rw [find?_insert_of_ne _ _ h]

theorem held_removeProposal_self (r : BftRules) (v : UInt64) : (r.removeProposal v).held v = 0 := by
  unfold held removeProposal findProposal
  rw [find?_erase_self]
  rfl

theorem held_removeProposal_of_ne (r : BftRules) {v w : UInt64} (h : w ≠ v) :
    (r.removeProposal v).held w = r.held w := by
  unfold held removeProposal findProposal
  rw [find?_erase_of_ne _ h]

theorem sheds_removeProposal (r : BftRules) (v : UInt64) : Sheds r (r.removeProposal v) :=
  ⟨fun _ _ h => find?_of_filter h, le_rfl, id⟩

theorem sheds_filterProposals (r : BftRules) (keep : XvBlock → Bool) :
    Sheds r (r.filterProposals keep) :=
  ⟨fun _ _ h => find?_of_filter h, le_rfl, id⟩

theorem held_filterProposals (r : BftRules) (keep : XvBlock → Bool) (v : UInt64) :
    (r.filterProposals keep).held v = if (r.findProposal v).any keep then 1 else 0 := by
  unfold held filterProposals findProposal
  rw [find?_filter_val]
  cases r.proposalBlocks.find? v with
  | none => rfl
  | some b => cases hkeep : keep b <;> simp [Option.filter, hkeep]

theorem Keyed.addProposal (hk : r.Keyed) (b : XvBlock) : (r.addProposal b).Keyed := by
  intro v b' hb'
  by_cases hv : v = b.viewid
  · rw [hv]
    have hself : (r.addProposal b).findProposal b.viewid = some b :=
      find?_insert_self _ _ _
    rw [hv, hself, some_inj] at hb'
    exact ⟨by rw [← hb'], le_max_right _ _⟩
  · have hother : (r.addProposal b).findProposal v = r.findProposal v :=
      find?_insert_of_ne _ _ hv
    rw [hother] at hb'
    obtain ⟨hview, hle⟩ := hk v b' hb'
    exact ⟨hview, hle.trans (le_max_left _ _)⟩

end BftRules

open BftRules

/-- From `r` to `r'` with outputs: what is admitted is finished or still held. -/
structure Turn (r : BftRules) (outs : List FinishOutput) (r' : BftRules) : Prop where
  keyed : r'.Keyed
  locked : r.latestLockBlock.isSome → r'.latestLockBlock.isSome
  balanced : ∀ v, finishes v outs + r'.held v = admissions v outs + r.held v
  viewid_le : r.latestVotedViewid ≤ r'.latestVotedViewid
  fresh : ∀ v, admissions v outs = 0 ∨
    (admissions v outs = 1 ∧ r.latestVotedViewid < v ∧ v ≤ r'.latestVotedViewid)

section
variable {r r₁ r₂ : BftRules} {outs outs' : List FinishOutput}

theorem Turn.append (h : Turn r outs r₁) (h' : Turn r₁ outs' r₂) : Turn r (outs ++ outs') r₂ where
  keyed := h'.keyed
  locked hl := h'.locked (h.locked hl)
  balanced v := by
    have hb := h.balanced v
    have hb' := h'.balanced v
    rw [finishes_append, admissions_append]
    omega
  viewid_le := h.viewid_le.trans h'.viewid_le
  fresh v := by
    rw [admissions_append]
    rcases h.fresh v with hzero | ⟨hone, hlt, hle⟩
    · rcases h'.fresh v with hzero' | ⟨hone', hlt', hle'⟩
      · exact .inl (by omega)
      · exact .inr ⟨by omega, h.viewid_le.trans_lt hlt', hle'⟩
    · rcases h'.fresh v with hzero' | ⟨hone', hlt', hle'⟩
      · exact .inr ⟨by omega, hlt, hle.trans h'.viewid_le⟩
      · exact absurd hle hlt'.not_ge

theorem Turn.comm (h : Turn r (outs ++ outs') r₁) : Turn r (outs' ++ outs) r₁ where
  keyed := h.keyed
  locked := h.locked
  balanced v := by
    have hb := h.balanced v
    rw [finishes_append, admissions_append] at hb ⊢
    omega
  viewid_le := h.viewid_le
  fresh v := by
    have hf := h.fresh v
    rw [admissions_append] at hf ⊢
    rwa [Nat.add_comm]

theorem Turn.lock (hk : r.Keyed) (h : Sheds r r₁) :
    Turn r (ProposalDriver.lockFinishes r r₁) r₁ where
  keyed := hk.of_sheds h
  locked := h.locked
  balanced v := by
    unfold ProposalDriver.lockFinishes
    rw [admissions_map_finished, finishes_map_finished, hk.countP_dropped h, Nat.zero_add]
  viewid_le := h.viewid_le
  fresh v := .inl (admissions_map_finished v _ _)

theorem Turn.quiet (hk : r.Keyed) (h : Sheds r r₁) (hheld : ∀ v, r₁.held v = r.held v)
    (hfinish : ∀ v, finishes v outs = 0) (hnone : ∀ v, admissions v outs = 0) :
    Turn r outs r₁ where
  keyed := hk.of_sheds h
  locked := h.locked
  balanced v := by rw [hfinish, hnone, hheld]
  viewid_le := h.viewid_le
  fresh v := .inl (hnone v)

theorem Turn.cert (h : Turn r outs r₁) (chk : BlockChecks) (b : XvBlock) :
    Turn r outs (r₁.addCertBlock b).1 := by
  have hheld : ∀ v, (r₁.addCertBlock b).1.held v = r₁.held v := by
    intro v
    unfold held
    rw [findProposal_addCertBlock]
  have hcert : Turn r₁ [] (r₁.addCertBlock b).1 :=
    .quiet h.keyed ((lockRel_sheds chk).addCertBlock r₁ b) hheld (fun _ => rfl) fun _ => rfl
  exact append_nil outs ▸ h.append hcert

section
variable (hk : r.Keyed)
include hk

theorem Turn.admission (hlt : r.latestVotedViewid < b.viewid) :
    Turn r [.admitted b] (r.addProposal b) where
  keyed := hk.addProposal b
  locked := id
  balanced v := by
    by_cases hv : b.viewid = v
    · rw [← hv, held_addProposal_self, hk.held_of_lt hlt]
      simp [finishes, admissions, FinishOutput.isFinish, FinishOutput.isAdmission]
    · rw [held_addProposal_of_ne r (Ne.symm hv)]
      simp [finishes, admissions, FinishOutput.isFinish, FinishOutput.isAdmission, hv]
  viewid_le := le_max_left _ _
  fresh v := by
    by_cases hv : b.viewid = v
    · refine .inr ⟨?_, hv ▸ hlt, hv ▸ le_max_right _ _⟩
      simp [admissions, FinishOutput.isAdmission, hv]
    · refine .inl ?_
      simp [admissions, FinishOutput.isAdmission, hv]

theorem Turn.finish (h : (r.findProposal b.viewid).isSome) (code : FinishCode) :
    Turn r [.finished b code] (r.removeProposal b.viewid) where
  keyed := hk.of_sheds (sheds_removeProposal r b.viewid)
  locked := id
  balanced v := by
    by_cases hv : b.viewid = v
    · rw [← hv, held_removeProposal_self, held_of_isSome h]
      simp [finishes, admissions, FinishOutput.isFinish, FinishOutput.isAdmission]
    · rw [held_removeProposal_of_ne r (Ne.symm hv)]
      simp [finishes, admissions, FinishOutput.isFinish, FinishOutput.isAdmission, hv]
  viewid_le := le_rfl
  fresh v := .inl rfl

theorem Turn.drop (keep late : XvBlock → Bool) :
    Turn r ((r.proposalBlocks.values.filter fun b => late b).map (.finished · .timeout) ++
      (r.proposalBlocks.values.filter fun b => !late b && !keep b).map (.finished · .cancel))
      (r.filterProposals fun b => !late b && keep b) where
  keyed := hk.of_sheds (sheds_filterProposals r _)
  locked := id
  balanced v := by
    rw [finishes_append, admissions_append, admissions_map_finished, admissions_map_finished,
      finishes_map_finished, finishes_map_finished, hk.countP_values, hk.countP_values,
      held_filterProposals]
    unfold held
    cases r.findProposal v with
    | none => rfl
    | some b => cases hlate : late b <;> cases hkeep : keep b <;> simp [hlate, hkeep]
  viewid_le := le_rfl
  fresh v := .inl (by
    rw [admissions_append, admissions_map_finished, admissions_map_finished])

theorem Turn.cancel (keep : XvBlock → Bool) :
    Turn r ((r.proposalBlocks.values.filter fun b => !keep b).map (.finished · .cancel))
      (r.filterProposals keep) := by
  have hdrop := Turn.drop hk keep fun _ => false
  simpa using hdrop

end
end

namespace ProposalDriver
variable (chk : BlockChecks)

/-- A job calls back in time: a refused proposal and one that a commit message certifies are still
held, and one whose votes are complete is held exactly if its certificate is one that
`add_cert_block` takes. -/
def JobInTime (r : BftRules) (error : Option Int) (hash : String) : Job → Prop
  | .verifyProposal b => error.isSome → (r.findProposal b.viewid).isSome
  | .verifyVote b => (r.findProposal b.viewid).isSome ↔ r.TakesCert (authenticatedAs b hash)
  | .verifyCommit b => r.TakesCert (authenticatedAs b hash) → (r.findProposal b.viewid).isSome
  | .verifySync _ | .refuse _ _ => True

instance instDecidableJobInTime (r : BftRules) (error : Option Int) (hash : String) (job : Job) :
    Decidable (JobInTime r error hash job) :=
  match job with
  | .verifyProposal _ => inferInstanceAs (Decidable (_ → _))
  | .verifyVote _ => inferInstanceAs (Decidable (_ ↔ _))
  | .verifyCommit _ => inferInstanceAs (Decidable (_ → _))
  | .verifySync _ | .refuse _ _ => .isTrue trivial

/-- A job calls back while its proposal is there, and its outcome is the right one. -/
def InTime (d : ProposalDriver) : ProposalEvent → Prop
  | .callback i error hash _ => ∀ job ∈ d.jobs[i]?, JobInTime d.rules error hash job
  | _ => True

instance instDecidableInTime (d : ProposalDriver) (e : ProposalEvent) : Decidable (InTime d e) :=
  match e with
  | .callback i error hash _ =>
    inferInstanceAs (Decidable (∀ job ∈ d.jobs[i]?, JobInTime d.rules error hash job))
  | .consensusUpdate _ | .proposalStart _ | .proposalMsg _ | .voteMsg _ | .commitMsg _
  | .syncRequest _ _ | .syncRespond _ | .viewFire _ _ | .clockFire _ => .isTrue trivial

variable {chk} {r : BftRules} {d : ProposalDriver} {error : Option Int} {hash : String}
  {stored : Option XvBlock}

theorem turn_lock (chk : BlockChecks) (hk : r.Keyed) (stored : Option XvBlock) :
    Turn r (lockFinishes r (r.getLockBlock chk stored)) (r.getLockBlock chk stored) :=
  .lock hk ((lockRel_sheds chk).getLockBlock r stored)

theorem getLockBlock_locked (hlock : r.latestLockBlock.isSome) (stored : Option XvBlock) :
    r.getLockBlock chk stored = r := by
  obtain ⟨lock, hl⟩ := isSome_iff_exists.mp hlock
  rw [getLockBlock, hl]

theorem turn_verifyVote (hk : r.Keyed) (hlock : r.latestLockBlock.isSome)
    (h : JobInTime r error hash (.verifyVote b)) :
    Turn r (runJob chk r error hash stored (.verifyVote b)).2
      (runJob chk r error hash stored (.verifyVote b)).1 := by
  have hk' : (r.removeProposal b.viewid).Keyed := hk.of_sheds (sheds_removeProposal r b.viewid)
  have hcert := (turn_lock chk hk' stored).cert chk (authenticatedAs b hash)
  have htakes : (((r.removeProposal b.viewid).getLockBlock chk stored).addCertBlock
      (authenticatedAs b hash)).2 = true ↔ r.TakesCert (authenticatedAs b hash) := by
    rw [getLockBlock_locked (r := r.removeProposal b.viewid) hlock, addCertBlock_snd]
    exact Iff.rfl
  simp only [runJob]
  by_cases hheld : (r.findProposal b.viewid).isSome
  · -- the report of the vote and the ones of the lock, in the order of the source
    rw [if_pos (htakes.mpr (h.mp hheld))]
    have hfinish : Turn r [.finished (authenticatedAs b hash) .successful]
      (r.removeProposal b.viewid) := Turn.finish (b := authenticatedAs b hash) hk hheld .successful
    exact (hfinish.append hcert).comm
  · rw [if_neg fun hok => hheld (h.mpr (htakes.mp hok)), append_nil]
    have hquiet : Turn r [] (r.removeProposal b.viewid) := by
      refine .quiet hk (sheds_removeProposal r b.viewid) (fun v => ?_) (fun _ => rfl) fun _ => rfl
      by_cases hv : v = b.viewid
      · rw [hv, held_removeProposal_self]
        exact (if_neg hheld).symm
      · exact held_removeProposal_of_ne r hv
    exact hquiet.append hcert

variable {outs : List FinishOutput}

theorem turn_certified {r₁ : BftRules} (h : Turn r outs r₁)
    (hheld : (r₁.findProposal b.viewid).isSome) :
    Turn r (outs ++ [.finished (authenticatedAs b hash) .successful])
      (r₁.removeProposal b.viewid) :=
  h.append (Turn.finish (b := authenticatedAs b hash) h.keyed hheld .successful)

theorem turn_runJob {job : Job} (hk : r.Keyed)
    (hlock : job.certifies = true → r.latestLockBlock.isSome) (h : JobInTime r error hash job) :
    Turn r (runJob chk r error hash stored job).2 (runJob chk r error hash stored job).1 := by
  have hlocked := turn_lock chk hk stored
  cases job with
  | verifyProposal b =>
    cases error with
    | none => exact hlocked
    | some code => exact .finish hk (h rfl) (.reported code "")
  | verifyVote b => exact turn_verifyVote hk (hlock rfl) h
  | verifyCommit b =>
    have hcert := hlocked.cert chk (authenticatedAs b hash)
    simp only [runJob]
    split_ifs with hok
    · rw [getLockBlock_locked (hlock rfl)] at hok
      have hheld := h ((addCertBlock_snd _ _).mp hok)
      rw [← @getLockBlock_locked chk r (hlock rfl) stored,
        ← findProposal_addCertBlock _ (authenticatedAs b hash)] at hheld
      exact turn_certified hcert hheld
    · exact hcert
  | verifySync b =>
    have hcert := hlocked.cert chk (authenticatedAs b hash)
    simp only [runJob]
    split_ifs with hok hheld
    · exact turn_certified hcert hheld
    · refine hcert.append (.quiet hcert.keyed ((lockRel_sheds chk).refl _) (fun _ => rfl)
        (fun _ => rfl) fun _ => rfl)
    · exact hcert
  | refuse b code =>
    exact .quiet hk ((lockRel_sheds chk).refl r) (fun _ => rfl) (fun _ => rfl) fun _ => rfl

theorem handleVoteMsg_rules (chk : BlockChecks) (r : BftRules) (m : VoteMsg) :
    (r.handleVoteMsg chk m).1 = r.getLockBlock chk m.stored := by
  unfold handleVoteMsg
  dsimp only
  split_ifs
  · rfl
  · split
    · rfl
    · split_ifs <;> rfl

theorem handleSyncRespondMsg_rules (r : BftRules) (m : SyncRespond) :
    (r.handleSyncRespondMsg chk m).1 = r.getLockBlock chk m.stored := by
  unfold handleSyncRespondMsg
  dsimp only
  split
  · split_ifs <;> rfl
  · rfl

theorem commitAction_fail {m : CommitMsg} {matched : Option XvBlock} {code : Int}
    {reason : String} (h : commitAction m matched = .fail b code reason) : matched = some b := by
  unfold commitAction at h
  split at h
  · cases h
  cases matched with
  | none => cases h
  | some found =>
    cases herror : m.error with
    | none =>
      simp only [herror] at h
      split at h <;> cases h
    | some error =>
      simp only [herror] at h
      cases h
      rfl

theorem handleCommitMsg_spec (chk : BlockChecks) (r : BftRules) (m : CommitMsg) :
    (r.handleCommitMsg chk m).1 = r.getLockBlock chk m.stored ∧
    ∀ b code reason, (r.handleCommitMsg chk m).2 = .fail b code reason →
      (r.getLockBlock chk m.stored).findProposal m.packet.viewid = some b := by
  unfold handleCommitMsg
  dsimp only
  split
  · exact ⟨rfl, fun _ _ _ h => by cases h⟩
  split
  · exact ⟨rfl, fun _ _ _ h => by cases h⟩
  split
  · refine ⟨rfl, fun b code reason h => ?_⟩
    have hnone : commitAction m none = .fail b code reason := h
    cases commitAction_fail hnone
  next found hfound =>
  split
  · exact ⟨rfl, fun _ _ _ h => by cases h⟩
  split
  · exact ⟨rfl, fun _ _ _ h => by cases h⟩
  · refine ⟨rfl, fun b code reason h => ?_⟩
    have hmatched := commitAction_fail h
    split at hmatched
    · rw [hfound]
      exact hmatched
    · cases hmatched

/-- A job that certifies is started while the lock is known, and it stays so. -/
def LockKnown (d : ProposalDriver) : Prop :=
  ∀ job ∈ d.jobs, job.certifies = true → d.rules.latestLockBlock.isSome

theorem isSome_of_safeCheckForPacket {p : Packet} (h : r.safeCheckForPacket p = true) :
    r.latestLockBlock.isSome := by
  unfold safeCheckForPacket at h
  split at h
  · cases h
  · rename_i hl
    rw [hl]
    rfl

theorem handleVoteMsg_locked {m : VoteMsg} {r' : BftRules}
    (h : r.handleVoteMsg chk m = (r', some b)) : r'.latestLockBlock.isSome := by
  have hrules := handleVoteMsg_rules chk r m
  rw [h] at hrules
  subst hrules
  unfold handleVoteMsg at h
  dsimp only at h
  split at h
  · cases h
  · rename_i hsafe
    rw [Bool.not_eq_true', Bool.not_eq_false, Bool.and_eq_true] at hsafe
    exact isSome_of_safeCheckForPacket hsafe.1

theorem handleCommitMsg_locked {m : CommitMsg} {r' : BftRules}
    (h : r.handleCommitMsg chk m = (r', .verify b)) : r'.latestLockBlock.isSome := by
  have hrules := (handleCommitMsg_spec chk r m).1
  rw [h] at hrules
  subst hrules
  unfold handleCommitMsg at h
  dsimp only at h
  split at h
  · cases h
  · rename_i hsafe
    rw [Bool.not_eq_true', Bool.not_eq_false, Bool.and_eq_true] at hsafe
    exact isSome_of_safeCheckForPacket hsafe.1

theorem certifies_refusal {e : ProposalStart} {job : Job} (h : job ∈ refusal chk r e) :
    job.certifies = false := by
  unfold refusal at h
  split at h
  · cases h
  split at h
  · rw [mem_singleton.mp h]
    rfl
  split at h
  · cases h
  dsimp only at h
  split_ifs at h <;> rw [mem_singleton.mp h] <;> rfl

theorem step_jobs (chk : BlockChecks) (d : ProposalDriver) (e : ProposalEvent) :
    ∀ job ∈ (d.step chk e).1.jobs, job ∈ d.jobs ∨
      (job.certifies = true → (d.step chk e).1.rules.latestLockBlock.isSome) := by
  intro job hjob
  -- a job that is not there yet certifies nothing, or was opened by a handler that found the lock
  cases e with
  | consensusUpdate lock => exact .inl hjob
  | syncRequest b stored => exact .inl hjob
  | viewFire viewid stored => exact .inl hjob
  | clockFire stored => exact .inl hjob
  | proposalStart e =>
    simp only [step] at hjob ⊢
    split at hjob
    · refine (mem_append.mp hjob).imp_right fun hnew hcert => ?_
      rw [certifies_refusal hnew] at hcert
      cases hcert
    · exact .inl hjob
  | proposalMsg m =>
    simp only [step] at hjob ⊢
    split at hjob
    · exact .inl hjob
    · refine (mem_append.mp hjob).imp_right fun hnew hcert => ?_
      rw [mem_singleton.mp hnew] at hcert
      cases hcert
  | voteMsg m =>
    simp only [step] at hjob ⊢
    split at hjob
    · exact .inl hjob
    · rename_i heq
      exact (mem_append.mp hjob).imp_right fun _ _ => handleVoteMsg_locked heq
  | commitMsg m =>
    simp only [step] at hjob ⊢
    split at hjob
    · exact .inl hjob
    · rename_i heq
      exact (mem_append.mp hjob).imp_right fun _ _ => handleCommitMsg_locked heq
    · exact .inl hjob
  | syncRespond m =>
    simp only [step] at hjob ⊢
    split at hjob
    · exact .inl hjob
    · refine (mem_append.mp hjob).imp_right fun hnew hcert => ?_
      rw [mem_singleton.mp hnew] at hcert
      cases hcert
  | callback i error hash stored =>
    simp only [step] at hjob
    split at hjob
    · exact .inl hjob
    · exact .inl (mem_of_mem_eraseIdx hjob)

theorem turn_step (e : ProposalEvent) (hk : d.rules.Keyed) (hlock : LockKnown d)
    (h : InTime d e) :
    Turn d.rules (d.step chk e).2 (d.step chk e).1.rules := by
  have hsheds := lockRel_sheds chk
  cases e with
  | consensusUpdate lock => exact .lock hk (hsheds.setLockBlock d.rules lock)
  | proposalStart e =>
    rcases onProposalStart_cases chk d.rules e with ⟨r', he, hr⟩ | ⟨p, lock, -, -, hl, hok, he⟩
    · simp only [step, he]
      refine .lock hk ?_
      rcases hr with rfl | rfl
      · exact hsheds.startRules d.rules e
      · exact hsheds.signingRules d.rules e
    · simp only [step, he]
      have hlocked := Turn.lock hk (hsheds.signingRules d.rules e)
      have hpre := (ownProposalOk_spec chk _ hl hok).1
      exact hlocked.append (.admission hlocked.keyed (safePrecheckForVoting_spec hpre).2.2.2.1)
  | proposalMsg m =>
    have hlocked := turn_lock chk hk m.stored
    rcases handleProposalMsg_cases chk d.rules m with ⟨code, he⟩ | ⟨lock, b, hl, hb, he⟩
    · simp only [step, he]
      exact hlocked
    · simp only [step, he]
      have hpre := (checkProposalMsg_ok chk _ hb).1
      exact hlocked.append (.admission hlocked.keyed (safePrecheckForVoting_spec hpre).2.2.2.1)
  | voteMsg m =>
    have hlocked := turn_lock chk hk m.stored
    rw [← handleVoteMsg_rules] at hlocked
    simp only [step]
    split <;> rename_i heq <;> rw [heq] at hlocked <;> exact hlocked
  | commitMsg m =>
    have hlocked := turn_lock chk hk m.stored
    obtain ⟨hrules, hfail⟩ := handleCommitMsg_spec chk d.rules m
    rw [← hrules] at hlocked hfail
    simp only [step]
    split
    · rename_i heq
      rw [heq] at hlocked
      exact hlocked
    · rename_i heq
      rw [heq] at hlocked
      exact hlocked
    · rename_i r' b code reason heq
      rw [heq] at hlocked hfail
      have hfound := hfail b code reason rfl
      have hview := (hlocked.keyed _ _ hfound).1
      have hheld : (r'.findProposal b.viewid).isSome := by
        rw [hview, hfound]
        rfl
      exact hlocked.append (.finish hlocked.keyed hheld (.reported code reason))
  | syncRequest b stored => exact (turn_lock chk hk stored).cert chk b
  | syncRespond m =>
    have hlocked := turn_lock chk hk m.stored
    rw [← handleSyncRespondMsg_rules] at hlocked
    simp only [step]
    split <;> rename_i heq <;> rw [heq] at hlocked <;> exact hlocked
  | callback i error hash stored =>
    simp only [step]
    split
    · exact .quiet hk (hsheds.refl _) (fun _ => rfl) (fun _ => rfl) fun _ => rfl
    · rename_i job hjob
      exact turn_runJob hk (hlock job (mem_of_getElem? hjob)) (h job hjob)
  | viewFire viewid stored =>
    have hlocked : Sheds d.rules (if d.rules.proposalBlocks.values.any fun b => !(viewid > b.viewid)
        then d.rules.getLockBlock chk stored else d.rules) := by
      split
      · exact hsheds.getLockBlock d.rules stored
      · exact hsheds.refl d.rules
    have hturn := Turn.lock hk hlocked
    exact hturn.append (.drop hturn.keyed _ _)
  | clockFire stored =>
    have hlocked : Sheds d.rules (if d.rules.proposalBlocks.values.isEmpty then d.rules
        else d.rules.getLockBlock chk stored) := by
      split
      · exact hsheds.refl d.rules
      · exact hsheds.getLockBlock d.rules stored
    have hturn := Turn.lock hk hlocked
    exact hturn.append (.cancel hturn.keyed _)

theorem LockKnown.step (h : LockKnown d) {e : ProposalEvent} {outs : List FinishOutput}
    (hturn : Turn d.rules outs (d.step chk e).1.rules) : LockKnown (d.step chk e).1 := by
  intro job hjob hcert
  rcases step_jobs chk d e job hjob with hold | hnew
  · exact hturn.locked (h job hold hcert)
  · exact hnew hcert

structure Account (outs : List FinishOutput) (d : ProposalDriver) : Prop where
  keyed : d.rules.Keyed
  balanced : ∀ v, finishes v outs + d.rules.held v = admissions v outs
  once : ∀ v, admissions v outs ≤ 1
  viewid_le : ∀ v, 0 < admissions v outs → v ≤ d.rules.latestVotedViewid

theorem account_of_turn (h : Turn .init outs d.rules) : Account outs d where
  keyed := h.keyed
  balanced := h.balanced
  once v := by
    rcases h.fresh v with hzero | ⟨hone, -, -⟩
    · omega
    · omega
  viewid_le v hv := by
    rcases h.fresh v with hzero | ⟨-, -, hle⟩
    · omega
    · exact hle

theorem one_le_admissions (h : .admitted b ∈ outs) : 1 ≤ admissions b.viewid outs :=
  countP_pos_iff.mpr ⟨_, h, decide_eq_true rfl⟩

/-- While every callback comes in time, a proposal that entered has one finish event once it has
left, and none before. -/
theorem proposal_finishes_once (es : List ProposalEvent)
    (hes : Run.Meets (step chk) InTime init es) (b : XvBlock)
    (hb : .admitted b ∈ (Run.run (step chk) init es).2) :
    finishes b.viewid (Run.run (step chk) init es).2 =
      if ((Run.run (step chk) init es).1.rules.findProposal b.viewid).isSome then 0 else 1 := by
  have hinit : Turn .init [] .init := .quiet (fun v b h => by cases h)
    ((lockRel_sheds chk).refl _) (fun _ => rfl) (fun _ => rfl) fun _ => rfl
  have hknown : LockKnown init := fun _ h => by cases h
  let I : List FinishOutput → ProposalDriver → Prop := fun outs d =>
    Turn .init outs d.rules ∧ LockKnown d
  have hstep : ∀ outs d e, I outs d → InTime d e →
      I (outs ++ (d.step chk e).2) (d.step chk e).1 := by
    intro outs d e h he
    have hturn : Turn d.rules (d.step chk e).2 (d.step chk e).1.rules :=
      turn_step e h.1.keyed h.2 he
    exact ⟨h.1.append hturn, h.2.step hturn⟩
  have hrun : I _ _ := Run.run_hist hstep ⟨hinit, hknown⟩ es hes
  have haccount : Account (Run.run (step chk) init es).2 (Run.run (step chk) init es).1 :=
    account_of_turn hrun.1
  have hbalanced := haccount.balanced b.viewid
  have honce := haccount.once b.viewid
  have hone := one_le_admissions hb
  unfold held at hbalanced
  split_ifs at hbalanced ⊢ <;> omega

namespace FinishRun

open BftDriver.LeaderRun

def blockAt (height viewid : UInt64) (last hash : String) : XvBlock :=
  { block height last hash with viewid := viewid }

def start : List ProposalEvent :=
  [.consensusUpdate (some (block 1 "G" "A")), .syncRequest (block 2 "A" "B") none,
   .proposalStart ⟨some (blockAt 3 5 "B" ""), some (block 2 "A" "B"), none, none, none, none⟩]

def vote : ProposalEvent :=
  .voteMsg ⟨⟨0, "T", 3, 5, 1⟩, ⟨1, 0⟩, true, false, true, none⟩

def voted : ProposalEvent := .callback 0 none "C" none

end FinishRun

open FinishRun BftDriver.LeaderRun

theorem proposal_finishes_once_sample :
    finishes 5 (Run.run (step accepting) init
        (start ++ [vote, voted, .viewFire 6 none])).2 = 1 := by
  have hmeets : Run.Meets (step accepting) InTime init
      (start ++ [vote, voted, .viewFire 6 none]) := by decide +kernel
  have hadmitted : .admitted (blockAt 3 5 "B" "") ∈
      (Run.run (step accepting) init (start ++ [vote, voted, .viewFire 6 none])).2 := by
    decide +kernel
  exact (proposal_finishes_once _ hmeets _ hadmitted).trans (by decide +kernel)

theorem proposal_finishes_twice_or_never :
    finishes 5 (Run.run (step accepting) init (start ++ [vote, .viewFire 6 none, voted])).2 = 2 ∧
    finishes 5 (Run.run (step accepting) init
      (start ++ [vote, .consensusUpdate (some (blockAt 2 3 "A" "X")), voted])).2 = 0 ∧
    (Run.run (step accepting) init
      (start ++ [vote, .consensusUpdate (some (blockAt 2 3 "A" "X")), voted])).1.rules.findProposal
      5 = none := by
  decide +kernel

end ProposalDriver
end TopChain.Bft
