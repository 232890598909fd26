import TopChain.Bft.Driver

/-!
# What a driver admits and signs

Every event advances the rules: lock and watermarks never go down.
-/
namespace TopChain.Bft

open Option List TopChain.Base TopChain.Lib Word

variable {lock : XvBlock}

namespace BftRules

structure Advances (r r' : BftRules) : Prop where
  viewid_le : r.latestVotedViewid ≤ r'.latestVotedViewid
  height_le : r.latestVotedHeight ≤ r'.latestVotedHeight
  lock_le : ∀ lock, r.latestLockBlock = some lock →
    ∃ lock', r'.latestLockBlock = some lock' ∧ lock.height ≤ lock'.height

namespace Advances
variable {r r₁ r₂ : BftRules}

theorem refl (r : BftRules) : Advances r r :=
  ⟨le_rfl, le_rfl, fun lock h => ⟨lock, h, le_rfl⟩⟩

theorem trans (h : Advances r r₁) (h' : Advances r₁ r₂) : Advances r r₂ := by
  refine ⟨h.viewid_le.trans h'.viewid_le, h.height_le.trans h'.height_le, fun lock hl => ?_⟩
  obtain ⟨lock₁, hl₁, hle⟩ := h.lock_le lock hl
  obtain ⟨lock₂, hl₂, hle'⟩ := h'.lock_le lock₁ hl₁
  exact ⟨lock₂, hl₂, hle.trans hle'⟩

end Advances

section
variable (chk : BlockChecks) (r : BftRules)

theorem advances_setLockBlock (new : Option XvBlock) : Advances r (r.setLockBlock chk new).1 := by
  obtain ⟨-, hview, hheight⟩ := setLockBlock_frame chk r new
  refine ⟨hview, hheight, fun lock hl => ?_⟩
  rcases setLockBlock_cases chk r new with he | ⟨old, b, -, hold, hh, -, he⟩ | ⟨b, -, hb, he⟩
  · exact ⟨lock, by rw [he, hl], le_rfl⟩
  · rw [hl, some_inj] at hold
    exact ⟨b, by rw [he], by rw [hold, hh]⟩
  · exact ⟨b, by rw [he]; rfl, ((safeCheckForBlock_iff hl).mp (hb lock hl)).2.1.le⟩

theorem advances_addCertBlock (b : XvBlock) : Advances r (r.addCertBlock b).1 := by
  obtain ⟨m, he, -⟩ := addCertBlock_spec r b
  rw [he]
  exact ⟨le_rfl, le_rfl, fun lock h => ⟨lock, h, le_rfl⟩⟩

theorem advances_addProposal (b : XvBlock) : Advances r (r.addProposal b) :=
  ⟨le_max_left _ _, le_max_left _ _, fun lock h => ⟨lock, h, le_rfl⟩⟩

theorem advances_removeProposal (viewid : UInt64) : Advances r (r.removeProposal viewid) :=
  ⟨le_rfl, le_rfl, fun lock h => ⟨lock, h, le_rfl⟩⟩

theorem advances_filterProposals (keep : XvBlock → Bool) : Advances r (r.filterProposals keep) :=
  ⟨le_rfl, le_rfl, fun lock h => ⟨lock, h, le_rfl⟩⟩

end

structure LockRel (chk : BlockChecks) (R : BftRules → BftRules → Prop) : Prop where
  refl : ∀ r, R r r
  trans : ∀ {r r₁ r₂}, R r r₁ → R r₁ r₂ → R r r₂
  setLockBlock : ∀ r new, R r (r.setLockBlock chk new).1
  addCertBlock : ∀ r b, R r (r.addCertBlock b).1

namespace LockRel
variable {chk : BlockChecks} {R : BftRules → BftRules → Prop} {r r₁ : BftRules}

section
variable (h : LockRel chk R)
include h

theorem getLockBlock (r : BftRules) (stored : Option XvBlock) :
    R r (r.getLockBlock chk stored) := by
  unfold BftRules.getLockBlock
  split
  · exact h.refl r
  · exact h.setLockBlock r stored

theorem certBlock (hr : R r r₁) (stored : Option XvBlock) (cert : XvBlock) :
    R r ((r₁.getLockBlock chk stored).addCertBlock cert).1 :=
  h.trans (h.trans hr (h.getLockBlock r₁ stored)) (h.addCertBlock _ cert)

theorem startRules (r : BftRules) (e : ProposalStart) : R r (r.startRules chk e) := by
  unfold BftRules.startRules
  -- first the lock of the event, then its certificate
  cases e.latestLock.or e.latestCommit with
  | none =>
    cases e.latestCert with
    | none => exact h.refl r
    | some cert => exact h.certBlock (h.refl r) e.stored cert
  | some lock =>
    have hset := h.setLockBlock r (some lock)
    have hlock : R r (if (r.setLockBlock chk (some lock)).2
        then (r.setLockBlock chk (some lock)).1
        else (r.setLockBlock chk (some lock)).1.getLockBlock chk e.stored) := by
      split_ifs
      · exact hset
      · exact h.trans hset (h.getLockBlock _ e.stored)
    cases e.latestCert with
    | none => exact hlock
    | some cert => exact h.certBlock hlock e.stored cert

theorem signingRules (r : BftRules) (e : ProposalStart) : R r (r.signingRules chk e) :=
  h.trans (h.startRules r e) (h.getLockBlock _ e.stored)

end
end LockRel

theorem lockRel_advances (chk : BlockChecks) : LockRel chk Advances :=
  ⟨.refl, .trans, advances_setLockBlock chk, advances_addCertBlock⟩

section
variable (chk : BlockChecks) (r : BftRules)

theorem onProposalStart_cases (e : ProposalStart) : (∃ r', r.onProposalStart chk e = (r', none) ∧
      (r' = r.startRules chk e ∨ r' = r.signingRules chk e)) ∨
    ∃ p lock, e.proposal = some p ∧ parentOk chk p e.prevBlock = true ∧
      (r.signingRules chk e).latestLockBlock = some lock ∧
      (r.signingRules chk e).ownProposalOk chk lock p = true ∧
      r.onProposalStart chk e =
        ((r.signingRules chk e).addProposal (stampJustify lock p), some (stampJustify lock p)) := by
  unfold onProposalStart
  split
  · exact .inl ⟨_, rfl, .inl rfl⟩
  next p hp =>
  split_ifs with hparent
  · exact .inl ⟨_, rfl, .inl rfl⟩
  dsimp only
  split
  · exact .inl ⟨_, rfl, .inr rfl⟩
  next lock hlock =>
  split_ifs with hok
  · exact .inr ⟨p, lock, hp, by simpa using hparent, hlock, hok, rfl⟩
  · exact .inl ⟨_, rfl, .inr rfl⟩

theorem stampJustify_eq (lock p : XvBlock) :
    ∃ j, stampJustify lock p = { p with justifyCertHash := j } := by
  unfold stampJustify
  split_ifs
  · exact ⟨_, rfl⟩
  · exact ⟨_, rfl⟩

theorem ownProposalOk_spec {p : XvBlock} (hl : r.latestLockBlock = some lock)
    (h : r.ownProposalOk chk lock p = true) :
    r.safePrecheckForVoting chk (stampJustify lock p) = true ∧
      ((p.height.toNat = lock.height.toNat + 1 ∧ p.lastBlockHash = lock.blockHash) ∨
        p.height.toNat = lock.height.toNat + 2) := by
  simp only [ownProposalOk, Bool.and_eq_true, Bool.not_eq_true', decide_eq_false_iff_not,
    not_lt] at h
  obtain ⟨⟨⟨⟨⟨⟨hle, -⟩, -⟩, -⟩, -⟩, -⟩, hpre⟩ := h
  refine ⟨hpre, ?_⟩
  have hsafe := (safePrecheckForVoting_spec hpre).1
  have hfollow := safePrecheckForVoting_follow hl hpre
  have habove := ((safeCheckForBlock_iff hl).mp hsafe).2.1
  obtain ⟨j, hj⟩ := stampJustify_eq lock p
  rw [hj] at hfollow habove
  rcases eq_succ_or_eq_add_two habove hle with hone | htwo
  · have hlast := follow_child (b := { p with justifyCertHash := j }) hone hfollow
    exact .inl ⟨toNat_of_eq_succ hone habove, hlast⟩
  · exact .inr (toNat_of_eq_add_two htwo habove)

theorem handleProposalMsg_cases (m : ProposalMsg) :
    (∃ code, r.handleProposalMsg chk m = (r.getLockBlock chk m.stored, .error code)) ∨
    ∃ lock b, (r.getLockBlock chk m.stored).latestLockBlock = some lock ∧
      (r.getLockBlock chk m.stored).checkProposalMsg chk lock m = .ok b ∧
      r.handleProposalMsg chk m = ((r.getLockBlock chk m.stored).addProposal b, .ok b) := by
  unfold handleProposalMsg
  dsimp only
  split
  · exact .inl ⟨_, rfl⟩
  next lock hlock =>
  split
  · exact .inl ⟨_, rfl⟩
  next b hb => exact .inr ⟨lock, b, hlock, hb, rfl⟩

theorem checkProposalMsg_ok {b : XvBlock} {m : ProposalMsg}
    (h : r.checkProposalMsg chk lock m = .ok b) :
    r.safePrecheckForVoting chk b = true ∧ r.dataReady lock b m.commitKnown = true ∧
      isValidPacket b m.packet = true := by
  unfold checkProposalMsg at h
  split at h
  · cases h
  split at h
  · cases h
  split at h
  · cases h
  split at h
  · cases h
  next raw _ =>
  dsimp only at h
  split_ifs at h with hvalid hleader hvoter hpacket hdata hview hpre
  cases h
  simp only [Bool.or_eq_true, Bool.not_eq_true', not_or, Bool.not_eq_false] at hpacket
  exact ⟨by simpa using hpre, by simpa using hdata, hpacket.1.1⟩

theorem dataReady_height {b : XvBlock} {known : Bool} (h : r.dataReady lock b known = true)
    (htop : b.height = Word.top) : lock.height ≠ 0 := by
  intro hzero
  simp only [dataReady, htop, hzero] at h
  have h1 : (Word.top > (0 : UInt64) + 1) = True := by decide
  have h2 : (Word.top = (0 : UInt64) + 2) = False := by decide
  simp only [h1, h2] at h
  simp at h

end

/-- The block extends the node's own lock at the time it signs. -/
def ExtendsOwnLock (r : BftRules) (b : XvBlock) : Prop :=
  ∃ lock, r.latestLockBlock = some lock ∧ r.ExtendsLock lock b

end BftRules

namespace BftDriver

open BftRules

variable (chk : BlockChecks)

theorem step_cases (d : BftDriver) (e : DriverEvent) :
    (∃ d', d.step chk e = (d', []) ∧ Advances d.rules d'.rules ∧
      ∀ job ∈ d'.verifying, job ∈ d.verifying) ∨
    (∃ start p lock, e = .proposalStart start ∧ start.proposal = some p ∧
      parentOk chk p start.prevBlock = true ∧
      (d.rules.signingRules chk start).latestLockBlock = some lock ∧
      (d.rules.signingRules chk start).ownProposalOk chk lock p = true ∧
      d.step chk e =
        ({ d with rules := (d.rules.signingRules chk start).addProposal (stampJustify lock p) },
          [.signed (stampJustify lock p) (d.rules.signingRules chk start),
           .admitted (stampJustify lock p)])) ∨
    (∃ m r lock b, e = .proposalMsg m ∧ Advances d.rules r ∧ r.latestLockBlock = some lock ∧
      r.checkProposalMsg chk lock m = .ok b ∧
      d.step chk e = (⟨r.addProposal b, d.verifying ++ [⟨b, m.fromAddr⟩]⟩, [.admitted b])) ∨
    (∃ i r job, d.verifying[i]? = some job ∧ Advances d.rules r ∧
      r.safeFinalcheckForVoting job.block = true ∧
      d.step chk e = (⟨r, d.verifying.eraseIdx i⟩,
        [.signed job.block r, .voteMsg job.block job.fromAddr])) := by
  cases e with
  | consensusUpdate lock =>
    exact .inl ⟨_, rfl, advances_setLockBlock chk _ lock, fun _ h => h⟩
  | proposalStart start =>
    rcases onProposalStart_cases chk d.rules start with ⟨r, he, hr⟩ |
      ⟨p, lock, hp, hparent, hlock, hok, he⟩
    · have hadv : Advances d.rules r := by
        rcases hr with rfl | rfl
        · exact (lockRel_advances chk).startRules d.rules start
        · exact (lockRel_advances chk).signingRules d.rules start
      exact .inl ⟨{ d with rules := r }, by simp only [step, he], hadv, fun _ h => h⟩
    · exact .inr (.inl ⟨start, p, lock, rfl, hp, hparent, hlock, hok, by simp only [step, he]⟩)
  | proposalMsg m =>
    have hget := (lockRel_advances chk).getLockBlock d.rules m.stored
    rcases handleProposalMsg_cases chk d.rules m with ⟨code, he⟩ | ⟨lock, b, hlock, hb, he⟩
    · exact .inl ⟨{ d with rules := d.rules.getLockBlock chk m.stored }, by simp only [step, he],
        hget, fun _ h => h⟩
    · exact .inr (.inr (.inl ⟨m, _, lock, b, rfl, hget, hlock, hb, by simp only [step, he]⟩))
  | proposalVerified i verified stored =>
    simp only [step]
    split
    · exact .inl ⟨d, rfl, .refl _, fun _ h => h⟩
    next job hjob =>
    have hget := (lockRel_advances chk).getLockBlock d.rules stored
    split_ifs with hv hfinal
    · exact .inr (.inr (.inr ⟨i, _, job, hjob, hget, hfinal, rfl⟩))
    · exact .inl ⟨_, rfl, hget, fun _ h => mem_of_mem_eraseIdx h⟩
    · exact .inl ⟨_, rfl, advances_removeProposal _ _, fun _ h => mem_of_mem_eraseIdx h⟩
  | certVerified b stored =>
    exact .inl ⟨_, rfl, (lockRel_advances chk).certBlock (.refl d.rules) stored b, fun _ h => h⟩
  | proposalRemoved viewid =>
    exact .inl ⟨_, rfl, advances_removeProposal _ viewid, fun _ h => h⟩
  | viewFire viewid stored =>
    refine .inl ⟨_, rfl, ((lockRel_advances chk).getLockBlock d.rules stored).trans
        ?_, fun _ h => h⟩
    dsimp only
    exact advances_filterProposals _ _
  | clockFire stored =>
    refine .inl ⟨_, rfl, ((lockRel_advances chk).getLockBlock d.rules stored).trans
        ?_, fun _ h => h⟩
    exact advances_filterProposals _ _

def admittedBlock : DriverOutput → Option XvBlock
  | .admitted b => some b
  | _ => none

def admissions (d : BftDriver) (es : List DriverEvent) : List XvBlock :=
  (Run.run (step chk) d es).2.filterMap admittedBlock

def AboveVoted (d : BftDriver) (b : XvBlock) : Prop :=
  d.rules.latestVotedViewid < b.viewid ∧ d.rules.latestVotedHeight ≤ b.height

variable {d : BftDriver}

theorem AboveVoted.of_advances {d' : BftDriver} (h : Advances d.rules d'.rules) {b : XvBlock}
    (hb : d'.AboveVoted b) : d.AboveVoted b :=
  ⟨h.viewid_le.trans_lt hb.1, h.height_le.trans hb.2⟩

theorem step_admitted (d : BftDriver) (e : DriverEvent) : Advances d.rules (d.step chk e).1.rules ∧
    ∀ b ∈ (d.step chk e).2.filterMap admittedBlock, d.AboveVoted b ∧
      ∀ b', (d.step chk e).1.AboveVoted b' → b.viewid < b'.viewid ∧ b.height ≤ b'.height := by
  -- both admitting paths end in `add_proposal` of a block that passed the precheck
  have hadd : ∀ (r : BftRules) (b : XvBlock) (jobs : List VerifyJob),
      Advances d.rules r → r.safePrecheckForVoting chk b = true →
      Advances d.rules (r.addProposal b) ∧ d.AboveVoted b ∧
      ∀ b', AboveVoted ⟨r.addProposal b, jobs⟩ b' → b.viewid < b'.viewid ∧
        b.height ≤ b'.height := by
    intro r b jobs hadv hpre
    obtain ⟨-, -, -, hview, hheight⟩ := safePrecheckForVoting_spec hpre
    refine ⟨hadv.trans (advances_addProposal r b), ⟨hadv.viewid_le.trans_lt hview,
      hadv.height_le.trans hheight⟩, fun b' hb' => ?_⟩
    exact ⟨(le_max_right _ _).trans_lt hb'.1, (le_max_right _ _).trans hb'.2⟩
  rcases step_cases chk d e with ⟨d', he, hadv, -⟩ | ⟨start, p, lock, -, -, -, hlock, hok, he⟩ |
    ⟨m, r, lock, b, -, hadv, -, hb, he⟩ | ⟨i, r, job, -, hadv, -, he⟩
  · rw [he]
    exact ⟨hadv, by simp⟩
  · rw [he]
    have hpre := (ownProposalOk_spec chk _ hlock hok).1
    obtain ⟨h1, h2, h3⟩ := hadd _ _ d.verifying ((lockRel_advances chk).signingRules _ start) hpre
    exact ⟨h1, by simpa [admittedBlock] using ⟨h2, h3⟩⟩
  · rw [he]
    have hpre := (checkProposalMsg_ok chk r hb).1
    obtain ⟨h1, h2, h3⟩ := hadd r b _ hadv hpre
    exact ⟨h1, by simpa [admittedBlock] using ⟨h2, h3⟩⟩
  · rw [he]
    exact ⟨hadv, by simp [admittedBlock]⟩

theorem step_jobs (d : BftDriver) (e : DriverEvent) :
    (∀ job ∈ (d.step chk e).1.verifying, job ∈ d.verifying ∨
      ∃ m, e = .proposalMsg m ∧ job.fromAddr = m.fromAddr ∧
        job.block.viewid = m.packet.viewid ∧ job.block.account = m.packet.account) ∧
    ∀ b sender, .voteMsg b sender ∈ (d.step chk e).2 → ⟨b, sender⟩ ∈ d.verifying := by
  rcases step_cases chk d e with ⟨d', he, -, hsub⟩ | ⟨start, p, lock, -, -, -, -, -, he⟩ |
    ⟨m, r, lock, b, rfl, -, -, hb, he⟩ | ⟨i, r, job, hjob, -, -, he⟩
  · rw [he]
    exact ⟨fun job hj => .inl (hsub job hj), by simp⟩
  · rw [he]
    exact ⟨fun job hj => .inl hj, by simp⟩
  · rw [he]
    refine ⟨fun job hj => ?_, by simp⟩
    rcases mem_append.mp hj with hj | hj
    · exact .inl hj
    · obtain rfl := mem_singleton.mp hj
      have hvalid := (checkProposalMsg_ok chk r hb).2.2
      simp only [isValidPacket, Bool.not_eq_true', Bool.or_eq_false_iff,
        decide_eq_false_iff_not, not_not] at hvalid
      exact .inr ⟨m, rfl, rfl, hvalid.1.1.2, hvalid.2⟩
  · rw [he]
    refine ⟨fun job' hj => .inl (mem_of_mem_eraseIdx hj), fun b sender hmem => ?_⟩
    simp only [mem_cons, reduceCtorEq, DriverOutput.voteMsg.injEq, not_mem_nil, or_false,
      false_or] at hmem
    obtain ⟨rfl, rfl⟩ := hmem
    exact mem_of_getElem? hjob

theorem step_admitted_pairwise (d : BftDriver) (e : DriverEvent) (R : XvBlock → XvBlock → Prop) :
    ((d.step chk e).2.filterMap admittedBlock).Pairwise R := by
  rcases step_cases chk d e with ⟨d', he, -⟩ | ⟨start, p, lock, -, -, -, -, -, he⟩ |
    ⟨m, r, lock, b, -, -, -, -, he⟩ | ⟨i, r, job, -, -, -, he⟩ <;>
    simp [he, filterMap_cons, admittedBlock]

/-- A driver admits proposals in strictly increasing views and non-decreasing heights. -/
theorem admissions_increase (d : BftDriver) (es : List DriverEvent) :
    (d.admissions chk es).Pairwise (fun b b' => b.viewid < b'.viewid ∧ b.height ≤ b'.height) ∧
    ∀ b ∈ d.admissions chk es, ∀ b' ∈ d.admissions chk es, b.viewid = b'.viewid → b = b' := by
  have hpair := (Run.run_pairwise (W := AboveVoted)
    (R := fun b b' : XvBlock => b.viewid < b'.viewid ∧ b.height ≤ b'.height)
    (fun d e => step_admitted_pairwise chk d e _)
    (fun d e b hb => ((step_admitted chk d e).2 b hb).1)
    (fun d e b hb => AboveVoted.of_advances (step_admitted chk d e).1 hb)
    (fun d e b hb b' hb' => ((step_admitted chk d e).2 b hb).2 b' hb') d es).1
  have hviews : ((d.admissions chk es).map (·.viewid)).Nodup :=
    pairwise_map.mpr (hpair.imp fun h => h.1.ne)
  exact ⟨hpair, fun b hb b' hb' hview => inj_on_of_nodup_map hviews hb hb' hview⟩

/-- A proposal two above the lock comes with a certified parent whose own parent is the lock. -/
def OwnParentLinked (d : BftDriver) : DriverEvent → Prop
  | .proposalStart e => ∀ p lock, e.proposal = some p →
      (d.rules.signingRules chk e).latestLockBlock = some lock → p.height = lock.height + 2 →
      ∃ prev, e.prevBlock = some prev ∧
        prev ∈ (d.rules.signingRules chk e).certifiedBlocks.values ∧
        prev.lastBlockHash = lock.blockHash
  | _ => True

def SignedExtends : DriverOutput → Prop
  | .signed b r => r.ExtendsOwnLock b
  | _ => True

/-- Open verify jobs are near the lock, so the wrap of `height - 1` at a lock of height 0 is not
hit. -/
def JobsNearLock (d : BftDriver) : Prop :=
  ∀ job ∈ d.verifying, ∃ lock, d.rules.latestLockBlock = some lock ∧
    (job.block.height = Word.top → lock.height ≠ 0)

theorem JobsNearLock.of_advances {d' : BftDriver} (h : d.JobsNearLock)
    (hadv : Advances d.rules d'.rules) (hsub : ∀ job ∈ d'.verifying, job ∈ d.verifying) :
    d'.JobsNearLock := by
  intro job hjob
  obtain ⟨lock, hlock, hnear⟩ := h job (hsub job hjob)
  obtain ⟨lock', hlock', hle⟩ := hadv.lock_le lock hlock
  refine ⟨lock', hlock', fun htop hzero => hnear htop ?_⟩
  rw [le_nat, hzero] at hle
  rw [eq_nat]
  exact Nat.le_zero.mp hle

theorem own_proposal_extends {e : ProposalStart} {p : XvBlock}
    (hlink : OwnParentLinked chk d (.proposalStart e)) (hp : e.proposal = some p)
    (hparent : parentOk chk p e.prevBlock = true)
    (hlock : (d.rules.signingRules chk e).latestLockBlock = some lock)
    (hok : (d.rules.signingRules chk e).ownProposalOk chk lock p = true) :
    (d.rules.signingRules chk e).ExtendsLock lock (stampJustify lock p) := by
  obtain ⟨j, hj⟩ := stampJustify_eq lock p
  rw [hj]
  rcases (ownProposalOk_spec chk _ hlock hok).2 with hone | htwo
  · exact .inl hone
  · have hword : p.height = lock.height + 2 := by
      rw [eq_nat, toNat_add_two, htwo, Nat.mod_eq_of_lt]
      have := toNat_lt p.height
      omega
    obtain ⟨prev, hprev, hmem, hlast⟩ := hlink p lock hp hlock hword
    simp only [parentOk, hprev, Bool.and_eq_true, decide_eq_true_eq] at hparent
    have habove : lock.height < p.height := by
      rw [lt_nat]
      omega
    have hheight := toNat_of_eq_succ hparent.1.1 habove
    exact .inr ⟨htwo, prev, hmem, hheight.symm, hparent.1.2.symm, hlast⟩

theorem vote_extends {r : BftRules} {job : VerifyJob} (hd : d.JobsNearLock)
    (hadv : Advances d.rules r) (hjob : job ∈ d.verifying)
    (hfinal : r.safeFinalcheckForVoting job.block = true) : r.ExtendsOwnLock job.block := by
  obtain ⟨lock, hlock, habove, hext | ⟨hzero, htop⟩⟩ := safeFinalcheckForVoting_spec hfinal
  · exact ⟨lock, hlock, hext⟩
  · have hnear : JobsNearLock ⟨r, d.verifying⟩ := hd.of_advances hadv fun _ h => h
    obtain ⟨lock', hlock', hne⟩ := hnear job hjob
    rw [show r.latestLockBlock = some lock from hlock, some_inj] at hlock'
    exact absurd hzero (hlock' ▸ hne htop)

theorem step_signed (d : BftDriver) (e : DriverEvent) (hd : d.JobsNearLock)
    (hlink : OwnParentLinked chk d e) :
    (d.step chk e).1.JobsNearLock ∧ ∀ o ∈ (d.step chk e).2, SignedExtends o := by
  rcases step_cases chk d e with ⟨d', he, hadv, hsub⟩ |
    ⟨start, p, lock, rfl, hp, hparent, hlock, hok, he⟩ |
    ⟨m, r, lock, b, -, hadv, hlock, hb, he⟩ | ⟨i, r, job, hjob, hadv, hfinal, he⟩
  · rw [he]
    exact ⟨hd.of_advances hadv hsub, by simp⟩
  · rw [he]
    have hadv := ((lockRel_advances chk).signingRules d.rules start).trans
      (advances_addProposal _ (stampJustify lock p))
    refine ⟨hd.of_advances hadv fun _ h => h, ?_⟩
    have hext := own_proposal_extends chk hlink hp hparent hlock hok
    simpa [SignedExtends] using ⟨lock, hlock, hext⟩
  · rw [he]
    have hnear : JobsNearLock ⟨r.addProposal b, d.verifying⟩ :=
      hd.of_advances (hadv.trans (advances_addProposal r b)) fun _ h => h
    refine ⟨fun job hjob => ?_, by simp [SignedExtends]⟩
    rcases mem_append.mp hjob with hold | hnew
    · exact hnear job hold
    · rw [mem_singleton.mp hnew]
      exact ⟨lock, hlock, dataReady_height r (checkProposalMsg_ok chk r hb).2.1⟩
  · rw [he]
    have hmem := mem_of_getElem? hjob
    refine ⟨hd.of_advances hadv fun _ h => mem_of_mem_eraseIdx h, ?_⟩
    simpa [SignedExtends] using vote_extends hd hadv hmem hfinal

/-- When own proposals come with a linked parent, every signed block extends the signer's lock. -/
theorem signed_extends_lock (es : List DriverEvent)
    (hes : Run.Meets (step chk) (OwnParentLinked chk) init es) (b : XvBlock) (r : BftRules)
    (hb : .signed b r ∈ (Run.run (step chk) init es).2) : r.ExtendsOwnLock b := by
  have hinit : init.JobsNearLock := fun job hjob => by simp [init] at hjob
  exact (Run.run_inv (P := SignedExtends) (step_signed chk) hinit es hes).2 _ hb

namespace LeaderRun

def accepting : BlockChecks :=
  ⟨fun _ _ => true, fun _ _ => true, fun _ _ => true, fun _ _ => true⟩

def block (height : UInt64) (last hash : String) : XvBlock :=
  { chainid := 0, account := "T", level := .table, height := height, viewid := height,
    viewtoken := 1, validator := ⟨1, 0⟩, auditor := ⟨0, 0⟩, lastBlockHash := last,
    headerHash := "", justifyCertHash := "", outputRootHash := "", blockHash := hash,
    flags := ∅ }

/-- The node locks `A`, learns the certificate of a block with parent `last`, and proposes on it. -/
def events (last : String) : List DriverEvent :=
  [.consensusUpdate (some (block 1 "G" "A")), .certVerified (block 2 last "B") none,
   .proposalStart ⟨some (block 3 "B" ""), some (block 2 last "B"), none, none, none, none⟩]

def rulesAt (last : String) : BftRules :=
  (Run.run (step accepting) init ((events last).take 2)).1.rules

end LeaderRun

open LeaderRun in
theorem leader_signs_off_branch :
    .signed (block 3 "B" "") (rulesAt "X") ∈ (Run.run (step accepting) init (events "X")).2 ∧
    ¬ (rulesAt "X").ExtendsOwnLock (block 3 "B" "") := by
  refine ⟨by decide, ?_⟩
  have hlock : (rulesAt "X").latestLockBlock = some (block 1 "G" "A") := by decide
  have hcerts : (rulesAt "X").certifiedBlocks.values = [] := by decide
  rintro ⟨lock, hl, ⟨hheight, -⟩ | ⟨-, c, hc, -⟩⟩
  · rw [hlock, some_inj] at hl
    rw [← hl] at hheight
    exact absurd hheight (by decide)
  · simp [hcerts] at hc

open LeaderRun in
theorem signed_extends_lock_on_branch :
    .signed (block 3 "B" "") (rulesAt "A") ∈ (Run.run (step accepting) init (events "A")).2 ∧
    (rulesAt "A").ExtendsOwnLock (block 3 "B" "") := by
  have hsigned : .signed (block 3 "B" "") (rulesAt "A") ∈
      (Run.run (step accepting) init (events "A")).2 := by decide
  refine ⟨hsigned, signed_extends_lock accepting (events "A") ?_ _ _ hsigned⟩
  refine ⟨trivial, trivial, ?_, trivial⟩
  intro p lock _ hlock _
  have hA : lock = block 1 "G" "A" := some_inj.mp (hlock.symm.trans (by decide))
  exact ⟨block 2 "A" "B", rfl, by decide, by rw [hA]; decide⟩

end BftDriver
end TopChain.Bft
