import TopChain.Bft.ContextEvents

/-!
# The locks of a node

Driver and context of one node as one machine.
-/
namespace TopChain.Bft

open List TopChain.Base
open BftDriver.LeaderRun (accepting)

def Climbs (o o' : Option XvBlock) : Prop :=
  ∀ b, o = some b → ∃ b', o' = some b' ∧
    ((b'.height = b.height ∧ b'.viewid = b.viewid) ∨ Below b b')

namespace Climbs
variable {o o' o'' : Option XvBlock}

theorem refl (o : Option XvBlock) : Climbs o o := fun b h => ⟨b, h, .inl ⟨rfl, rfl⟩⟩

theorem trans (h : Climbs o o') (h' : Climbs o' o'') : Climbs o o'' := by
  intro b hb
  obtain ⟨b', hb', hstep⟩ := h b hb
  obtain ⟨b'', hb'', hstep'⟩ := h' b' hb'
  refine ⟨b'', hb'', ?_⟩
  rcases hstep with ⟨hheight, hview⟩ | ⟨hheight, hview⟩
  · rwa [hheight, hview, Below, hheight, hview] at hstep'
  · rcases hstep' with ⟨hheight', hview'⟩ | ⟨hheight', hview'⟩
    · exact .inr ⟨hheight' ▸ hheight, hview' ▸ hview⟩
    · exact .inr ⟨hheight.trans hheight', hview.trans hview'⟩

theorem rises (h : Climbs o o') : Rises o o' := by
  intro b hb
  obtain ⟨b', hb', ⟨hheight, hview⟩ | ⟨hheight, hview⟩⟩ := h b hb
  · exact ⟨b', hb', hheight.ge, hview.ge⟩
  · exact ⟨b', hb', hheight.le, hview.le⟩

end Climbs

namespace BftRules
variable {chk : BlockChecks} {G : XvBlock → Prop} {r r₁ r₂ : BftRules}

/-- What a driver does to its lock: `set_lock_block` with blocks of `G`, and steps that leave it. -/
inductive LockSteps (chk : BlockChecks) (G : XvBlock → Prop) : BftRules → BftRules → Prop
  | refl (r : BftRules) : LockSteps chk G r r
  | set {r r₁ : BftRules} (new : Option XvBlock) (h : LockSteps chk G r r₁)
      (hnew : ∀ b ∈ new.toList, G b) : LockSteps chk G r (r₁.setLockBlock chk new).1
  | keep {r r₁ r₂ : BftRules} (h : LockSteps chk G r r₁)
      (hlock : r₂.latestLockBlock = r₁.latestLockBlock) : LockSteps chk G r r₂

theorem climbs_setLockBlock (chk : BlockChecks) (r : BftRules) (new : Option XvBlock) :
    Climbs r.latestLockBlock (r.setLockBlock chk new).1.latestLockBlock := by
  rcases setLockBlock_cases chk r new with he | ⟨lock, b, -, hlock, hheight, hview, he⟩ |
    ⟨b, -, hsafe, he⟩
  · rw [he]
    exact .refl _
  · rw [he, hlock]
    intro old hold
    obtain rfl := Option.some_inj.mp hold
    exact ⟨b, rfl, .inl ⟨hheight.symm, hview.symm⟩⟩
  · rw [he]
    intro old hold
    obtain ⟨-, hheight, hview, -⟩ := (safeCheckForBlock_iff hold).mp (hsafe old hold)
    exact ⟨b, rfl, .inr ⟨hheight, hview⟩⟩

theorem setLockBlock_from {new : Option XvBlock} {lock : XvBlock}
    (h : (r.setLockBlock chk new).1.latestLockBlock = some lock) :
    r.latestLockBlock = some lock ∨ new = some lock := by
  rcases setLockBlock_cases chk r new with he | ⟨_, b, hb, -, -, -, he⟩ | ⟨b, hb, -, he⟩
  · exact .inl (he ▸ h)
  · rw [he] at h
    exact .inr (hb.trans h)
  · rw [he] at h
    exact .inr (hb.trans h)

namespace LockSteps

section
variable (h : LockSteps chk G r r₁)
include h

theorem climbs : Climbs r.latestLockBlock r₁.latestLockBlock := by
  induction h with
  | refl => exact .refl _
  | set new _ _ ih => exact ih.trans (climbs_setLockBlock chk _ new)
  | keep _ hlock ih =>
    rw [hlock]
    exact ih

theorem lock_from {lock : XvBlock}
    (hlock : r₁.latestLockBlock = some lock) : r.latestLockBlock = some lock ∨ G lock := by
  induction h with
  | refl => exact .inl hlock
  | set new _ hnew ih =>
    rcases setLockBlock_from hlock with hold | hset
    · exact ih hold
    · exact .inr (hnew lock (Option.mem_toList.mpr hset))
  | keep _ hsame ih => exact ih (hsame ▸ hlock)

theorem getLockBlock {stored : Option XvBlock}
    (hs : ∀ b ∈ stored.toList, G b) : LockSteps chk G r (r₁.getLockBlock chk stored) := by
  unfold BftRules.getLockBlock
  split
  · exact h
  · exact h.set stored hs

theorem addCertBlock (b : XvBlock) : LockSteps chk G r (r₁.addCertBlock b).1 := by
  obtain ⟨m, he, -⟩ := addCertBlock_spec r₁ b
  rw [he]
  exact h.keep rfl

theorem startRules {e : ProposalStart}
    (hlock : ∀ b ∈ e.latestLock.toList, G b) (hcommit : ∀ b ∈ e.latestCommit.toList, G b)
    (hs : ∀ b ∈ e.stored.toList, G b) : LockSteps chk G r (r₁.startRules chk e) := by
  have hor : ∀ b, e.latestLock.or e.latestCommit = some b → G b := by
    intro b hb
    rcases Option.or_eq_some_iff.mp hb with hb | ⟨-, hb⟩
    · exact hlock b (Option.mem_toList.mpr hb)
    · exact hcommit b (Option.mem_toList.mpr hb)
  unfold BftRules.startRules
  -- first the lock of the event, then its certificate
  cases hlocked : e.latestLock.or e.latestCommit with
  | none =>
    cases e.latestCert with
    | none => exact h
    | some cert => exact (h.getLockBlock hs).addCertBlock cert
  | some lock =>
    have hset := h.set (some lock) fun b hb => hor b (hlocked.trans (Option.mem_toList.mp hb))
    have hfirst : LockSteps chk G r (if (r₁.setLockBlock chk (some lock)).2
        then (r₁.setLockBlock chk (some lock)).1
        else (r₁.setLockBlock chk (some lock)).1.getLockBlock chk e.stored) := by
      split_ifs
      · exact hset
      · exact hset.getLockBlock hs
    cases e.latestCert with
    | none => exact hfirst
    | some cert => exact (hfirst.getLockBlock hs).addCertBlock cert

end
end LockSteps
end BftRules

def DriverEvent.locks : DriverEvent → List XvBlock
  | .consensusUpdate lock => lock.toList
  | .proposalStart e => e.latestLock.toList ++ e.latestCommit.toList ++ e.stored.toList
  | .proposalMsg m => m.stored.toList
  | .proposalVerified _ _ stored => stored.toList
  | .certVerified _ stored => stored.toList
  | .proposalRemoved _ => []
  | .viewFire _ stored => stored.toList
  | .clockFire stored => stored.toList

theorem BftDriver.lockSteps_step (chk : BlockChecks) {G : XvBlock → Prop} (d : BftDriver)
    (e : DriverEvent) (hG : ∀ b ∈ e.locks, G b) :
    BftRules.LockSteps chk G d.rules (d.step chk e).1.rules := by
  have hrefl : BftRules.LockSteps chk G d.rules d.rules := .refl _
  cases e with
  | consensusUpdate lock => exact hrefl.set lock hG
  | proposalStart e =>
    have hparts : (∀ b ∈ e.latestLock.toList, G b) ∧ (∀ b ∈ e.latestCommit.toList, G b) ∧
        ∀ b ∈ e.stored.toList, G b := by
      simpa only [DriverEvent.locks, forall_mem_append, and_assoc] using hG
    obtain ⟨hlock, hcommit, hstored⟩ := hparts
    have hstart : BftRules.LockSteps chk G d.rules (d.rules.startRules chk e) :=
      hrefl.startRules hlock hcommit hstored
    have hsign : BftRules.LockSteps chk G d.rules (d.rules.signingRules chk e) :=
      hstart.getLockBlock hstored
    rcases BftRules.onProposalStart_cases chk d.rules e with ⟨r, he, hr⟩ |
      ⟨p, lock, -, -, -, -, he⟩
    · simp only [step, he]
      rcases hr with rfl | rfl
      · exact hstart
      · exact hsign
    · simp only [step, he]
      exact hsign.keep rfl
  | proposalMsg m =>
    have hget := hrefl.getLockBlock hG
    rcases BftRules.handleProposalMsg_cases chk d.rules m with ⟨code, he⟩ | ⟨lock, b, -, -, he⟩
    · simp only [step, he]
      exact hget
    · simp only [step, he]
      exact hget.keep rfl
  | proposalVerified i verified stored =>
    simp only [step]
    split
    · exact hrefl
    · split_ifs
      · exact hrefl.getLockBlock hG
      · exact hrefl.getLockBlock hG
      · exact hrefl.keep rfl
  | certVerified b stored => exact (hrefl.getLockBlock hG).addCertBlock b
  | proposalRemoved viewid => exact hrefl.keep rfl
  | viewFire viewid stored => exact (hrefl.getLockBlock hG).keep rfl
  | clockFire stored => exact (hrefl.getLockBlock hG).keep rfl

namespace BftContext
variable {P : XvBlock → Prop} {chk : BlockChecks} {rule : NodeRule}

/-- Between `c₀` and a later `c` locks and commits rise, and what is stored or sent is `P`. -/
structure ContextKept (P : XvBlock → Prop) (c₀ : BftContext) (h : List ContextOutput)
    (c : BftContext) : Prop where
  pool : PoolInv c
  all : AllBlocks P c
  advances : Advances P c₀ c
  down : ∀ commit lock, .updateDown commit lock ∈ h → ∀ b ∈ lock.toList, P b

theorem keptByParts_contextKept (hP : FlagStable P) (c₀ : BftContext) :
    KeptByParts chk rule P (ContextKept P c₀) where
  update h c b hb hI := by
    refine ⟨hI.pool.doUpdate b, hI.all.doUpdate hP hI.pool hb,
      hI.advances.trans (.doUpdate hI.pool fun _ => hb), fun commit lock hmem => ?_⟩
    refine hI.down commit lock ((mem_append.mp hmem).resolve_right fun hnew => ?_)
    unfold BftContext.update at hnew
    dsimp only at hnew
    split_ifs at hnew <;> simp at hnew
  moveLock h c b hb hI := by
    have hm := movesTo_updateLockBlock c b
    exact ⟨hI.pool.moves hm.toMoves, hI.all.movesTo hm hb,
      hI.advances.trans (.of_moves hm.toMoves), hI.down⟩
  moveCommit h c b hb hI := by
    have hm := movesTo_updateCommitBlock c b
    exact ⟨hI.pool.moves hm.toMoves, hI.all.movesTo hm hb,
      hI.advances.trans (.of_moves hm.toMoves), hI.down⟩
  clean h c hI := by
    obtain ⟨hpool, hdrops, -⟩ := doClean_spec hI.pool
    refine ⟨hpool, hI.all.drops hdrops, hI.advances.trans (.of_drops hdrops),
      fun commit lock hmem => ?_⟩
    refine hI.down commit lock ((mem_append.mp hmem).resolve_right fun hnew => ?_)
    simp at hnew
  submit h c hI := by
    obtain ⟨hpool, hdrops, -⟩ := doSubmit_spec hI.pool
    obtain ⟨hpool', hdrops', -⟩ := doClean_spec hpool
    have hall := hI.all.drops hdrops
    refine ⟨hpool', hall.drops hdrops', hI.advances.trans (.of_drops (hdrops.trans hdrops')),
      fun commit lock hmem => ?_⟩
    rcases mem_append.mp hmem with hmem | hmem
    · exact hI.down commit lock hmem
    · simp only [BftContext.submit, cons_append, nil_append, mem_cons,
        ContextOutput.updateDown.injEq, mem_append, mem_map, reduceCtorEq, and_false,
        exists_false, or_false] at hmem
      obtain ⟨-, rfl⟩ := hmem
      exact fun b hb => hall.lock b (Option.mem_toList.mp hb)

theorem contextKept_step (chk : BlockChecks) (rule : NodeRule) (hP : FlagStable P) {c : BftContext}
    (hp : PoolInv c)
    (hall : AllBlocks P c) (e : ContextEvent) (he : ∀ b ∈ e.given, P b) :
    ContextKept P c (c.step chk rule e).2 (c.step chk rule e).1 :=
  (keptByParts_contextKept hP c).step (h := [])
    ⟨hp, hall, .refl c, fun _ _ hmem => by simp at hmem⟩ he

end BftContext

structure ConsensusNode where
  driver : BftDriver
  context : BftContext

/-- The events of a node's two locks, the driver's and the context's. -/
inductive NodeEvent where
  | proposalStart (e : ProposalStart)
  | consensusUpdate (e : UpdateEvent)
  | proposalFinish (successful : Bool) (target : Option XvBlock)
  | replicateFinish (successful : Bool) (target : Option XvBlock)
  | driver (e : DriverEvent)

def NodeEvent.given : NodeEvent → List XvBlock
  | .proposalStart e => UpdateEvent.given ⟨e.latestCert, e.latestLock, e.latestCommit⟩
      ++ e.stored.toList
  | .consensusUpdate e => e.given
  | .proposalFinish _ target => target.toList
  | .replicateFinish _ target => target.toList
  | .driver e => e.locks

namespace ConsensusNode
variable (chk : BlockChecks) (rule : NodeRule) (s : ConsensusNode)

def init : ConsensusNode := ⟨.init, .init⟩

def notifyDriver (d : BftDriver) : ContextOutput → BftDriver
  | .updateDown _ lock => (d.step chk (.consensusUpdate lock)).1
  | _ => d

def contextStep (e : ContextEvent) : ConsensusNode :=
  let res := s.context.step chk rule e
  ⟨res.2.foldl (notifyDriver chk) s.driver, res.1⟩

def driverStep (e : DriverEvent) : ConsensusNode := { s with driver := (s.driver.step chk e).1 }

def step : NodeEvent → ConsensusNode
  | .proposalStart e =>
    let t := s.contextStep chk rule (.proposalStart ⟨e.latestCert, e.latestLock, e.latestCommit⟩)
    t.driverStep chk (.proposalStart { e with
      latestLock := t.context.latestLockBlock
      latestCommit := t.context.latestCommitBlock })
  | .consensusUpdate e =>
    let t := s.contextStep chk rule (.consensusUpdate e)
    t.driverStep chk (.consensusUpdate t.context.latestLockBlock)
  | .proposalFinish successful target =>
    s.contextStep chk rule (.proposalFinish successful target)
  | .replicateFinish successful target =>
    s.contextStep chk rule (.replicateFinish successful target)
  | .driver e => s.driverStep chk e

def run (es : List NodeEvent) : ConsensusNode := es.foldl (step chk rule) init

variable {chk rule s} {P : XvBlock → Prop}

structure NodeInv (P : XvBlock → Prop) (s : ConsensusNode) : Prop where
  pool : s.context.PoolInv
  all : s.context.AllBlocks P
  lock : ∀ b, s.driver.rules.latestLockBlock = some b → P b

structure NodeClimbs (s s' : ConsensusNode) : Prop where
  driver : Climbs s.driver.rules.latestLockBlock s'.driver.rules.latestLockBlock
  lock : Rises s.context.latestLockBlock s'.context.latestLockBlock
  commit : Rises s.context.latestCommitBlock s'.context.latestCommitBlock

theorem NodeClimbs.refl (s : ConsensusNode) : NodeClimbs s s := ⟨.refl _, .refl _, .refl _⟩

theorem NodeClimbs.trans {s s' s'' : ConsensusNode} (h : NodeClimbs s s') (h' : NodeClimbs s' s'') :
    NodeClimbs s s'' :=
  ⟨h.driver.trans h'.driver, h.lock.trans h'.lock, h.commit.trans h'.commit⟩

theorem NodeInv.init : NodeInv P init where
  pool := .init
  all := .init
  lock _ h := by cases h

theorem NodeInv.driverStep (h : NodeInv P s) {e : DriverEvent} (he : ∀ b ∈ e.locks, P b) :
    NodeInv P (s.driverStep chk e) ∧ NodeClimbs s (s.driverStep chk e) := by
  have hsteps := s.driver.lockSteps_step chk e he
  refine ⟨⟨h.pool, h.all, fun b hb => ?_⟩, hsteps.climbs, .refl _, .refl _⟩
  exact (hsteps.lock_from hb).elim (h.lock b) id

theorem notifyDriver_foldl (outs : List ContextOutput) (d : BftDriver)
    (hdown : ∀ commit lock, .updateDown commit lock ∈ outs → ∀ b ∈ lock.toList, P b)
    (hd : ∀ b, d.rules.latestLockBlock = some b → P b) :
    (∀ b, (outs.foldl (notifyDriver chk) d).rules.latestLockBlock = some b → P b) ∧
      Climbs d.rules.latestLockBlock (outs.foldl (notifyDriver chk) d).rules.latestLockBlock := by
  refine List.foldlRecOn (motive := fun d' : BftDriver =>
    (∀ b, d'.rules.latestLockBlock = some b → P b) ∧
      Climbs d.rules.latestLockBlock d'.rules.latestLockBlock) _ _ ⟨hd, .refl _⟩ ?_
  intro d' hd' o ho
  cases o with
  | updateDown commit lock =>
    have hsteps := d'.lockSteps_step chk (.consensusUpdate lock) (hdown commit lock ho)
    refine ⟨fun b hb => ?_, hd'.2.trans hsteps.climbs⟩
    exact (hsteps.lock_from hb).elim (hd'.1 b) id
  | entered b => exact hd'
  | consensusCommit b => exact hd'
  | cancelled b => exact hd'

theorem NodeInv.contextStep (hP : BftContext.FlagStable P) (h : NodeInv P s) {e : ContextEvent}
    (he : ∀ b ∈ e.given, P b) :
    NodeInv P (s.contextStep chk rule e) ∧ NodeClimbs s (s.contextStep chk rule e) := by
  have hkept := BftContext.contextKept_step chk rule hP h.pool h.all e he
  obtain ⟨hlock, hclimbs⟩ := notifyDriver_foldl _ s.driver hkept.down h.lock
  exact ⟨⟨hkept.pool, hkept.all, hlock⟩, hclimbs, hkept.advances.lock_rises,
    hkept.advances.commit_rises⟩

theorem NodeInv.start_locks (h : NodeInv P s) (e : ProposalStart)
    (hstored : ∀ b ∈ e.stored.toList, P b) :
    ∀ b ∈ (DriverEvent.proposalStart { e with
      latestLock := s.context.latestLockBlock
      latestCommit := s.context.latestCommitBlock }).locks, P b := by
  refine forall_mem_append.mpr ⟨forall_mem_append.mpr ⟨?_, ?_⟩, hstored⟩
  · exact fun b hb => h.all.lock b (Option.mem_toList.mp hb)
  · exact fun b hb => h.all.commit b (Option.mem_toList.mp hb)

section
variable (hP : BftContext.FlagStable P) (h : NodeInv P s)
include hP h

theorem NodeInv.step {e : NodeEvent} (he : ∀ b ∈ e.given, P b) :
    NodeInv P (s.step chk rule e) ∧ NodeClimbs s (s.step chk rule e) := by
  cases e with
  | proposalStart e =>
    obtain ⟨hgiven, hstored⟩ := forall_mem_append.mp he
    obtain ⟨hinv, hclimbs⟩ := h.contextStep hP (e := .proposalStart _) hgiven
    obtain ⟨hinv', hclimbs'⟩ := hinv.driverStep (hinv.start_locks e hstored)
    exact ⟨hinv', hclimbs.trans hclimbs'⟩
  | consensusUpdate e =>
    obtain ⟨hinv, hclimbs⟩ := h.contextStep hP (e := .consensusUpdate e) he
    obtain ⟨hinv', hclimbs'⟩ := hinv.driverStep (e := .consensusUpdate _)
      fun b hb => hinv.all.lock b (Option.mem_toList.mp hb)
    exact ⟨hinv', hclimbs.trans hclimbs'⟩
  | proposalFinish successful target => exact h.contextStep hP he
  | replicateFinish successful target => exact h.contextStep hP he
  | driver e => exact h.driverStep he

theorem NodeInv.foldl (es : List NodeEvent) (hes : ∀ e ∈ es, ∀ b ∈ e.given, P b) :
    NodeInv P (es.foldl (ConsensusNode.step chk rule) s) ∧
      NodeClimbs s (es.foldl (ConsensusNode.step chk rule) s) := by
  refine List.foldlRecOn (motive := fun s' => NodeInv P s' ∧ NodeClimbs s s') _ _ ⟨h, .refl s⟩ ?_
  intro s' hs' e he
  obtain ⟨hinv, hclimbs⟩ := hs'.1.step hP (hes e he)
  exact ⟨hinv, hs'.2.trans hclimbs⟩

end

def Known (es : List NodeEvent) (b : XvBlock) : Prop :=
  ∃ g ∈ es.flatMap NodeEvent.given, g.blockHash = b.blockHash ∧ g.height = b.height ∧
    g.viewid = b.viewid

theorem flagStable_known (es : List NodeEvent) : BftContext.FlagStable (Known es) := by
  rintro b b' hg ⟨g, hmem, hhash, hheight, hview⟩
  exact ⟨g, hmem, hhash.trans hg.hash.symm, hheight.trans hg.height_eq.symm,
    hview.trans hg.viewid_eq.symm⟩

/-- No lock and no commit goes back. If height and view fix the hash, the driver's lock changes its
hash only with a move up in both. -/
theorem locks_never_go_back (chk : BlockChecks) (rule : NodeRule) (es es' : List NodeEvent) :
    let s := run chk rule es
    let s' := run chk rule (es ++ es')
    Rises s.driver.rules.latestLockBlock s'.driver.rules.latestLockBlock ∧
    Rises s.context.latestLockBlock s'.context.latestLockBlock ∧
    Rises s.context.latestCommitBlock s'.context.latestCommitBlock ∧
    ((∀ b ∈ (es ++ es').flatMap NodeEvent.given, ∀ b' ∈ (es ++ es').flatMap NodeEvent.given,
        b.height = b'.height → b.viewid = b'.viewid → b.blockHash = b'.blockHash) →
      ∀ lock lock', s.driver.rules.latestLockBlock = some lock →
        s'.driver.rules.latestLockBlock = some lock' → lock'.blockHash ≠ lock.blockHash →
        Below lock lock') := by
  have hknown : ∀ e ∈ es ++ es', ∀ b ∈ e.given, Known (es ++ es') b := fun e he b hb =>
    ⟨b, mem_flatMap.mpr ⟨e, he, hb⟩, rfl, rfl, rfl⟩
  obtain ⟨hbefore, hafter⟩ := forall_mem_append.mp hknown
  have hstable := flagStable_known (es ++ es')
  obtain ⟨hinv, -⟩ := (NodeInv.init (P := Known (es ++ es'))).foldl hstable es hbefore
  obtain ⟨hinv', hclimbs⟩ := hinv.foldl hstable es' hafter
  unfold run
  rw [foldl_append]
  refine ⟨hclimbs.driver.rises, hclimbs.lock, hclimbs.commit, fun hone lock lock' hl hl' hne => ?_⟩
  obtain ⟨b, hb, hsame | hbelow⟩ := hclimbs.driver lock hl
  · -- equal height and view mean equal hashes
    obtain rfl := Option.mem_unique hb hl'
    obtain ⟨g, hg, hhash, hheight, hview⟩ := hinv.lock lock hl
    obtain ⟨g', hg', hhash', hheight', hview'⟩ := hinv'.lock b hl'
    have heq := hone g' hg' g hg (by rw [hheight', hheight, hsame.1])
      (by rw [hview', hview, hsame.2])
    exact absurd (hhash'.symm.trans (heq.trans hhash)) hne
  · obtain rfl := Option.mem_unique hb hl'
    exact hbelow

def lockedBlock (height viewid : UInt64) (hash : String) : XvBlock :=
  { BftContext.certBlock "T" height viewid "p" hash with flags := {.authenticated, .locked} }

def lockInfo (s : ConsensusNode) : Option (String × UInt64 × UInt64) :=
  s.driver.rules.latestLockBlock.map fun b => (b.blockHash, b.height, b.viewid)

theorem locks_never_go_back_sample :
    let s := run accepting BftContext.documentedRule [.driver (.clockFire (lockedBlock 5 5 "a"))]
    let s' := run accepting BftContext.documentedRule
      ([.driver (.clockFire (lockedBlock 5 5 "a"))]
        ++ [.consensusUpdate ⟨none, some (lockedBlock 6 7 "b"), none⟩])
    s.lockInfo = some ("a", 5, 5) ∧ s'.lockInfo = some ("b", 6, 7) ∧
      ∀ lock lock', s.driver.rules.latestLockBlock = some lock →
        s'.driver.rules.latestLockBlock = some lock' → lock'.blockHash ≠ lock.blockHash →
        Below lock lock' :=
  ⟨by decide, by decide,
    (locks_never_go_back accepting BftContext.documentedRule _ _).2.2.2 (by decide)⟩

theorem lock_hash_changes_in_place :
    (run accepting BftContext.documentedRule
      [.driver (.clockFire (lockedBlock 5 5 "a"))]).lockInfo = some ("a", 5, 5) ∧
    (run accepting BftContext.documentedRule
      [.driver (.clockFire (lockedBlock 5 5 "a")),
       .consensusUpdate ⟨none, some (lockedBlock 5 5 "b"), none⟩]).lockInfo = some ("b", 5, 5) := by
  decide

end ConsensusNode
end TopChain.Bft
