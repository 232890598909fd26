import TopChain.Bft.PoolCommit

/-!
# The events of the context (`xBFT/src/xconscontext.cpp`)

The four handlers of `xBFTcontext_t` as a reactive machine.
-/
namespace TopChain.Bft

open TopChain.Base TopChain.Lib

structure UpdateEvent where
  latestCert : Option XvBlock
  latestLock : Option XvBlock
  latestCommit : Option XvBlock

inductive ContextEvent where
  | proposalStart (e : UpdateEvent)
  | consensusUpdate (e : UpdateEvent)
  | proposalFinish (successful : Bool) (target : Option XvBlock)
  | replicateFinish (successful : Bool) (target : Option XvBlock)

inductive ContextOutput where
  | entered (b : XvBlock)
  | updateDown (commit lock : Option XvBlock)
  | consensusCommit (b : XvBlock)
  | cancelled (b : XvBlock)
deriving DecidableEq

def UpdateEvent.given (e : UpdateEvent) : List XvBlock :=
  e.latestCert.toList ++ e.latestLock.toList ++ e.latestCommit.toList

def ContextEvent.given : ContextEvent → List XvBlock
  | .proposalStart e => e.given
  | .consensusUpdate e => e.given
  | .proposalFinish _ target => target.toList
  | .replicateFinish _ target => target.toList

namespace BftContext
variable (chk : BlockChecks) (rule : NodeRule) (c : BftContext)

def update (b : XvBlock) : BftContext × List ContextOutput :=
  let res := c.doUpdate chk rule b
  (res.1, if res.2 then [.entered b] else [])

def syncBlock : Option XvBlock → BftContext × List ContextOutput
  | none => (c, [])
  | some b => if b.viewid ∈ c.viewPool then (c, []) else c.update chk rule b

def offer (move : BftContext → XvBlock → BftContext × Bool) : Option XvBlock → BftContext × Bool
  | none => (c, false)
  | some b => if safeCheckForBlock chk b then move c b else (c, false)

def onConsensusUpdate (e : UpdateEvent) : BftContext × List ContextOutput :=
  let cert := c.syncBlock chk rule e.latestCert
  let lock := cert.1.syncBlock chk rule e.latestLock
  let locked := lock.1.offer chk updateLockBlock e.latestLock
  let committed := locked.1.offer chk updateCommitBlock e.latestCommit
  if locked.2 || committed.2 then
    (committed.1.doClean.1, cert.2 ++ lock.2 ++ committed.1.doClean.2.map .cancelled)
  else (committed.1, cert.2 ++ lock.2)

def submit : BftContext × List ContextOutput :=
  let submitted := c.doSubmit
  let cleaned := submitted.1.doClean
  (cleaned.1,
    [.updateDown submitted.1.latestCommitBlock submitted.1.latestLockBlock]
      ++ submitted.2.map .consensusCommit ++ cleaned.2.map .cancelled)

def onFinish (successful : Bool) : Option XvBlock → BftContext × List ContextOutput
  | none => (c, [])
  | some b =>
    if successful && safeCheckForBlock chk b && (c.doUpdate chk rule b).2 then
      let res := c.update chk rule b
      (res.1.submit.1, res.2 ++ res.1.submit.2)
    else (c, [])

def step : ContextEvent → BftContext × List ContextOutput
  | .proposalStart e => c.onConsensusUpdate chk rule e
  | .consensusUpdate e => c.onConsensusUpdate chk rule e
  | .proposalFinish successful target => c.onFinish chk rule successful target
  | .replicateFinish successful target => c.onFinish chk rule successful target

section
variable {chk rule} {I : List ContextOutput → BftContext → Prop} {G : XvBlock → Prop}

/-- A property of state and past outputs that every part of a handler keeps is kept by the
handlers. -/
structure KeptByParts (chk : BlockChecks) (rule : NodeRule) (G : XvBlock → Prop)
    (I : List ContextOutput → BftContext → Prop) : Prop where
  update : ∀ h c b, G b → I h c → I (h ++ (c.update chk rule b).2) (c.update chk rule b).1
  moveLock : ∀ h c b, G b → I h c → I h (c.updateLockBlock b).1
  moveCommit : ∀ h c b, G b → I h c → I h (c.updateCommitBlock b).1
  clean : ∀ h c, I h c → I (h ++ c.doClean.2.map .cancelled) c.doClean.1
  submit : ∀ h c, I h c → I (h ++ c.submit.2) c.submit.1

variable {h : List ContextOutput} {c : BftContext}

theorem KeptByParts.syncBlock (hk : KeptByParts chk rule G I) (hI : I h c) {o : Option XvBlock}
    (ho : ∀ b, o = some b → G b) :
    I (h ++ (c.syncBlock chk rule o).2) (c.syncBlock chk rule o).1 := by
  cases o with
  | none => simpa [BftContext.syncBlock] using hI
  | some b =>
    unfold BftContext.syncBlock
    dsimp only
    split_ifs
    · simpa using hI
    · exact hk.update h c b (ho b rfl) hI

theorem offer_kept (chk : BlockChecks) (move : BftContext → XvBlock → BftContext × Bool)
    {o : Option XvBlock} (hmove : ∀ b, o = some b → I h (move c b).1) (hI : I h c) :
    I h (c.offer chk move o).1 := by
  cases o with
  | none => exact hI
  | some b =>
    unfold offer
    dsimp only
    split_ifs
    · exact hmove b rfl
    · exact hI

section
variable (hk : KeptByParts chk rule G I) (hI : I h c)
include hk hI

theorem KeptByParts.onConsensusUpdate {e : UpdateEvent} (he : ∀ b ∈ e.given, G b) :
    I (h ++ (c.onConsensusUpdate chk rule e).2) (c.onConsensusUpdate chk rule e).1 := by
  have hcert := hk.syncBlock hI (o := e.latestCert) fun b hb =>
    he b (by simp [UpdateEvent.given, hb])
  have hlock := hk.syncBlock hcert (o := e.latestLock)
    fun b hb => he b (by simp [UpdateEvent.given, hb])
  have hlocked := offer_kept chk updateLockBlock (o := e.latestLock)
    (fun b hb => hk.moveLock _ _ b (he b (by simp [UpdateEvent.given, hb])) hlock) hlock
  have hcommitted := offer_kept chk updateCommitBlock (o := e.latestCommit)
    (fun b hb => hk.moveCommit _ _ b (he b (by simp [UpdateEvent.given, hb])) hlocked) hlocked
  rw [List.append_assoc] at hcommitted
  unfold BftContext.onConsensusUpdate
  dsimp only
  split_ifs
  · rw [← List.append_assoc]
    exact hk.clean _ _ hcommitted
  · exact hcommitted

theorem KeptByParts.onFinish (successful : Bool)
    {target : Option XvBlock} (ht : ∀ b ∈ target.toList, G b) :
    I (h ++ (c.onFinish chk rule successful target).2)
      (c.onFinish chk rule successful target).1 := by
  cases target with
  | none => simpa [BftContext.onFinish] using hI
  | some b =>
    unfold BftContext.onFinish
    dsimp only
    split_ifs
    · rw [← List.append_assoc]
      exact hk.submit _ _ (hk.update h c b (ht b (by simp)) hI)
    · simpa using hI

theorem KeptByParts.step {e : ContextEvent} (he : ∀ b ∈ e.given, G b) :
    I (h ++ (c.step chk rule e).2) (c.step chk rule e).1 := by
  cases e with
  | proposalStart e => exact hk.onConsensusUpdate hI he
  | consensusUpdate e => exact hk.onConsensusUpdate hI he
  | proposalFinish successful target => exact hk.onFinish hI successful he
  | replicateFinish successful target => exact hk.onFinish hI successful he

theorem KeptByParts.run (es : List ContextEvent) (hes : ∀ e ∈ es, ∀ b ∈ e.given, G b) :
    I (h ++ (Run.run (BftContext.step chk rule) c es).2)
      (Run.run (BftContext.step chk rule) c es).1 := by
  have hmeets : Run.Meets (BftContext.step chk rule) (fun _ e => ∀ b ∈ e.given, G b) c es :=
    Run.meets_of_forall hes
  exact Run.run_hist (I := I) (fun _ _ _ hI he => hk.step hI he) hI es hmeets

end
end
end BftContext
end TopChain.Bft
