import TopChain.Bft.Rules
import TopChain.Lib.Run

/-!
# The consensus driver (`xBFT/src/xconsdriver.cpp`)

The events that change the rules of a driver, as a reactive machine.
-/
namespace TopChain.Bft

open TopChain.Base

structure Packet where
  chainid : UInt32
  account : String
  height : UInt64
  viewid : UInt64
  viewtoken : UInt32
deriving DecidableEq

inductive ConsensusCode where
  | badPacket | duplicated | successful | badProposal | needData | wrongView | outofdate
deriving DecidableEq, Repr

structure ProposalStart where
  proposal : Option XvBlock
  prevBlock : Option XvBlock
  latestLock : Option XvBlock
  latestCommit : Option XvBlock
  latestCert : Option XvBlock
  stored : Option XvBlock

structure ProposalMsg where
  packet : Packet
  fromAddr : Xvip2
  toAddr : Xvip2
  decodes : Bool
  prevCertOk : Bool
  block : Option XvBlock
  isVoter : Bool
  commitKnown : Bool
  cookie : UInt64
  stored : Option XvBlock

namespace BftRules
variable (chk : BlockChecks) (r : BftRules)

def startRules (e : ProposalStart) : BftRules :=
  let r := match e.latestLock.or e.latestCommit with
    | none => r
    | some lock =>
      let res := r.setLockBlock chk (some lock)
      if res.2 then res.1 else res.1.getLockBlock chk e.stored
  match e.latestCert with
  | none => r
  | some cert => ((r.getLockBlock chk e.stored).addCertBlock cert).1

def signingRules (e : ProposalStart) : BftRules :=
  (r.startRules chk e).getLockBlock chk e.stored

def parentOk (p : XvBlock) : Option XvBlock → Bool
  | none => false
  | some prev =>
    p.height = prev.height + 1 && p.lastBlockHash = prev.blockHash && chk.isDeliver prev false

def stampJustify (lock p : XvBlock) : XvBlock :=
  if p.level = .unit then { p with justifyCertHash := lock.blockHash }
  else { p with justifyCertHash := lock.outputRootHash }

def ownProposalOk (lock p : XvBlock) : Bool :=
  let q := stampJustify lock p
  !(p.height > lock.height + 2) && chk.isInputReady q true && chk.isOutputReady q true
    && chk.isValid q true && q.blockHash = "" && !q.checkBlockFlag .authenticated
    && r.safePrecheckForVoting chk q

def onProposalStart (e : ProposalStart) : BftRules × Option XvBlock :=
  match e.proposal with
  | none => (r.startRules chk e, none)
  | some p =>
    if !parentOk chk p e.prevBlock then (r.startRules chk e, none)
    else
      let r := r.signingRules chk e
      match r.latestLockBlock with
      | none => (r, none)
      | some lock =>
        if r.ownProposalOk chk lock p then
          (r.addProposal (stampJustify lock p), some (stampJustify lock p))
        else (r, none)

def isValidPacket (b : XvBlock) (p : Packet) : Bool :=
  !(b.height ≠ p.height || b.chainid ≠ p.chainid || b.viewid ≠ p.viewid
    || b.viewtoken ≠ p.viewtoken || b.account ≠ p.account)

/-- The lookup of the packet's view among proposals and certified blocks. -/
def localCode (p : Packet) : Option ConsensusCode :=
  match r.findProposal p.viewid with
  | some b =>
    if isValidPacket b p then some .badPacket
    else if chk.isInputReady b false && chk.isValid b false then some .duplicated
    else if chk.isDeliver b false then some .successful
    else none
  | none =>
    match r.findCertBlock p.viewid with
    | some c =>
      if c.height ≠ p.height || c.chainid ≠ p.chainid || c.viewid ≠ p.viewid
          || c.account ≠ p.account then some .badPacket
      else some .successful
    | none => none

def dataReady (lock b : XvBlock) (commitKnown : Bool) : Bool :=
  (!(b.height > lock.height + 1)
    || ((r.certifiedBlocks.values.reverse.any fun c =>
          b.height = c.height + 1 && b.lastBlockHash = c.blockHash)
        && b.height = lock.height + 2))
  && (!(lock.height > 1) || commitKnown)

/-- The checks of `handle_proposal_msg` in their order; the block on success has its
flags cleaned. -/
def checkProposalMsg (lock : XvBlock) (m : ProposalMsg) : Except ConsensusCode XvBlock :=
  if m.packet.chainid ≠ lock.chainid || m.packet.account ≠ lock.account || !m.decodes then
    .error .badPacket
  else match r.localCode chk m.packet with
  | some code => .error code
  | none =>
    if !m.prevCertOk then .error .badProposal
    else match m.block with
    | none => .error .badProposal
    | some raw =>
      if !chk.isValid raw false then .error .badProposal
      else
        let b := raw.resetBlockFlags
        if b.getLeaderAddress = m.toAddr then .error .badProposal
        else if !m.isVoter then .error .badProposal
        else if !isValidPacket b m.packet || !chk.isInputReady b false
            || !chk.isOutputReady b false then .error .badProposal
        else if !r.dataReady lock b m.commitKnown then .error .needData
        else if m.cookie ≠ m.packet.viewid then .error .wrongView
        else if !r.safePrecheckForVoting chk b then .error .outofdate
        else .ok b

def handleProposalMsg (m : ProposalMsg) : BftRules × Except ConsensusCode XvBlock :=
  let r := r.getLockBlock chk m.stored
  match r.latestLockBlock with
  | none => (r, .error .badPacket)
  | some lock =>
    match r.checkProposalMsg chk lock m with
    | .error code => (r, .error code)
    | .ok b => (r.addProposal b, .ok b)

end BftRules

structure VerifyJob where
  block : XvBlock
  fromAddr : Xvip2
deriving DecidableEq

/-- The driver of one account: its rules with the verify jobs that have not called back. -/
structure BftDriver where
  rules : BftRules
  verifying : List VerifyJob

/-- What can reach the driver, in any order. -/
inductive DriverEvent where
  | consensusUpdate (lock : Option XvBlock)
  | proposalStart (e : ProposalStart)
  | proposalMsg (m : ProposalMsg)
  /-- callback of the `i`-th open verify job; a job that finds the leader's signature bad
  never calls back -/
  | proposalVerified (i : Nat) (verified : Bool) (stored : Option XvBlock)
  /-- a verified certificate: callbacks of the vote, commit and sync jobs, and blocks
  served to a sync request -/
  | certVerified (b : XvBlock) (stored : Option XvBlock)
  | proposalRemoved (viewid : UInt64)
  | viewFire (viewid : UInt64) (stored : Option XvBlock)
  | clockFire (stored : Option XvBlock)

inductive DriverOutput where
  | admitted (b : XvBlock)
  | signed (b : XvBlock) (rules : BftRules)
  | voteMsg (b : XvBlock) (toAddr : Xvip2)
deriving DecidableEq

namespace BftDriver
variable (chk : BlockChecks)

def step (d : BftDriver) : DriverEvent → BftDriver × List DriverOutput
  | .consensusUpdate lock => ({ d with rules := (d.rules.setLockBlock chk lock).1 }, [])
  | .proposalStart e =>
    match d.rules.onProposalStart chk e with
    | (r, none) => ({ d with rules := r }, [])
    | (r, some b) =>
      ({ d with rules := r },
        [.signed b (d.rules.signingRules chk e), .admitted b])
  | .proposalMsg m =>
    match d.rules.handleProposalMsg chk m with
    | (r, .error _) => ({ d with rules := r }, [])
    | (r, .ok b) =>
      ({ rules := r, verifying := d.verifying ++ [⟨b, m.fromAddr⟩] }, [.admitted b])
  | .proposalVerified i verified stored =>
    match d.verifying[i]? with
    | none => (d, [])
    | some job =>
      if verified then
        let r := d.rules.getLockBlock chk stored
        ({ rules := r, verifying := d.verifying.eraseIdx i },
          if r.safeFinalcheckForVoting job.block then
            [.signed job.block r, .voteMsg job.block job.fromAddr]
          else [])
      else
        ({ rules := d.rules.removeProposal job.block.viewid,
           verifying := d.verifying.eraseIdx i }, [])
  | .certVerified b stored =>
    ({ d with rules := ((d.rules.getLockBlock chk stored).addCertBlock b).1 }, [])
  | .proposalRemoved viewid => ({ d with rules := d.rules.removeProposal viewid }, [])
  | .viewFire viewid stored =>
    let r := d.rules.getLockBlock chk stored
    ({ d with rules := r.filterProposals fun b =>
        !(viewid > b.viewid) && r.safeCheckForBlock b }, [])
  | .clockFire stored =>
    let r := d.rules.getLockBlock chk stored
    ({ d with rules := r.filterProposals r.safeCheckForBlock }, [])

def init : BftDriver := ⟨.init, []⟩

end BftDriver
end TopChain.Bft
