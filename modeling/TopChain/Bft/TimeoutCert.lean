import TopChain.Bft.TimerVotes

/-!
# The timeout certificate (`xconspacemaker_t`, `xBFT/src/xtimercertview.cpp`)

Every ten seconds a node votes for the next clock, and collects the votes of the others. The
first stage of a vote asks the parent (`xtimer_picker_t::on_create_block_event`) for a clock
block, and the parent hands it down to the second stage within the same call.
-/
namespace TopChain.Bft

open List TopChain.Base TopChain.Lib

structure ClockBlock where
  height : UInt64
  viewid : UInt64
  clock : UInt64
  validator : Xvip2
  verifySignature : String
deriving DecidableEq

/-- The certificate service and the validator set, as one event of the pacemaker finds them. -/
structure ClockRules where
  isValidator : ClockBlock → Xvip2 → Bool
  getValidatorThreshold : ClockBlock → UInt32
  doSign : Xvip2 → ClockBlock → UInt64 → String
  verifySign : Xvip2 → ClockBlock → Bool
  mergeMutiSign : SortedMap Xvip2 String → ClockBlock → String
  verifyMutiSign : ClockBlock → Bool

structure TimeoutPacket where
  blockClock : UInt64
  block : Option ClockBlock

inductive TimeoutType where
  | peerTimeout (vote : ClockBlock)
  | localTimeout

structure CreateRequest where
  fromAddr : Xvip2
  clock : UInt64
  timeoutType : TimeoutType

inductive PacemakerOutput where
  | timeoutMsg (nonce : UInt16) (fromAddr toAddr : Xvip2) (vote : ClockBlock)
  | tcFire (block : ClockBlock)

structure TimeoutPacemaker where
  xip : Xvip2
  nonce : UInt16
  voteCache : VoteCache
  latestCert : Option ClockBlock
  lastSendTime : UInt64

namespace TimeoutPacemaker

def topClockBeginTime : UInt64 := 1573189200

/-- The address of all nodes of the own group: `reset_node_id_to_xip2` and
`set_node_id_to_xip2` with `0xFFF`. -/
def broadcastAddr (xip : Xvip2) : Xvip2 :=
  { xip with low := (xip.low &&& 0xFFFFFFFFFFFFFC00) ||| (0xFFF &&& 0x3FF) }

/-- A clock that the latest certificate has reached already. -/
def rollback (p : TimeoutPacemaker) (clock : UInt64) : Bool :=
  p.latestCert.any fun cert => clock ≤ cert.clock

def addVote (p : TimeoutPacemaker) (rules : ClockRules) (now : Int) (xip : Xvip2)
    (modelBlock vote : ClockBlock) : TimeoutPacemaker × List PacemakerOutput :=
  if !rules.isValidator modelBlock xip then (p, [])
  else
    let (cache, accepted) := p.voteCache.addQcert xip modelBlock.clock vote.verifySignature now
    if !accepted then (p, [])
    else match cache.getClockVotes modelBlock.clock with
      | none => (p, [])
      | some validators =>
        if validators.entries.length < (rules.getValidatorThreshold modelBlock).toNat then
          ({ p with voteCache := cache }, [])
        else
          let block := { modelBlock with
            verifySignature := rules.mergeMutiSign validators modelBlock }
          if rules.verifyMutiSign block then
            ({ p with latestCert := some block, voteCache := .empty }, [.tcFire block])
          else ({ p with voteCache := cache }, [])

def onTimeoutStage2 (p : TimeoutPacemaker) (rules : ClockRules) (now : Int) (random : UInt64)
    (block : ClockBlock) : TimeoutPacemaker × List PacemakerOutput :=
  let vote := { block with verifySignature := rules.doSign p.xip block random }
  let p := { p with nonce := p.nonce + 1 }
  let (p', out) := p.addVote rules now p.xip vote vote
  (p', .timeoutMsg p.nonce p.xip (broadcastAddr p.xip) vote :: out)

/-- The parent's clock block for the request, and the second stage with it. -/
def onCreateBlockEvent (p : TimeoutPacemaker) (rules : ClockRules) (now : Int) (random : UInt64)
    (request : CreateRequest) : TimeoutPacemaker × List PacemakerOutput :=
  let block := ⟨request.clock, request.clock, request.clock, broadcastAddr p.xip, ""⟩
  match request.timeoutType with
  | .peerTimeout vote => p.addVote rules now request.fromAddr block vote
  | .localTimeout => p.onTimeoutStage2 rules now random block

def onReceiveTimeout (p : TimeoutPacemaker) (rules : ClockRules) (now : Int) (random : UInt64)
    (fromAddr : Xvip2) (packet : TimeoutPacket) : TimeoutPacemaker × List PacemakerOutput :=
  if p.rollback packet.blockClock then (p, [])
  else if fromAddr.low = 0 then (p, [])
  else match packet.block with
    | none => (p, [])
    | some block =>
      if block.clock ≠ packet.blockClock ∨ block.viewid ≠ packet.blockClock ∨
          block.height ≠ packet.blockClock then (p, [])
      else if rules.verifySign fromAddr block then
        p.onCreateBlockEvent rules now random ⟨fromAddr, packet.blockClock, .peerTimeout block⟩
      else (p, [])

def onTimeout (p : TimeoutPacemaker) (rules : ClockRules) (now : Int) (random gmttime : UInt64) :
    TimeoutPacemaker × List PacemakerOutput :=
  if p.xip.low = 0 then (p, [])
  else match p.voteCache.clearTimeoutClock now with
    | none => (p, [])
    | some cache =>
      let clock := gmttime - topClockBeginTime
      let p := { p with voteCache := cache }
      if clock < p.lastSendTime then ({ p with lastSendTime := clock }, [])
      else if p.lastSendTime / 10 = clock / 10 then (p, [])
      else
        let p := { p with lastSendTime := clock }
        if p.rollback (clock / 10) then (p, [])
        else p.onCreateBlockEvent rules now random ⟨p.xip, clock / 10, .localTimeout⟩

def resetXipAddr (p : TimeoutPacemaker) (newAddr : Xvip2) : TimeoutPacemaker :=
  { p with xip := newAddr, voteCache := .empty }

/-- A timer tick, a packet or a new address, at any time and in any order. -/
inductive Event where
  | timeout (rules : ClockRules) (now : Int) (random gmttime : UInt64)
  | packet (rules : ClockRules) (now : Int) (random : UInt64) (fromAddr : Xvip2)
      (packet : TimeoutPacket)
  | resetXipAddr (newAddr : Xvip2)

def start (xip : Xvip2) : TimeoutPacemaker := ⟨xip, 0, .empty, none, 0⟩

def step (p : TimeoutPacemaker) : Event → TimeoutPacemaker × List PacemakerOutput
  | .timeout rules now random gmttime => p.onTimeout rules now random gmttime
  | .packet rules now random fromAddr packet =>
    p.onReceiveTimeout rules now random fromAddr packet
  | .resetXipAddr newAddr => (p.resetXipAddr newAddr, [])

def certified (out : List PacemakerOutput) : List ClockBlock :=
  out.filterMap fun o => match o with
    | .tcFire block => some block
    | _ => none

/-- What a call of the pacemaker does to the certificate: nothing, or it makes one for a clock
that satisfies `new`. -/
inductive Certifies (p : TimeoutPacemaker) (new : UInt64 → Prop)
    (r : TimeoutPacemaker × List PacemakerOutput) : Prop where
  | keeps (latest : r.1.latestCert = p.latestCert) (quiet : certified r.2 = [])
  | makes (block : ClockBlock) (clock_new : new block.clock)
      (latest : r.1.latestCert = some block) (fires : certified r.2 = [block])

section
variable (p : TimeoutPacemaker) (rules : ClockRules) (now : Int)
include p rules now

theorem addVote_certifies (xip : Xvip2) (modelBlock vote : ClockBlock) :
    Certifies p (· = modelBlock.clock) (p.addVote rules now xip modelBlock vote) := by
  unfold addVote
  dsimp only
  split
  · exact .keeps rfl rfl
  · split
    · exact .keeps rfl rfl
    · split
      · exact .keeps rfl rfl
      · split
        · exact .keeps rfl rfl
        · split
          · refine .makes _ ?_ rfl rfl
            rfl
          · exact .keeps rfl rfl

variable (random : UInt64)
include random

theorem onCreateBlockEvent_certifies (request : CreateRequest) :
    Certifies p (· = request.clock) (p.onCreateBlockEvent rules now random request) := by
  unfold onCreateBlockEvent
  cases request.timeoutType with
  | peerTimeout vote =>
    exact addVote_certifies p rules now request.fromAddr
      ⟨request.clock, request.clock, request.clock, broadcastAddr p.xip, ""⟩ vote
  | localTimeout =>
    -- the own vote is broadcast before it is counted
    cases addVote_certifies { p with nonce := p.nonce + 1 } rules now p.xip _ _ with
    | keeps latest quiet => exact .keeps latest quiet
    | makes block clock_new latest fires => exact .makes block clock_new latest fires

/-- The first stage has compared the clock with the certificate that the second stage replaces:
nothing runs between them. -/
theorem secondStage_certifies (request : CreateRequest) (hroll : ¬ p.rollback request.clock) :
    Certifies p (fun clock => ∀ old ∈ p.latestCert, old.clock < clock)
      (p.onCreateBlockEvent rules now random request) := by
  cases onCreateBlockEvent_certifies p rules now random request with
  | keeps latest quiet => exact .keeps latest quiet
  | makes block clock_new latest fires =>
    refine .makes block (fun old hold => ?_) latest fires
    rw [clock_new]
    rw [Option.mem_def] at hold
    simpa [rollback, hold] using hroll

theorem onReceiveTimeout_certifies (fromAddr : Xvip2) (packet : TimeoutPacket) :
    Certifies p (fun clock => ∀ old ∈ p.latestCert, old.clock < clock)
      (p.onReceiveTimeout rules now random fromAddr packet) := by
  unfold onReceiveTimeout
  split
  · exact .keeps rfl rfl
  case isFalse hroll =>
    split
    · exact .keeps rfl rfl
    · split
      · exact .keeps rfl rfl
      · split
        · exact .keeps rfl rfl
        · split
          · exact secondStage_certifies p rules now random _ hroll
          · exact .keeps rfl rfl

theorem onTimeout_certifies (gmttime : UInt64) :
    Certifies p (fun clock => ∀ old ∈ p.latestCert, old.clock < clock)
      (p.onTimeout rules now random gmttime) := by
  unfold onTimeout
  split
  · exact .keeps rfl rfl
  · split
    · exact .keeps rfl rfl
    · dsimp only
      split
      · exact .keeps rfl rfl
      · split
        · exact .keeps rfl rfl
        · split
          · exact .keeps rfl rfl
          case isFalse hroll =>
            have hnew := secondStage_certifies _ rules now random
              ⟨p.xip, (gmttime - topClockBeginTime) / 10, .localTimeout⟩ hroll
            cases hnew with
            | keeps latest quiet => exact .keeps latest quiet
            | makes block clock_new latest fires => exact .makes block clock_new latest fires

end

theorem step_certifies (p : TimeoutPacemaker) (e : Event) :
    Certifies p (fun clock => ∀ old ∈ p.latestCert, old.clock < clock) (p.step e) := by
  cases e with
  | timeout rules now random gmttime => exact onTimeout_certifies p rules now random gmttime
  | packet rules now random fromAddr packet =>
    exact onReceiveTimeout_certifies p rules now random fromAddr packet
  | resetXipAddr newAddr => exact .keeps rfl rfl

/-- The certificates made so far: their clocks go up, and the latest is the one kept. -/
def Ascending (out : List PacemakerOutput) (p : TimeoutPacemaker) : Prop :=
  ((certified out).Pairwise fun old new => old.clock < new.clock) ∧
    p.latestCert = (certified out).getLast?

theorem Ascending.step {out : List PacemakerOutput} {p : TimeoutPacemaker}
    (h : Ascending out p) (e : Event) : Ascending (out ++ (p.step e).2) (p.step e).1 := by
  have happ : certified (out ++ (p.step e).2) = certified out ++ certified (p.step e).2 :=
    filterMap_append
  unfold Ascending
  rw [happ]
  cases step_certifies p e with
  | keeps latest quiet =>
    rw [quiet, append_nil, latest]
    exact h
  | makes block clock_new latest fires =>
    rw [fires, latest, getLast?_append]
    refine ⟨pairwise_append.mpr ⟨h.1, pairwise_singleton _ block, ?_⟩, rfl⟩
    intro old hold new hnew
    rw [mem_singleton.mp hnew]
    -- the certificate kept is the last of the earlier ones, and no earlier one is above it
    obtain ⟨last, hlast⟩ := Option.ne_none_iff_exists'.mp
      (getLast?_eq_none_iff.not.mpr (ne_nil_of_mem hold))
    have hlt : last.clock < block.clock := clock_new last (h.2.trans hlast)
    obtain ⟨init, hinit⟩ := getLast?_eq_some_iff.mp hlast
    rw [hinit] at hold
    rcases mem_append.mp hold with hold | hold
    · have hpair := h.1
      rw [hinit] at hpair
      exact ((pairwise_append.mp hpair).2.2 old hold last (mem_singleton_self last)).trans hlt
    · rwa [mem_singleton.mp hold]

/-- In every run, whatever the timeouts, packets and resets, the certificates have ever higher
clocks, and the latest certificate is always the last one made. -/
theorem latest_cert_clock_advances (xip : Xvip2) (events : List Event) :
    ((certified (Run.run step (start xip) events).2).Pairwise fun old new =>
        old.clock < new.clock) ∧
      (Run.run step (start xip) events).1.latestCert =
        (certified (Run.run step (start xip) events).2).getLast? := by
  have hstart : Ascending [] (start xip) := ⟨Pairwise.nil, rfl⟩
  have hany : Run.Meets step (fun _ _ => True) (start xip) events :=
    Run.meets_of_forall (P := fun _ => True) fun _ _ => trivial
  exact Run.run_hist (fun _ _ e h _ => h.step e) hstart events hany

end TimeoutPacemaker
end TopChain.Bft
