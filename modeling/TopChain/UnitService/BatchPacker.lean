import TopChain.Bft.Signing
import TopChain.UnitService.LeaderElection

/-!
# The packer of a table (`xunit_service/src/xbatch_packer.cpp`)

The layer above the consensus driver.
-/
namespace TopChain.UnitService

open List TopChain.Base TopChain.Bft TopChain.Lib

structure ProposalPdu where
  packet : Packet
  fromAddr : Xvip2
  toAddr : Xvip2
  decodes : Bool
  prevCertOk : Bool
  block : Option XvBlock
deriving DecidableEq

structure DriverView where
  isVoter : Bool
  commitKnown : Bool
  cookie : UInt64
  stored : Option XvBlock

def ProposalPdu.toMsg (w : ProposalPdu) (v : DriverView) : ProposalMsg where
  packet := w.packet
  fromAddr := w.fromAddr
  toAddr := w.toAddr
  decodes := w.decodes
  prevCertOk := w.prevCertOk
  block := w.block
  isVoter := v.isVoter
  commitKnown := v.commitKnown
  cookie := v.cookie
  stored := v.stored

structure Services where
  latestCert : XvBlock
  versionFrom : Xvip2 → Option UInt64
  election : LeaderElection

namespace Services

/-- The leader `get_leader_xip` elects for a view, as the packer at `xip` asks it about
`candidate`. -/
def leaderOf (s : Services) (account : String) (viewid : UInt64) (xip candidate : Xvip2) :
    Option Xvip2 :=
  (s.versionFrom candidate).map fun version =>
    s.election.getLeaderXip viewid account s.latestCert xip version .rotateByViewId

def Elects (s : Services) (account : String) (w : ProposalPdu) : Prop :=
  s.leaderOf account w.packet.viewid w.toAddr w.fromAddr = some w.fromAddr

instance (s : Services) (account : String) (w : ProposalPdu) : Decidable (s.Elects account w) :=
  inferInstanceAs (Decidable (_ = _))

/-- The sender is checked for a proposal at the next height only. -/
def leaderOk (s : Services) (account : String) (w : ProposalPdu) : Bool :=
  if s.latestCert.height + 1 = w.packet.height then s.Elects account w else true

end Services

abbrev UnorderCache := SortedMap UInt64 ProposalPdu

namespace UnorderCache

def maxViewNum : UInt64 := 1

def filterEvent (c : UnorderCache) (accountViewid : UInt64) (w : ProposalPdu) : UnorderCache :=
  if w.packet.viewid = accountViewid then c
  else if w.packet.viewid < accountViewid || w.packet.viewid > accountViewid + maxViewNum then c
  else c.insert w.packet.viewid w

def clearOld (c : UnorderCache) (accountViewid : UInt64) : UnorderCache :=
  c.filter fun e => !(e.1 < accountViewid)

inductive Answer where
  | nothing
  | event (w : ProposalPdu) (rest : UnorderCache)
  | stuck

def getProposalEvent (c : UnorderCache) (accountViewid : UInt64) : Answer :=
  match c.entries with
  | [] => .nothing
  | (viewid, w) :: _ =>
    if viewid = accountViewid then .event w (c.erase viewid) else .stuck

theorem getProposalEvent_mem {c rest : UnorderCache} {viewid : UInt64} {w : ProposalPdu}
    (h : c.getProposalEvent viewid = .event w rest) : (viewid, w) ∈ c.entries := by
  unfold getProposalEvent at h
  split at h
  · cases h
  next v w' tail he =>
  split_ifs at h with hv
  obtain ⟨rfl, -⟩ := Answer.event.inj h
  rw [he, ← hv]
  exact mem_cons_self

end UnorderCache

structure BatchPacker where
  account : String
  xip : Xvip2
  lastViewid : UInt64
  unorder : UnorderCache
  driver : BftDriver
  inFlight : List ProposalPdu
  stuck : Bool

structure ViewFire where
  viewid : UInt64
  services : Services
  latestBlocksOk : Bool
  hasWork : Bool
  drandReady : Bool
  start : Option ProposalStart

def internal : DriverEvent → Bool
  | .proposalMsg _ => false
  | .proposalStart e => e.proposal.isNone
  | _ => true

/-- What reaches the packer; deliveries come in any order and the driver's own events between them.
-/
inductive PackerEvent where
  | recvIn (s : Services) (w : ProposalPdu)
  | viewFire (v : ViewFire)
  | resetXip (xip : Xvip2)
  | deliver (i : Nat) (v : DriverView)
  | driver (e : DriverEvent) (h : internal e = true)

inductive PackerOutput where
  | passed (s : Services) (w : ProposalPdu)
  | driver (o : DriverOutput)

namespace BatchPacker
variable (chk : BlockChecks) (p : BatchPacker)

/-- `recv_in` on a proposal packet; one of another account goes to `on_pdu_event_down`. -/
def recvIn (s : Services) (w : ProposalPdu) : BatchPacker × List PackerOutput :=
  let p := { p with unorder := UnorderCache.filterEvent p.unorder p.lastViewid w }
  if !s.leaderOk p.account w then (p, [])
  else if w.packet.account ≠ p.account then (p, [])
  else ({ p with inFlight := p.inFlight ++ [{ w with toAddr := p.xip }] }, [.passed s w])

def driverStep (e : DriverEvent) : BatchPacker × List PackerOutput :=
  let res := p.driver.step chk e
  ({ p with driver := res.1 }, res.2.map .driver)

def leadOrFollow (v : ViewFire) : BatchPacker × List PackerOutput :=
  if !(p.xip.zoneId = consensusZone || p.xip.zoneId = beaconZone || p.xip.zoneId = zecZone) then
    (p, [])
  else if v.viewid ≤ v.services.latestCert.viewid then (p, [])
  else if !v.latestBlocksOk || !v.hasWork then (p, [])
  else match v.services.leaderOf p.account v.viewid p.xip p.xip with
  | none => (p, [])
  | some leader =>
    if leader ≠ p.xip then
      match UnorderCache.getProposalEvent p.unorder v.viewid with
      | .nothing => (p, [])
      | .event w rest => recvIn { p with unorder := rest } v.services w
      | .stuck => ({ p with stuck := true }, [])
    else if !v.drandReady then (p, [])
    else match v.start with
    | none => (p, [])
    | some start => p.driverStep chk (.proposalStart start)

def onViewFire (v : ViewFire) : BatchPacker × List PackerOutput :=
  leadOrFollow chk
    { p with lastViewid := v.viewid, unorder := UnorderCache.clearOld p.unorder v.viewid } v

def step : PackerEvent → BatchPacker × List PackerOutput
  | e =>
    if p.stuck then (p, [])
    else match e with
    | .recvIn s w => p.recvIn s w
    | .viewFire v => p.onViewFire chk v
    | .resetXip xip => ({ p with xip := xip }, [])
    | .deliver i v =>
      match p.inFlight[i]? with
      | none => (p, [])
      | some w =>
        { p with inFlight := p.inFlight.eraseIdx i }.driverStep chk (.proposalMsg (w.toMsg v))
    | .driver e _ => p.driverStep chk e

def init (account : String) (xip : Xvip2) : BatchPacker :=
  ⟨account, xip, 0, .empty, .init, [], false⟩

theorem recvIn_cases (s : Services) (w : ProposalPdu) :
    ∃ c, p.recvIn s w = ({ p with unorder := c }, []) ∨
      (s.leaderOk p.account w = true ∧ w.packet.account = p.account ∧
        p.recvIn s w = ({ p with unorder := c,
                                 inFlight := p.inFlight ++ [{ w with toAddr := p.xip }] },
          [.passed s w])) := by
  refine ⟨UnorderCache.filterEvent p.unorder p.lastViewid w, ?_⟩
  unfold recvIn
  dsimp only
  split_ifs with hleader haccount
  · exact .inl rfl
  · exact .inl rfl
  · exact .inr ⟨by simpa using hleader, by simpa using haccount, rfl⟩

/-- A view event sends nothing on, or takes a kept proposal, or starts one as the leader. -/
theorem onViewFire_cases (v : ViewFire) : (∃ c b, p.onViewFire chk v =
      ({ p with lastViewid := v.viewid, unorder := c, stuck := b }, [])) ∨
    (∃ w rest, (v.viewid, w) ∈ p.unorder.entries ∧ p.onViewFire chk v =
      recvIn { p with lastViewid := v.viewid, unorder := rest } v.services w) ∨
    ∃ start c, v.services.leaderOf p.account v.viewid p.xip p.xip = some p.xip ∧
      p.onViewFire chk v = driverStep chk { p with lastViewid := v.viewid, unorder := c }
        (.proposalStart start) := by
  unfold onViewFire leadOrFollow
  split
  · exact .inl ⟨_, _, rfl⟩
  split
  · exact .inl ⟨_, _, rfl⟩
  split
  · exact .inl ⟨_, _, rfl⟩
  split
  · exact .inl ⟨_, _, rfl⟩
  next leader hleader =>
  split
  · split
    · exact .inl ⟨_, _, rfl⟩
    · next w rest he =>
      exact .inr (.inl ⟨w, rest, mem_of_mem_filter (UnorderCache.getProposalEvent_mem he), rfl⟩)
    · exact .inl ⟨_, _, rfl⟩
  next hself =>
  split
  · exact .inl ⟨_, _, rfl⟩
  split
  · exact .inl ⟨_, _, rfl⟩
  · exact .inr (.inr ⟨_, _, hleader.trans (congrArg some (not_not.mp hself)), rfl⟩)

def Receives (p : BatchPacker) (e : PackerEvent) (s : Services) (w : ProposalPdu) : Prop :=
  e = .recvIn s w ∨ ∃ v, e = .viewFire v ∧ s = v.services ∧ (v.viewid, w) ∈ p.unorder.entries

/-- A packet whose sender is not the elected leader has the one height at which `recv_in`
looks at the sender. -/
def StrangersAtNextHeight (p : BatchPacker) (e : PackerEvent) : Prop :=
  ∀ s w, Receives p e s w → ¬ s.Elects p.account w → s.latestCert.height + 1 = w.packet.height

/-- A proposal of this sender and view was passed on, and the election had named the sender. -/
def FromLeader (account : String) (h : List PackerOutput) (sender : Xvip2) (viewid : UInt64) :
    Prop :=
  ∃ s w, .passed s w ∈ h ∧ w.fromAddr = sender ∧ w.packet.viewid = viewid ∧
    w.packet.account = account ∧ s.Elects account w

theorem FromLeader.append {account : String} {h : List PackerOutput} {sender : Xvip2}
    {viewid : UInt64} (hl : FromLeader account h sender viewid) (h' : List PackerOutput) :
    FromLeader account (h ++ h') sender viewid := by
  obtain ⟨s, w, hmem, hw⟩ := hl
  exact ⟨s, w, mem_append_left _ hmem, hw⟩

structure Sourced (account : String) (h : List PackerOutput) (p : BatchPacker) : Prop where
  account_eq : p.account = account
  inFlight : ∀ w ∈ p.inFlight, FromLeader account h w.fromAddr w.packet.viewid ∧
    w.packet.account = account
  jobs : ∀ job ∈ p.driver.verifying, FromLeader account h job.fromAddr job.block.viewid ∧
    job.block.account = account
  votes : ∀ b sender, .driver (.voteMsg b sender) ∈ h →
    FromLeader account h sender b.viewid ∧ b.account = account

variable {chk p} {account : String} {h : List PackerOutput}

section
variable (hp : Sourced account h p)
include hp

theorem Sourced.recvIn {s : Services} {w : ProposalPdu}
    (hw : ¬ s.Elects p.account w → s.latestCert.height + 1 = w.packet.height) :
    Sourced account (h ++ (p.recvIn s w).2) (p.recvIn s w).1 := by
  obtain ⟨haccount, hflight, hjobs, hvotes⟩ := hp
  obtain ⟨c, he | ⟨hok, hacc, he⟩⟩ := recvIn_cases p s w
  · rw [he, append_nil]
    exact ⟨haccount, hflight, hjobs, hvotes⟩
  · have helects : s.Elects p.account w := by
      by_contra hne
      rw [Services.leaderOk, if_pos (hw hne)] at hok
      exact hne (of_decide_eq_true hok)
    rw [he]
    refine ⟨haccount, fun w' hw' => ?_, fun job hj => ⟨(hjobs job hj).1.append _, (hjobs job hj).2⟩,
      fun b sender hmem => ?_⟩
    · rcases mem_append.mp hw' with hw' | hw'
      · exact ⟨(hflight w' hw').1.append _, (hflight w' hw').2⟩
      · obtain rfl := mem_singleton.mp hw'
        exact ⟨⟨s, w, by simp, rfl, rfl, hacc.trans haccount, haccount ▸ helects⟩,
          hacc.trans haccount⟩
    · rcases mem_append.mp hmem with hmem | hmem
      · exact ⟨(hvotes b sender hmem).1.append _, (hvotes b sender hmem).2⟩
      · simp at hmem

theorem Sourced.driverStep {e : DriverEvent} (hmsg : ∀ m, e = .proposalMsg m →
      FromLeader account h m.fromAddr m.packet.viewid ∧ m.packet.account = account) :
    Sourced account (h ++ (p.driverStep chk e).2) (p.driverStep chk e).1 := by
  obtain ⟨hsub, hout⟩ := BftDriver.step_jobs chk p.driver e
  refine ⟨hp.account_eq, fun w hw => ⟨(hp.inFlight w hw).1.append _, (hp.inFlight w hw).2⟩,
    fun job hj => ?_, fun b sender hmem => ?_⟩
  · rcases hsub job hj with hj | ⟨m, he, hfrom, hview, hacc⟩
    · exact ⟨(hp.jobs job hj).1.append _, (hp.jobs job hj).2⟩
    · rw [hfrom, hview, hacc]
      exact ⟨(hmsg m he).1.append _, (hmsg m he).2⟩
  · rcases mem_append.mp hmem with hmem | hmem
    · exact ⟨(hp.votes b sender hmem).1.append _, (hp.votes b sender hmem).2⟩
    · obtain ⟨o, ho, heq⟩ := mem_map.mp hmem
      obtain rfl := PackerOutput.driver.inj heq
      obtain ⟨hl, hacc⟩ := hp.jobs _ (hout b sender ho)
      exact ⟨hl.append _, hacc⟩

theorem Sourced.onViewFire {v : ViewFire} (hv : StrangersAtNextHeight p (.viewFire v)) :
    Sourced account (h ++ (p.onViewFire chk v).2) (p.onViewFire chk v).1 := by
  have hp' : ∀ c b, Sourced account h
      { p with lastViewid := v.viewid, unorder := c, stuck := b } := fun _ _ =>
    ⟨hp.account_eq, hp.inFlight, hp.jobs, hp.votes⟩
  rcases onViewFire_cases chk p v with ⟨c, b, he⟩ | ⟨w, rest, hw, he⟩ | ⟨start, c, -, he⟩
  · rw [he, append_nil]
    exact hp' c b
  · rw [he]
    exact (hp' rest p.stuck).recvIn (hv v.services w (.inr ⟨v, rfl, rfl, hw⟩))
  · rw [he]
    exact (hp' c p.stuck).driverStep fun m hm => nomatch hm

theorem Sourced.step {e : PackerEvent} (hv : StrangersAtNextHeight p e) :
    Sourced account (h ++ (p.step chk e).2) (p.step chk e).1 := by
  unfold BatchPacker.step
  split
  · rwa [append_nil]
  cases e with
  | recvIn s w => exact hp.recvIn (hv s w (.inl rfl))
  | viewFire v => exact hp.onViewFire hv
  | resetXip xip =>
    rw [append_nil]
    exact ⟨hp.account_eq, hp.inFlight, hp.jobs, hp.votes⟩
  | deliver i v =>
    dsimp only
    split
    · rwa [append_nil]
    next w hw =>
    have hp' : Sourced account h { p with inFlight := p.inFlight.eraseIdx i } :=
      ⟨hp.account_eq, fun w hw => hp.inFlight w (mem_of_mem_eraseIdx hw), hp.jobs, hp.votes⟩
    refine hp'.driverStep fun m hm => ?_
    obtain rfl := DriverEvent.proposalMsg.inj hm
    exact hp.inFlight w (mem_of_getElem? hw)
  | driver e hint =>
    refine hp.driverStep fun m hm => ?_
    rw [hm] at hint
    cases hint

end

def voteOf : PackerOutput → Option (XvBlock × Xvip2)
  | .driver (.voteMsg b sender) => some (b, sender)
  | _ => none

def outputs (chk : BlockChecks) (account : String) (xip : Xvip2) (es : List PackerEvent) :
    List PackerOutput :=
  (Run.run (step chk) (init account xip) es).2

/-- When packets of senders that are not elected come at the height of the sender test, every vote
goes to a sender that `get_leader_xip` elected for the packet's view and account. -/
theorem votes_for_leader (chk : BlockChecks) (account : String) (xip : Xvip2)
    (es : List PackerEvent)
    (hm : Run.Meets (step chk) StrangersAtNextHeight (init account xip) es) :
    ∀ v ∈ (outputs chk account xip es).filterMap voteOf,
      FromLeader account (outputs chk account xip es) v.2 v.1.viewid ∧ v.1.account = account := by
  have hinit : Sourced account [] (init account xip) :=
    ⟨rfl, by simp [init], by simp [init, BftDriver.init], by simp⟩
  have hrun := Run.run_hist (I := Sourced account) (fun h p e hp hv => hp.step hv) hinit es hm
  rintro ⟨b, sender⟩ hv
  obtain ⟨o, ho, hvote⟩ := mem_filterMap.mp hv
  have hout : o = .driver (.voteMsg b sender) := by
    unfold voteOf at hvote
    split at hvote
    · cases hvote
      rfl
    · cases hvote
  exact hrun.votes b sender (hout ▸ ho)

namespace Sample

def leader : Xvip2 := ⟨7, 0⟩
def stranger : Xvip2 := ⟨9, 0⟩

def block (height : UInt64) (justify last hash : String) (proposer : Xvip2) : XvBlock :=
  { chainid := 0, account := "T", level := .table, height := height, viewid := height,
    viewtoken := 1, validator := proposer, auditor := ⟨0, 0⟩, lastBlockHash := last,
    headerHash := "", justifyCertHash := justify, outputRootHash := "root " ++ hash,
    blockHash := hash, flags := ∅ }

def blockA : XvBlock := block 1 "" "G" "A" leader
def blockB : XvBlock := block 2 "" "A" "B" leader
def blockC : XvBlock := block 3 "root A" "B" "C" leader
def blockD (proposer : Xvip2) : XvBlock := block 4 "root B" "C" "" proposer

def services (latestCert : XvBlock) : Services where
  latestCert := latestCert
  versionFrom := fun _ => some 1
  election :=
    { getElection := fun _ => [⟨leader, 0, 0⟩], getParentElection := fun _ => [⟨leader, 0, 0⟩],
      getGroupElection := fun _ _ => [⟨leader, 0, 0⟩], xidFromAccount := fun _ => 0,
      groupidByAccount := fun _ _ => 64, leaderElectionRound := 2,
      select := fun l _ => (l.head?.map (·.2)).getD LeaderElection.noLeader }

def proposal (sender : Xvip2) : ProposalPdu :=
  ⟨⟨0, "T", 4, 4, 1⟩, sender, ⟨3, 0⟩, true, true, some (blockD sender)⟩

def start : List PackerEvent :=
  [.driver (.consensusUpdate (some blockA)) rfl, .driver (.certVerified blockB none) rfl]

def commit : List PackerEvent :=
  [.driver (.certVerified blockC none) rfl, .driver (.consensusUpdate (some blockB)) rfl]

def handle : List PackerEvent :=
  [.deliver 0 ⟨true, true, 4, none⟩, .driver (.proposalVerified 0 true none) rfl]

/-- The proposal comes in while the node is one block behind. -/
def early : List PackerEvent :=
  start ++ [.recvIn (services blockB) (proposal stranger),
    .driver (.proposalStart ⟨none, none, some blockA, none, some blockB, none⟩) rfl] ++
  commit ++ handle

def onTime : List PackerEvent :=
  start ++ commit ++ [.recvIn (services blockC) (proposal leader)] ++ handle

end Sample

open Sample in
theorem stranger_voted_for :
    (blockD stranger, stranger) ∈
      (outputs BftDriver.LeaderRun.accepting "T" ⟨3, 0⟩ early).filterMap voteOf ∧
    ¬ FromLeader "T" (outputs BftDriver.LeaderRun.accepting "T" ⟨3, 0⟩ early) stranger 4 := by
  refine ⟨by decide, ?_⟩
  have hall : (outputs BftDriver.LeaderRun.accepting "T" ⟨3, 0⟩ early).all
      (fun o => match o with | .passed s w => !s.Elects "T" w | _ => true) = true := by decide
  rintro ⟨s, w, hmem, -, -, -, helects⟩
  have hnot := all_eq_true.mp hall _ hmem
  simp [helects] at hnot

open Sample in
theorem votes_for_leader_onTime :
    (blockD leader, leader) ∈
      (outputs BftDriver.LeaderRun.accepting "T" ⟨3, 0⟩ onTime).filterMap voteOf ∧
    FromLeader "T" (outputs BftDriver.LeaderRun.accepting "T" ⟨3, 0⟩ onTime) leader 4 := by
  have hvote : (blockD leader, leader) ∈
      (outputs BftDriver.LeaderRun.accepting "T" ⟨3, 0⟩ onTime).filterMap voteOf := by decide
  refine ⟨hvote, (votes_for_leader BftDriver.LeaderRun.accepting "T" ⟨3, 0⟩ _ ?_ _ hvote).1⟩
  -- only the fifth event is a packet
  refine ⟨?_, ?_, ?_, ?_, ?_, ?_, ?_, trivial⟩ <;> rintro s w (he | ⟨v, he, -⟩) <;> cases he
  decide

end BatchPacker
end TopChain.UnitService
