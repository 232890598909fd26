import TopChain.Common.Fts
import TopChain.UnitService.BatchPacker

/-!
# One leader for auditors and validators

The leader tests of `on_view_fire` and `recv_in` at the nodes of one account, each with its own
election cache.
-/
namespace TopChain.UnitService

open List TopChain.Base TopChain.Bft TopChain.Common

/-- `common::select` of one candidate. -/
def selectLeader {σ : Type} (P : Prng σ) (data : List (UInt64 × Xvip2)) (factor : UInt64) : Xvip2 :=
  match (select P.uniform data 1 (P.seed factor)).1 with
  | some (leader :: _) => leader.2
  | _ => LeaderElection.noLeader

theorem selectLeader_mem {σ : Type} (P : Prng σ) {data : List (UInt64 × Xvip2)} (hne : data ≠ [])
    (factor : UInt64) : selectLeader P data factor ∈ data.map (·.2) := by
  unfold selectLeader select
  rw [if_neg (by simpa using hne)]
  split_ifs with hone
  · obtain ⟨leader, rest, rfl⟩ := exists_cons_of_ne_nil hne
    exact mem_cons_self
  · obtain ⟨root, hroot, hleaves, hm⟩ := FtsNode.construct_spec hne
    obtain ⟨leader, hmem, s', hsel⟩ := FtsNode.select_mem P hm (P.seed factor)
    rw [hleaves] at hmem
    obtain ⟨rest, hrest⟩ : ∃ rest, eraseRemove data leader = some rest := by
      unfold eraseRemove
      refine ⟨_, if_neg fun heq => ?_⟩
      have hall := length_filter_eq_length_iff.mp heq leader hmem
      simp at hall
    simp only [selectLoop, hroot, bind, StateT.bind, hsel, hrest]
    exact mem_map_of_mem hmem

/-- The auditors (under `true`) and the validators that make the blocks of an account, and the code
and configuration they share. -/
structure Committee where
  account : String
  members : Bool → List ElectData
  version : Bool → UInt64
  election : LeaderElection
  role : ∀ r, ∀ n ∈ members r, n.xip.zoneId = consensusZone ∧ isAuditor n.xip = r
  ne_nil : ∀ r, members r ≠ []
  select : ∃ (σ : Type) (P : Prng σ), election.select = selectLeader P

namespace Committee
variable (c : Committee) (viewid : UInt64)

def nodes : List Xvip2 := (c.members true ++ c.members false).map (·.xip)

def candidates : List ElectData := c.members (viewid &&& 1 ≠ 0)

def elected (version : UInt64) : Xvip2 :=
  c.election.getLeader (c.candidates viewid) version (viewid + c.election.xidFromAccount c.account)

def leader : Xvip2 := c.elected viewid (c.version (viewid &&& 1 ≠ 0))

/-- The election cache of the node `xip`, and the versions it knows. -/
structure Consistent (xip : Xvip2) (s : Services) : Prop where
  code : s.election = { c.election with
    getElection := s.election.getElection
    getParentElection := s.election.getParentElection
    getGroupElection := s.election.getGroupElection }
  self : s.election.getElection xip = c.members (isAuditor xip)
  parent : isAuditor xip = false → s.election.getParentElection xip = c.members true
  child : isAuditor xip = true → s.election.getGroupElection xip
    (c.election.groupidByAccount xip c.account) = c.members false
  version : ∀ r, ∀ n ∈ c.members r, s.versionFrom n.xip = some (c.version r)

variable {c viewid} {xip : Xvip2} {s : Services}

theorem elected_mem (version : UInt64) :
    c.elected viewid version ∈ (c.candidates viewid).map (·.xip) := by
  obtain ⟨σ, P, hselect⟩ := c.select
  have hne : c.candidates viewid ≠ [] := c.ne_nil _
  have hpick : ∀ q : ElectData → Bool, (∃ n ∈ c.candidates viewid, q n = true) → ∀ factor,
      c.election.select (((c.candidates viewid).filter q).map fun n =>
        (n.staking + 1, n.xip)) factor ∈
        (c.candidates viewid).map (·.xip) := by
    rintro q ⟨n, hn, hq⟩ factor
    have hmem := selectLeader_mem P (ne_nil_of_mem (mem_map_of_mem
      (f := fun n : ElectData => (n.staking + 1, n.xip)) (mem_filter.mpr ⟨hn, hq⟩))) factor
    rw [map_map] at hmem
    rw [hselect]
    exact map_subset ElectData.xip filter_sublist.subset hmem
  unfold elected LeaderElection.getLeader
  rw [if_neg (by simpa using hne)]
  by_cases hreliable : ∃ n ∈ c.candidates viewid, c.election.reliable version n = true
  · rw [if_pos (by simpa using hreliable)]
    exact hpick _ hreliable _
  · rw [if_neg (by simpa using hreliable)]
    obtain ⟨n, hn⟩ := exists_mem_of_ne_nil _ hne
    refine hpick _ ⟨n, hn, ?_⟩ _
    simpa using fun h => hreliable ⟨n, hn, h⟩

theorem zoneId_of_mem (hx : xip ∈ c.nodes) : xip.zoneId = consensusZone := by
  obtain ⟨n, hn, rfl⟩ := mem_map.mp hx
  rcases mem_append.mp hn with hn | hn
  · exact (c.role _ n hn).1
  · exact (c.role _ n hn).1

section
variable (h : c.Consistent xip s) (hx : xip ∈ c.nodes)
include h hx

theorem leaderOf_eq (candidate : Xvip2) : s.leaderOf c.account viewid xip candidate =
    (s.versionFrom candidate).map (c.elected viewid) := by
  have hset : s.election.electSet (viewid &&& 1 ≠ 0) c.account xip = c.candidates viewid := by
    have hgroup : s.election.groupidByAccount = c.election.groupidByAccount := by rw [h.code]
    unfold LeaderElection.electSet candidates
    split <;> rename_i hview hrole
    · rw [h.self, hrole, hview]
    · rw [h.parent hrole, hview]
    · rw [hgroup, h.child hrole, hview]
    · rw [h.self, hrole, hview]
  have hleader : s.election.getLeader = c.election.getLeader := by
    rw [h.code]
    rfl
  have hxid : s.election.xidFromAccount = c.election.xidFromAccount := by rw [h.code]
  unfold Services.leaderOf LeaderElection.getLeaderXip elected
  simp only [LeaderElection.isRotateXip, zoneId_of_mem hx, decide_true, if_true]
  rw [hset, hleader, hxid]

theorem leaderOf_iff {candidate : Xvip2} :
    s.leaderOf c.account viewid xip candidate = some candidate ↔ candidate = c.leader viewid := by
  have hversion : candidate ∈ (c.candidates viewid).map (·.xip) →
      s.versionFrom candidate = some (c.version (viewid &&& 1 ≠ 0)) := by
    intro hmem
    obtain ⟨n, hn, rfl⟩ := mem_map.mp hmem
    exact h.version _ n hn
  rw [leaderOf_eq h hx]
  constructor
  · intro heq
    obtain ⟨version, hv, hleader⟩ := Option.map_eq_some_iff.mp heq
    rw [hversion (hleader ▸ elected_mem version)] at hv
    cases hv
    exact hleader.symm
  · rintro rfl
    rw [hversion (elected_mem _)]
    rfl

end

/-- Of the nodes with consistent caches only the leader gives a block to consensus, and does so when
it has one to make; every node takes the proposals of its next height from the leader alone. -/
theorem one_leader (chk : BlockChecks) (c : Committee) (viewid : UInt64) :
    c.leader viewid ∈ c.nodes ∧
    (∀ (p : BatchPacker) (v : ViewFire), p.account = c.account → p.xip ∈ c.nodes →
      v.viewid = viewid → c.Consistent p.xip v.services →
      (p.xip ≠ c.leader viewid → ∀ o, .driver o ∉ (p.onViewFire chk v).2) ∧
      (p.xip = c.leader viewid → v.services.latestCert.viewid < viewid → v.latestBlocksOk = true →
        v.hasWork = true → v.drandReady = true → ∀ start, v.start = some start →
        (p.onViewFire chk v).2 = (p.driverStep chk (.proposalStart start)).2)) ∧
    ∀ s w, w.toAddr ∈ c.nodes → c.Consistent w.toAddr s → w.packet.viewid = viewid →
      s.latestCert.height + 1 = w.packet.height →
      (s.leaderOk c.account w = true ↔ w.fromAddr = c.leader viewid) := by
  refine ⟨?_, fun p v haccount hx hview h => ?_, fun s w hx h hview hheight => ?_⟩
  · have hall : ∀ r, c.members r ⊆ c.members true ++ c.members false :=
      Bool.forall_bool.mpr ⟨subset_append_right _ _, subset_append_left _ _⟩
    exact map_subset _ (hall _) (elected_mem _)
  · have hlead : v.services.leaderOf p.account v.viewid p.xip p.xip = some p.xip ↔
        p.xip = c.leader viewid := by
      rw [haccount, hview]
      exact leaderOf_iff h hx
    refine ⟨fun hne o ho => ?_, fun heq hcert hblocks hwork hdrand start hstart => ?_⟩
    · rcases BatchPacker.onViewFire_cases chk p v
        with ⟨_, _, he⟩ | ⟨w, rest, -, he⟩ | ⟨_, _, hself, -⟩
      · simp [he] at ho
      · rw [he] at ho
        obtain ⟨_, he' | ⟨-, -, he'⟩⟩ := BatchPacker.recvIn_cases
          { p with lastViewid := v.viewid, unorder := rest } v.services w
        · simp [he'] at ho
        · simp [he'] at ho
      · exact hne (hlead.mp hself)
    · have hfresh : ¬ v.viewid ≤ v.services.latestCert.viewid := hview ▸ UInt64.not_le.mpr hcert
      unfold BatchPacker.onViewFire BatchPacker.leadOrFollow
      simp only [hlead.mpr heq]
      simp [zoneId_of_mem hx, hfresh, hblocks, hwork, hdrand, hstart, BatchPacker.driverStep]
  · unfold Services.leaderOk
    rw [if_pos hheight, decide_eq_true_iff, Services.Elects, hview]
    exact leaderOf_iff h hx

namespace Sample

/-- One auditor and one validator. -/
def pair : Committee where
  account := "T"
  members r := [⟨⟨if r then 0x400 else 0x10000, 0⟩, 0, 0⟩]
  version _ := 1
  election :=
    { (BatchPacker.Sample.services default).election with select := selectLeader cutOffPrng }
  role r n hn := by
    obtain rfl := mem_singleton.mp hn
    cases r <;> decide
  ne_nil _ := cons_ne_nil _ _
  select := ⟨_, cutOffPrng, rfl⟩

def services : Services where
  latestCert := BatchPacker.Sample.blockA
  versionFrom _ := some 1
  election := { pair.election with
    getElection := fun xip => pair.members (isAuditor xip)
    getParentElection := fun _ => pair.members true
    getGroupElection := fun _ _ => pair.members false }

/-- With nothing to pack, as `hasWork` says. -/
def idleView : ViewFire :=
  ⟨4, services, true, false, true, some ⟨none, none, none, none, none, none⟩⟩

theorem consistent_services (xip : Xvip2) : pair.Consistent xip services :=
  ⟨rfl, rfl, fun _ => rfl, fun _ => rfl, fun _ _ _ => rfl⟩

end Sample

open Sample in
/-- With something to pack the auditor is silent in an even view, and the validator proposes. -/
theorem one_leader_pair :
    let chk := BftDriver.LeaderRun.accepting
    let view : ViewFire := { idleView with hasWork := true }
    pair.leader 4 = ⟨0x10000, 0⟩ ∧
      (∀ o, .driver o ∉ ((BatchPacker.init "T" ⟨0x400, 0⟩).onViewFire chk view).2) ∧
      ((BatchPacker.init "T" ⟨0x10000, 0⟩).onViewFire chk view).2 =
        ((BatchPacker.init "T" ⟨0x10000, 0⟩).driverStep chk
          (.proposalStart ⟨none, none, none, none, none, none⟩)).2 := by
  intro chk view
  have hleader : pair.leader 4 = ⟨0x10000, 0⟩ := by decide
  obtain ⟨-, hfire, -⟩ := one_leader chk pair 4
  refine ⟨hleader, ?_, ?_⟩
  · exact (hfire _ view rfl (by decide) rfl (consistent_services _)).1 (by decide)
  · exact (hfire (.init "T" ⟨0x10000, 0⟩) view rfl (by decide) rfl (consistent_services _)).2
      hleader.symm (by decide) rfl rfl rfl _ rfl

open Sample in
theorem no_work_no_proposal :
    (∀ xip ∈ pair.nodes, pair.Consistent xip services) ∧
    ∀ xip ∈ pair.nodes, ∀ o, .driver o ∉
      ((BatchPacker.init "T" xip).onViewFire BftDriver.LeaderRun.accepting idleView).2 := by
  refine ⟨fun xip _ => consistent_services xip, fun xip _ o => ?_⟩
  simp [BatchPacker.onViewFire, BatchPacker.leadOrFollow, idleView]

end Committee
end TopChain.UnitService
