import TopChain.Lib.Run
import TopChain.Sync.BlockFetcher

/-!
# The fetcher's queue over a run

`insert` of a map keeps the entry it finds.
-/
namespace TopChain.Sync

open List TopChain.Base TopChain.Lib SortedMap

variable {S : SyncStore}

structure Fetched (S : SyncStore) where
  env : SyncEnv
  type : PendingType
  ptr : BlockPtr S

def trim (blocks : SortedMap UInt64 (PendingBlock S)) : SortedMap UInt64 (PendingBlock S) :=
  blocks.drop (blocks.entries.length - queueSize)

/-- At each height the queue has the received block of the highest view; when it is full, what it
lacks is below all it has. -/
structure Newest (received : List XvBlock) (q : SortedMap UInt64 (PendingBlock S)) : Prop where
  held : ∀ e ∈ q.entries, e.2.block.block ∈ received ∧ e.2.block.block.height = e.1 ∧
    ∀ b ∈ received, b.height = e.1 → b.viewid ≤ e.2.block.block.viewid
  size : q.entries.length ≤ queueSize
  highest : ∀ b ∈ received, (∃ p, (b.height, p) ∈ q.entries) ∨
    q.entries.length = queueSize ∧ ∀ e ∈ q.entries, b.height < e.1

section
variable {received : List XvBlock} {q : SortedMap UInt64 (PendingBlock S)} {p : PendingBlock S}

theorem trim_cases (h : q.entries.length ≤ queueSize + 1) :
    trim q = q ∧ q.entries.length ≤ queueSize ∨
      ∃ e, q.entries = e :: (trim q).entries ∧ (trim q).entries.length = queueSize := by
  by_cases hle : q.entries.length ≤ queueSize
  · left
    refine ⟨?_, hle⟩
    rw [trim, Nat.sub_eq_zero_of_le hle]
    rfl
  · right
    have hlen : q.entries.length - queueSize = 1 := by omega
    have htrim : (trim q).entries = q.entries.drop 1 := by rw [trim, hlen]; rfl
    cases hq : q.entries with
    | nil => simp [hq] at hlen
    | cons e rest =>
      rw [hq] at htrim hlen
      rw [htrim]
      exact ⟨e, rfl, by simp at hlen ⊢; omega⟩

theorem Newest.held_append (h : Newest received q) {b : XvBlock} {e : UInt64 × PendingBlock S}
    (he : e ∈ q.entries) (hle : b.height = e.1 → b.viewid ≤ e.2.block.block.viewid) :
    e.2.block.block ∈ received ++ [b] ∧ e.2.block.block.height = e.1 ∧
      ∀ x ∈ received ++ [b], x.height = e.1 → x.viewid ≤ e.2.block.block.viewid := by
  obtain ⟨hmem, hheight, hmax⟩ := h.held e he
  refine ⟨mem_append_left _ hmem, hheight, fun x hx => ?_⟩
  rcases mem_append.mp hx with hx | hx
  · exact hmax x hx
  · obtain rfl := mem_singleton.mp hx
    exact hle

theorem Newest.enqueue_old {b : XvBlock} {old : PendingBlock S} (h : Newest received q)
    (hview : ∀ a ∈ received, a.height = b.height → b.viewid ≤ a.viewid)
    (hold : q.find? b.height = some old) : Newest (received ++ [b]) q where
  held e he := h.held_append he fun hb =>
    hview _ (h.held e he).1 ((h.held e he).2.1.trans hb.symm)
  size := h.size
  highest x hx := by
    rcases mem_append.mp hx with hx | hx
    · exact h.highest x hx
    · obtain rfl := mem_singleton.mp hx
      exact .inl ⟨old, find?_eq_some_iff.mp hold⟩

section
variable {b : XvBlock} (h : Newest received q) (hb : p.block.block = b)
include h hb

theorem Newest.enqueue_new
    (hnone : q.find? b.height = none) : Newest (received ++ [b]) (trim (q.insert b.height p)) := by
  have habsent := find?_eq_none_iff.mp hnone
  have hperm : (q.insert b.height p).entries.Perm ((b.height, p) :: q.entries) :=
    perm_insertList fun e he hk => habsent e.2 (hk ▸ he)
  generalize q.insert b.height p = m at hperm ⊢
  have hsize := h.size
  have hlen := hperm.length_eq
  rw [length_cons] at hlen
  -- a received block is in the map, or the old queue was full above it
  have hin : ∀ x ∈ received ++ [b], (∃ y, (x.height, y) ∈ m.entries) ∨
      q.entries.length = queueSize ∧ ∀ e ∈ q.entries, x.height < e.1 := by
    intro x hx
    rcases mem_append.mp hx with hx | hx
    · exact (h.highest x hx).imp_left fun ⟨y, hy⟩ =>
        ⟨y, hperm.symm.subset (mem_cons_of_mem _ hy)⟩
    · obtain rfl := mem_singleton.mp hx
      exact .inl ⟨p, hperm.symm.subset mem_cons_self⟩
  have hheld : ∀ e ∈ m.entries, (∀ x ∈ received, x.height = b.height → e.1 ≠ b.height) →
      e.2.block.block ∈ received ++ [b] ∧ e.2.block.block.height = e.1 ∧
        ∀ x ∈ received ++ [b], x.height = e.1 → x.viewid ≤ e.2.block.block.viewid := by
    intro e he hfresh
    rcases mem_cons.mp (hperm.subset he) with rfl | he
    · refine ⟨by simp [hb], by rw [hb], fun x hx hx' => ?_⟩
      rcases mem_append.mp hx with hx | hx
      · exact absurd rfl (hfresh x hx hx')
      · rw [mem_singleton.mp hx, hb]
    · exact h.held_append he fun hk => absurd (hk ▸ he) (habsent e.2)
  rcases trim_cases (q := m) (by omega) with ⟨heq, hle⟩ | ⟨e, heq, hfull⟩
  · -- nothing is trimmed, and no received height is missing
    rw [heq]
    have hroom : q.entries.length ≠ queueSize := by omega
    refine ⟨fun e he => hheld e he fun x hx hx' => ?_, hle, fun x hx => .inl ?_⟩
    · rcases h.highest x hx with ⟨y, hy⟩ | hfull
      · exact absurd (hx' ▸ hy) (habsent y)
      · exact absurd hfull.1 hroom
    · exact (hin x hx).resolve_right fun hr => hroom hr.1
  · have hsorted := m.sorted
    rw [heq] at hsorted
    have hlow : ∀ x ∈ (trim m).entries, e.1 < x.1 := (pairwise_cons.mp hsorted).1
    have hsub : ∀ x ∈ e :: (trim m).entries, x ∈ (b.height, p) :: q.entries := by
      intro x hx
      rw [← heq] at hx
      exact hperm.subset hx
    -- the trimmed entry is below the new one when the new one stays
    have hbelow : ∀ k, (∀ x ∈ q.entries, k < x.1) → ∀ x ∈ (trim m).entries, k < x.1 := by
      intro k hk x hx
      rcases mem_cons.mp (hsub x (mem_cons_of_mem e hx)) with rfl | hx'
      · rcases mem_cons.mp (hsub e mem_cons_self) with rfl | he
        · exact absurd (hlow _ hx) (lt_irrefl _)
        · exact (hk e he).trans (hlow _ hx)
      · exact hk x hx'
    refine ⟨fun x hx => hheld x ?_ fun a ha ha' hxb => ?_, hfull.le, fun x hx => ?_⟩
    · rw [heq]
      exact mem_cons_of_mem e hx
    · rcases h.highest a ha with ⟨y, hy⟩ | hfull
      · exact absurd (ha' ▸ hy) (habsent y)
      · have hlt := hbelow _ hfull.2 x hx
        rw [hxb, ha'] at hlt
        exact absurd hlt (lt_irrefl _)
    · rcases hin x hx with ⟨y, hy⟩ | ⟨-, hx'⟩
      · rw [heq] at hy
        rcases mem_cons.mp hy with rfl | hy
        · exact .inr ⟨hfull, hlow⟩
        · exact .inl ⟨y, hy⟩
      · exact .inr ⟨hfull, hbelow _ hx'⟩

theorem Newest.enqueue (hview : ∀ a ∈ received, a.height = b.height → b.viewid ≤ a.viewid) :
    Newest (received ++ [b]) (trim (SyncState.enqueue q p)) := by
  unfold SyncState.enqueue
  dsimp only
  rw [hb]
  cases hfind : q.find? b.height with
  | none => exact h.enqueue_new hb hfind
  | some old =>
    -- the map keeps the entry in both branches
    have htrim : trim q = q := by
      rw [trim, Nat.sub_eq_zero_of_le h.size]
      rfl
    simp only [SortedMap.emplace, hfind, ite_self, htrim]
    exact h.enqueue_old hview hfind

end
end

namespace SyncState
variable {s : SyncState S} {address : String} {env : SyncEnv}

def queue (s : SyncState S) (address : String) : SortedMap UInt64 (PendingBlock S) :=
  ((s.chains.find? address).map (·.blocks)).getD .empty

def fetch (s : SyncState S) (e : Fetched S) : SyncState S × List XvBlock :=
  (s.onFetchedBlock e.env e.type e.ptr, [e.ptr.block])

/-- The block is of this chain, not below its start, and processing finds none that can be stored
yet. -/
def Waits (address : String) (s : SyncState S) (e : Fetched S) : Prop :=
  e.ptr.block.account = address ∧
    ((s.chains.find? address).map (·.startHeight)).getD 0 ≤ e.ptr.block.height ∧
    ((s.handleFetchBlock e.env e.type e.ptr).processPending e.env address
      ((s.handleFetchBlock e.env e.type e.ptr).queue address).entries).2 = 0

theorem queue_putChain (chain : ChainFetcherInfo S) :
    (s.putChain address chain).queue address = chain.blocks := by
  simp [queue, putChain]

theorem writeAhead_keeps (type : PendingType) (p : BlockPtr S) :
    (s.writeAhead env type p).1.chains = s.chains ∧
    (s.writeAhead env type p).2.block = p.block := by
  unfold writeAhead storeBlock
  dsimp only
  split_ifs
  · split <;> exact ⟨rfl, rfl⟩
  · exact ⟨rfl, rfl⟩

theorem queue_handleFetchBlock {e : Fetched S} (h : Waits address s e) :
    (s.handleFetchBlock e.env e.type e.ptr).queue address =
      trim (enqueue (s.queue address) ⟨e.type, (s.writeAhead e.env e.type e.ptr).2⟩) := by
  obtain ⟨rfl, hstart, -⟩ := h
  unfold handleFetchBlock
  dsimp only
  rw [(writeAhead_keeps e.type e.ptr).1, if_neg, queue_putChain]
  · unfold queue trim
    cases s.chains.find? e.ptr.block.account <;> rfl
  · cases hfind : s.chains.find? e.ptr.block.account <;>
      · rw [hfind] at hstart
        exact not_lt.mpr hstart

theorem queue_processNewestBlock
    (h : (s.processPending env address (s.queue address).entries).2 = 0) :
    (s.processNewestBlock env address).queue address = s.queue address := by
  unfold processNewestBlock
  cases hfind : s.chains.find? address with
  | none => rfl
  | some chain =>
    have hqueue : s.queue address = chain.blocks := by simp [queue, hfind]
    rw [hqueue] at h
    dsimp only
    rw [queue_putChain, hqueue, h]
    rfl

theorem queue_notifyDownloader : (s.notifyDownloader address).queue address = s.queue address := by
  unfold notifyDownloader
  cases hfind : s.chains.find? address with
  | none => rfl
  | some chain =>
    have hqueue : s.queue address = chain.blocks := by simp [queue, hfind]
    dsimp only
    split
    · rfl
    · split_ifs
      · rfl
      · rw [queue_putChain, hqueue]

theorem chains_syncNewestBlock : (s.syncNewestBlock env address).chains = s.chains := by
  have hget : ∀ (t : SyncState S) height, (t.getBlocks env address height .gossip).chains =
      t.chains := by
    intro t height
    unfold getBlocks
    split_ifs
    · rfl
    · split <;> rfl
  unfold syncNewestBlock
  dsimp only
  split
  · rfl
  · split
    · rfl
    · exact hget _ _
    · split_ifs
      · rfl
      · exact hget _ _
      · rfl

theorem queue_fetch {e : Fetched S} (h : Waits address s e) : (s.fetch e).1.queue address =
    trim (enqueue (s.queue address) ⟨e.type, (s.writeAhead e.env e.type e.ptr).2⟩) := by
  unfold fetch onFetchedBlock
  dsimp only
  rw [h.1, queue, chains_syncNewestBlock]
  exact queue_notifyDownloader.trans
    ((queue_processNewestBlock h.2.2).trans (queue_handleFetchBlock h))

theorem run_fetch_received (s : SyncState S) (events : List (Fetched S)) :
    (Run.run fetch s events).2 = events.map (·.ptr.block) := by
  induction events generalizing s with
  | nil => rfl
  | cons e events ih => exact congrArg (e.ptr.block :: ·) (ih _)

/-- While blocks wait, and no later block of a height has a higher view, the queue holds the newest
received block of each of its heights, and these are the highest received ones. -/
theorem fetcher_keeps_newest (s : SyncState S) (address : String)
    (hempty : s.queue address = .empty)
    (events : List (Fetched S)) (hwait : Run.Meets fetch (Waits address) s events)
    (hviews : (events.map (·.ptr.block)).Pairwise fun a b => a.height = b.height →
      b.viewid ≤ a.viewid) :
    Newest (events.map (·.ptr.block)) ((Run.run fetch s events).1.queue address) := by
  have hrun := Run.run_hist
    (I := fun (received : List XvBlock) (s : SyncState S) =>
      received.Pairwise (fun a b => a.height = b.height → b.viewid ≤ a.viewid) →
        Newest received (s.queue address))
    (fun received s e h he hpair => by
      obtain ⟨hbefore, -, hlast⟩ := pairwise_append.mp hpair
      rw [queue_fetch he]
      exact (h hbefore).enqueue (writeAhead_keeps e.type e.ptr).2
        fun a ha => hlast a ha e.ptr.block (mem_singleton.mpr rfl))
    (h := []) (fun _ => by rw [hempty]; exact ⟨nofun, Nat.zero_le _, nofun⟩) events hwait
  rw [nil_append, run_fetch_received] at hrun
  exact hrun hviews

def farBlock (viewid : UInt64) : BlockPtr S :=
  ⟨{ (default : XvBlock) with account := "T", height := 5, viewid := viewid }, none⟩

def genesisStore : SyncStore where
  State := Unit
  Obj := Unit
  storeBlock _ _ := ((), (), true)
  storeAgain _ _ := ((), true)
  flags _ _ := ∅
  setBlockFlag _ _ _ := ()
  getCurrentBlock _ _ := ((), default)
  getLatestCertBlock _ _ := ((), default)

def idle : SyncState genesisStore := ⟨(), .empty, .empty, [], [], []⟩

def broadcast (viewid : UInt64) : Fetched genesisStore :=
  ⟨⟨fun _ _ => true, fun _ => true, fun _ => false, fun _ => true, fun _ => (false, ""), 0⟩,
    .newblock, farBlock viewid⟩

theorem fetcher_keeps_newest_sample :
    Newest [(broadcast 2).ptr.block, (broadcast 1).ptr.block]
      ((Run.run fetch idle [broadcast 2, broadcast 1]).1.queue "T") :=
  fetcher_keeps_newest idle "T" rfl [broadcast 2, broadcast 1]
    ⟨⟨rfl, by decide, rfl⟩, ⟨rfl, by decide, rfl⟩, trivial⟩ (by decide)

theorem later_view_not_taken :
    Run.Meets fetch (Waits "T") idle [broadcast 1, broadcast 2] ∧
      ((Run.run fetch idle [broadcast 1, broadcast 2]).1.queue "T").entries.map
        (fun e => (e.1, e.2.block.block.viewid)) = [(5, 1)] :=
  ⟨⟨⟨rfl, by decide, rfl⟩, ⟨rfl, by decide, rfl⟩, trivial⟩, rfl⟩

end SyncState
end TopChain.Sync
