import TopChain.TxPool.RecvCache
import TopChain.Lib.Run

/-!
# What the receive cache knows

The committed table blocks form a chain, of which only the units matter here.
-/
namespace TopChain.TxPool

open TopChain.Lib SortedMap List RecvCache

section
variable (chain : Nat → List TableUnit) (window now : Nat)

/-- The block has a recv transaction of this clock and digest. -/
def Contains (units : List TableUnit) (clock : Nat) (digest : String) : Prop :=
  ∃ tx ∈ recvTxs units, tx.clock = clock ∧ tx.digest = digest

instance instDecidableContains (units : List TableUnit) (clock : Nat) (digest : String) :
    Decidable (Contains units clock digest) :=
  inferInstanceAs (Decidable (∃ tx ∈ recvTxs units, tx.clock = clock ∧ tx.digest = digest))

/-- The recv transactions at the height are cached, expired ones aside. -/
def RecvCache.Holds (c : RecvCache) (h : Nat) : Prop :=
  ∀ tx ∈ recvTxs (chain h), tx.clock + window < now ∨ tx.digest ∈ c.digests tx.clock

/-- The cache has the recv transactions of an interval of heights, expired ones aside, and no other.
-/
structure RecvCache.Interval (c : RecvCache) : Prop where
  bounds : (c.minCacheBlockHeight = maxHeight ∧ c.maxCacheBlockHeight = 0) ∨
    c.minCacheBlockHeight ≤ c.maxCacheBlockHeight
  holds : ∀ h, c.minCacheBlockHeight ≤ h → h ≤ c.maxCacheBlockHeight →
    c.Holds chain window now h
  source : ∀ clock, ∀ d ∈ c.digests clock, ∃ h, c.minCacheBlockHeight ≤ h ∧
    h ≤ c.maxCacheBlockHeight ∧ Contains (chain h) clock d

structure RecvCache.IsSection (c : RecvCache) : Prop extends c.Interval chain window now where
  max_le_latest : c.maxCacheBlockHeight ≤ c.latestBlockHeight

/-- A section of the chain above genesis that starts at height `low` or below. -/
structure RecvCache.Filled (low : Nat) (c : RecvCache) : Prop extends
    c.Interval chain window now where
  min_pos : 1 ≤ c.minCacheBlockHeight
  min_le : c.minCacheBlockHeight ≤ low

structure RecvCache.Known (low : Nat) (c : RecvCache) : Prop extends
    c.Filled chain window now low where
  max_le_latest : c.maxCacheBlockHeight ≤ c.latestBlockHeight

def RecvCache.Adjacent (c : RecvCache) (h : Nat) : Prop :=
  c.maxCacheBlockHeight = 0 ∨ h = c.maxCacheBlockHeight + 1 ∨ h + 1 = c.minCacheBlockHeight

/-- What the store answers is the committed chain. -/
structure BlockStore.Agrees (B : BlockStore) : Prop where
  loaded : ∀ h b, B.loadBlockObject h = some b → b.committed = true →
    b.height = h ∧ b.units = chain h
  latest : ∀ b, B.latestCommittedBlock = some b → b.units = chain b.height

/-- The latest committed block is not the genesis block. -/
def BlockStore.PastGenesis (B : BlockStore) : Prop :=
  ∀ b, B.latestCommittedBlock = some b → 1 ≤ b.height

end

variable {chain : Nat → List TableUnit} {window now : Nat}

section
variable {f : Fill}

@[simp] theorem digests_insertTx_self (f : Fill) (tx : TxInfo) :
    (f.insertTx tx).cache.digests tx.clock = (f.cache.digests tx.clock).insert tx.digest := by
  simp [Fill.insertTx, RecvCache.digests]

theorem mem_digests_insertTx {clock : Nat} {d : String} (tx : TxInfo)
    (h : d ∈ f.cache.digests clock) : d ∈ (f.insertTx tx).cache.digests clock := by
  by_cases hc : clock = tx.clock
  · subst hc
    rw [digests_insertTx_self]
    exact mem_insert_of_mem h
  · simpa [Fill.insertTx, RecvCache.digests, find?_insert_of_ne _ _ hc] using h

theorem mem_digests_foldl {clock : Nat} {d : String} (txs : List TxInfo)
    (h : d ∈ f.cache.digests clock ∨ ∃ tx ∈ txs, tx.clock = clock ∧ tx.digest = d) :
    d ∈ (txs.foldl Fill.insertTx f).cache.digests clock := by
  induction txs generalizing f with
  | nil => simpa using h
  | cons tx txs ih =>
    refine ih ?_
    rcases h with h | ⟨tx', hmem, rfl, rfl⟩
    · exact .inl (mem_digests_insertTx tx h)
    · rcases mem_cons.mp hmem with rfl | hmem
      · exact .inl (by rw [digests_insertTx_self]; exact mem_insert_self)
      · exact .inr ⟨tx', hmem, rfl, rfl⟩

theorem foldl_insertTx_heights (txs : List TxInfo) (f : Fill) :
    (txs.foldl Fill.insertTx f).cache.minCacheBlockHeight = f.cache.minCacheBlockHeight ∧
    (txs.foldl Fill.insertTx f).cache.maxCacheBlockHeight = f.cache.maxCacheBlockHeight ∧
    (txs.foldl Fill.insertTx f).cache.latestBlockHeight = f.cache.latestBlockHeight := by
  induction txs generalizing f with
  | nil => exact ⟨rfl, rfl, rfl⟩
  | cons tx txs ih => exact ih (f.insertTx tx)

variable (f) (b : TableBlock)

@[simp] theorem min_insertBlock : (f.insertBlockTxToCache b).1.cache.minCacheBlockHeight =
    min f.cache.minCacheBlockHeight b.height :=
  (foldl_insertTx_heights _ _).1

@[simp] theorem max_insertBlock : (f.insertBlockTxToCache b).1.cache.maxCacheBlockHeight =
    max f.cache.maxCacheBlockHeight b.height :=
  (foldl_insertTx_heights _ _).2.1

@[simp] theorem latest_insertBlock :
    (f.insertBlockTxToCache b).1.cache.latestBlockHeight = f.cache.latestBlockHeight :=
  (foldl_insertTx_heights _ _).2.2

variable {f b}

theorem holds_insertBlock_self (hb : b.units = chain b.height) :
    (f.insertBlockTxToCache b).1.cache.Holds chain window now b.height := by
  intro tx htx
  rw [← hb] at htx
  exact .inr (mem_digests_foldl _ (.inr ⟨tx, htx, rfl, rfl⟩))

theorem holds_insertBlock {h : Nat} (hf : f.cache.Holds chain window now h) :
    (f.insertBlockTxToCache b).1.cache.Holds chain window now h := fun tx htx =>
  (hf tx htx).imp id fun hd => mem_digests_foldl _ (.inl hd)

theorem of_mem_digests_insertTx {tx : TxInfo} {clock : Nat} {d : String}
    (h : d ∈ (f.insertTx tx).cache.digests clock) :
    d ∈ f.cache.digests clock ∨ (tx.clock = clock ∧ tx.digest = d) := by
  by_cases hc : clock = tx.clock
  · subst hc
    rw [digests_insertTx_self, mem_insert_iff] at h
    rcases h with rfl | h
    · exact .inr ⟨rfl, rfl⟩
    · exact .inl h
  · left
    simpa [Fill.insertTx, RecvCache.digests, find?_insert_of_ne _ _ hc] using h

theorem of_mem_digests_foldl {clock : Nat} {d : String} (txs : List TxInfo) (f : Fill)
    (h : d ∈ (txs.foldl Fill.insertTx f).cache.digests clock) :
    d ∈ f.cache.digests clock ∨ ∃ tx ∈ txs, tx.clock = clock ∧ tx.digest = d := by
  induction txs generalizing f with
  | nil => exact .inl h
  | cons tx txs ih =>
    rcases ih (f.insertTx tx) h with hd | ⟨tx', hmem, htx⟩
    · rcases of_mem_digests_insertTx hd with hd | htx
      · exact .inl hd
      · exact .inr ⟨tx, mem_cons_self, htx⟩
    · exact .inr ⟨tx', mem_cons_of_mem _ hmem, htx⟩

theorem filled_insertBlock {low : Nat} (hf : f.cache.Filled chain window now low)
    (hb : b.units = chain b.height) (hpos : 1 ≤ b.height) (hadj : f.cache.Adjacent b.height) :
    (f.insertBlockTxToCache b).1.cache.Filled chain window now low := by
  have hle := b.height_le
  have hmin := hf.min_pos
  have hlow := hf.min_le
  refine ⟨⟨.inr ?_, fun h h1 h2 => ?_, fun clock d hd => ?_⟩, ?_, ?_⟩
  · rw [min_insertBlock, max_insertBlock]
    omega
  · rw [min_insertBlock] at h1
    rw [max_insertBlock] at h2
    by_cases hh : h = b.height
    · exact hh ▸ holds_insertBlock_self hb
    · refine holds_insertBlock ?_
      rcases hf.bounds with ⟨hnone, hzero⟩ | hmm
      · omega
      · refine hf.holds h ?_ ?_ <;> rcases hadj with h0 | h0 | h0 <;> omega
  · rw [min_insertBlock, max_insertBlock]
    rcases of_mem_digests_foldl _ _ hd with hold | hnew
    · obtain ⟨h, h1, h2, hc⟩ := hf.source clock d hold
      exact ⟨h, by omega, by omega, hc⟩
    · exact ⟨b.height, by omega, by omega, hb ▸ hnew⟩
  · rw [min_insertBlock]
    exact le_min hmin hpos
  · rw [min_insertBlock]
    omega

theorem RecvCache.Filled.setLatest {low : Nat} (hf : f.cache.Filled chain window now low)
    (height : Nat) : (f.setLatest height).cache.Filled chain window now low :=
  ⟨⟨hf.bounds, hf.holds, hf.source⟩, hf.min_pos, hf.min_le⟩

end

section
variable {B : BlockStore} {f f' : Fill} {low : Nat}

theorem cacheUntilTrusted_of_lt (B : BlockStore) {old trusted : Nat} (h : Nat) (f : Fill)
    (hlt : old < trusted) : B.cacheUntilTrusted old h trusted f = (f, trusted, true) := by
  match h with
  | 0 => rfl
  | 1 => rfl
  | h + 2 => rw [BlockStore.cacheUntilTrusted, if_neg (by omega)]

variable (hB : B.Agrees chain)
include hB

theorem cacheFromDb_eq_some {h m : Nat} (heq : B.cacheFromDb f h = some (f', m)) :
    ∃ b : TableBlock, b.height = h ∧ b.units = chain b.height ∧
      f' = (f.insertBlockTxToCache b).1 := by
  unfold BlockStore.cacheFromDb at heq
  split at heq
  · cases heq
  next b hload =>
    split_ifs at heq with hflag
    obtain ⟨hh, hu⟩ := hB.loaded h b hload hflag
    exact ⟨b, hh, by rw [hh, hu], congrArg Prod.fst (Option.some.inj heq).symm⟩

theorem cacheUpTo_spec (n : Nat) (f : Fill) (hf : f.cache.Filled chain window now low) :
    let r := B.cacheUpTo n (f.cache.maxCacheBlockHeight + 1) f
    r.1.cache.Filled chain window now low ∧
    r.1.cache.latestBlockHeight = f.cache.latestBlockHeight ∧
    r.1.cache.maxCacheBlockHeight ≤ f.cache.maxCacheBlockHeight + n ∧
    (r.2 = true → r.1.cache.maxCacheBlockHeight = f.cache.maxCacheBlockHeight + n) := by
  induction n generalizing f with
  | zero => exact ⟨hf, rfl, le_rfl, fun _ => rfl⟩
  | succ n ih =>
    rw [BlockStore.cacheUpTo]
    dsimp only
    split
    · exact ⟨hf, rfl, Nat.le_add_right _ _, fun h => by cases h⟩
    next f' m heq =>
      obtain ⟨b, hh, hu, rfl⟩ := cacheFromDb_eq_some hB heq
      have hmax : (f.insertBlockTxToCache b).1.cache.maxCacheBlockHeight =
          f.cache.maxCacheBlockHeight + 1 := by
        rw [max_insertBlock]
        omega
      have hrec := ih _ (filled_insertBlock hf hu (by omega) (.inr (.inl hh)))
      rw [hmax, latest_insertBlock] at hrec
      obtain ⟨hf', hlat, hle, hend⟩ := hrec
      refine ⟨hf', hlat, by omega, fun h => ?_⟩
      rw [hend h]
      omega

theorem cacheCommitted_known (n : Nat) (f : Fill) (hf : f.cache.Filled chain window now low)
    (heq : f.cache.maxCacheBlockHeight = f.cache.latestBlockHeight) :
    (B.cacheCommitted n (f.cache.latestBlockHeight + 1) f).1.cache.Known chain window now low := by
  induction n generalizing f with
  | zero => exact ⟨hf, heq.le⟩
  | succ n ih =>
    rw [BlockStore.cacheCommitted]
    split
    · exact ⟨hf, heq.le⟩
    next f' m hload =>
      obtain ⟨b, hh, hu, rfl⟩ := cacheFromDb_eq_some hB hload
      have hf' := filled_insertBlock hf hu (by omega) (.inr (.inl (heq ▸ hh)))
      rw [latest_insertBlock]
      refine ih (Fill.setLatest _ (f.cache.latestBlockHeight + 1)) (hf'.setLatest _) ?_
      have hmax := max_insertBlock f b
      simp only [Fill.setLatest]
      omega

theorem startLatest_known (hpast : B.PastGenesis) (hf : f.cache.Known chain window now low)
    (heq : B.startLatest f = some f') : f'.cache.Known chain window now low := by
  unfold BlockStore.startLatest at heq
  split_ifs at heq with h0
  · split at heq
    next b hb =>
      obtain rfl := Option.some.inj heq
      have hzero : f.cache.maxCacheBlockHeight = 0 := by
        have := hf.max_le_latest
        omega
      refine ⟨filled_insertBlock (hf.setLatest b.height) (hB.latest b hb) (hpast b hb)
        (.inl hzero), ?_⟩
      rw [max_insertBlock, latest_insertBlock]
      simp only [Fill.setLatest]
      omega
    · cases heq
  · obtain rfl := Option.some.inj heq
    exact hf

/-- Once the cache has a section, loading the latest blocks extends it. -/
theorem cacheLatestBlocks_started {commitHeight : Nat} (hcommit : commitHeight ≠ 0)
    (hstart : B.startLatest f = some f') (hf' : f'.cache.Known chain window now low) :
    (B.cacheLatestBlocks f commitHeight).1.cache.Known chain window now low := by
  have hle := hf'.max_le_latest
  obtain ⟨hfill, hlat, hmax, hdone⟩ := cacheUpTo_spec hB
    (f'.cache.latestBlockHeight - f'.cache.maxCacheBlockHeight) f' hf'.toFilled
  rw [BlockStore.cacheLatestBlocks, if_neg hcommit, hstart]
  dsimp only
  split
  next f'' heq =>
    simp only [heq] at hfill hlat hmax
    have hle' : f''.cache.maxCacheBlockHeight ≤ f''.cache.latestBlockHeight := by omega
    exact ⟨hfill, hle'⟩
  next f'' heq =>
    simp only [heq] at hfill hlat hmax hdone
    have hend : f''.cache.maxCacheBlockHeight = f''.cache.latestBlockHeight := by
      rw [hdone trivial, hlat]
      omega
    split_ifs
    · exact cacheCommitted_known hB _ f'' hfill hend
    · exact ⟨hfill, hend.le⟩

theorem cacheLatestBlocks_known (hpast : B.PastGenesis) (hf : f.cache.Known chain window now low)
    (commitHeight : Nat) :
    (B.cacheLatestBlocks f commitHeight).1.cache.Known chain window now low := by
  by_cases hcommit : commitHeight = 0
  · rw [BlockStore.cacheLatestBlocks, if_pos hcommit]
    exact hf
  · cases hstart : B.startLatest f with
    | none =>
      rw [BlockStore.cacheLatestBlocks, if_neg hcommit, hstart]
      exact hf
    | some f' =>
      exact cacheLatestBlocks_started hB hcommit hstart (startLatest_known hB hpast hf hstart)

theorem cacheUntilFound_known (h : Nat) (f : Fill) (hf : f.cache.Known chain window now low)
    (hmin : f.cache.minCacheBlockHeight = h) (hle : h ≤ f.cache.maxCacheBlockHeight) :
    (B.cacheUntilFound h f).1.cache.Known chain window now low := by
  induction h generalizing f with
  | zero => exact hf
  | succ h ih =>
    cases h with
    | zero => exact hf
    | succ h =>
      rw [BlockStore.cacheUntilFound]
      split_ifs
      · split
        · exact hf
        next f' m heq =>
          obtain ⟨b, hh, hu, rfl⟩ := cacheFromDb_eq_some hB heq
          have hlat := hf.max_le_latest
          have hf' := filled_insertBlock hf.toFilled hu (by omega) (.inr (.inr (by omega)))
          refine ih _ ⟨hf', ?_⟩ ?_ ?_
          · rw [max_insertBlock, latest_insertBlock]
            omega
          · rw [min_insertBlock]
            omega
          · rw [max_insertBlock]
            omega
      · exact hf

theorem startOld_known (hf : f.cache.Known chain window now low) :
    (B.startOld f).1.cache.Known chain window now low := by
  unfold BlockStore.startOld
  split_ifs with hc
  · refine cacheUntilFound_known hB _ f hf rfl ?_
    have hne : f.cache.minCacheBlockHeight ≠ maxHeight :=
      of_decide_eq_true (Bool.and_eq_true_iff.mp hc).1
    exact hf.bounds.resolve_left fun h => hne h.1
  · exact hf

theorem cacheOldBlocks_known (hf : f.cache.Known chain window now low) (time old : Nat) :
    (B.cacheOldBlocks window time f old).1.cache.Known chain window now low := by
  have hstart := startOld_known hB hf
  unfold BlockStore.cacheOldBlocks
  split_ifs with hfull
  · exact hf
  · split
    next f' h heq =>
      rw [heq] at hstart
      exact hstart
    next f' h heq =>
      rw [heq] at hstart
      split
      · exact hstart
      · split_ifs with htrusted
        · exact hstart
        · rw [cacheUntilTrusted_of_lt B h f' (not_le.mp htrusted)]
          dsimp only
          split_ifs
          · exact ⟨⟨⟨hstart.bounds, hstart.holds, hstart.source⟩, hstart.min_pos, hstart.min_le⟩,
              hstart.max_le_latest⟩
          · exact hstart

end

section
variable {B : BlockStore} {c : RecvCache} {low : Nat}

theorem digests_deleteExpiredCache {clock : Nat} {d : String}
    (h : d ∈ (c.deleteExpiredCache window now).digests clock) : d ∈ c.digests clock := by
  unfold deleteExpiredCache at h
  split_ifs at h with hfull
  · exact h
  · unfold RecvCache.digests at h ⊢
    cases hfind : (c.recvCache.dropWhile fun e => e.1 + window < now).find? clock with
    | none => simp [hfind] at h
    | some ds =>
      have hmem := find?_eq_some_iff.mp hfind
      have hold : c.recvCache.find? clock = some ds :=
        find?_eq_some_iff.mpr ((dropWhile_suffix _).mem hmem)
      rw [hold]
      rwa [hfind] at h

theorem mem_deleteExpiredCache {clock : Nat} {d : String} (hd : d ∈ c.digests clock)
    (hfresh : ¬ clock + window < now) : d ∈ (c.deleteExpiredCache window now).digests clock := by
  unfold deleteExpiredCache
  split_ifs with hfull
  · exact hd
  · unfold RecvCache.digests at hd ⊢
    cases hfind : c.recvCache.find? clock with
    | none => simp [hfind] at hd
    | some ds =>
      rw [hfind] at hd
      rw [find?_dropWhile hfind (by simpa using hfresh)]
      exact hd

theorem deleteExpiredCache_heights (window now : Nat) (c : RecvCache) :
    (c.deleteExpiredCache window now).minCacheBlockHeight = c.minCacheBlockHeight ∧
    (c.deleteExpiredCache window now).maxCacheBlockHeight = c.maxCacheBlockHeight ∧
    (c.deleteExpiredCache window now).latestBlockHeight = c.latestBlockHeight := by
  unfold deleteExpiredCache
  split_ifs <;> exact ⟨rfl, rfl, rfl⟩

theorem deleteExpiredCache_known (hc : c.Known chain window now low) :
    (c.deleteExpiredCache window now).Known chain window now low := by
  obtain ⟨hmin, hmax, hlatest⟩ := deleteExpiredCache_heights window now c
  refine ⟨⟨⟨?_, fun h h1 h2 tx htx => ?_, fun clock d hd => ?_⟩, ?_, ?_⟩, ?_⟩
  · rw [hmin, hmax]
    exact hc.bounds
  · rw [hmin] at h1
    rw [hmax] at h2
    rcases hc.holds h h1 h2 tx htx with hexp | hd
    · exact .inl hexp
    · by_cases hexp : tx.clock + window < now
      · exact .inl hexp
      · exact .inr (mem_deleteExpiredCache hd hexp)
  · rw [hmin, hmax]
    exact hc.source clock d (digests_deleteExpiredCache hd)
  · rw [hmin]
    exact hc.min_pos
  · rw [hmin]
    exact hc.min_le
  · rw [hmax, hlatest]
    exact hc.max_le_latest

theorem updateSection_success {clock commitHeight : Nat}
    (h : (B.updateSection window now c clock commitHeight).2 = .success) :
    (B.updateSection window now c clock commitHeight).1.cache.checkTrustedSection
      commitHeight = true := by
  unfold BlockStore.updateSection at h ⊢
  split at h
  · cases h
  · split at h
    · cases h
    next heq =>
      split_ifs at h with ht
      exact ht

theorem isReceiptDuplicated_cache (B : BlockStore) (c : RecvCache) (clock : Nat)
    (digest : String) (commitHeight : Nat) :
    (B.isReceiptDuplicated window now c clock digest commitHeight).1.cache =
      if clock + window < now then c
      else (B.updateSection window now c clock commitHeight).1.cache := by
  unfold BlockStore.isReceiptDuplicated
  split_ifs
  · rfl
  · dsimp only
    split <;> rfl

theorem isReceiptDuplicated_success {clock : Nat} {digest : String} {commitHeight : Nat}
    (h : (B.isReceiptDuplicated window now c clock digest commitHeight).2 = .success) :
    ¬ clock + window < now ∧
    (B.updateSection window now c clock commitHeight).2 = .success ∧
    digest ∉ (B.updateSection window now c clock commitHeight).1.cache.digests clock := by
  unfold BlockStore.isReceiptDuplicated at h
  split_ifs at h with hexp
  dsimp only [checkDuplicateInCache] at h
  split_ifs at h with hmem
  exact ⟨hexp, h, hmem⟩

section
variable (hB : B.Agrees chain)
include hB

theorem updateTxCache_known (hpast : B.PastGenesis) (hc : c.Known chain window now low)
    {b : TableBlock} (hb : b.units = chain b.height) (hpos : 1 ≤ b.height) :
    (B.updateTxCache window now c b).cache.Known chain window now low := by
  have hle := hc.max_le_latest
  refine deleteExpiredCache_known (cacheLatestBlocks_known hB hpast ?_ maxHeight)
  split_ifs with hnext
  · have hadj : c.Adjacent b.height := by
      rcases Bool.or_eq_true_iff.mp hnext with h | h
      · exact .inr (.inl (of_decide_eq_true h))
      · exact .inl (of_decide_eq_true h)
    refine ⟨filled_insertBlock (f := Fill.setLatest ⟨c, []⟩ _)
      (RecvCache.Filled.setLatest (f := ⟨c, []⟩) hc.toFilled _) hb hpos hadj, ?_⟩
    rw [max_insertBlock, latest_insertBlock]
    simp only [Fill.setLatest]
    omega
  · exact ⟨RecvCache.Filled.setLatest (f := ⟨c, []⟩) hc.toFilled _, le_max_of_le_left hle⟩

theorem updateSection_of_latest {clock commitHeight : Nat}
    (hlatest : (B.cacheLatestBlocks ⟨c, []⟩ commitHeight).1.cache.Known chain window now low) :
    (B.updateSection window now c clock commitHeight).1.cache.Known chain window now low := by
  unfold BlockStore.updateSection
  split
  next f heq =>
    rw [heq] at hlatest
    exact hlatest
  next f heq =>
    rw [heq] at hlatest
    have hold := cacheOldBlocks_known hB hlatest now clock
    split
    next f' heq' =>
      rw [heq'] at hold
      exact hold
    next f' heq' =>
      rw [heq'] at hold
      exact hold

theorem isReceiptDuplicated_known (hpast : B.PastGenesis) (hc : c.Known chain window now low)
    (clock : Nat) (digest : String) (commitHeight : Nat) :
    (B.isReceiptDuplicated window now c clock digest commitHeight).1.cache.Known
      chain window now low := by
  rw [isReceiptDuplicated_cache]
  split_ifs
  · exact hc
  · exact updateSection_of_latest hB (cacheLatestBlocks_known hB hpast hc commitHeight)

end

/-- A receipt that is accepted is in no block from the lowest cached height up to the height that
was asked for. -/
theorem not_contains_of_success {clock : Nat} {digest : String} {commitHeight : Nat}
    (hcommit : commitHeight ≠ maxHeight)
    (hafter : (B.updateSection window now c clock commitHeight).1.cache.Known chain window now low)
    (h : (B.isReceiptDuplicated window now c clock digest commitHeight).2 = .success) {k : Nat}
    (hlow : low ≤ k) (hk : k ≤ commitHeight) : ¬ Contains (chain k) clock digest := by
  rintro ⟨tx, htx, rfl, rfl⟩
  obtain ⟨hexp, hsucc, hmem⟩ := isReceiptDuplicated_success h
  have htrust := updateSection_success hsucc
  simp only [checkTrustedSection, Bool.and_eq_true, Bool.or_eq_true, decide_eq_true_eq] at htrust
  have hlatest := htrust.2.resolve_left hcommit
  have hmin := hafter.min_le
  rcases hafter.holds k (by omega) (by omega) tx htx with hlt | hin
  · exact hexp hlt
  · exact hmem hin

end

structure Node where
  cache : RecvCache
  now : Nat

/-- Time passes, a block is committed, a receipt is asked about, or the cache is cleared. -/
inductive Event where
  | tick (time : Nat)
  | update (store : BlockStore) (block : TableBlock)
  | query (store : BlockStore) (clock : Nat) (digest : String) (commitHeight : Nat)
  | clear

def Node.step (window : Nat) (n : Node) : Event → Node × List RecvResult
  | .tick time => ({ n with now := time }, [])
  | .update B b => ({ n with cache := (B.updateTxCache window n.now n.cache b).cache }, [])
  | .query B clock digest commitHeight =>
    let r := B.isReceiptDuplicated window n.now n.cache clock digest commitHeight
    ({ n with cache := r.1.cache }, [r.2])
  | .clear => ({ n with cache := .clear }, [])

/-- Time does not go back, and the blocks are those of the committed chain. -/
def Event.Agrees (chain : Nat → List TableUnit) (n : Node) : Event → Prop
  | .tick time => n.now ≤ time
  | .update B b => B.Agrees chain ∧ b.units = chain b.height
  | .query B _ _ _ => B.Agrees chain
  | .clear => True

def Event.PastGenesis : Event → Prop
  | .tick _ => True
  | .update B b => B.PastGenesis ∧ 1 ≤ b.height
  | .query B _ _ _ => B.PastGenesis
  | .clear => True

theorem clear_known : RecvCache.clear.Known chain window now maxHeight :=
  ⟨⟨⟨.inl ⟨rfl, rfl⟩, fun _ h1 h2 => absurd (h1.trans h2) (by decide),
    fun _ _ hd => (by cases hd)⟩, by decide, le_rfl⟩, le_rfl⟩

theorem RecvCache.Known.mono {c : RecvCache} {low time : Nat}
    (hc : c.Known chain window now low) (hle : now ≤ time) : c.Known chain window time low := by
  refine ⟨⟨⟨hc.bounds, fun h h1 h2 tx htx => ?_, hc.source⟩, hc.min_pos, hc.min_le⟩,
    hc.max_le_latest⟩
  exact (hc.holds h h1 h2 tx htx).imp (fun hlt => hlt.trans_le hle) id

/-- Genesis is neither handed in nor the latest committed block. -/
def Event.Regular (chain : Nat → List TableUnit) (n : Node) (e : Event) : Prop :=
  e.Agrees chain n ∧ e.PastGenesis

theorem step_known (n : Node) (e : Event) (hn : n.cache.Known chain window n.now maxHeight)
    (he : e.Regular chain n) :
    (n.step window e).1.cache.Known chain window (n.step window e).1.now maxHeight := by
  obtain ⟨he, hpast⟩ := he
  cases e with
  | tick time => exact hn.mono he
  | update B b => exact updateTxCache_known he.1 hpast.1 hn he.2 hpast.2
  | query B clock digest commitHeight =>
    exact isReceiptDuplicated_known he hpast hn clock digest commitHeight
  | clear => exact clear_known

theorem run_known {start : Nat} {es : List Event}
    (hes : Run.Meets (Node.step window) (Event.Regular chain) ⟨.clear, start⟩ es) :
    (Run.run (Node.step window) ⟨.clear, start⟩ es).1.cache.Known chain window
      (Run.run (Node.step window) ⟨.clear, start⟩ es).1.now maxHeight :=
  (Run.run_inv (I := fun n : Node => n.cache.Known chain window n.now maxHeight)
    (P := fun _ => True) (fun n e hn he => ⟨step_known n e hn he, fun _ _ => trivial⟩)
    clear_known es hes).1

/-- What `more_block_height` stands for: a transaction of a lower block is younger than one of a
higher block by less than that. -/
def ClockOrder (chain : Nat → List TableUnit) : Prop :=
  ∀ h h', h < h' → ∀ tx ∈ recvTxs (chain h), ∀ tx' ∈ recvTxs (chain h'),
    tx.clock < tx'.clock + moreBlockHeight

/-- No block below the cached section can have consumed a receipt of this clock: the section starts
at the first block, or it will, since nothing is cached and the first block is the latest one, or
the clocks are in order and something cached is old enough. -/
def RecvCache.Reaches (chain : Nat → List TableUnit) (B : BlockStore) (clock : Nat)
    (c : RecvCache) : Prop :=
  c.minCacheBlockHeight = 1 ∨
    (c.latestBlockHeight = 0 ∧ ∃ b, B.latestCommittedBlock = some b ∧ b.height = 1) ∨
    (ClockOrder chain ∧ ∃ old d, d ∈ c.digests old ∧ old + moreBlockHeight ≤ clock)

/-- An accepted receipt has been consumed by no block up to the queried height, if the section
that is cached before the query reaches down to all blocks that could have. -/
theorem accepted_receipt_is_new (chain : Nat → List TableUnit) (hgenesis : recvTxs (chain 0) = [])
    (window start : Nat) (es : List Event)
    (hes : Run.Meets (Node.step window) (Event.Regular chain) ⟨.clear, start⟩ es)
    (B : BlockStore) (hB : B.Agrees chain) (hpast : B.PastGenesis) (clock : Nat) (digest : String)
    (commitHeight : Nat) (hcommit : commitHeight ≠ maxHeight) :
    let n := (Run.run (Node.step window) ⟨.clear, start⟩ es).1
    n.cache.Reaches chain B clock →
    (B.isReceiptDuplicated window n.now n.cache clock digest commitHeight).2 = .success →
    ∀ h ≤ commitHeight, ¬ Contains (chain h) clock digest := by
  intro n hreach hsucc h hle
  have hknown : n.cache.Known chain window n.now maxHeight := run_known hes
  rcases Nat.eq_zero_or_pos h with rfl | hpos
  · rintro ⟨tx, htx, -⟩
    rw [hgenesis] at htx
    cases htx
  have hfrom : ∀ low, n.cache.minCacheBlockHeight ≤ low → low ≤ h →
      ¬ Contains (chain h) clock digest := by
    intro low hmin hlow
    have hsection : n.cache.Known chain window n.now low :=
      { hknown with min_le := hmin }
    exact not_contains_of_success hcommit (updateSection_of_latest hB
      (cacheLatestBlocks_known hB hpast hsection commitHeight)) hsucc hlow hle
  rcases hreach with hone | ⟨hfresh, b, hb, hheight⟩ | ⟨horder, old, d, hd, hold⟩
  · exact hfrom 1 hone.le hpos
  · -- the query itself starts the section
    have hstart : B.startLatest ⟨n.cache, []⟩ =
        some ((Fill.setLatest ⟨n.cache, []⟩ b.height).insertBlockTxToCache b).1 := by
      rw [BlockStore.startLatest, if_pos hfresh, hb]
    have hsection := startLatest_known hB hpast (f := ⟨n.cache, []⟩) hknown hstart
    have hmin := (min_insertBlock (Fill.setLatest ⟨n.cache, []⟩ b.height) b).le.trans
      ((min_le_right _ _).trans hheight.le)
    exact not_contains_of_success hcommit (updateSection_of_latest hB (cacheLatestBlocks_started hB
      (by omega) hstart { hsection with min_le := hmin })) hsucc hpos hle
  · rcases Nat.lt_or_ge h n.cache.minCacheBlockHeight with hlt | hge
    · rintro ⟨tx, htx, rfl, -⟩
      obtain ⟨k, hmin, -, tx', htx', rfl, -⟩ := hknown.source old d hd
      have hyoung := horder h k (hlt.trans_le hmin) tx htx tx' htx'
      omega
    · exact hfrom n.cache.minCacheBlockHeight le_rfl hge

def sampleChain : Nat → List TableUnit
  | 1 => [⟨true, [⟨.recv, 10, "receiver", "first"⟩]⟩]
  | 2 => [⟨true, [⟨.recv, 100, "receiver", "second"⟩]⟩]
  | _ => []

def sampleBlock (h : Nat) (hle : h ≤ maxHeight) : TableBlock := ⟨h, hle, true, sampleChain h⟩

def sampleStore : BlockStore where
  loadBlockObject h := if hle : 1 ≤ h ∧ h ≤ 2 then
    some (sampleBlock h (hle.2.trans (by decide))) else none
  latestCommittedBlock := some (sampleBlock 2 (by decide))

theorem sampleStore_agrees : sampleStore.Agrees sampleChain where
  loaded h b hload _ := by
    simp only [sampleStore] at hload
    split_ifs at hload
    obtain rfl := Option.some.inj hload
    exact ⟨rfl, rfl⟩
  latest b hb := by
    obtain rfl := Option.some.inj hb
    rfl

theorem sampleStore_pastGenesis : sampleStore.PastGenesis := by
  intro b hb
  obtain rfl := Option.some.inj hb
  decide

theorem accepted_receipt_is_new_sample :
    (sampleStore.isReceiptDuplicated 1000 105 (Run.run (Node.step 1000) ⟨.clear, 101⟩
      [.update sampleStore (sampleBlock 1 (by decide)), .tick 105,
        .update sampleStore (sampleBlock 2 (by decide))]).1.cache 10 "first" 2).2 =
          .receiptDuplicate ∧
    ∀ h ≤ 2, ¬ Contains (sampleChain h) 50 "third" :=
  ⟨by decide, accepted_receipt_is_new sampleChain rfl 1000 101
    [.update sampleStore (sampleBlock 1 (by decide)), .tick 105,
      .update sampleStore (sampleBlock 2 (by decide))]
    ⟨⟨⟨sampleStore_agrees, rfl⟩, sampleStore_pastGenesis, by decide⟩,
      ⟨(by decide : 101 ≤ 105), trivial⟩,
      ⟨⟨sampleStore_agrees, rfl⟩, sampleStore_pastGenesis, by decide⟩, trivial⟩
    sampleStore sampleStore_agrees sampleStore_pastGenesis 50 "third" 2 (by decide)
    (.inl (by decide)) (by decide)⟩

theorem consumed_receipt_accepted :
    Run.Meets (Node.step 1000) (Event.Regular sampleChain) ⟨.clear, 105⟩
      [.update sampleStore (sampleBlock 2 (by decide))] ∧
    sampleStore.Agrees sampleChain ∧
    (let n := (Run.run (Node.step 1000) ⟨.clear, 105⟩
        [.update sampleStore (sampleBlock 2 (by decide))]).1;
      (sampleStore.isReceiptDuplicated 1000 n.now n.cache 10 "first" 2).2 = .success) ∧
    Contains (sampleChain 1) 10 "first" :=
  ⟨⟨⟨⟨sampleStore_agrees, rfl⟩, sampleStore_pastGenesis, by decide⟩, trivial⟩,
    sampleStore_agrees, by decide, by decide⟩

end TopChain.TxPool
