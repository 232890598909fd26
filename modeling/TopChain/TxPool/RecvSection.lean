import TopChain.TxPool.RecvDedup

/-!
# The cached section

Between the lowest and the highest cached height the cache holds what the blocks say.
-/
namespace TopChain.TxPool

open TopChain.Lib

variable {chain : Nat → List TableUnit} {window now : Nat}

/-- When genesis is neither handed in nor the latest committed block, the cache is that of a section
of the chain. -/
theorem recv_cache_is_section (chain : Nat → List TableUnit) (window start : Nat)
    (es : List Event)
    (hes : Run.Meets (Node.step window) (fun n e => e.Agrees chain n ∧ e.PastGenesis)
      ⟨.clear, start⟩ es) :
    let n := (Run.run (Node.step window) ⟨.clear, start⟩ es).1
    n.cache.IsSection chain window n.now := by
  have hknown := run_known hes
  exact ⟨hknown.toInterval, hknown.max_le_latest⟩

theorem recv_cache_is_section_sample :
    (Run.run (Node.step 1000) ⟨.clear, 101⟩
      [.update sampleStore (sampleBlock 1 (by decide)), .query sampleStore 50 "third" 1,
        .update sampleStore (sampleBlock 2 (by decide))]).1.cache.IsSection
      sampleChain 1000 101 :=
  recv_cache_is_section sampleChain 1000 101
    [.update sampleStore (sampleBlock 1 (by decide)), .query sampleStore 50 "third" 1,
      .update sampleStore (sampleBlock 2 (by decide))]
    ⟨⟨⟨sampleStore_agrees, rfl⟩, sampleStore_pastGenesis, by decide⟩,
      ⟨sampleStore_agrees, sampleStore_pastGenesis⟩,
      ⟨⟨sampleStore_agrees, rfl⟩, sampleStore_pastGenesis, by decide⟩, trivial⟩

def genesisStore : BlockStore where
  loadBlockObject _ := none
  latestCommittedBlock := some (sampleBlock 0 (by decide))

theorem genesisStore_agrees : genesisStore.Agrees sampleChain where
  loaded h b hload _ := by cases hload
  latest b hb := by
    obtain rfl := Option.some.inj hb
    rfl

theorem cached_genesis_leaves_gap :
    let n := (Run.run (Node.step 1000) ⟨.clear, 105⟩
      [.query genesisStore 50 "third" maxHeight,
        .update sampleStore (sampleBlock 2 (by decide))]).1
    Run.Meets (Node.step 1000) (Event.Agrees sampleChain) ⟨.clear, 105⟩
      [.query genesisStore 50 "third" maxHeight,
        .update sampleStore (sampleBlock 2 (by decide))] ∧
    n.cache.minCacheBlockHeight = 0 ∧ n.cache.maxCacheBlockHeight = 2 ∧
    Contains (sampleChain 1) 10 "first" ∧ ¬ 10 + 1000 < n.now ∧
    "first" ∉ n.cache.digests 10 ∧ ¬ n.cache.IsSection sampleChain 1000 n.now := by
  intro n
  have hout : "first" ∉ n.cache.digests 10 := by decide
  have hwindow : ¬ 10 + 1000 < n.now := by decide
  refine ⟨⟨genesisStore_agrees, ⟨sampleStore_agrees, rfl⟩, trivial⟩, by decide, by decide,
    by decide, hwindow, hout, fun hsection => ?_⟩
  have hholds := hsection.holds 1 (by decide) (by decide) ⟨.recv, 10, "receiver", "first"⟩
    (by decide)
  exact hholds.elim hwindow hout

end TopChain.TxPool
