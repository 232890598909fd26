import TopChain.Bft.PoolExecute

/-!
# The two indices of the pool

`m_hash_pool` finds a node by its block hash and `m_view_pool` holds the views in use.
-/
namespace TopChain.Bft

open Finset Option List TopChain.Base TopChain.Lib SortedMap

namespace BftContext
variable {c c' c'' : BftContext} {rule : NodeRule} {chk : BlockChecks}

structure PoolInv (c : BftContext) : Prop where
  entry : ∀ h i, c.hashPool.find? h = some i → ∃ n, c.InPool i n ∧ n.block.blockHash = h
  pooled : ∀ i n, c.InPool i n → c.hashPool.find? n.block.blockHash = some i
  view_mem : ∀ v, v ∈ c.viewPool ↔ ∃ i n, c.InPool i n ∧ n.block.viewid = v
  view_inj : ∀ i j n m, c.InPool i n → c.InPool j m → n.block.viewid = m.block.viewid → i = j
  parent_lt : ∀ (i : Nat) (n : VbNode) p, c.nodes[i]? = some n → n.parent = some p →
    p < c.nodes.length
  anchored : c.latestCommitBlock.isSome → c.latestLockBlock.isSome

variable {i : Nat} {n : VbNode} {b : XvBlock} {P : XvBlock → Prop}

namespace PoolInv

theorem init : PoolInv init where
  entry h i hi := by cases hi
  pooled i n hn := by cases hn.1
  view_mem v := by simp [BftContext.init, InPool]
  view_inj i j n m hn := by cases hn.1
  parent_lt i n p hn := by cases hn
  anchored h := by cases h

section
variable (h : PoolInv c)
include h

theorem transport (hhash : c'.hashPool = c.hashPool) (hview : c'.viewPool = c.viewPool)
    (hto : ∀ i n, c.InPool i n → ∃ n', c'.InPool i n' ∧ n'.block.blockHash = n.block.blockHash ∧
      n'.block.viewid = n.block.viewid)
    (hback : ∀ i n', c'.InPool i n' → ∃ n, c.InPool i n ∧
      n'.block.blockHash = n.block.blockHash ∧ n'.block.viewid = n.block.viewid)
    (hparent : ∀ (i : Nat) (n : VbNode) p, c'.nodes[i]? = some n → n.parent = some p →
      p < c'.nodes.length)
    (hanchored : c'.latestCommitBlock.isSome → c'.latestLockBlock.isSome) : PoolInv c' where
  entry k i hk := by
    obtain ⟨n, hn, hb⟩ := h.entry k i (hhash ▸ hk)
    obtain ⟨n', hn', hb', -⟩ := hto i n hn
    exact ⟨n', hn', hb'.trans hb⟩
  pooled i n' hn' := by
    obtain ⟨n, hn, hb, -⟩ := hback i n' hn'
    rw [hhash, hb]
    exact h.pooled i n hn
  view_mem v := by
    rw [hview, h.view_mem]
    constructor
    · rintro ⟨i, n, hn, hv⟩
      obtain ⟨n', hn', -, hv'⟩ := hto i n hn
      exact ⟨i, n', hn', hv'.trans hv⟩
    · rintro ⟨i, n', hn', hv'⟩
      obtain ⟨n, hn, -, hv⟩ := hback i n' hn'
      exact ⟨i, n, hn, hv.symm.trans hv'⟩
  view_inj i j n' m' hn' hm' hv := by
    obtain ⟨n, hn, -, hvn⟩ := hback i n' hn'
    obtain ⟨m, hm, -, hvm⟩ := hback j m' hm'
    exact h.view_inj i j n m hn hm (hvn.symm.trans (hv.trans hvm))
  parent_lt := hparent
  anchored := hanchored

theorem executes (he : Executes c c') : PoolInv c' := by
  refine h.transport he.hashPool_eq he.viewPool_eq (fun i n hn => ?_) (fun i n' hn' => ?_)
    (fun i n' p hn' hp => ?_) (he.anchored h.anchored)
  · obtain ⟨n', hn', hr⟩ := he.inPool hn
    exact ⟨n', hn', hr.block.hash, hr.block.viewid_eq⟩
  · obtain ⟨n, hn, hr⟩ := he.inPool_back hn'
    exact ⟨n, hn, hr.block.hash, hr.block.viewid_eq⟩
  · obtain ⟨n, hn, hr⟩ := he.node_back hn'
    rw [he.length_eq]
    exact h.parent_lt i n p hn (hr.parent ▸ hp)

theorem moves (hm : Moves c c') : PoolInv c' := by
  refine h.transport hm.hashPool_eq hm.viewPool_eq
    (fun i n hn => ⟨n, hm.inPool_iff.mpr hn, rfl, rfl⟩)
    (fun i n hn => ⟨n, hm.inPool_iff.mp hn, rfl, rfl⟩) (fun i n p hn hp => ?_)
    (hm.anchored h.anchored)
  rw [hm.nodes_eq] at hn ⊢
  exact h.parent_lt i n p hn hp

theorem mem_values (hn : c.InPool i n) : i ∈ c.hashPool.values :=
  mem_values_of_find? (h.pooled i n hn)

theorem inPool_of_mem (hi : i ∈ c.hashPool.values) : ∃ n, c.InPool i n := by
  obtain ⟨k, hk⟩ := SortedMap.mem_values.mp hi
  obtain ⟨n, hn, -⟩ := h.entry k i (SortedMap.find?_eq_some_iff.mpr hk)
  exact ⟨n, hn⟩

theorem nodup_values : c.hashPool.values.Nodup := by
  rw [SortedMap.values, List.Nodup, pairwise_map]
  refine c.hashPool.sorted.imp_of_mem fun {a b} ha hb hlt he => hlt.ne ?_
  obtain ⟨n, hn, hna⟩ := h.entry a.1 a.2 (find?_eq_some_iff.mpr ha)
  obtain ⟨m, hm, hmb⟩ := h.entry b.1 b.2 (find?_eq_some_iff.mpr hb)
  obtain rfl : n = m := hn.unique (he ▸ hm.1)
  exact hna.symm.trans hmb

end
end PoolInv

theorem getElem?_insertNode : (c.insertNode rule b).nodes[i]? = some n ↔ c.nodes[i]? = some n ∨
      (i = c.nodes.length ∧ n = ⟨b, c.findParent rule b, {.authenticated}⟩) := by
  unfold insertNode
  rw [getElem?_append]
  split_ifs with hi
  · constructor
    · exact .inl
    · rintro (h | ⟨rfl, -⟩)
      · exact h
      · exact absurd hi (lt_irrefl _)
  · rw [getElem?_singleton, getElem?_eq_none (not_lt.mp hi)]
    constructor
    · intro hn
      split_ifs at hn with h0
      exact .inr ⟨by omega, (some_inj.mp hn).symm⟩
    · rintro (hn | ⟨rfl, rfl⟩)
      · cases hn
      · simp

theorem inPool_insertNode : (c.insertNode rule b).InPool i n ↔
      c.InPool i n ∨ (i = c.nodes.length ∧ n = ⟨b, c.findParent rule b, {.authenticated}⟩) := by
  unfold InPool
  rw [getElem?_insertNode]
  constructor
  · rintro ⟨hn | hn, hf⟩
    · exact .inl ⟨hn, hf⟩
    · exact .inr hn
  · rintro (⟨hn, hf⟩ | ⟨rfl, rfl⟩)
    · exact ⟨.inl hn, hf⟩
    · exact ⟨.inr ⟨rfl, rfl⟩, singleton_ne_empty _⟩

theorem findParent_spec {p : Nat} (h : c.findParent rule b = some p) :
    (∃ k, c.hashPool.find? k = some p) ∧
      ∃ pn, c.nodes[p]? = some pn ∧ rule.linkOk b pn.block = true := by
  unfold findParent at h
  split at h
  · cases h
  next q hq =>
  split at h
  · cases h
  next pn hpn =>
  split_ifs at h with hok
  obtain rfl := some_inj.mp h
  exact ⟨⟨_, hq⟩, pn, hpn, hok⟩

theorem PoolInv.insertNode (h : PoolInv c) (hhash : c.hashPool.find? b.blockHash = none)
    (hview : b.viewid ∉ c.viewPool) :
    PoolInv (c.insertNode rule b) where
  entry k i hk := by
    change (c.hashPool.insert b.blockHash c.nodes.length).find? k = some i at hk
    by_cases hkb : k = b.blockHash
    · subst hkb
      rw [find?_insert_self] at hk
      exact ⟨_, inPool_insertNode.mpr (.inr ⟨(some_inj.mp hk).symm, rfl⟩), rfl⟩
    · rw [find?_insert_of_ne _ _ hkb] at hk
      obtain ⟨n, hn, hb⟩ := h.entry k i hk
      exact ⟨n, inPool_insertNode.mpr (.inl hn), hb⟩
  pooled i n hn := by
    change (c.hashPool.insert b.blockHash c.nodes.length).find? n.block.blockHash = some i
    rcases inPool_insertNode.mp hn with hn | ⟨rfl, rfl⟩
    · have hold := h.pooled i n hn
      rw [find?_insert_of_ne]
      · exact hold
      · intro heq
        rw [heq, hhash] at hold
        cases hold
    · exact find?_insert_self _ _ _
  view_mem v := by
    change v ∈ insert b.viewid c.viewPool ↔ _
    simp only [mem_insert, h.view_mem, inPool_insertNode]
    constructor
    · rintro (rfl | ⟨i, n, hn, hv⟩)
      · exact ⟨_, _, .inr ⟨rfl, rfl⟩, rfl⟩
      · exact ⟨i, n, .inl hn, hv⟩
    · rintro ⟨i, n, hn | ⟨rfl, rfl⟩, hv⟩
      · exact .inr ⟨i, n, hn, hv⟩
      · exact .inl hv.symm
  view_inj i j n m hn hm hv := by
    have hfresh : ∀ i n, c.InPool i n → n.block.viewid ≠ b.viewid := fun i n hn he =>
      hview ((h.view_mem _).mpr ⟨i, n, hn, he⟩)
    rcases inPool_insertNode.mp hn with hn | ⟨rfl, rfl⟩ <;>
      rcases inPool_insertNode.mp hm with hm | ⟨rfl, rfl⟩
    · exact h.view_inj i j n m hn hm hv
    · exact absurd hv (hfresh i n hn)
    · exact absurd hv.symm (hfresh j m hm)
    · rfl
  parent_lt i n p hn hp := by
    have hlen : (c.insertNode rule b).nodes.length = c.nodes.length + 1 := by
      simp [BftContext.insertNode]
    rw [hlen]
    rcases getElem?_insertNode.mp hn with hn | ⟨-, rfl⟩
    · exact (h.parent_lt i n p hn hp).trans (Nat.lt_succ_self _)
    · obtain ⟨-, pn, hpn, -⟩ := findParent_spec hp
      exact (List.getElem?_eq_some_iff.mp hpn).1.trans (Nat.lt_succ_self _)
  anchored := h.anchored

structure Relinks (c c' : BftContext) : Prop where
  length_eq : c'.nodes.length = c.nodes.length
  node : ∀ (i : Nat) (n : VbNode), c.nodes[i]? = some n →
    ∃ n', c'.nodes[i]? = some n' ∧ n'.block = n.block ∧ n'.flags = n.flags
  hashPool_eq : c'.hashPool = c.hashPool
  viewPool_eq : c'.viewPool = c.viewPool
  lock_eq : c'.latestLockBlock = c.latestLockBlock
  commit_eq : c'.latestCommitBlock = c.latestCommitBlock

namespace Relinks

theorem refl (c : BftContext) : Relinks c c :=
  ⟨rfl, fun _ n hn => ⟨n, hn, rfl, rfl⟩, rfl, rfl, rfl, rfl⟩

theorem trans (h : Relinks c c') (h' : Relinks c' c'') : Relinks c c'' where
  length_eq := h'.length_eq.trans h.length_eq
  node i n hn := by
    obtain ⟨n', hn', hb, hf⟩ := h.node i n hn
    obtain ⟨n'', hn'', hb', hf'⟩ := h'.node i n' hn'
    exact ⟨n'', hn'', hb'.trans hb, hf'.trans hf⟩
  hashPool_eq := h'.hashPool_eq.trans h.hashPool_eq
  viewPool_eq := h'.viewPool_eq.trans h.viewPool_eq
  lock_eq := h'.lock_eq.trans h.lock_eq
  commit_eq := h'.commit_eq.trans h.commit_eq

theorem setParent (c : BftContext) (i : Nat) (p : Option Nat) :
    Relinks c { c with nodes := c.nodes.modify i fun n => { n with parent := p } } where
  length_eq := length_modify _ _ _
  node j m hm := by
    refine ⟨_, getElem?_modify_of_eq_some hm i _, ?_⟩
    split_ifs <;> exact ⟨rfl, rfl⟩
  hashPool_eq := rfl
  viewPool_eq := rfl
  lock_eq := rfl
  commit_eq := rfl

section
variable (h : Relinks c c')
include h

theorem node_back {n' : VbNode} (hn' : c'.nodes[i]? = some n') :
    ∃ n, c.nodes[i]? = some n ∧ n'.block = n.block ∧ n'.flags = n.flags :=
  Loop.exists_getElem?_of_length_eq h.length_eq h.node hn'

theorem inPool (hn : c.InPool i n) : ∃ n', c'.InPool i n' ∧ n'.block = n.block := by
  obtain ⟨n', hn', hb, hf⟩ := h.node i n hn.1
  exact ⟨n', ⟨hn', hf ▸ hn.2⟩, hb⟩

theorem inPool_back {n' : VbNode} (hn' : c'.InPool i n') :
    ∃ n, c.InPool i n ∧ n'.block = n.block := by
  obtain ⟨n, hn, hb, hf⟩ := h.node_back hn'.1
  exact ⟨n, ⟨hn, hf ▸ hn'.2⟩, hb⟩

theorem poolInv (hp : PoolInv c)
    (hparent : ∀ (i : Nat) (n : VbNode) p, c'.nodes[i]? = some n → n.parent = some p →
      p < c'.nodes.length) : PoolInv c' := by
  refine hp.transport h.hashPool_eq h.viewPool_eq (fun i n hn => ?_) (fun i n' hn' => ?_) hparent
    (by rw [h.lock_eq, h.commit_eq]; exact hp.anchored)
  · obtain ⟨n', hn', hb⟩ := h.inPool hn
    exact ⟨n', hn', by rw [hb], by rw [hb]⟩
  · obtain ⟨n, hn, hb⟩ := h.inPool_back hn'
    exact ⟨n, hn, by rw [hb], by rw [hb]⟩

end
end Relinks

theorem PoolInv.setParent (h : PoolInv c) (i : Nat) {p : Option Nat}
    (hp : ∀ q, p = some q → q < c.nodes.length) :
    PoolInv { c with nodes := c.nodes.modify i fun n => { n with parent := p } } := by
  have hlinks := Relinks.setParent c i p
  refine hlinks.poolInv h fun j m' q hm' hq => ?_
  rw [hlinks.length_eq]
  obtain ⟨m, hm, rfl⟩ := eq_some_of_getElem?_modify hm'
  split_ifs at hq
  · exact hp q hq
  · exact h.parent_lt j m q hm hq

theorem adoptLoop_spec (rule : NodeRule) (h : PoolInv c) {new : Nat}
    (hnew : new < c.nodes.length) (b : XvBlock) (l : List Nat) :
    let res := l.foldl (adoptChild rule new b) (c, false)
    Relinks c res.1 ∧ PoolInv res.1 ∧ (res.2 = false → res.1 = c) := by
  refine foldlRecOn (motive := fun acc : BftContext × Bool =>
    Relinks c acc.1 ∧ PoolInv acc.1 ∧ (acc.2 = false → acc.1 = c)) _ _ ⟨.refl c, h, fun _ => rfl⟩ ?_
  intro acc hacc i _
  unfold adoptChild
  split
  · exact hacc
  · split_ifs
    · obtain ⟨hlinks, hpool, -⟩ := hacc
      refine ⟨hlinks.trans (.setParent _ i _), hpool.setParent i ?_, by simp⟩
      rintro q hq
      obtain rfl := some_inj.mp hq
      rw [hlinks.length_eq]
      exact hnew
    · exact hacc

theorem PoolInv.adoptChildren (h : PoolInv c) {new : Nat} (hnew : new < c.nodes.length)
    (b : XvBlock) : PoolInv (c.adoptChildren rule new b) := by
  obtain ⟨-, hpool, -⟩ := adoptLoop_spec rule h hnew b c.hashPool.values
  unfold BftContext.adoptChildren
  dsimp only
  split_ifs
  · exact hpool.executes (executes_executeAll _)
  · exact hpool

def enter (rule : NodeRule) (c : BftContext) (b : XvBlock) : BftContext :=
  if (c.hashPool.find? b.lastBlockHash).isSome then
    ((c.insertNode rule b).doExecute c.nodes.length).1
  else c.insertNode rule b

theorem doUpdate_cases (chk : BlockChecks) (rule : NodeRule) (c : BftContext) (b : XvBlock) :
    c.doUpdate chk rule b = (c, false) ∨
    (c.safeCheckForCertBlock chk b = true ∧ c.hashPool.find? b.blockHash = none ∧
      b.viewid ∉ c.viewPool ∧
      c.doUpdate chk rule b = ((c.enter rule b).adoptChildren rule c.nodes.length b, true)) := by
  unfold doUpdate
  split_ifs with hsafe hhash hview hparent
  · exact .inl rfl
  · exact .inl rfl
  · exact .inl rfl
  · refine .inr ⟨by simpa using hsafe, by simpa using hhash, hview, ?_⟩
    simp only [enter, hparent, if_true]
  · refine .inr ⟨by simpa using hsafe, by simpa using hhash, hview, ?_⟩
    simp only [enter, hparent]
    rfl

theorem executes_enter (rule : NodeRule) (c : BftContext) (b : XvBlock) :
    Executes (c.insertNode rule b) (c.enter rule b) := by
  unfold enter
  split_ifs
  · exact executes_doExecute _ _
  · exact .refl _

theorem length_lt_enter (rule : NodeRule) (c : BftContext) (b : XvBlock) :
    c.nodes.length < (c.enter rule b).nodes.length := by
  rw [(executes_enter rule c b).length_eq]
  simp [insertNode]

theorem PoolInv.enter (h : PoolInv c) (hhash : c.hashPool.find? b.blockHash = none)
    (hview : b.viewid ∉ c.viewPool) : PoolInv (c.enter rule b) :=
  (h.insertNode hhash hview).executes (executes_enter rule c b)

theorem PoolInv.doUpdate (h : PoolInv c) (b : XvBlock) : PoolInv (c.doUpdate chk rule b).1 := by
  rcases doUpdate_cases chk rule c b with he | ⟨-, hhash, hview, he⟩
  · rw [he]
    exact h
  · rw [he]
    exact (h.enter hhash hview).adoptChildren (length_lt_enter rule c b) b

theorem inPool_removeNode {j : Nat} {m : VbNode} :
    (c.removeNode i b).InPool j m ↔ c.InPool j m ∧ j ≠ i := by
  unfold InPool removeNode
  constructor
  · rintro ⟨hm, hf⟩
    obtain ⟨m₀, hm₀, rfl⟩ := eq_some_of_getElem?_modify hm
    split_ifs at hf ⊢ with hij
    · exact absurd rfl hf
    · exact ⟨⟨hm₀, hf⟩, Ne.symm hij⟩
  · rintro ⟨⟨hm, hf⟩, hne⟩
    refine ⟨?_, hf⟩
    rw [getElem?_modify_of_eq_some hm, if_neg (Ne.symm hne)]

theorem PoolInv.removeNode (h : PoolInv c) (hn : c.InPool i n) :
    PoolInv (c.removeNode i n.block) where
  entry k j hk := by
    change (c.hashPool.filter fun e => decide (e.2 ≠ i)).find? k = some j at hk
    rw [find?_filter_val c.hashPool (fun j => decide (j ≠ i)), filter_eq_some_iff] at hk
    obtain ⟨m, hm, hb⟩ := h.entry k j hk.1
    exact ⟨m, inPool_removeNode.mpr ⟨hm, by simpa using hk.2⟩, hb⟩
  pooled j m hm := by
    obtain ⟨hm, hne⟩ := inPool_removeNode.mp hm
    change (c.hashPool.filter fun e => decide (e.2 ≠ i)).find? m.block.blockHash = some j
    rw [find?_filter_val c.hashPool (fun j => decide (j ≠ i)), filter_eq_some_iff]
    exact ⟨h.pooled j m hm, by simpa using hne⟩
  view_mem v := by
    change v ∈ c.viewPool.erase n.block.viewid ↔ _
    simp only [mem_erase, h.view_mem, inPool_removeNode]
    constructor
    · rintro ⟨hv, j, m, hm, rfl⟩
      refine ⟨j, m, ⟨hm, ?_⟩, rfl⟩
      rintro rfl
      exact hv (by rw [hm.unique hn.1])
    · rintro ⟨j, m, ⟨hm, hne⟩, rfl⟩
      exact ⟨fun he => hne (h.view_inj j i m n hm hn he), j, m, hm, rfl⟩
  view_inj j k m m' hm hm' hv :=
    h.view_inj j k m m' (inPool_removeNode.mp hm).1 (inPool_removeNode.mp hm').1 hv
  parent_lt j m p hm hp := by
    change p < (c.nodes.modify i _).length
    rw [length_modify]
    obtain ⟨m₀, hm₀, rfl⟩ := eq_some_of_getElem?_modify hm
    split_ifs at hp
    · exact h.parent_lt j m₀ p hm₀ hp
    · exact h.parent_lt j m₀ p hm₀ hp
  anchored := h.anchored

structure Drops (c c' : BftContext) : Prop where
  node : ∀ (i : Nat) (n : VbNode), c.nodes[i]? = some n → ∃ n', c'.nodes[i]? = some n' ∧
    n'.block = n.block ∧ (n'.flags = ∅ ∨ n'.flags = n.flags) ∧
      (n'.parent = none ∨ n'.parent = n.parent)
  length_eq : c'.nodes.length = c.nodes.length
  lock_eq : c'.latestLockBlock = c.latestLockBlock
  commit_eq : c'.latestCommitBlock = c.latestCommitBlock

namespace Drops

theorem refl (c : BftContext) : Drops c c :=
  ⟨fun _ n hn => ⟨n, hn, rfl, .inr rfl, .inr rfl⟩, rfl, rfl, rfl⟩

theorem trans (h : Drops c c') (h' : Drops c' c'') : Drops c c'' where
  node i n hn := by
    obtain ⟨n', hn', hb, hf, hp⟩ := h.node i n hn
    obtain ⟨n'', hn'', hb', hf', hp'⟩ := h'.node i n' hn'
    refine ⟨n'', hn'', hb'.trans hb, ?_, ?_⟩
    · rcases hf' with hf' | hf'
      · exact .inl hf'
      · exact hf.imp hf'.trans hf'.trans
    · rcases hp' with hp' | hp'
      · exact .inl hp'
      · exact hp.imp hp'.trans hp'.trans
  length_eq := h'.length_eq.trans h.length_eq
  lock_eq := h'.lock_eq.trans h.lock_eq
  commit_eq := h'.commit_eq.trans h.commit_eq

theorem detach (c : BftContext) (i : Nat) :
    Drops c { c with nodes := c.nodes.modify i fun n => { n with parent := none } } where
  node j m hm := by
    refine ⟨_, getElem?_modify_of_eq_some hm i _, ?_⟩
    split_ifs
    · exact ⟨rfl, .inr rfl, .inl rfl⟩
    · exact ⟨rfl, .inr rfl, .inr rfl⟩
  length_eq := length_modify _ _ _
  lock_eq := rfl
  commit_eq := rfl

theorem remove (c : BftContext) (i : Nat) (b : XvBlock) : Drops c (c.removeNode i b) where
  node j m hm := by
    refine ⟨_, getElem?_modify_of_eq_some hm i _, ?_⟩
    split_ifs
    · exact ⟨rfl, .inl rfl, .inr rfl⟩
    · exact ⟨rfl, .inr rfl, .inr rfl⟩
  length_eq := length_modify _ _ _
  lock_eq := rfl
  commit_eq := rfl

section
variable (h : Drops c c')
include h

theorem node_back {n' : VbNode} (hn' : c'.nodes[i]? = some n') :
    ∃ n, c.nodes[i]? = some n ∧ n'.block = n.block ∧ (n'.flags = ∅ ∨ n'.flags = n.flags) ∧
      (n'.parent = none ∨ n'.parent = n.parent) :=
  Loop.exists_getElem?_of_length_eq h.length_eq h.node hn'

theorem inPool_back {n' : VbNode} (hn' : c'.InPool i n') :
    ∃ n, c.InPool i n ∧ n'.block = n.block ∧ (n'.parent = none ∨ n'.parent = n.parent) := by
  obtain ⟨n, hn, hb, hf, hp⟩ := h.node_back hn'.1
  refine ⟨n, ⟨hn, fun hempty => hn'.2 ?_⟩, hb, hp⟩
  exact hf.elim id fun hf => hf.trans hempty

theorem linked_back {j : Nat} (hl : c'.Linked j i) : c.Linked j i := by
  obtain ⟨n', m', hn', hp', hm'⟩ := hl
  obtain ⟨n, hn, -, hp⟩ := h.inPool_back hn'
  obtain ⟨m, hm, -⟩ := h.inPool_back hm'
  rw [hp'] at hp
  exact ⟨n, m, hn, (hp.resolve_left (by simp)).symm, hm⟩

theorem buried_back (hb : c'.Buried i) : c.Buried i := by
  obtain ⟨j, k, hj, hk⟩ := hb
  exact ⟨j, k, h.linked_back hj, h.linked_back hk⟩

end
end Drops

def blocksAt (c : BftContext) (l : List Nat) : List XvBlock :=
  l.filterMap fun i => c.nodes[i]?.map (·.block)

theorem Drops.blocksAt_eq (h : Drops c c') (l : List Nat) : c'.blocksAt l = c.blocksAt l := by
  unfold blocksAt
  congr 1
  funext i
  cases hi : c.nodes[i]? with
  | none =>
    have hlen : c'.nodes[i]? = none := by
      rw [getElem?_eq_none_iff, h.length_eq]
      exact getElem?_eq_none_iff.mp hi
    rw [hlen]
  | some n =>
    obtain ⟨n', hn', hb, -⟩ := h.node i n hi
    rw [hn', map_some, map_some, hb]

def Detached (c c' : BftContext) : Prop :=
  c' = c ∨ ∃ i, c' = { c with nodes := c.nodes.modify i fun n => { n with parent := none } }

namespace Detached

theorem drops (h : Detached c c') : Drops c c' := by
  rcases h with rfl | ⟨i, rfl⟩
  · exact .refl _
  · exact .detach c i

theorem relinks (h : Detached c c') : Relinks c c' := by
  rcases h with rfl | ⟨i, rfl⟩
  · exact .refl _
  · exact .setParent c i none

theorem poolInv (h : Detached c c') (hp : PoolInv c) : PoolInv c' := by
  rcases h with rfl | ⟨i, rfl⟩
  · exact hp
  · exact hp.setParent i (by simp)

end Detached

/-- A turn of a loop over the pool takes the node out when its block is one of those to go. -/
def Sweeps (f : BftContext × List XvBlock → Nat → BftContext × List XvBlock) (gone : XvBlock → Bool)
    (lock commit : Option XvBlock) : Prop :=
  ∀ acc i n, acc.1.latestLockBlock = lock → acc.1.latestCommitBlock = commit → acc.1.InPool i n →
    ∃ c', Detached acc.1 c' ∧
      f acc i = if gone n.block then (c'.removeNode i n.block, acc.2 ++ [n.block]) else (c', acc.2)

section
variable {f : BftContext × List XvBlock → Nat → BftContext × List XvBlock} {gone : XvBlock → Bool}
  {lock commit : Option XvBlock}

theorem Sweeps.turn (hturn : Sweeps f gone lock commit) {acc : BftContext × List XvBlock}
    (hlock : acc.1.latestLockBlock = lock) (hcommit : acc.1.latestCommitBlock = commit)
    (hpool : PoolInv acc.1) (hn : acc.1.InPool i n) :
    PoolInv (f acc i).1 ∧ Drops acc.1 (f acc i).1 ∧
      (∀ j m, acc.1.InPool j m → j ≠ i → ∃ m', (f acc i).1.InPool j m') ∧
      (∀ m, (f acc i).1.InPool i m → gone m.block = false) ∧
      (f acc i).2 = acc.2 ++ [n.block].filter gone := by
  obtain ⟨c', hdet, hf⟩ := hturn acc i n hlock hcommit hn
  obtain ⟨n', hn', hblock⟩ := hdet.relinks.inPool hn
  rw [hf]
  cases hgone : gone n.block with
  | true =>
    refine ⟨?_, hdet.drops.trans (.remove c' i _), fun j m hm hne => ?_,
      fun m hm => absurd rfl (inPool_removeNode.mp hm).2, by simp [hgone]⟩
    · rw [← hblock]
      exact (hdet.poolInv hpool).removeNode hn'
    · obtain ⟨m', hm', -⟩ := hdet.relinks.inPool hm
      exact ⟨m', inPool_removeNode.mpr ⟨hm', hne⟩⟩
  | false =>
    refine ⟨hdet.poolInv hpool, hdet.drops, fun j m hm _ => ?_, fun m hm => ?_, by simp [hgone]⟩
    · obtain ⟨m', hm', -⟩ := hdet.relinks.inPool hm
      exact ⟨m', hm'⟩
    · rw [← hn'.unique hm.1, hblock]
      exact hgone

theorem sweep_spec (hturn : Sweeps f gone lock commit) (l : List Nat) :
    ∀ acc : BftContext × List XvBlock, acc.1.latestLockBlock = lock →
      acc.1.latestCommitBlock = commit → PoolInv acc.1 → l.Nodup →
      (∀ i ∈ l, ∃ n, acc.1.InPool i n) →
      PoolInv (l.foldl f acc).1 ∧ Drops acc.1 (l.foldl f acc).1 ∧
        (∀ i n, (l.foldl f acc).1.InPool i n → i ∈ l → gone n.block = false) ∧
        (l.foldl f acc).2 = acc.2 ++ (acc.1.blocksAt l).filter gone := by
  induction l with
  | nil =>
    intro acc _ _ hpool _ _
    exact ⟨hpool, .refl _, fun _ _ _ hi => by simp at hi, by simp [blocksAt]⟩
  | cons i l ih =>
    intro acc hlock hcommit hpool hnodup hin
    obtain ⟨hi, hnodup⟩ := nodup_cons.mp hnodup
    obtain ⟨n, hn⟩ := hin i mem_cons_self
    obtain ⟨hpool', hdrops, hstay, hfirst, hout⟩ := hturn.turn hlock hcommit hpool hn
    obtain ⟨hpool'', hdrops', hkept, hout'⟩ := ih (f acc i) (hdrops.lock_eq.trans hlock)
      (hdrops.commit_eq.trans hcommit) hpool' hnodup fun j hj => by
        obtain ⟨m, hm⟩ := hin j (mem_cons_of_mem i hj)
        exact hstay j m hm fun he => hi (he ▸ hj)
    refine ⟨hpool'', hdrops.trans hdrops', fun j m hm hj => ?_, ?_⟩
    · rcases mem_cons.mp hj with rfl | hj
      · obtain ⟨m', hm', hb, -⟩ := hdrops'.inPool_back hm
        rw [hb]
        exact hfirst m' hm'
      · exact hkept j m hm hj
    · have hat : acc.1.blocksAt (i :: l) = [n.block] ++ acc.1.blocksAt l := by
        simp [blocksAt, hn.1]
      rw [foldl_cons, hout', hout, hdrops.blocksAt_eq, append_assoc, ← filter_append, hat]

end

theorem AllBlocks.insertNode (h : AllBlocks P c) (hb : P b) :
    AllBlocks P (c.insertNode rule b) where
  node i n hn := by
    rcases getElem?_insertNode.mp hn with hn | ⟨-, rfl⟩
    · exact h.node i n hn
    · exact hb
  lock := h.lock
  commit := h.commit

theorem AllBlocks.relinks (h : AllBlocks P c) (hr : Relinks c c') : AllBlocks P c' where
  node i n' hn' := by
    obtain ⟨n, hn, hb, -⟩ := hr.node_back hn'
    exact hb ▸ h.node i n hn
  lock := hr.lock_eq ▸ h.lock
  commit := hr.commit_eq ▸ h.commit

theorem AllBlocks.drops (h : AllBlocks P c) (hd : Drops c c') : AllBlocks P c' where
  node i n' hn' := by
    obtain ⟨n, hn, hb, -⟩ := hd.node_back hn'
    exact hb ▸ h.node i n hn
  lock := hd.lock_eq ▸ h.lock
  commit := hd.commit_eq ▸ h.commit

theorem AllBlocks.doUpdate (hP : FlagStable P) (h : AllBlocks P c) (hp : PoolInv c) (hb : P b) :
    AllBlocks P (c.doUpdate chk rule b).1 := by
  rcases doUpdate_cases chk rule c b with he | ⟨-, hhash, hview, he⟩
  · rw [he]
    exact h
  · rw [he]
    have hall : AllBlocks P (c.enter rule b) :=
      (h.insertNode hb).executes hP (executes_enter rule c b)
    obtain ⟨hlinks, -, -⟩ := adoptLoop_spec rule (hp.enter hhash hview) (length_lt_enter rule c b) b
      (c.enter rule b).hashPool.values
    unfold adoptChildren
    dsimp only
    split_ifs
    · exact (hall.relinks hlinks).executes hP (executes_executeAll _)
    · exact hall.relinks hlinks

theorem doSubmit_spec (h : PoolInv c) : PoolInv c.doSubmit.1 ∧ Drops c c.doSubmit.1 ∧
      (∀ i n, c.doSubmit.1.InPool i n → .committed ∉ n.block.flags) ∧
      c.doSubmit.2 = ((c.blocksAt c.hashPool.values).filter
        (·.checkBlockFlag .committed)).insertionSort
        (fun a b => a.viewid ≤ b.viewid) := by
  have hturn : Sweeps submitNode (·.checkBlockFlag .committed) c.latestLockBlock
      c.latestCommitBlock := by
    intro acc i n _ _ hn
    refine ⟨acc.1, .inl rfl, ?_⟩
    simp only [submitNode, hn.1]
  obtain ⟨hpool, hdrops, hkept, hout⟩ := sweep_spec hturn
    c.hashPool.values (c, []) rfl rfl h h.nodup_values fun i hi => h.inPool_of_mem hi
  refine ⟨hpool, hdrops, fun i n hn hcom => ?_, ?_⟩
  · obtain ⟨m, hm, -⟩ := hdrops.inPool_back hn
    have hnot := hkept i n hn (h.mem_values hm)
    simp [XvBlock.checkBlockFlag, hcom] at hnot
  · unfold doSubmit
    dsimp only
    rw [hout, nil_append]

theorem detached_detachParent (c : BftContext) (i : Nat) (n : VbNode) :
    Detached c (c.detachParent i n) := by
  unfold detachParent
  split
  · exact .inl rfl
  · split
    · exact .inl rfl
    · split_ifs
      · exact .inr ⟨i, rfl⟩
      · exact .inl rfl

theorem outdated_congr (hlock : c'.latestLockBlock = c.latestLockBlock)
    (hcommit : c'.latestCommitBlock = c.latestCommitBlock) : c'.outdated = c.outdated := by
  funext b
  simp only [outdated, hlock, hcommit]

theorem doClean_spec (h : PoolInv c) : PoolInv c.doClean.1 ∧ Drops c c.doClean.1 ∧
      ∀ i n, c.doClean.1.InPool i n → c.outdated n.block = false := by
  have hturn : Sweeps cleanNode c.outdated c.latestLockBlock c.latestCommitBlock := by
    intro acc i n hlock hcommit hn
    have hdet := detached_detachParent acc.1 i n
    refine ⟨acc.1.detachParent i n, hdet, ?_⟩
    have hout : (acc.1.detachParent i n).outdated = c.outdated :=
      outdated_congr (hdet.drops.lock_eq.trans hlock) (hdet.drops.commit_eq.trans hcommit)
    simp only [cleanNode, hn.1, hout]
  obtain ⟨hpool, hdrops, hkept, -⟩ := sweep_spec hturn c.hashPool.values (c, []) rfl rfl h
    h.nodup_values fun i hi => h.inPool_of_mem hi
  refine ⟨hpool, hdrops, fun i n hn => ?_⟩
  obtain ⟨m, hm, -⟩ := hdrops.inPool_back hn
  exact hkept i n hn (h.mem_values hm)

theorem outdated_eq_false (hanchored : c.latestCommitBlock.isSome → c.latestLockBlock.isSome)
    (h : c.outdated b = false) :
    ∃ commit lock, c.latestCommitBlock = some commit ∧ c.latestLockBlock = some lock ∧
      commit.height < b.height ∧ commit.viewid < b.viewid ∧ lock.height ≤ b.height ∧
      (b.height = lock.height → b.viewid = lock.viewid) := by
  unfold outdated at h
  cases hcommit : c.latestCommitBlock with
  | none => simp [hcommit] at h
  | some commit =>
    obtain ⟨lock, hlock⟩ := isSome_iff_exists.mp (hanchored (by simp [hcommit]))
    simp only [hcommit, hlock, Bool.or_eq_false_iff, Bool.and_eq_false_iff,
      decide_eq_false_iff_not, not_le, not_lt, ne_eq, not_not] at h
    obtain ⟨⟨⟨hheight, hview⟩, hlow⟩, hsame⟩ := h
    exact ⟨commit, lock, rfl, hlock, hheight, hview, hlow,
      fun he => hsame.elim (fun hne => absurd he hne) id⟩

structure Advances (fresh : XvBlock → Prop) (c c' : BftContext) : Prop where
  lock_rises : Rises c.latestLockBlock c'.latestLockBlock
  commit_rises : Rises c.latestCommitBlock c'.latestCommitBlock
  back : ∀ i n', c'.InPool i n' →
    (∃ n, c.InPool i n ∧ Grows n.block n'.block) ∨ ∃ b, fresh b ∧ Grows b n'.block

namespace Advances
variable {fresh : XvBlock → Prop}

theorem refl (c : BftContext) : Advances fresh c c :=
  ⟨.refl _, .refl _, fun _ n hn => .inl ⟨n, hn, .refl _⟩⟩

theorem trans (h : Advances fresh c c') (h' : Advances fresh c' c'') : Advances fresh c c'' where
  lock_rises := h.lock_rises.trans h'.lock_rises
  commit_rises := h.commit_rises.trans h'.commit_rises
  back i n'' hn'' := by
    rcases h'.back i n'' hn'' with ⟨n', hn', hg'⟩ | hnew
    · rcases h.back i n' hn' with ⟨n, hn, hg⟩ | ⟨b, hb, hg⟩
      · exact .inl ⟨n, hn, hg.trans hg'⟩
      · exact .inr ⟨b, hb, hg.trans hg'⟩
    · exact .inr hnew

theorem of_executes (h : Executes c c') : Advances fresh c c' where
  lock_rises := h.lock_rises
  commit_rises := h.commit_rises
  back i n' hn' := by
    obtain ⟨n, hn, hraised⟩ := h.inPool_back hn'
    exact .inl ⟨n, hn, hraised.block⟩

theorem of_relinks (h : Relinks c c') : Advances fresh c c' where
  lock_rises := h.lock_eq ▸ .refl _
  commit_rises := h.commit_eq ▸ .refl _
  back i n' hn' := by
    obtain ⟨n, hn, hb⟩ := h.inPool_back hn'
    exact .inl ⟨n, hn, hb ▸ .refl _⟩

theorem of_drops (h : Drops c c') : Advances fresh c c' where
  lock_rises := h.lock_eq ▸ .refl _
  commit_rises := h.commit_eq ▸ .refl _
  back i n' hn' := by
    obtain ⟨n, hn, hb, -⟩ := h.inPool_back hn'
    exact .inl ⟨n, hn, hb ▸ .refl _⟩

theorem of_moves (h : Moves c c') : Advances fresh c c' where
  lock_rises := h.lock_rises
  commit_rises := h.commit_rises
  back _ n' hn' := .inl ⟨n', h.inPool_iff.mp hn', .refl _⟩

theorem insertNode (hb : fresh b) : Advances fresh c (c.insertNode rule b) where
  lock_rises := .refl _
  commit_rises := .refl _
  back i n hn := by
    rcases inPool_insertNode.mp hn with hn | ⟨-, rfl⟩
    · exact .inl ⟨n, hn, .refl _⟩
    · exact .inr ⟨b, hb, .refl _⟩

theorem adoptChildren (hp : PoolInv c) {new : Nat} (hnew : new < c.nodes.length) (b : XvBlock) :
    Advances fresh c (c.adoptChildren rule new b) := by
  obtain ⟨hlinks, -, -⟩ := adoptLoop_spec rule hp hnew b c.hashPool.values
  unfold BftContext.adoptChildren
  dsimp only
  split_ifs
  · exact (of_relinks hlinks).trans (of_executes (executes_executeAll _))
  · exact of_relinks hlinks

theorem doUpdate (hp : PoolInv c) (hb : c.safeCheckForCertBlock chk b = true → fresh b) :
    Advances fresh c (c.doUpdate chk rule b).1 := by
  rcases doUpdate_cases chk rule c b with he | ⟨hsafe, hhash, hview, he⟩
  · rw [he]
    exact .refl c
  · rw [he]
    have henter : Advances fresh c (c.enter rule b) :=
      (insertNode (hb hsafe)).trans (of_executes (executes_enter rule c b))
    exact henter.trans (adoptChildren (hp.enter hhash hview) (length_lt_enter rule c b) b)

end Advances
end BftContext
end TopChain.Bft
