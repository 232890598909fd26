import TopChain.Bft.ContextEvents

/-!
# Committed blocks are delivered once and in order

A delivered block has a child and a grandchild that entered the pool before.
-/
namespace TopChain.Bft

open Option List TopChain.Base TopChain.Lib
open BftDriver.LeaderRun (accepting)

def ChildOf (b p : XvBlock) : Prop := p.blockHash = b.lastBlockHash ∧ p.height + 1 = b.height

instance instDecidableChildOf (b p : XvBlock) : Decidable (ChildOf b p) :=
  inferInstanceAs (Decidable (_ ∧ _))

variable {b x : XvBlock} {G : XvBlock → Prop} {o : Option XvBlock}

theorem Grows.childOf_iff {b' p p' : XvBlock} (hb : Grows b b') (hp : Grows p p') :
    ChildOf b' p' ↔ ChildOf b p := by
  unfold ChildOf
  rw [hp.hash, hp.height_eq, hb.height_eq, congrArg BlockBody.lastBlockHash hb.body]

theorem NodeRule.childOf {rule : NodeRule} {p : XvBlock} (h : rule.linkOk b p = true) :
    ChildOf b p :=
  ⟨rule.hash_eq b p h, rule.height_eq b p h⟩

def IsHead (G : XvBlock → Prop) (x : XvBlock) : Prop :=
  ∃ y z, G y ∧ G z ∧ ChildOf y x ∧ ChildOf z y

theorem IsHead.mono {G' : XvBlock → Prop} (hG : ∀ b, G b → G' b) (h : IsHead G x) :
    IsHead G' x := by
  obtain ⟨y, z, hy, hz, hf⟩ := h
  exact ⟨y, z, hG y hy, hG z hz, hf⟩

theorem Grows.isHead_iff {x' : XvBlock} (h : Grows x x') : IsHead G x' ↔ IsHead G x := by
  unfold IsHead
  simp only [Grows.childOf_iff (.refl _) h]

/-- Verified blocks of one account: the hash fixes height and view, and a block is above its
parent. -/
structure Certified (chainid : UInt32) (account : String) (G : XvBlock → Prop) : Prop where
  onChain : ∀ b, G b → BftContext.OnChain chainid account b
  hash_inj : ∀ b b', G b → G b' → b.blockHash = b'.blockHash →
    b.height = b'.height ∧ b.viewid = b'.viewid
  ascending : ∀ b p, G b → G p → ChildOf b p → Below p b

theorem Certified.mono {chainid : UInt32} {account : String} {E : XvBlock → Prop}
    (hG : Certified chainid account G) (hE : ∀ b, E b → G b) : Certified chainid account E where
  onChain b hb := hG.onChain b (hE b hb)
  hash_inj b b' hb hb' := hG.hash_inj b b' (hE b hb) (hE b' hb')
  ascending b p hb hp := hG.ascending b p (hE b hb) (hE p hp)

/-- No two three-chains conflict: their heads are the same block or ordered alike by height and
view. -/
def HeadsAgree (G : XvBlock → Prop) : Prop :=
  ∀ x x', G x → G x' → IsHead G x → IsHead G x' → x.blockHash = x'.blockHash ∨
    Below x x' ∨ Below x' x

theorem HeadsAgree.below_or (hA : HeadsAgree G) {b' x' : XvBlock} (hb : G b) (hb' : G b')
    (hg : Grows b x) (hg' : Grows b' x') (hx : IsHead G x) (hx' : IsHead G x')
    (hne : x.blockHash ≠ x'.blockHash) : Below x x' ∨ Below x' x := by
  have hcases := hA b b' hb hb' (hg.isHead_iff.mp hx) (hg'.isHead_iff.mp hx')
  unfold Below at hcases ⊢
  rw [hg.height_eq, hg.viewid_eq, hg'.height_eq, hg'.viewid_eq]
  rw [hg.hash, hg'.hash] at hne
  exact hcases.resolve_left hne

def Passed (o : Option XvBlock) (b : XvBlock) : Prop :=
  ∃ k, o = some k ∧ (b.height < k.height ∨ b.viewid < k.viewid)

theorem Passed.rises {o' : Option XvBlock} (h : Passed o b) (hr : Rises o o') : Passed o' b := by
  obtain ⟨k, hk, hlt⟩ := h
  obtain ⟨k', hk', hheight, hview⟩ := hr k hk
  exact ⟨k', hk', hlt.imp hheight.trans_lt' hview.trans_lt'⟩

theorem Grows.passed_iff {b' : XvBlock} (h : Grows b b') : Passed o b' ↔ Passed o b := by
  unfold Passed
  rw [h.height_eq, h.viewid_eq]

theorem Reached.passed {p : XvBlock} (h : Reached o b) (hheight : p.height < b.height)
    (hview : p.viewid < b.viewid) : Passed o p := by
  obtain ⟨k, hk, hle⟩ := h
  exact ⟨k, hk, hle.imp hheight.trans_le hview.trans_le⟩

namespace BftContext
variable {c c' c'' : BftContext} {rule : NodeRule} {chk : BlockChecks}
variable {E E' G : XvBlock → Prop}

/-- Every node holds a block of `E`; a committed block has a child and a grandchild in `E`. -/
structure Traced (E : XvBlock → Prop) (c : BftContext) : Prop where
  origin : ∀ (i : Nat) (n : VbNode), c.nodes[i]? = some n → ∃ b, E b ∧ Grows b n.block
  links : ∀ (i : Nat) (n : VbNode) p, c.nodes[i]? = some n → n.parent = some p →
    ∃ pn, c.nodes[p]? = some pn ∧ ChildOf n.block pn.block
  heads : ∀ (i : Nat) (n : VbNode), c.nodes[i]? = some n → .committed ∈ n.block.flags →
    IsHead E n.block

namespace Traced

theorem init : Traced E init := by
  constructor <;> simp [BftContext.init]

section
variable (h : Traced E c)
include h

theorem mono (hE : ∀ b, E b → E' b) : Traced E' c where
  origin i n hn := by
    obtain ⟨b, hb, hg⟩ := h.origin i n hn
    exact ⟨b, hE b hb, hg⟩
  links := h.links
  heads i n hn hcom := (h.heads i n hn hcom).mono hE

theorem childOf {j i : Nat} {n m : VbNode} (hl : c.Linked j i)
    (hn : c.nodes[j]? = some n) (hm : c.nodes[i]? = some m) : ChildOf n.block m.block := by
  obtain ⟨n', m', hn', hp, hm'⟩ := hl
  obtain rfl := hn'.unique hn
  obtain ⟨pn, hpn, hf⟩ := h.links j n' i hn hp
  obtain rfl := mem_unique hpn hm
  exact hf

theorem isHead_of_buried {i : Nat} {n : VbNode} (hn : c.nodes[i]? = some n)
    (hb : c.Buried i) : IsHead E n.block := by
  obtain ⟨j, k, hji, hkj⟩ := hb
  obtain ⟨nk, nj, hnk, -, hnj⟩ := id hkj
  obtain ⟨y, hy, hgy⟩ := h.origin j nj hnj.1
  obtain ⟨z, hz, hgz⟩ := h.origin k nk hnk.1
  refine ⟨y, z, hy, hz, ?_, ?_⟩
  · exact (hgy.childOf_iff (.refl _)).mp (h.childOf hji hnj.1 hn)
  · exact (hgz.childOf_iff hgy).mp (h.childOf hkj hnk.1 hnj.1)

theorem executes (he : Executes c c') : Traced E c' where
  origin i n' hn' := by
    obtain ⟨n, hn, hraised⟩ := he.node_back hn'
    obtain ⟨b, hb, hg⟩ := h.origin i n hn
    exact ⟨b, hb, hg.trans hraised.block⟩
  links i n' p hn' hp := by
    obtain ⟨n, hn, hraised⟩ := he.node_back hn'
    obtain ⟨pn, hpn, hf⟩ := h.links i n p hn (hraised.parent ▸ hp)
    obtain ⟨pn', hpn', hraised'⟩ := he.node p pn hpn
    exact ⟨pn', hpn', (hraised.block.childOf_iff hraised'.block).mpr hf⟩
  heads i n' hn' hcom := by
    obtain ⟨n, hn, hraised⟩ := he.node_back hn'
    rw [hraised.block.isHead_iff]
    rcases hraised.committed hcom with hold | hb
    · exact h.heads i n hn hold
    · exact h.isHead_of_buried hn hb

theorem drops (hd : Drops c c') : Traced E c' where
  origin i n' hn' := by
    obtain ⟨n, hn, hb, -⟩ := hd.node_back hn'
    exact hb ▸ h.origin i n hn
  links i n' p hn' hp := by
    obtain ⟨n, hn, hb, -, hpar⟩ := hd.node_back hn'
    rw [hp] at hpar
    obtain ⟨pn, hpn, hf⟩ := h.links i n p hn (hpar.resolve_left (by simp)).symm
    obtain ⟨pn', hpn', hb', -⟩ := hd.node p pn hpn
    exact ⟨pn', hpn', hb ▸ hb' ▸ hf⟩
  heads i n' hn' hcom := by
    obtain ⟨n, hn, hb, -⟩ := hd.node_back hn'
    rw [hb] at hcom ⊢
    exact h.heads i n hn hcom

theorem moves (hm : Moves c c') : Traced E c' :=
  ⟨hm.nodes_eq ▸ h.origin, hm.nodes_eq ▸ h.links, hm.nodes_eq ▸ h.heads⟩

theorem insertNode (hb : E b) (hfresh : .committed ∉ b.flags) : Traced E (c.insertNode rule b) := by
  constructor
  · intro i n hn
    rcases getElem?_insertNode.mp hn with hn | ⟨-, rfl⟩
    · exact h.origin i n hn
    · exact ⟨b, hb, .refl b⟩
  · intro i n p hn hp
    rcases getElem?_insertNode.mp hn with hn | ⟨-, rfl⟩
    · obtain ⟨pn, hpn, hf⟩ := h.links i n p hn hp
      exact ⟨pn, getElem?_insertNode.mpr (.inl hpn), hf⟩
    · obtain ⟨-, pn, hpn, hok⟩ := findParent_spec hp
      exact ⟨pn, getElem?_insertNode.mpr (.inl hpn), NodeRule.childOf hok⟩
  · intro i n hn hcom
    rcases getElem?_insertNode.mp hn with hn | ⟨-, rfl⟩
    · exact h.heads i n hn hcom
    · exact absurd hcom hfresh

theorem setParent {i p : Nat} {n pn : VbNode} (hn : c.nodes[i]? = some n)
    (hpn : c.nodes[p]? = some pn) (hf : ChildOf n.block pn.block) :
    Traced E { c with nodes := c.nodes.modify i fun n => { n with parent := some p } } := by
  have hlinks := Relinks.setParent c i (some p)
  constructor
  · intro j m' hm'
    obtain ⟨m, hm, hb, -⟩ := hlinks.node_back hm'
    exact hb ▸ h.origin j m hm
  · intro j m' q hm' hq
    obtain ⟨m, hm, hme⟩ := eq_some_of_getElem?_modify hm'
    have hold : ∃ r, c.nodes[q]? = some r ∧ ChildOf m'.block r.block := by
      subst hme
      split_ifs at hq ⊢ with hij
      · obtain rfl := some_inj.mp hq
        subst hij
        obtain rfl := mem_unique hn hm
        exact ⟨pn, hpn, hf⟩
      · exact h.links j m q hm hq
    obtain ⟨r, hr, hfr⟩ := hold
    obtain ⟨r', hr', hb, -⟩ := hlinks.node q r hr
    exact ⟨r', hr', hb ▸ hfr⟩
  · intro j m' hm' hcom
    obtain ⟨m, hm, hb, -⟩ := hlinks.node_back hm'
    rw [hb] at hcom ⊢
    exact h.heads j m hm hcom

theorem adoptLoop {new : Nat} {m : VbNode} (hm : c.nodes[new]? = some m)
    (hb : Grows b m.block) (l : List Nat) :
    Traced E (l.foldl (adoptChild rule new b) (c, false)).1 := by
  have hboth : Relinks c (l.foldl (adoptChild rule new b) (c, false)).1 ∧
      Traced E (l.foldl (adoptChild rule new b) (c, false)).1 := by
    refine List.foldlRecOn (motive := fun acc : BftContext × Bool =>
      Relinks c acc.1 ∧ Traced E acc.1) _ _ ⟨.refl c, h⟩ ?_
    intro acc hacc i _
    unfold adoptChild
    split
    · exact hacc
    next n hn =>
    split_ifs with hok
    · obtain ⟨hlinks, ht⟩ := hacc
      obtain ⟨m', hm', hbm, -⟩ := hlinks.node new m hm
      refine ⟨hlinks.trans (.setParent _ i _), ht.setParent hn hm' ?_⟩
      rw [hbm]
      exact (Grows.childOf_iff (.refl _) hb).mpr (NodeRule.childOf hok.2.2)
    · exact hacc
  exact hboth.2

end
end Traced

variable {chainid : UInt32} {account : String}

theorem passed_of_buried (hE : Certified chainid account E) (ht : Traced E c)
    (hc : CommitInv chainid account c) {i : Nat} {n : VbNode} (hn : c.InPool i n)
    (hb : c.Buried i) : Passed c.latestLockBlock n.block := by
  obtain ⟨j, k, hji, hkj⟩ := hb
  obtain ⟨nj, -, hnj, -, -⟩ := id hji
  obtain ⟨y, hy, hgy⟩ := ht.origin j nj hnj.1
  obtain ⟨x, hx, hgx⟩ := ht.origin i n hn.1
  have hf : ChildOf y x := (hgy.childOf_iff hgx).mp (ht.childOf hji hnj.1 hn.1)
  obtain ⟨hheight, hview⟩ := hE.ascending y x hy hx hf
  have hreached := hc.parented j nj hnj ⟨k, hkj⟩
  exact hgx.passed_iff.mpr ((hgy.reached_iff.mp hreached).passed hheight hview)

structure ChainInv (chainid : UInt32) (account : String) (E : XvBlock → Prop)
    (c : BftContext) : Prop where
  pool : PoolInv c
  commit : CommitInv chainid account c
  traced : Traced E c
  passed : ∀ i n, c.InPool i n → .committed ∈ n.block.flags → Passed c.latestLockBlock n.block

theorem passed_executes (hE : Certified chainid account E)
    (hpassed : ∀ i n, c.InPool i n → .committed ∈ n.block.flags →
      Passed c.latestLockBlock n.block) (he : Executes c c') (ht' : Traced E c')
    (hc' : CommitInv chainid account c') (i : Nat) (n' : VbNode) (hn' : c'.InPool i n')
    (hcom : .committed ∈ n'.block.flags) : Passed c'.latestLockBlock n'.block := by
  obtain ⟨n, hn, hraised⟩ := he.inPool_back hn'
  rcases hraised.committed hcom with hold | hb
  · exact hraised.block.passed_iff.mpr ((hpassed i n hn hold).rises he.lock_rises)
  · exact passed_of_buried hE ht' hc' hn' ((he.buried_iff i).mpr hb)

namespace ChainInv

theorem init : ChainInv chainid account E init :=
  ⟨.init, .init, .init, fun _ _ hn => by cases hn.1⟩

section
variable (h : ChainInv chainid account E c)
include h

theorem mono (hE : ∀ b, E b → E' b) : ChainInv chainid account E' c :=
  ⟨h.pool, h.commit, h.traced.mono hE, h.passed⟩

theorem drops (hd : Drops c c') (hp : PoolInv c') : ChainInv chainid account E c' where
  pool := hp
  commit := h.commit.drops hd
  traced := h.traced.drops hd
  passed i n' hn' hcom := by
    obtain ⟨n, hn, hb, -⟩ := hd.inPool_back hn'
    rw [hd.lock_eq, hb]
    exact h.passed i n hn (hb ▸ hcom)

theorem movesTo {new : XvBlock} (hm : MovesTo c new c')
    (hnew : OnChain chainid account new) : ChainInv chainid account E c' where
  pool := h.pool.moves hm.toMoves
  commit := h.commit.movesTo hm hnew
  traced := h.traced.moves hm.toMoves
  passed i n hn hcom := (h.passed i n (hm.inPool_iff.mp hn) hcom).rises hm.lock_rises

end

section
variable (hE : Certified chainid account E) (h : ChainInv chainid account E c)
include hE h

theorem enter (hb : E b)
    (hfresh : .committed ∉ b.flags) (hhash : c.hashPool.find? b.blockHash = none)
    (hview : b.viewid ∉ c.viewPool) :
    ChainInv chainid account E (c.enter rule b) := by
  have he := executes_enter rule c b
  have ht : Traced E (c.enter rule b) := (h.traced.insertNode hb hfresh).executes he
  have hc : CommitInv chainid account (c.enter rule b) :=
    h.commit.enter h.pool (hE.onChain b hb) hfresh
  refine ⟨h.pool.enter hhash hview, hc, ht, ?_⟩
  refine passed_executes hE (fun i n hn hcom => ?_) he ht hc
  rcases inPool_insertNode.mp hn with hn | ⟨rfl, rfl⟩
  · exact h.passed i n hn hcom
  · exact absurd hcom hfresh

theorem adoptChildren
    {new : Nat} {m : VbNode} (hm : c.nodes[new]? = some m) (hb : Grows b m.block) :
    ChainInv chainid account E (c.adoptChildren rule new b) := by
  have hnew : new < c.nodes.length := (List.getElem?_eq_some_iff.mp hm).1
  have hpool : PoolInv (c.adoptChildren rule new b) := h.pool.adoptChildren hnew b
  have hc : CommitInv chainid account (c.adoptChildren rule new b) :=
    h.commit.adoptChildren h.pool hnew b
  have ht : Traced E (c.hashPool.values.foldl (adoptChild rule new b) (c, false)).1 :=
    h.traced.adoptLoop hm hb _
  obtain ⟨hlinks, -, -⟩ := adoptLoop_spec rule h.pool hnew b c.hashPool.values
  have hpassed : ∀ i n, (c.hashPool.values.foldl (adoptChild rule new b) (c, false)).1.InPool i n →
      .committed ∈ n.block.flags → Passed
        (c.hashPool.values.foldl (adoptChild rule new b) (c, false)).1.latestLockBlock n.block := by
    intro i n' hn' hcom
    obtain ⟨n, hn, hbn⟩ := hlinks.inPool_back hn'
    rw [hlinks.lock_eq, hbn]
    exact h.passed i n hn (hbn ▸ hcom)
  unfold BftContext.adoptChildren at hpool hc ⊢
  dsimp only at hpool hc ⊢
  split_ifs at hpool hc ⊢
  · have he := executes_executeAll (c.hashPool.values.foldl (adoptChild rule new b) (c, false)).1
    exact ⟨hpool, hc, ht.executes he, passed_executes hE hpassed he (ht.executes he) hc⟩
  · exact ⟨hpool, hc, ht, hpassed⟩

end
end ChainInv

theorem not_committed_of_safeCheck (h : c.safeCheckForCertBlock chk b = true) :
    .committed ∉ b.flags := by
  simp only [safeCheckForCertBlock, Bool.and_eq_true, XvBlock.checkBlockFlag] at h
  simpa using h.1.1

theorem enter_new (rule : NodeRule) (c : BftContext) (b : XvBlock) :
    ∃ m, (c.enter rule b).nodes[c.nodes.length]? = some m ∧ Grows b m.block := by
  obtain ⟨m, hm, hraised⟩ := (executes_enter rule c b).node c.nodes.length
    ⟨b, c.findParent rule b, {.authenticated}⟩ (getElem?_insertNode.mpr (.inr ⟨rfl, rfl⟩))
  exact ⟨m, hm, hraised.block⟩

theorem ChainInv.doUpdate (hE : Certified chainid account E) (h : ChainInv chainid account E c)
    (hb : E b) : ChainInv chainid account E (c.doUpdate chk rule b).1 := by
  rcases doUpdate_cases chk rule c b with he | ⟨hsafe, hhash, hview, he⟩
  · rw [he]
    exact h
  · rw [he]
    obtain ⟨m, hm, hg⟩ := enter_new rule c b
    exact (h.enter hE hb (not_committed_of_safeCheck hsafe) hhash hview).adoptChildren hE hm hg

def Entered (h : List ContextOutput) (b : XvBlock) : Prop := .entered b ∈ h

variable {h : List ContextOutput}

theorem Entered.append (hb : Entered h b) (outs : List ContextOutput) : Entered (h ++ outs) b :=
  mem_append_left outs hb

def delivered (h : List ContextOutput) : List XvBlock :=
  h.filterMap fun
    | .consensusCommit x => some x
    | _ => none

theorem mem_delivered : x ∈ delivered h ↔ .consensusCommit x ∈ h := by
  unfold delivered
  rw [mem_filterMap]
  constructor
  · rintro ⟨o, ho, hx⟩
    cases o <;> simp at hx
    exact hx ▸ ho
  · exact fun hx => ⟨_, hx, rfl⟩

theorem delivered_append (h outs : List ContextOutput) :
    delivered (h ++ outs) = delivered h ++ delivered outs :=
  filterMap_append

/-- A block is delivered after its child and grandchild came in. -/
def Supported (h : List ContextOutput) : Prop :=
  ∀ before x after, h = before ++ .consensusCommit x :: after → IsHead (Entered before) x

theorem Supported.append {outs : List ContextOutput} (hs : Supported h)
    (ho : ∀ x ∈ delivered outs, IsHead (Entered h) x) : Supported (h ++ outs) := by
  intro before x after heq
  rcases append_eq_append_iff.mp heq with ⟨l, rfl, houts⟩ | ⟨l, rfl, hafter⟩
  · refine (ho x (mem_delivered.mpr (by simp [houts]))).mono fun b hb => hb.append l
  · cases l with
    | nil =>
      rw [nil_append] at hafter
      have hx := ho x (mem_delivered.mpr (hafter ▸ mem_cons_self))
      rwa [append_nil] at hx
    | cons o l =>
      obtain ⟨rfl, -⟩ := cons_eq_cons.mp hafter
      exact hs before x l rfl

theorem Supported.isHead (hs : Supported h) (hx : x ∈ delivered h) : IsHead (Entered h) x := by
  obtain ⟨before, after, rfl⟩ := append_of_mem (mem_delivered.mp hx)
  exact (hs before x after rfl).mono fun b hb => hb.append _

structure Settled (c : BftContext) (x : XvBlock) : Prop where
  passed : Passed c.latestLockBlock x
  above : ∀ i n, c.InPool i n → ¬(n.block.height ≤ x.height ∧ n.block.viewid ≤ x.viewid)

def AboveLock (c : BftContext) (b : XvBlock) : Prop :=
  ∀ lock, c.latestLockBlock = some lock → Below lock b

theorem aboveLock_of_safeCheck (h : c.safeCheckForCertBlock chk b = true) : c.AboveLock b := by
  intro lock hlock
  simp only [safeCheckForCertBlock, hlock, Bool.and_eq_true, Bool.not_eq_true',
    Bool.or_eq_false_iff, decide_eq_false_iff_not, not_le] at h
  exact ⟨h.1.2.1.1.1, h.1.2.1.1.2⟩

theorem Settled.advances (h : Settled c x) (ha : Advances c.AboveLock c c') : Settled c' x where
  passed := h.passed.rises ha.lock_rises
  above i n' hn' := by
    rcases ha.back i n' hn' with ⟨n, hn, hg⟩ | ⟨b, hb, hg⟩
    · rw [hg.height_eq, hg.viewid_eq]
      exact h.above i n hn
    · obtain ⟨lock, hlock, hpast⟩ := h.passed
      obtain ⟨hheight, hview⟩ := hb lock hlock
      rw [hg.height_eq, hg.viewid_eq, not_and_or, not_le, not_le]
      exact hpast.imp hheight.trans' hview.trans'

theorem mem_doSubmit (hp : PoolInv c) (hx : x ∈ c.doSubmit.2) :
    ∃ i n, c.InPool i n ∧ .committed ∈ n.block.flags ∧ n.block = x := by
  obtain ⟨-, -, -, hout⟩ := doSubmit_spec hp
  rw [hout, mem_insertionSort, mem_filter, blocksAt, mem_filterMap] at hx
  obtain ⟨⟨i, hi, hblock⟩, hcom⟩ := hx
  obtain ⟨n, hn⟩ := hp.inPool_of_mem hi
  rw [hn.1, map_some, some_inj] at hblock
  refine ⟨i, n, hn, ?_, hblock⟩
  rw [hblock]
  simpa [XvBlock.checkBlockFlag] using hcom

theorem doSubmit_nodup (hp : PoolInv c) : (c.doSubmit.2.map (·.blockHash)).Nodup := by
  obtain ⟨-, -, -, hout⟩ := doSubmit_spec hp
  rw [hout, ((perm_insertionSort _ _).map _).nodup_iff]
  refine List.Nodup.sublist (filter_sublist.map _) ?_
  rw [List.Nodup, pairwise_map, blocksAt, pairwise_filterMap]
  refine hp.nodup_values.imp_of_mem fun {i j} hi hj hne x hx y hy hhash => hne ?_
  obtain ⟨n, hn⟩ := hp.inPool_of_mem hi
  obtain ⟨m, hm⟩ := hp.inPool_of_mem hj
  rw [hn.1, map_some, some_inj] at hx
  rw [hm.1, map_some, some_inj] at hy
  have hni := hp.pooled i n hn
  have hmj := hp.pooled j m hm
  rw [hx, hhash, ← hy, hmj] at hni
  exact (some_inj.mp hni).symm

theorem doSubmit_sorted (hp : PoolInv c) :
    c.doSubmit.2.Pairwise (fun a b => a.viewid ≤ b.viewid) := by
  obtain ⟨-, -, -, hout⟩ := doSubmit_spec hp
  have : Std.Total (fun a b : XvBlock => a.viewid ≤ b.viewid) := ⟨fun a b => le_total _ _⟩
  have : IsTrans XvBlock (fun a b => a.viewid ≤ b.viewid) := ⟨fun _ _ _ => le_trans⟩
  exact pairwise_insertionSort _ _

theorem settled_of_submitted (h : ChainInv chainid account E c) (hx : x ∈ c.doSubmit.2) :
    Settled c.submit.1 x := by
  obtain ⟨hpool, hdrops, -⟩ := doSubmit_spec h.pool
  obtain ⟨-, hdrops', hkept⟩ := doClean_spec hpool
  obtain ⟨i, n, hn, hcom, rfl⟩ := mem_doSubmit h.pool hx
  have hlock : c.submit.1.latestLockBlock = c.latestLockBlock :=
    hdrops'.lock_eq.trans hdrops.lock_eq
  refine ⟨hlock ▸ h.passed i n hn hcom, fun j m hm hle => ?_⟩
  obtain ⟨commit, -, hcommit, -, hheight, hview, -⟩ :=
    outdated_eq_false hpool.anchored (hkept j m hm)
  obtain ⟨k, hk, hreached⟩ := h.commit.committed i n hn hcom
  rw [hdrops.commit_eq, hk] at hcommit
  obtain rfl := some_inj.mp hcommit
  rcases hreached with hr | hr
  · exact absurd (hheight.trans_le (hle.1.trans hr)) (lt_irrefl _)
  · exact absurd (hview.trans_le (hle.2.trans hr)) (lt_irrefl _)

structure DeliveryInv (chainid : UInt32) (account : String) (G : XvBlock → Prop)
    (h : List ContextOutput) (c : BftContext) : Prop where
  chain : ChainInv chainid account (Entered h) c
  given : ∀ b, Entered h b → G b
  settled : ∀ x ∈ delivered h, Settled c x
  origin : ∀ x ∈ delivered h, ∃ b, Entered h b ∧ Grows b x
  supported : Supported h
  nodup : ((delivered h).map (·.blockHash)).Nodup
  ordered : HeadsAgree G → (delivered h).Pairwise Below

namespace DeliveryInv

theorem init : DeliveryInv chainid account G [] init where
  chain := .init
  given b hb := by cases hb
  settled x hx := by cases hx
  origin x hx := by cases hx
  supported before x after h := by simp at h
  nodup := nodup_nil
  ordered _ := List.Pairwise.nil

theorem extend {outs : List ContextOutput} (hI : DeliveryInv chainid account G h c)
    (hchain : ChainInv chainid account (Entered (h ++ outs)) c') (ha : Advances c.AboveLock c c')
    (hgiven : ∀ b, Entered outs b → G b) (hnone : delivered outs = []) :
    DeliveryInv chainid account G (h ++ outs) c' := by
  have hsame : delivered (h ++ outs) = delivered h := by
    rw [delivered_append, hnone, append_nil]
  refine ⟨hchain, fun b hb => ?_, ?_, ?_, ?_, ?_, ?_⟩
  · exact (mem_append.mp hb).elim (hI.given b) (hgiven b)
  · rw [hsame]
    exact fun x hx => (hI.settled x hx).advances ha
  · rw [hsame]
    intro x hx
    obtain ⟨b, hb, hg⟩ := hI.origin x hx
    exact ⟨b, hb.append outs, hg⟩
  · exact hI.supported.append (by simp [hnone])
  · rw [hsame]
    exact hI.nodup
  · rw [hsame]
    exact hI.ordered

theorem update (hG : Certified chainid account G) (hI : DeliveryInv chainid account G h c)
    (hb : G b) :
    DeliveryInv chainid account G (h ++ (c.update chk rule b).2) (c.update chk rule b).1 := by
  rcases doUpdate_cases chk rule c b with he | ⟨-, -, -, he⟩
  · simpa [BftContext.update, he] using hI
  · have hout : (c.update chk rule b).2 = [.entered b] := by simp [BftContext.update, he]
    have hgiven : ∀ x, Entered [.entered b] x → G x := by
      intro x hx
      simp only [Entered, mem_singleton, ContextOutput.entered.injEq] at hx
      exact hx ▸ hb
    have hE : Certified chainid account (Entered (h ++ [.entered b])) :=
      hG.mono fun x hx => (mem_append.mp hx).elim (hI.given x) (hgiven x)
    have hmem : Entered (h ++ [.entered b]) b := mem_append_right h mem_cons_self
    rw [hout]
    exact hI.extend ((hI.chain.mono fun x hx => hx.append _).doUpdate hE hmem)
      (.doUpdate hI.chain.pool aboveLock_of_safeCheck) hgiven rfl

theorem movesTo (hI : DeliveryInv chainid account G h c) {new : XvBlock}
    (hnew : OnChain chainid account new) (hm : MovesTo c new c') :
    DeliveryInv chainid account G h c' := by
  have hchain : ChainInv chainid account (Entered (h ++ [])) c' := by
    rw [append_nil]
    exact hI.chain.movesTo hm hnew
  have hext := hI.extend hchain (.of_moves hm.toMoves) (fun b hb => by cases hb) rfl
  rwa [append_nil] at hext

theorem delivered_cancelled (l : List XvBlock) : delivered (l.map .cancelled) = [] := by
  simp [delivered, filterMap_map]

theorem clean (hI : DeliveryInv chainid account G h c) :
    DeliveryInv chainid account G (h ++ c.doClean.2.map .cancelled) c.doClean.1 := by
  obtain ⟨hpool, hdrops, -⟩ := doClean_spec hI.chain.pool
  refine hI.extend ((hI.chain.mono fun b hb => hb.append _).drops hdrops hpool)
    (.of_drops hdrops) (fun b hb => ?_) (delivered_cancelled _)
  simp [Entered] at hb

theorem delivered_submit (c : BftContext) : delivered c.submit.2 = c.doSubmit.2 := by
  unfold submit
  simp [delivered, filterMap_map]

theorem delivered_append_submit (h : List ContextOutput) (c : BftContext) :
    delivered (h ++ c.submit.2) = delivered h ++ c.doSubmit.2 := by
  rw [delivered_append, delivered_submit]

section
variable {h : List ContextOutput} (hI : DeliveryInv chainid account G h c)

include hI

theorem submitted_head (hx : x ∈ c.doSubmit.2) : IsHead (Entered h) x := by
  obtain ⟨i, n, hn, hcom, rfl⟩ := mem_doSubmit hI.chain.pool hx
  exact hI.chain.traced.heads i n hn.1 hcom

theorem submitted_origin (hx : x ∈ c.doSubmit.2) : ∃ b, Entered h b ∧ Grows b x := by
  obtain ⟨i, n, hn, -, rfl⟩ := mem_doSubmit hI.chain.pool hx
  exact hI.chain.traced.origin i n hn.1

theorem submitted_above {y : XvBlock} (hx : x ∈ delivered h) (hy : y ∈ c.doSubmit.2) :
    ¬(y.height ≤ x.height ∧ y.viewid ≤ x.viewid) := by
  obtain ⟨i, n, hn, -, rfl⟩ := mem_doSubmit hI.chain.pool hy
  exact (hI.settled x hx).above i n hn

section
variable (hG : Certified chainid account G)
include hG

theorem submitted_hash_ne {y : XvBlock} (hx : x ∈ delivered h)
    (hy : y ∈ c.doSubmit.2) : x.blockHash ≠ y.blockHash := by
  intro hhash
  obtain ⟨b, hb, hg⟩ := hI.origin x hx
  obtain ⟨b', hb', hg'⟩ := hI.submitted_origin hy
  rw [hg.hash, hg'.hash] at hhash
  obtain ⟨hheight, hview⟩ := hG.hash_inj b b' (hI.given b hb) (hI.given b' hb') hhash
  refine hI.submitted_above hx hy ⟨?_, ?_⟩
  · rw [hg.height_eq, hg'.height_eq, hheight]
  · rw [hg.viewid_eq, hg'.viewid_eq, hview]

theorem nodup_submit : ((delivered h ++ c.doSubmit.2).map (·.blockHash)).Nodup := by
  rw [map_append, nodup_append]
  refine ⟨hI.nodup, doSubmit_nodup hI.chain.pool, fun a ha b hb => ?_⟩
  obtain ⟨x, hx, rfl⟩ := mem_map.mp ha
  obtain ⟨y, hy, rfl⟩ := mem_map.mp hb
  exact hI.submitted_hash_ne hG hx hy

theorem ordered_submit (hA : HeadsAgree G) : (delivered h ++ c.doSubmit.2).Pairwise Below := by
  refine pairwise_append.mpr ⟨hI.ordered hA, ?_, fun x hx y hy => ?_⟩
  · have hpairs := (doSubmit_sorted hI.chain.pool).and
      (pairwise_map.mp (doSubmit_nodup hI.chain.pool))
    refine hpairs.imp_of_mem fun {x y} hx hy hxy => ?_
    obtain ⟨b, hb, hg⟩ := hI.submitted_origin hx
    obtain ⟨b', hb', hg'⟩ := hI.submitted_origin hy
    have hor := hA.below_or (hI.given b hb) (hI.given b' hb') hg hg'
      ((hI.submitted_head hx).mono hI.given) ((hI.submitted_head hy).mono hI.given) hxy.2
    exact hor.resolve_right fun hlt => absurd hlt.2 (not_lt.mpr hxy.1)
  · obtain ⟨b, hb, hg⟩ := hI.origin x hx
    obtain ⟨b', hb', hg'⟩ := hI.submitted_origin hy
    have hor := hA.below_or (hI.given b hb) (hI.given b' hb') hg hg'
      ((hI.supported.isHead hx).mono hI.given) ((hI.submitted_head hy).mono hI.given)
      (hI.submitted_hash_ne hG hx hy)
    exact hor.resolve_right fun hlt => hI.submitted_above hx hy ⟨hlt.1.le, hlt.2.le⟩

theorem submit : DeliveryInv chainid account G (h ++ c.submit.2) c.submit.1 := by
  obtain ⟨hpool, hdrops, -⟩ := doSubmit_spec hI.chain.pool
  obtain ⟨hpool', hdrops', -⟩ := doClean_spec hpool
  have hall : Drops c c.submit.1 := hdrops.trans hdrops'
  refine ⟨(hI.chain.mono fun b hb => hb.append _).drops hall hpool', fun b hb => ?_, ?_, ?_,
    hI.supported.append ?_, ?_, fun hA => ?_⟩
  · rcases mem_append.mp hb with hb | hb
    · exact hI.given b hb
    · simp [BftContext.submit] at hb
  · rw [delivered_append_submit]
    intro x hx
    rcases mem_append.mp hx with hx | hx
    · exact (hI.settled x hx).advances (.of_drops hall)
    · exact settled_of_submitted hI.chain hx
  · rw [delivered_append_submit]
    intro x hx
    have horigin : ∃ b, Entered h b ∧ Grows b x :=
      (mem_append.mp hx).elim (hI.origin x) hI.submitted_origin
    obtain ⟨b, hb, hg⟩ := horigin
    exact ⟨b, hb.append _, hg⟩
  · rw [delivered_submit]
    exact fun x hx => hI.submitted_head hx
  · rw [delivered_append_submit]
    exact hI.nodup_submit hG
  · rw [delivered_append_submit]
    exact hI.ordered_submit hG hA

end
end

theorem keptByParts (hG : Certified chainid account G) :
    KeptByParts chk rule G (DeliveryInv chainid account G) where
  update _ _ _ hb hI := hI.update hG hb
  moveLock _ _ b hb hI := hI.movesTo (hG.onChain b hb) (movesTo_updateLockBlock _ b)
  moveCommit _ _ b hb hI := hI.movesTo (hG.onChain b hb) (movesTo_updateCommitBlock _ b)
  clean _ _ hI := hI.clean
  submit _ _ hI := hI.submit hG

end DeliveryInv

def Given (es : List ContextEvent) (b : XvBlock) : Prop := b ∈ es.flatMap ContextEvent.given

/-- No hash is delivered twice, and a child and a grandchild have entered before. Where no two
three-chains conflict, heights and views of the delivered blocks rise. -/
theorem commits_delivered_once (chk : BlockChecks) (rule : NodeRule) (chainid : UInt32)
    (account : String) (es : List ContextEvent) (hG : Certified chainid account (Given es)) :
    ((delivered (Run.run (step chk rule) init es).2).map (·.blockHash)).Nodup ∧
    Supported (Run.run (step chk rule) init es).2 ∧
    (HeadsAgree (Given es) → (delivered (Run.run (step chk rule) init es).2).Pairwise Below) := by
  have hkept : KeptByParts chk rule (Given es) (DeliveryInv chainid account (Given es)) :=
    DeliveryInv.keptByParts hG
  have hrun := hkept.run DeliveryInv.init es fun e he b hb => mem_flatMap.mpr ⟨e, he, hb⟩
  exact ⟨hrun.nodup, hrun.supported, hrun.ordered⟩

def storeCert (b : XvBlock) : ContextEvent := .consensusUpdate ⟨some b, none, none⟩

/-- The store's commit at height 4, then four certified blocks in a row, the first sent again at
the end. -/
def chainEvents : List ContextEvent :=
  [.proposalStart ⟨none, none, some { certBlock "T" 4 4 "f" "g" with
      flags := {.authenticated, .committed} }⟩,
   .proposalFinish true (some (certBlock "T" 5 5 "g" "a")),
   .proposalFinish true (some (certBlock "T" 6 6 "a" "b")),
   .replicateFinish true (some (certBlock "T" 7 7 "b" "c")),
   .replicateFinish true (some (certBlock "T" 8 8 "c" "d")),
   .replicateFinish true (some (certBlock "T" 5 5 "g" "a"))]

/-- Two three-chains from height 5 that the store reports block by block, and then a block of
neither. -/
def forkEvents : List ContextEvent :=
  [storeCert (certBlock "T" 5 5 "g" "x1"), storeCert (certBlock "T" 5 6 "g" "x2"),
   storeCert (certBlock "T" 6 7 "x1" "y1"), storeCert (certBlock "T" 6 8 "x2" "y2"),
   storeCert (certBlock "T" 7 9 "y1" "z1"), storeCert (certBlock "T" 7 10 "y2" "z2"),
   .proposalFinish true (some (certBlock "T" 8 11 "w" "v"))]

theorem certified_given {es : List ContextEvent} {chainid : UInt32} {account : String}
    (hall : ∀ b ∈ es.flatMap ContextEvent.given,
      b.chainid = chainid ∧ b.account = account ∧ .authenticated ∈ b.flags)
    (hpairs : ∀ b ∈ es.flatMap ContextEvent.given, ∀ p ∈ es.flatMap ContextEvent.given,
      (b.blockHash = p.blockHash → b.height = p.height ∧ b.viewid = p.viewid) ∧
        (ChildOf b p → Below p b)) : Certified chainid account (Given es) where
  onChain b hb := ⟨(hall b hb).1, (hall b hb).2.1, (hall b hb).2.2⟩
  hash_inj b b' hb hb' := (hpairs b hb b' hb').1
  ascending b p hb hp := (hpairs b hb p hp).2

theorem commits_delivered_once_sample :
    (delivered (Run.run (step accepting documentedRule) init chainEvents).2).map (·.height)
      = [5, 6] ∧
    (delivered (Run.run (step accepting documentedRule) init chainEvents).2).Pairwise Below := by
  refine ⟨by decide, (commits_delivered_once accepting documentedRule 0 "T" chainEvents
    (certified_given (by decide) (by decide))).2.2 ?_⟩
  -- all blocks of the run are ordered
  have hpairs : ∀ x ∈ chainEvents.flatMap ContextEvent.given,
      ∀ x' ∈ chainEvents.flatMap ContextEvent.given,
        x.blockHash = x'.blockHash ∨ Below x x' ∨ Below x' x := by decide
  exact fun x x' hx hx' _ _ => hpairs x hx x' hx'

theorem equal_heights_delivered :
    Certified 0 "T" (Given forkEvents) ∧
    (delivered (Run.run (step accepting documentedRule) init forkEvents).2).map (·.height)
      = [5, 5] :=
  ⟨certified_given (by decide) (by decide), by decide⟩

end BftContext
end TopChain.Bft
