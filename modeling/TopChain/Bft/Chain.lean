import TopChain.Bft.PoolInvariant
import TopChain.Lib.LockChain

/-!
# The pool only raises justified flags

The chain of one account as an instance of the lock-chain protocol, and what a pool rests on.
-/
namespace TopChain.Bft

open Option TopChain.Base TopChain.Lib TopChain.Lib.LockChain BftContext List

/-- One account's consensus: the base-library tests, the block hash, the genesis and the
quorum system. -/
structure Setting (ν : Type) where
  chk : BlockChecks
  rule : NodeRule
  hash : BlockBody → String
  genesis : XvBlock
  genesis_hash : genesis.blockHash = hash genesis.toBlockBody
  honest : ν → Prop
  quorum : Set ν → Prop
  quorum_inter : ∀ Q Q', quorum Q → quorum Q' → ∃ v ∈ Q, v ∈ Q' ∧ honest v

namespace Setting
variable {ν : Type} (S : Setting ν)

def protocol : Protocol ν BlockBody String where
  ident := S.hash
  prev := BlockBody.lastBlockHash
  height d := d.height.toNat
  genesis := S.genesis.toBlockBody
  honest := S.honest
  quorum := S.quorum
  solo d := d.height = Word.top
  quorum_inter := S.quorum_inter

/-- What the certificates say of one block of a node's pool. -/
structure BlockOk (certs : Set BlockBody) (b : XvBlock) : Prop where
  certified : b.toBlockBody ∈ certs
  hash_eq : b.blockHash = S.hash b.toBlockBody
  locked : .locked ∈ b.flags → ∃ c ∈ certs, S.protocol.Link c b.toBlockBody
  committed : .committed ∈ b.flags → S.protocol.Final certs b.toBlockBody

/-- The pool of a node against the certificates. -/
structure ContextInv (certs : Set BlockBody) (c : BftContext) : Prop where
  node_ok : ∀ (i : Nat) (n : VbNode), c.nodes[i]? = some n → S.BlockOk certs n.block
  parent_ok : ∀ (i : Nat) (n : VbNode) (p : Nat), c.nodes[i]? = some n → n.parent = some p →
    ∃ m, c.nodes[p]? = some m ∧ S.protocol.Link n.block.toBlockBody m.block.toBlockBody
  lock_ok : ∀ b, c.latestLockBlock = some b →
    b.blockHash = S.hash b.toBlockBody ∧ S.protocol.Lockable certs b.toBlockBody

variable {S} {certs certs' : Set BlockBody} {c : BftContext}

variable {b : XvBlock} {i : Nat}

theorem BlockOk.mono (hsub : certs ⊆ certs') (h : S.BlockOk certs b) : S.BlockOk certs' b where
  certified := hsub h.certified
  hash_eq := h.hash_eq
  locked hf := by
    obtain ⟨c, hc, hlink⟩ := h.locked hf
    exact ⟨c, hsub hc, hlink⟩
  committed hf := (h.committed hf).mono hsub

theorem ContextInv.mono (hsub : certs ⊆ certs') (h : S.ContextInv certs c) :
    S.ContextInv certs' c where
  node_ok i n hn := (h.node_ok i n hn).mono hsub
  parent_ok := h.parent_ok
  lock_ok b hb := ⟨(h.lock_ok b hb).1, (h.lock_ok b hb).2.mono hsub⟩

theorem exists_child_of_final {d : BlockBody} (h : S.protocol.Final certs d) :
    ∃ c ∈ certs, S.protocol.Link c d := by
  obtain ⟨-, p, hp, hlink, -⟩ := h
  exact ⟨p, hp, hlink⟩

theorem final_of_link {d p : BlockBody} (h : S.protocol.Final certs d) (hp : p ∈ certs)
    (hlink : S.protocol.Link d p) : S.protocol.Final certs p := by
  obtain ⟨hd, q, hq, hqd, -⟩ := h
  exact ⟨hp, d, hd, hlink, q, hq, hqd⟩

theorem ContextInv.modify (h : S.ContextInv certs c) {f : VbNode → VbNode}
    (hok : ∀ n, c.nodes[i]? = some n → S.BlockOk certs (f n).block)
    (hbody : ∀ n, (f n).block.toBlockBody = n.block.toBlockBody)
    (hparent : ∀ n p, c.nodes[i]? = some n → (f n).parent = some p → ∃ m, c.nodes[p]? = some m ∧
      S.protocol.Link n.block.toBlockBody m.block.toBlockBody) :
    S.ContextInv certs { c with nodes := c.nodes.modify i f } := by
  -- a node of the new heap is an old node, possibly changed by `f`
  have hold : ∀ (j : Nat) (n' : VbNode), (c.nodes.modify i f)[j]? = some n' →
      ∃ n, c.nodes[j]? = some n ∧ (n' = n ∨ (i = j ∧ n' = f n)) := by
    intro j n' hn'
    rw [getElem?_modify] at hn'
    obtain ⟨n, hn, rfl⟩ := map_eq_some_iff.mp hn'
    by_cases hij : i = j
    · exact ⟨n, hn, .inr ⟨hij, by simp [hij]⟩⟩
    · exact ⟨n, hn, .inl (by simp [hij])⟩
  -- and an old node is still there with the same body
  have hnew : ∀ (j : Nat) (n : VbNode), c.nodes[j]? = some n → ∃ n',
      (c.nodes.modify i f)[j]? = some n' ∧
      n'.block.toBlockBody = n.block.toBlockBody := by
    intro j n hn
    refine ⟨if i = j then f n else n, by rw [getElem?_modify, hn]; rfl, ?_⟩
    split_ifs
    · exact hbody n
    · rfl
  constructor
  · intro j n' hn'
    obtain ⟨n, hn, rfl | ⟨rfl, rfl⟩⟩ := hold j n' hn'
    · exact h.node_ok j _ hn
    · exact hok n hn
  · intro j n' p hn' hp
    obtain ⟨n, hn, hcase⟩ := hold j n' hn'
    have hlink : n'.block.toBlockBody = n.block.toBlockBody ∧ ∃ m, c.nodes[p]? = some m ∧
        S.protocol.Link n.block.toBlockBody m.block.toBlockBody := by
      rcases hcase with rfl | ⟨rfl, rfl⟩
      · exact ⟨rfl, h.parent_ok j _ p hn hp⟩
      · exact ⟨hbody n, hparent n p hn hp⟩
    obtain ⟨hb, m, hm, hl⟩ := hlink
    obtain ⟨m', hm', hbm⟩ := hnew p m hm
    exact ⟨m', hm', by rw [hb, hbm]; exact hl⟩
  · exact h.lock_ok

theorem ContextInv.mark (h : S.ContextInv certs c) {n : VbNode} (hn : c.nodes[i]? = some n)
    {fs : Finset BlockFlag} {g : BlockFlag}
    (hok : S.BlockOk certs { n.block with flags := n.block.flags ∪ fs }) :
    S.ContextInv certs (c.mark i fs g) := by
  refine h.modify (fun m hm => ?_) (fun _ => rfl) (fun m p hm hp => h.parent_ok i m p hm hp)
  obtain rfl : n = m := mem_unique hn hm
  exact hok

theorem BlockOk.lockable (h : S.BlockOk certs b)
    (hflag : .locked ∈ b.flags ∨ .committed ∈ b.flags) :
    b.blockHash = S.hash b.toBlockBody ∧ S.protocol.Lockable certs b.toBlockBody :=
  ⟨h.hash_eq, .inr ⟨h.certified,
    hflag.elim h.locked fun hf => exists_child_of_final (h.committed hf)⟩⟩

section
variable (h : S.ContextInv certs c) {new : XvBlock} (hnew : S.BlockOk certs new)
include h hnew

theorem ContextInv.updateLockBlock : S.ContextInv certs (c.updateLockBlock new).1 := by
  rcases c.updateLockBlock_spec new with he | ⟨he, hflag, -⟩
  · rw [he]
    exact h
  · rw [he]
    refine ⟨h.node_ok, h.parent_ok, fun b hb => ?_⟩
    obtain rfl : new = b := Option.some.inj hb
    exact hnew.lockable hflag

theorem ContextInv.updateCommitBlock : S.ContextInv certs (c.updateCommitBlock new).1 := by
  rcases c.updateCommitBlock_spec new with he | ⟨lock, he, hflag, -, hlock, -⟩
  · rw [he]
    exact h
  · rw [he]
    refine ⟨h.node_ok, h.parent_ok, fun b hb => ?_⟩
    rcases hlock with rfl | ⟨rfl, -⟩
    · exact h.lock_ok b hb
    · obtain rfl : new = b := Option.some.inj hb
      exact hnew.lockable (.inr hflag)

end

theorem updateLockBlock_nodes (c : BftContext) (new : XvBlock) :
    (c.updateLockBlock new).1.nodes = c.nodes := by
  rcases c.updateLockBlock_spec new with he | ⟨he, -⟩ <;> rw [he]

theorem updateCommitBlock_nodes (c : BftContext) (new : XvBlock) :
    (c.updateCommitBlock new).1.nodes = c.nodes := by
  rcases c.updateCommitBlock_spec new with he | ⟨lock, he, -⟩ <;> rw [he]

theorem exists_mark (c : BftContext) (i : Nat) (fs : Finset BlockFlag) (g : BlockFlag) {j : Nat}
    {n : VbNode} (hn : c.nodes[j]? = some n) :
    ∃ n', (c.mark i fs g).nodes[j]? = some n' ∧ n'.block.toBlockBody = n.block.toBlockBody := by
  refine ⟨_, getElem?_modify_of_eq_some hn i _, ?_⟩
  split_ifs <;> rfl

theorem BlockOk.addFlags (h : S.BlockOk certs b) (fs : Finset BlockFlag)
    (hlocked : .locked ∈ fs → ∃ c ∈ certs, S.protocol.Link c b.toBlockBody)
    (hcommitted : .committed ∈ fs → S.protocol.Final certs b.toBlockBody) :
    S.BlockOk certs { b with flags := b.flags ∪ fs } where
  certified := h.certified
  hash_eq := h.hash_eq
  locked hf := (Finset.mem_union.mp hf).elim h.locked hlocked
  committed hf := (Finset.mem_union.mp hf).elim h.committed hcommitted

theorem ContextInv.commitAncestors (fuel : Nat) :
    ∀ {c : BftContext} {i : Nat} {n : VbNode}, S.ContextInv certs c → c.nodes[i]? = some n →
      S.protocol.Final certs n.block.toBlockBody →
      S.ContextInv certs (BftContext.commitAncestors fuel c i) := by
  induction fuel with
  | zero => exact fun h _ _ => h
  | succ fuel ih =>
    intro c i n h hn hfinal
    simp only [BftContext.commitAncestors, hn]
    cases hlive : c.live n.parent with
    | none => exact h
    | some pm =>
      obtain ⟨p, m⟩ := pm
      obtain ⟨hp, hm, -⟩ := BftContext.live_eq_some hlive
      obtain ⟨m', hm', hlink⟩ := h.parent_ok i n p hn hp
      obtain rfl : m = m' := mem_unique hm hm'
      have hmok := h.node_ok p m hm
      have hmfinal := final_of_link hfinal hmok.certified hlink
      obtain ⟨m₂, hm₂, hbody⟩ := exists_mark c p {.committed} .committed hm
      refine ih (h.mark hm (hmok.addFlags _ (by simp) fun _ => hmfinal)) hm₂ ?_
      rw [hbody]
      exact hmfinal

section
variable (h : S.ContextInv certs c)
include h

theorem ContextInv.executeChain {p : Nat} {n pn : VbNode}
    (hn : c.nodes[i]? = some n) (hparent : n.parent = some p) (hpn : c.nodes[p]? = some pn) :
    S.ContextInv certs (c.executeChain p pn) := by
  obtain ⟨pn', hpn', hlink⟩ := h.parent_ok i n p hn hparent
  obtain rfl : pn = pn' := mem_unique hpn hpn'
  have hnok := h.node_ok i n hn
  have hpok := h.node_ok p pn hpn
  have hchild : ∃ c ∈ certs, S.protocol.Link c pn.block.toBlockBody :=
    ⟨_, hnok.certified, hlink⟩
  have hlockOk := hpok.addFlags {.locked} (fun _ => hchild) (by simp)
  -- after the lock the parent is marked and the heap is otherwise as before
  have h₁ := (h.mark hpn (g := .locked) hlockOk).updateLockBlock hlockOk
  unfold BftContext.executeChain
  generalize hc₁ : ((c.mark p {.locked} .locked).updateLockBlock
    { pn.block with flags := pn.block.flags ∪ {.locked} }).1 = c₁ at h₁ ⊢
  have hnodes : c₁.nodes = (c.mark p {.locked} .locked).nodes := by
    rw [← hc₁]
    exact updateLockBlock_nodes _ _
  cases hlive : c₁.live pn.parent with
  | none => simpa only [hc₁, hlive] using h₁
  | some gm =>
    obtain ⟨g, gn⟩ := gm
    obtain ⟨hg, hgn, -⟩ := BftContext.live_eq_some hlive
    obtain ⟨gn₀, hgn₀, hlink'⟩ := h.parent_ok p pn g hpn hg
    obtain ⟨gn₁, hgn₁, hbody⟩ := exists_mark c p {.locked} .locked hgn₀
    obtain rfl : gn = gn₁ := by
      rw [hnodes] at hgn
      exact mem_unique hgn hgn₁
    have hgok := h₁.node_ok g gn hgn
    have hfinal : S.protocol.Final certs gn.block.toBlockBody := by
      refine ⟨hgok.certified, _, hpok.certified, ?_, _, hnok.certified, hlink⟩
      rw [hbody]
      exact hlink'
    have hcommitOk := hgok.addFlags {.locked, .committed}
      (fun _ => exists_child_of_final hfinal) (fun _ => hfinal)
    have h₂ := (h₁.mark hgn (g := .committed) hcommitOk).updateCommitBlock hcommitOk
    obtain ⟨gn₂, hgn₂, hbody₂⟩ := exists_mark c₁ g {.locked, .committed} .committed hgn
    simp only [hc₁, hlive]
    refine ContextInv.commitAncestors _ h₂ (n := gn₂) ?_ (by rw [hbody₂]; exact hfinal)
    rw [updateCommitBlock_nodes]
    exact hgn₂

theorem ContextInv.doExecute (i : Nat) : S.ContextInv certs (c.doExecute i).1 := by
  unfold BftContext.doExecute
  cases hi : c.live (some i) with
  | none => exact h
  | some im =>
    obtain ⟨j, n⟩ := im
    obtain ⟨hij, hn, -⟩ := BftContext.live_eq_some hi
    cases hp : c.live n.parent with
    | none => simpa only [hp] using h
    | some pm =>
      obtain ⟨p, pn⟩ := pm
      obtain ⟨hparent, hpn, -⟩ := BftContext.live_eq_some hp
      simpa only [hp] using h.executeChain hn hparent hpn

theorem ContextInv.executeAll : S.ContextInv certs c.executeAll :=
  foldlRecOn (motive := S.ContextInv certs) _ _ h (fun _ h i _ => h.doExecute i)

end

theorem link_of_linkOk (hpos : ∀ d ∈ certs, 0 < d.height.toNat) {child parent : XvBlock}
    (hc : child.toBlockBody ∈ certs) (hp : S.BlockOk certs parent)
    (hrule : S.rule.linkOk child parent = true) :
    S.protocol.Link child.toBlockBody parent.toBlockBody := by
  have hzero : (0 : UInt64) < child.height := Word.lt_nat.mpr (hpos _ hc)
  exact ⟨(S.rule.hash_eq _ _ hrule).symm.trans hp.hash_eq,
    Word.toNat_of_eq_succ (S.rule.height_eq _ _ hrule).symm hzero⟩

theorem ContextInv.insertNode (hpos : ∀ d ∈ certs, 0 < d.height.toNat) (h : S.ContextInv certs c)
    (hb : S.BlockOk certs b) :
    S.ContextInv certs (c.insertNode S.rule b) := by
  constructor
  · intro j n hn
    rcases getElem?_insertNode.mp hn with hn | ⟨-, rfl⟩
    · exact h.node_ok j n hn
    · exact hb
  · intro j n p hn hp
    rcases getElem?_insertNode.mp hn with hn | ⟨-, rfl⟩
    · obtain ⟨m, hm, hlink⟩ := h.parent_ok j n p hn hp
      exact ⟨m, getElem?_insertNode.mpr (.inl hm), hlink⟩
    · obtain ⟨-, pn, hpn, hrule⟩ := findParent_spec hp
      exact ⟨pn, getElem?_insertNode.mpr (.inl hpn),
        link_of_linkOk hpos hb.certified (h.node_ok p pn hpn) hrule⟩
  · exact h.lock_ok

def Allocated (c : BftContext) (new : Nat) (b : XvBlock) : Prop :=
  ∃ n, c.nodes[new]? = some n ∧ n.block.toBlockBody = b.toBlockBody

section
variable (hpos : ∀ d ∈ certs, 0 < d.height.toNat) {new : Nat} (hb : S.BlockOk certs b)
include hpos hb

theorem ContextInv.adoptChild {acc : BftContext × Bool} (h : S.ContextInv certs acc.1)
    (halloc : Allocated acc.1 new b) (i : Nat) :
    S.ContextInv certs (BftContext.adoptChild S.rule new b acc i).1 ∧
      Allocated (BftContext.adoptChild S.rule new b acc i).1 new b := by
  unfold BftContext.adoptChild
  split
  · exact ⟨h, halloc⟩
  · rename_i n hn
    split_ifs with hcond
    · obtain ⟨m, hm, hbody⟩ := halloc
      constructor
      · refine h.modify (fun n hn => h.node_ok i n hn) (fun _ => rfl) (fun n' p hn' hp => ?_)
        obtain rfl : n = n' := mem_unique hn hn'
        obtain rfl : new = p := Option.some.inj hp
        refine ⟨m, hm, ?_⟩
        rw [hbody]
        exact link_of_linkOk hpos (h.node_ok i n hn).certified hb hcond.2.2
      · refine ⟨_, by rw [getElem?_modify, hm]; rfl, ?_⟩
        split_ifs <;> exact hbody
    · exact ⟨h, halloc⟩

theorem ContextInv.adoptChildren (h : S.ContextInv certs c) (halloc : Allocated c new b) :
    S.ContextInv certs (c.adoptChildren S.rule new b) := by
  have hres := foldlRecOn (motive := fun (acc : BftContext × Bool) =>
      S.ContextInv certs acc.1 ∧ Allocated acc.1 new b) c.hashPool.values
    (BftContext.adoptChild S.rule new b) (b := (c, false)) ⟨h, halloc⟩
    (fun acc hacc i _ => ContextInv.adoptChild hpos hb hacc.1 hacc.2 i)
  unfold BftContext.adoptChildren
  simp only
  split_ifs
  · exact hres.1.executeAll
  · exact hres.1

end

theorem allocated_insertNode (c : BftContext) (rule : NodeRule) (b : XvBlock) :
    Allocated (c.insertNode rule b) c.nodes.length b :=
  ⟨_, getElem?_concat_length, rfl⟩

theorem ContextInv.doUpdate (hpos : ∀ d ∈ certs, 0 < d.height.toNat) (h : S.ContextInv certs c)
    (hb : S.BlockOk certs b) :
    S.ContextInv certs (c.doUpdate S.chk S.rule b).1 := by
  unfold BftContext.doUpdate
  split_ifs with h1 h2 h3 h4
  · exact h
  · exact h
  · exact h
  · obtain ⟨n, hn, hbody⟩ := allocated_insertNode c S.rule b
    obtain ⟨n', hn', hraised⟩ := (executes_doExecute _ c.nodes.length).node _ n hn
    exact ((h.insertNode hpos hb).doExecute _).adoptChildren hpos hb
      ⟨n', hn', hraised.block.body.trans hbody⟩
  · exact (h.insertNode hpos hb).adoptChildren hpos hb (allocated_insertNode c S.rule b)

theorem ContextInv.drops {c' : BftContext} (h : S.ContextInv certs c) (hd : BftContext.Drops c c') :
    S.ContextInv certs c' := by
  refine ⟨fun i n' hn' => ?_, fun i n' p hn' hp => ?_, fun b hb => h.lock_ok b (hd.lock_eq ▸ hb)⟩
  · obtain ⟨n, hn, hblock, -⟩ := hd.node_back hn'
    rw [hblock]
    exact h.node_ok i n hn
  · obtain ⟨n, hn, hblock, -, hnone | hsame⟩ := hd.node_back hn'
    · rw [hnone] at hp
      cases hp
    · obtain ⟨m, hm, hlink⟩ := h.parent_ok i n p hn (hsame ▸ hp)
      obtain ⟨m', hm', hbody, -⟩ := hd.node p m hm
      exact ⟨m', hm', by rw [hblock, hbody]; exact hlink⟩

theorem ContextInv.doSubmit (h : S.ContextInv certs c) : S.ContextInv certs c.doSubmit.1 := by
  refine foldlRecOn (motive := fun (acc : BftContext × List XvBlock) =>
    S.ContextInv certs acc.1) _ _ h ?_
  intro acc hacc i _
  unfold submitNode
  split
  · exact hacc
  · split_ifs
    · exact hacc.drops (.remove _ _ _)
    · exact hacc

theorem ContextInv.doClean (h : S.ContextInv certs c) : S.ContextInv certs c.doClean.1 := by
  refine foldlRecOn (motive := fun (acc : BftContext × List XvBlock) =>
    S.ContextInv certs acc.1) _ _ h ?_
  intro acc hacc i _
  unfold cleanNode
  split
  · exact hacc
  · simp only
    split_ifs
    · exact (hacc.drops (detached_detachParent _ _ _).drops).drops (.remove _ _ _)
    · exact hacc.drops (detached_detachParent _ _ _).drops

end Setting
end TopChain.Bft
