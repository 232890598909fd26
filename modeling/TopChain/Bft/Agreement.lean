import TopChain.Bft.Chain

/-!
# Agreement over all interleavings

A network of nodes, each with its driver rules and its pool.
-/
namespace TopChain.Bft

open Option List TopChain.Base TopChain.Lib TopChain.Lib.LockChain Word BftRules

structure BftNode where
  rules : BftRules
  context : BftContext
  admitted : List XvBlock

namespace BftNode
variable (chk : BlockChecks) (rule : NodeRule) (n : BftNode)

def addProposal (b : XvBlock) : BftNode :=
  { n with rules := n.rules.addProposal b, admitted := b :: n.admitted }

def learn (b : XvBlock) : BftNode := { n with rules := (n.rules.addCertBlock b).1 }

/-- `on_proposal_finish` (and `on_replicate_finish`) for a verified block, with `do_submit`. -/
def onProposalFinish (b : XvBlock) : BftNode :=
  if !BftContext.safeCheckForBlock chk b then n
  else
    let res := n.context.doUpdate chk rule b
    if !res.2 then n
    else
      let submitted := res.1.doSubmit.1
      { n with
        rules := (n.rules.setLockBlock chk submitted.latestLockBlock).1
        context := submitted.doClean.1 }

end BftNode

/-- The nodes with the votes and the certificates of the whole network so far. -/
structure Network (ν : Type) where
  node : ν → BftNode
  votes : Set (ν × BlockBody)
  certs : Set BlockBody

def Network.setNode {ν : Type} [DecidableEq ν] (s : Network ν) (v : ν) (n : BftNode) : Network ν :=
  { s with node := Function.update s.node v n }

/-- The node has the block in its pool, with the committed flag. -/
def Network.Flagged {ν : Type} (s : Network ν) (v : ν) (b : XvBlock) : Prop :=
  ∃ n ∈ (s.node v).context.nodes, n.block = b ∧ b.checkBlockFlag .committed

namespace Setting
variable {ν : Type} (S : Setting ν)

def initNode : BftNode where
  rules := BftRules.init.moveLock S.genesis
  context := { BftContext.init with
    latestCommitBlock := some S.genesis, latestLockBlock := some S.genesis }
  admitted := []

def initNetwork : Network ν := ⟨fun _ => S.initNode, ∅, ∅⟩

/-- An honest node acts, or votes become a certificate. The other nodes vote as they like: `certify`
asks for the votes of the honest members only. -/
inductive Step [DecidableEq ν] (s : Network ν) : Network ν → Prop
  | propose (v : ν) (b : XvBlock) (hv : S.honest v)
      (hpre : (s.node v).rules.safePrecheckForVoting S.chk b = true) :
      Step s (s.setNode v ((s.node v).addProposal b))
  | vote (v : ν) (b : XvBlock) (hv : S.honest v) (hb : b ∈ (s.node v).admitted)
      (hfinal : (s.node v).rules.safeFinalcheckForVoting b = true) :
      Step s { s with votes := insert (v, b.toBlockBody) s.votes }
  | certify (Q : Set ν) (d : BlockBody) (hQ : S.quorum Q)
      (hvoted : ∀ v ∈ Q, S.honest v → (v, d) ∈ s.votes) :
      Step s { s with certs := insert d s.certs }
  | learn (v : ν) (d : BlockBody) (hv : S.honest v) (hd : d ∈ s.certs) :
      Step s (s.setNode v ((s.node v).learn (d.certified S.hash)))
  | finish (v : ν) (d : BlockBody) (hv : S.honest v) (hd : d ∈ s.certs) :
      Step s (s.setNode v ((s.node v).onProposalFinish S.chk S.rule (d.certified S.hash)))
  | drop (v : ν) (keep : XvBlock → Bool) (hv : S.honest v) :
      Step s (s.setNode v { s.node v with rules := (s.node v).rules.filterProposals keep })

/-- The states of the network after any interleaving of steps. -/
def Reachable [DecidableEq ν] (s : Network ν) : Prop := Relation.ReflTransGen S.Step S.initNetwork s

/-- At one node admissions have distinct views, and what it holds is backed by certificates. -/
structure NodeInv (certs : Set BlockBody) (n : BftNode) : Prop where
  voted : ∀ b ∈ n.admitted, b.viewid ≤ n.rules.latestVotedViewid
  views : ∀ b ∈ n.admitted, ∀ b' ∈ n.admitted, b.viewid = b'.viewid →
    b.toBlockBody = b'.toBlockBody
  viewid_ge : ∀ b ∈ n.admitted, b.height ≤ b.viewid
  cert_ok : ∀ c ∈ n.rules.certifiedBlocks.values,
    c.toBlockBody ∈ certs ∧ c.blockHash = S.hash c.toBlockBody
  context_ok : S.ContextInv certs n.context

/-- `a` has the certificates of the network, a lock for every vote, and the drivers' locks. -/
structure Sim (s : Network ν) (a : State ν BlockBody) : Prop where
  certs_eq : a.certs = s.certs
  voted : ∀ v d, (v, d) ∈ s.votes → ∃ l, ⟨v, d, l⟩ ∈ a.votes
  lock_eq : ∀ v, ∃ lock, (s.node v).rules.latestLockBlock = some lock ∧
    lock.toBlockBody = a.lock v ∧ lock.blockHash = S.hash (a.lock v)

/-- The invariant of every reachable network. -/
structure NetInv [DecidableEq ν] (s : Network ν) : Prop where
  nodes : ∀ v, S.NodeInv s.certs (s.node v)
  votes_admitted : ∀ v d, (v, d) ∈ s.votes → ∃ b ∈ (s.node v).admitted, b.toBlockBody = d
  certs_voted : ∀ d ∈ s.certs, ∃ Q, S.quorum Q ∧ ∀ v ∈ Q, S.honest v → (v, d) ∈ s.votes
  sim : ∃ a, S.protocol.Reachable a ∧ S.Sim s a

variable {S} {s s' : Network ν} {certs certs' : Set BlockBody}

theorem NodeInv.mono (hsub : certs ⊆ certs') {n : BftNode} (h : S.NodeInv certs n) :
    S.NodeInv certs' n where
  voted := h.voted
  views := h.views
  viewid_ge := h.viewid_ge
  cert_ok c hc := ⟨hsub (h.cert_ok c hc).1, (h.cert_ok c hc).2⟩
  context_ok := h.context_ok.mono hsub

theorem setNode_ind [DecidableEq ν] {P : BftNode → Prop} {v : ν} {n : BftNode}
    (h : ∀ u, P (s.node u))
    (hn : P n) (u : ν) : P ((s.setNode v n).node u) := by
  by_cases huv : u = v
  · subst huv
    simpa [Network.setNode] using hn
  · simpa [Network.setNode, huv] using h u

variable [DecidableEq ν]

variable {d : BlockBody} {b : XvBlock}

theorem NetInv.view_unique (h : S.NetInv s) {d' : BlockBody} (hd' : d' ∈ s.certs) {Q : Set ν}
    (hQ : S.quorum Q) (hvoted : ∀ v ∈ Q, S.honest v → (v, d) ∈ s.votes)
    (hview : d.viewid = d'.viewid) : d = d' := by
  obtain ⟨Q', hQ', hvoted'⟩ := h.certs_voted d' hd'
  obtain ⟨v, hv, hv', hhon⟩ := S.quorum_inter Q Q' hQ hQ'
  obtain ⟨b, hb, rfl⟩ := h.votes_admitted v d (hvoted v hv hhon)
  obtain ⟨b', hb', rfl⟩ := h.votes_admitted v d' (hvoted' v hv' hhon)
  exact (h.nodes v).views b hb b' hb' hview

theorem NetInv.cert_view_unique (h : S.NetInv s) {d' : BlockBody} (hd : d ∈ s.certs)
    (hd' : d' ∈ s.certs) (hview : d.viewid = d'.viewid) : d = d' := by
  obtain ⟨Q, hQ, hvoted⟩ := h.certs_voted d hd
  exact h.view_unique hd' hQ hvoted hview

section
variable (h : S.NetInv s) {Q : Set ν} (hQ : S.quorum Q)
  (hvoted : ∀ v ∈ Q, S.honest v → (v, d) ∈ s.votes)
include h hQ hvoted

theorem NetInv.viewid_top (htop : d.height = Word.top) : d.viewid = Word.top := by
  obtain ⟨v, hv, -, hhon⟩ := S.quorum_inter Q Q hQ hQ
  obtain ⟨b, hb, rfl⟩ := h.votes_admitted v d (hvoted v hv hhon)
  have hge := (h.nodes v).viewid_ge b hb
  have hlt := toNat_lt b.viewid
  rw [htop, le_nat] at hge
  rw [eq_nat]
  change 18446744073709551615 ≤ b.viewid.toNat at hge
  change b.viewid.toNat = 18446744073709551615
  omega

theorem NetInv.solo_guard {c : BlockBody} (hc : c ∈ s.certs)
    (hheight : c.height.toNat = d.height.toNat) (htop : c.height = Word.top ∨ d.height = Word.top) :
    c = d := by
  have hcd : c.height = d.height := eq_nat.mpr hheight
  have hd : d.height = Word.top := htop.elim (fun hc => hcd ▸ hc) id
  obtain ⟨Q', hQ', hvoted'⟩ := h.certs_voted c hc
  have hview := h.viewid_top hQ hvoted hd
  have hview' := h.viewid_top hQ' hvoted' (hcd.trans hd)
  exact (h.view_unique hc hQ hvoted (hview.trans hview'.symm)).symm

end

variable {v : ν} {n : BftNode}

omit [DecidableEq ν] in
theorem NodeInv.extends {certs : Set BlockBody} (h : S.NodeInv certs n) {lock : XvBlock}
    (hhash : lock.blockHash = S.hash lock.toBlockBody) (hext : n.rules.ExtendsLock lock b) :
    S.protocol.Extends certs lock.toBlockBody b.toBlockBody := by
  rcases hext with ⟨hh, hlast⟩ | ⟨hh, c, hc, hch, hchash, hclast⟩
  · exact .inl ⟨hlast.trans hhash, hh⟩
  · obtain ⟨hcert, hceq⟩ := h.cert_ok c hc
    have hlow : c.height.toNat = lock.height.toNat + 1 := by omega
    exact .inr ⟨c.toBlockBody, hcert, ⟨hchash.symm.trans hceq, hch.symm⟩,
      ⟨hclast.trans hhash, hlow⟩⟩

section
variable (h : S.NetInv s)
include h

theorem NetInv.vote (hv : S.honest v) (hb : b ∈ (s.node v).admitted)
    (hfinal : (s.node v).rules.safeFinalcheckForVoting b = true) :
    S.NetInv { s with votes := insert (v, b.toBlockBody) s.votes } := by
  obtain ⟨a, hreach, hsim⟩ := h.sim
  obtain ⟨lock, hl, hup, hext⟩ := safeFinalcheckForVoting_spec hfinal
  obtain ⟨lock', hl', hbody, hhash⟩ := hsim.lock_eq v
  obtain rfl : lock = lock' := mem_unique hl hl'
  rw [← hbody] at hhash
  have hupa : S.protocol.height (a.lock v) < S.protocol.height b.toBlockBody := by
    rw [← hbody]
    exact lt_nat.mp hup
  have hexta : S.protocol.Extends a.certs (a.lock v) b.toBlockBody ∨
      S.protocol.solo b.toBlockBody := by
    rw [← hbody, hsim.certs_eq]
    exact hext.imp ((h.nodes v).extends hhash) And.right
  refine ⟨h.nodes, ?_, ?_, _, hreach.step (.vote v _ hv hupa hexta), hsim.certs_eq, ?_,
    hsim.lock_eq⟩
  · rintro u d (hud | hud)
    · obtain ⟨rfl, rfl⟩ := Prod.mk.inj hud
      exact ⟨b, hb, rfl⟩
    · exact h.votes_admitted u d hud
  · intro d hd
    obtain ⟨Q, hQ, hvoted⟩ := h.certs_voted d hd
    exact ⟨Q, hQ, fun u hu hhon => .inr (hvoted u hu hhon)⟩
  · rintro u d (hud | hud)
    · obtain ⟨rfl, rfl⟩ := Prod.mk.inj hud
      exact ⟨a.lock u, .inl rfl⟩
    · obtain ⟨l, hl⟩ := hsim.voted u d hud
      exact ⟨l, .inr hl⟩

theorem NetInv.certify {Q : Set ν} (hQ : S.quorum Q)
    (hvoted : ∀ v ∈ Q, S.honest v → (v, d) ∈ s.votes)
    (hinj : Set.InjOn S.hash (insert S.genesis.toBlockBody (insert d s.certs))) :
    S.NetInv { s with certs := insert d s.certs } := by
  obtain ⟨a, hreach, hsim⟩ := h.sim
  have hident : ∀ c ∈ insert S.protocol.genesis a.certs,
      S.protocol.ident c = S.protocol.ident d → c = d := by
    intro c hc he
    rw [hsim.certs_eq] at hc
    exact hinj (hc.imp id .inr) (.inr (.inl rfl)) he
  have hsolo : ∀ c ∈ a.certs, S.protocol.height c = S.protocol.height d →
      S.protocol.solo c ∨ S.protocol.solo d → c = d := by
    intro c hc hh hs
    rw [hsim.certs_eq] at hc
    exact h.solo_guard hQ hvoted hc hh hs
  have hstep := hreach.step (.certify Q d hQ
    (fun v hv hhon => hsim.voted v d (hvoted v hv hhon)) hident hsolo)
  refine ⟨fun v => (h.nodes v).mono (Set.subset_insert _ _), h.votes_admitted, ?_, _, hstep,
    ?_, hsim.voted, hsim.lock_eq⟩
  · rintro c (rfl | hc)
    · exact ⟨Q, hQ, hvoted⟩
    · exact h.certs_voted c hc
  · exact congrArg (insert d) hsim.certs_eq

theorem NetInv.lockable_unique {a : State ν BlockBody} (ha : S.protocol.Inv a)
    (hcerts : a.certs = s.certs) {d' : BlockBody} (hd : S.protocol.Lockable s.certs d)
    (hd' : S.protocol.Lockable s.certs d') (hheight : d.height = d'.height)
    (hview : d.viewid = d'.viewid) : d = d' := by
  have hgen : ∀ c ∈ s.certs, S.genesis.height.toNat < c.height.toNat := by
    rw [← hcerts]
    exact ha.above_genesis
  rcases hd with rfl | ⟨hc, -⟩ <;> rcases hd' with rfl | ⟨hc', -⟩
  · rfl
  · exact absurd (congrArg UInt64.toNat hheight) (hgen _ hc').ne
  · exact absurd (congrArg UInt64.toNat hheight) (hgen _ hc).ne'
  · exact h.cert_view_unique hc hc' hview

theorem NetInv.context_finish (hd : d ∈ s.certs) : S.ContextInv s.certs
      ((s.node v).context.doUpdate S.chk S.rule (d.certified S.hash)).1.doSubmit.1 := by
  obtain ⟨a, hreach, hsim⟩ := h.sim
  have hpos : ∀ d ∈ s.certs, 0 < d.height.toNat := by
    rw [← hsim.certs_eq]
    exact fun c hc => (Nat.zero_le _).trans_lt (hreach.inv.above_genesis c hc)
  have hok : S.BlockOk s.certs (d.certified S.hash) :=
    ⟨hd, rfl, by simp [BlockBody.certified], by simp [BlockBody.certified]⟩
  exact ((h.nodes v).context_ok.doUpdate hpos hok).doSubmit

theorem NetInv.votes_admitted_setNode
    (hadm : ∀ b ∈ (s.node v).admitted, b ∈ n.admitted) (u : ν) (d : BlockBody)
    (hd : (u, d) ∈ s.votes) :
    ∃ b ∈ ((s.setNode v n).node u).admitted, b.toBlockBody = d := by
  obtain ⟨b, hb, hbd⟩ := h.votes_admitted u d hd
  by_cases huv : u = v
  · subst huv
    exact ⟨b, by simpa [Network.setNode] using hadm b hb, hbd⟩
  · exact ⟨b, by simpa [Network.setNode, huv] using hb, hbd⟩

theorem NetInv.setNode_same (hn : S.NodeInv s.certs n)
    (hadm : ∀ b ∈ (s.node v).admitted, b ∈ n.admitted)
    (hlock : ∀ lock, (s.node v).rules.latestLockBlock = some lock →
      ∃ lock', n.rules.latestLockBlock = some lock' ∧ lock'.toBlockBody = lock.toBlockBody ∧
        lock'.blockHash = lock.blockHash) :
    S.NetInv (s.setNode v n) where
  nodes := setNode_ind h.nodes hn
  votes_admitted := h.votes_admitted_setNode hadm
  certs_voted := h.certs_voted
  sim := by
    obtain ⟨a, hreach, hsim⟩ := h.sim
    refine ⟨a, hreach, hsim.certs_eq, hsim.voted, fun u => ?_⟩
    by_cases huv : u = v
    · subst huv
      obtain ⟨lock, hl, hb, hh⟩ := hsim.lock_eq u
      obtain ⟨lock', hl', hb', hh'⟩ := hlock lock hl
      exact ⟨lock', by simpa [Network.setNode] using hl', hb'.trans hb, hh'.trans hh⟩
    · simpa [Network.setNode, huv] using hsim.lock_eq u

theorem NetInv.setNode_up (hv : S.honest v) (hn : S.NodeInv s.certs n)
    (hadm : n.admitted = (s.node v).admitted) {lock lock' : XvBlock}
    (hl : (s.node v).rules.latestLockBlock = some lock)
    (hl' : n.rules.latestLockBlock = some lock') (hup : lock.height < lock'.height)
    (hhash : lock'.blockHash = S.hash lock'.toBlockBody)
    (hlockable : S.protocol.Lockable s.certs lock'.toBlockBody) :
    S.NetInv (s.setNode v n) where
  nodes := setNode_ind h.nodes hn
  votes_admitted := h.votes_admitted_setNode (fun b hb => hadm ▸ hb)
  certs_voted := h.certs_voted
  sim := by
    obtain ⟨a, hreach, hsim⟩ := h.sim
    have ha := hreach.inv
    obtain ⟨lock₀, hl₀, hb₀, -⟩ := hsim.lock_eq v
    obtain rfl : lock = lock₀ := mem_unique hl hl₀
    have hupa : S.protocol.height (a.lock v) < S.protocol.height lock'.toBlockBody := by
      rw [← hb₀]
      exact lt_nat.mp hup
    rw [← hsim.certs_eq] at hlockable
    -- above a lock, so not the genesis
    have hcert : lock'.toBlockBody ∈ a.certs ∧
        ∃ c ∈ a.certs, S.protocol.Link c lock'.toBlockBody := by
      rcases hlockable with hg | hc
      · have hle := ha.genesis_le (ha.lock_ok v hv).mem
        rw [hg] at hupa
        exact absurd hupa (not_lt.mpr hle)
      · exact hc
    refine ⟨_, hreach.step (.lock v _ hcert.1 hcert.2 hupa), hsim.certs_eq, hsim.voted, fun u => ?_⟩
    by_cases huv : u = v
    · subst huv
      exact ⟨lock', by simpa [Network.setNode] using hl', by simp, by simpa using hhash⟩
    · simpa [Network.setNode, huv] using hsim.lock_eq u

theorem NetInv.addProposal (hpre : (s.node v).rules.safePrecheckForVoting S.chk b = true) :
    S.NetInv (s.setNode v ((s.node v).addProposal b)) := by
  obtain ⟨hblock, -, -, hview, -⟩ := safePrecheckForVoting_spec hpre
  obtain ⟨lock, hlock⟩ := safeCheckForBlock_lock hblock
  have hn := h.nodes v
  refine h.setNode_same ⟨?_, ?_, ?_, hn.cert_ok, hn.context_ok⟩
    (fun _ => mem_cons_of_mem _) (fun lock hl => ⟨lock, hl, rfl, rfl⟩)
  · -- the watermark covers the old admissions and the new one
    intro x hx
    rcases mem_cons.mp hx with rfl | hx
    · exact le_max_right _ _
    · exact (hn.voted x hx).trans (le_max_left _ _)
  · have hnew : ∀ x ∈ (s.node v).admitted, x.viewid ≠ b.viewid := fun x hx =>
      ((hn.voted x hx).trans_lt hview).ne
    intro x hx x' hx' he
    rcases mem_cons.mp hx with h1 | h1 <;> rcases mem_cons.mp hx' with h2 | h2
    · rw [h1, h2]
    · exact absurd (h1 ▸ he.symm) (hnew x' h2)
    · exact absurd (h2 ▸ he) (hnew x h1)
    · exact hn.views x h1 x' h2 he
  · intro x hx
    rcases mem_cons.mp hx with rfl | hx
    · exact ((safeCheckForBlock_iff hlock).mp hblock).1
    · exact hn.viewid_ge x hx

theorem NetInv.learn (hd : d ∈ s.certs) :
    S.NetInv (s.setNode v ((s.node v).learn (d.certified S.hash))) := by
  obtain ⟨m, he, hm⟩ := addCertBlock_spec (s.node v).rules (d.certified S.hash)
  have hn := h.nodes v
  have hnode : (s.node v).learn (d.certified S.hash) =
      { s.node v with rules := { (s.node v).rules with certifiedBlocks := m } } := by
    rw [BftNode.learn, he]
  rw [hnode]
  refine h.setNode_same ⟨hn.voted, hn.views, hn.viewid_ge, ?_, hn.context_ok⟩ (fun _ => id)
    (fun lock hl => ⟨lock, hl, rfl, rfl⟩)
  intro c hc
  rcases hm c hc with rfl | hc
  · exact ⟨hd, rfl⟩
  · exact hn.cert_ok c hc

theorem NetInv.drop (keep : XvBlock → Bool) :
    S.NetInv (s.setNode v { s.node v with rules := (s.node v).rules.filterProposals keep }) := by
  have hn := h.nodes v
  exact h.setNode_same ⟨hn.voted, hn.views, hn.viewid_ge, hn.cert_ok, hn.context_ok⟩ (fun _ => id)
    (fun lock hl => ⟨lock, hl, rfl, rfl⟩)

theorem NetInv.finish (hv : S.honest v) (hd : d ∈ s.certs) :
    S.NetInv (s.setNode v ((s.node v).onProposalFinish S.chk S.rule (d.certified S.hash))) := by
  have hn := h.nodes v
  have hsame := h.setNode_same (v := v) hn (fun _ => id) (fun lock hl => ⟨lock, hl, rfl, rfl⟩)
  unfold BftNode.onProposalFinish
  split_ifs
  · exact hsame
  · simp only
    split_ifs
    · exact hsame
    · have hctx := h.context_finish (v := v) hd
      generalize ((s.node v).context.doUpdate S.chk S.rule (d.certified S.hash)).1.doSubmit.1
        = ctx at hctx ⊢
      obtain ⟨hcert, hview, -⟩ :=
        setLockBlock_frame S.chk (s.node v).rules ctx.latestLockBlock
      have hn' : S.NodeInv s.certs { s.node v with
          rules := ((s.node v).rules.setLockBlock S.chk ctx.latestLockBlock).1
          context := ctx.doClean.1 } :=
        ⟨fun b hb => (hn.voted b hb).trans hview, hn.views, hn.viewid_ge,
          fun c hc => hn.cert_ok c (hcert c hc), hctx.doClean⟩
      obtain ⟨a, hreach, hsim⟩ := h.sim
      obtain ⟨lock, hl, hbody, hhash⟩ := hsim.lock_eq v
      rcases setLockBlock_cases S.chk (s.node v).rules ctx.latestLockBlock with
        he | ⟨lock', b, hb, hl', hheight, hvw, he⟩ | ⟨b, hb, hsafe, he⟩
      · refine h.setNode_same hn' (fun _ => id) (fun lock hl => ⟨lock, ?_, rfl, rfl⟩)
        simpa only [he] using hl
      · -- the same height and view: the same block under another object
        obtain ⟨hbhash, hblock⟩ := hctx.lock_ok b hb
        refine h.setNode_same hn' (fun _ => id) (fun lock₀ hl₀ => ⟨b, by simp only [he], ?_⟩)
        obtain rfl : lock = lock₀ := mem_unique hl hl₀
        obtain rfl : lock = lock' := mem_unique hl hl'
        have hlockable : S.protocol.Lockable s.certs lock.toBlockBody := by
          rw [hbody, ← hsim.certs_eq]
          exact hreach.inv.lock_ok v hv
        have heq := h.lockable_unique hreach.inv hsim.certs_eq hlockable hblock hheight hvw
        exact ⟨heq.symm, by rw [hbhash, hhash, ← hbody, heq]⟩
      · obtain ⟨hbhash, hblock⟩ := hctx.lock_ok b hb
        have hup := ((safeCheckForBlock_iff hl).mp (hsafe lock hl)).2.1
        exact h.setNode_up hv hn' rfl hl (by simp only [he]; rfl) hup hbhash hblock

end

theorem netInv_init : S.NetInv S.initNetwork where
  nodes v := by
    refine ⟨by simp [initNetwork, initNode], by simp [initNetwork, initNode],
      by simp [initNetwork, initNode], ?_, ?_, ?_, ?_⟩
    · simp [initNetwork, initNode, BftRules.init, BftRules.moveLock, SortedMap.filter,
        SortedMap.values, SortedMap.empty]
    · simp [initNetwork, initNode, BftContext.init]
    · simp [initNetwork, initNode, BftContext.init]
    · intro b hb
      obtain rfl : S.genesis = b := Option.some.inj hb
      exact ⟨S.genesis_hash, .inl rfl⟩
  votes_admitted := by simp [initNetwork]
  certs_voted := by simp [initNetwork]
  sim := ⟨⟨fun _ => S.genesis.toBlockBody, ∅, ∅⟩,
    ⟨_, ⟨fun _ _ => rfl, rfl, rfl⟩, .refl⟩, rfl, by simp [initNetwork],
    fun _ => ⟨S.genesis, rfl, rfl, S.genesis_hash⟩⟩

theorem certs_step (hstep : S.Step s s') : s.certs ⊆ s'.certs := by
  cases hstep with
  | certify => exact Set.subset_insert _ _
  | _ => exact subset_rfl

theorem certs_run (hrun : Relation.ReflTransGen S.Step s s') : s.certs ⊆ s'.certs := by
  induction hrun with
  | refl => exact subset_rfl
  | tail _ hstep ih => exact ih.trans (certs_step hstep)

theorem netInv_step (h : S.NetInv s) (hstep : S.Step s s')
    (hinj : Set.InjOn S.hash (insert S.genesis.toBlockBody s'.certs)) : S.NetInv s' := by
  cases hstep with
  | propose v b _ hpre => exact h.addProposal hpre
  | vote v b hv hb hfinal => exact h.vote hv hb hfinal
  | certify Q d hQ hvoted => exact h.certify hQ hvoted hinj
  | learn v d _ hd => exact h.learn hd
  | finish v d hv hd => exact h.finish hv hd
  | drop v keep _ => exact h.drop keep

theorem netInv_reachable (hr : S.Reachable s)
    (hinj : Set.InjOn S.hash (insert S.genesis.toBlockBody s.certs)) : S.NetInv s := by
  induction hr with
  | refl => exact netInv_init
  | tail _ hstep ih =>
    exact netInv_step (ih (hinj.mono (Set.insert_subset_insert (certs_step hstep)))) hstep hinj

theorem NetInv.final_of_flagged (h : S.NetInv s) {v : ν} (hb : s.Flagged v b) :
    S.protocol.Final s.certs b.toBlockBody ∧ b.blockHash = S.hash b.toBlockBody := by
  obtain ⟨n, hn, rfl, hflag⟩ := hb
  obtain ⟨i, hi⟩ := List.getElem?_of_mem hn
  have hok := (h.nodes v).context_ok.node_ok i n hi
  exact ⟨hok.committed (by simpa [XvBlock.checkBlockFlag] using hflag), hok.hash_eq⟩

/-- **Agreement.** Blocks of one height that nodes ever flag as committed have one hash. -/
theorem committed_agreement {s s' : Network ν} (hr : S.Reachable s)
    (hrun : Relation.ReflTransGen S.Step s s')
    (hinj : Set.InjOn S.hash (insert S.genesis.toBlockBody s'.certs))
    {v w : ν} {b b' : XvBlock}
    (hb : s.Flagged v b) (hb' : s'.Flagged w b') (hheight : b.height = b'.height) :
    b.blockHash = b'.blockHash := by
  have hsub := certs_run hrun
  have h := netInv_reachable hr (hinj.mono (Set.insert_subset_insert hsub))
  have h' := netInv_reachable (hr.trans hrun) hinj
  obtain ⟨hfinal, hhash⟩ := h.final_of_flagged hb
  obtain ⟨hfinal', hhash'⟩ := h'.final_of_flagged hb'
  obtain ⟨a, hreach, hsim⟩ := h'.sim
  rw [← hsim.certs_eq] at hfinal' hsub
  have heq := hreach.inv.final_unique (hfinal.mono hsub) hfinal' (congrArg UInt64.toNat hheight)
  rw [hhash, hhash', heq]

/-- Of two blocks that nodes ever flag as committed, one is an ancestor of the other. -/
theorem committed_blocks_chained (hr : S.Reachable s) (hrun : Relation.ReflTransGen S.Step s s')
    (hinj : Set.InjOn S.hash (insert S.genesis.toBlockBody s'.certs))
    {v w : ν} {b b' : XvBlock} (hb : s.Flagged v b) (hb' : s'.Flagged w b') :
    S.protocol.Chain s'.certs b'.toBlockBody b.toBlockBody ∨
      S.protocol.Chain s'.certs b.toBlockBody b'.toBlockBody := by
  have hsub := certs_run hrun
  have h := netInv_reachable hr (hinj.mono (Set.insert_subset_insert hsub))
  have h' := netInv_reachable (hr.trans hrun) hinj
  have hfinal := (h.final_of_flagged hb).1.mono hsub
  have hfinal' := (h'.final_of_flagged hb').1
  obtain ⟨a, hreach, hsim⟩ := h'.sim
  rw [← hsim.certs_eq] at hfinal hfinal' ⊢
  have hlow : ∀ c p : BlockBody, S.protocol.Link c p → ¬ p.height = Word.top := by
    intro c p hlink htop
    have hheight : c.height.toNat = p.height.toNat + 1 := hlink.2
    have hlt := toNat_lt c.height
    rw [hheight, htop] at hlt
    exact absurd hlt (by decide)
  exact (le_total b.height.toNat b'.height.toNat).imp
    (fun hle => hreach.inv.chain_of_final hlow hfinal hfinal' (Nat.add_sub_of_le hle).symm)
    (fun hle => hreach.inv.chain_of_final hlow hfinal' hfinal (Nat.add_sub_of_le hle).symm)

end Setting

/-! ## A run that commits

Two honest nodes take one chain of three blocks through all steps. -/

namespace Demo

def setting : Setting Bool where
  chk := ⟨fun _ _ => true, fun _ _ => true, fun _ _ => true, fun _ _ => true⟩
  rule :=
    { linkOk := fun child parent =>
        parent.height + 1 = child.height && parent.blockHash = child.lastBlockHash
      height_eq := by simp +contextual
      hash_eq := by simp +contextual }
  hash := BlockBody.headerHash
  genesis :=
    { chainid := 0, account := "T", level := .table, height := 0, viewid := 0, viewtoken := 1,
      validator := ⟨1, 0⟩, auditor := ⟨0, 0⟩, lastBlockHash := "", headerHash := "g",
      justifyCertHash := "", outputRootHash := "", blockHash := "g",
      flags := {.authenticated, .committed} }
  genesis_hash := rfl
  honest _ := True
  quorum Q := Q = Set.univ
  quorum_inter := by
    rintro _ _ rfl rfl
    exact ⟨true, trivial, trivial, trivial⟩

def body (h : UInt64) (hash last : String) : BlockBody where
  chainid := 0
  account := "T"
  level := .table
  height := h
  viewid := h
  viewtoken := 1
  validator := ⟨1, 0⟩
  auditor := ⟨0, 0⟩
  lastBlockHash := last
  headerHash := hash
  justifyCertHash := ""
  outputRootHash := ""

def round (n : BftNode) (d : BlockBody) : BftNode :=
  ((n.addProposal d.proposal).learn (d.certified setting.hash)).onProposalFinish setting.chk
    setting.rule (d.certified setting.hash)

theorem both (votes : Set (Bool × BlockBody)) (certs : Set BlockBody) (n m : BftNode)
    (hstep : ∀ (t : Network Bool) (v : Bool), t.certs = certs → t.node v = n →
      setting.Step t (t.setNode v m)) :
    Relation.ReflTransGen setting.Step ⟨fun _ => n, votes, certs⟩ ⟨fun _ => m, votes, certs⟩ := by
  let s : Network Bool := ⟨fun _ => n, votes, certs⟩
  have h1 := hstep s true rfl rfl
  have h2 := hstep (s.setNode true m) false rfl (by simp [Network.setNode, s])
  have hlast : (s.setNode true m).setNode false m = ⟨fun _ => m, votes, certs⟩ := by
    simp only [Network.setNode, Network.mk.injEq, and_true, s]
    funext v
    cases v <;> simp
  exact hlast ▸ (Relation.ReflTransGen.single h1).tail h2

theorem round_run (n : BftNode) (votes : Set (Bool × BlockBody)) (certs : Set BlockBody)
    (d : BlockBody) (hpre : n.rules.safePrecheckForVoting setting.chk d.proposal = true)
    (hfinal : (n.addProposal d.proposal).rules.safeFinalcheckForVoting d.proposal = true) :
    Relation.ReflTransGen setting.Step ⟨fun _ => n, votes, certs⟩
      ⟨fun _ => round n d, insert (false, d) (insert (true, d) votes), insert d certs⟩ := by
  have hprop := both votes certs n (n.addProposal d.proposal)
    fun t v _ ht => ht ▸ Setting.Step.propose v _ trivial (ht ▸ hpre)
  have hvote : ∀ (votes : Set (Bool × BlockBody)) (v : Bool), setting.Step
      ⟨fun _ => n.addProposal d.proposal, votes, certs⟩
      ⟨fun _ => n.addProposal d.proposal, insert (v, d) votes, certs⟩ := fun votes v =>
    .vote v d.proposal trivial mem_cons_self hfinal
  have hcertify : setting.Step
      ⟨fun _ => n.addProposal d.proposal, insert (false, d) (insert (true, d) votes), certs⟩
      ⟨fun _ => n.addProposal d.proposal, insert (false, d) (insert (true, d) votes),
        insert d certs⟩ := by
    refine .certify Set.univ d rfl fun v _ _ => ?_
    cases v
    · exact .inl rfl
    · exact .inr (.inl rfl)
  have hlearn := both (insert (false, d) (insert (true, d) votes)) (insert d certs)
    (n.addProposal d.proposal) ((n.addProposal d.proposal).learn (d.certified setting.hash))
    fun t v ht hn => hn ▸ Setting.Step.learn v d trivial (ht ▸ .inl rfl)
  refine ((hprop.tail (hvote _ true)).tail (hvote _ false)).tail hcertify |>.trans hlearn
    |>.trans (both _ _ _ _ fun t v ht hn => ?_)
  rw [round, ← hn]
  exact Setting.Step.finish v d trivial (ht ▸ .inl rfl)

def b₁ : BlockBody := body 1 "h1" "g"
def b₂ : BlockBody := body 2 "h2" "h1"
def b₃ : BlockBody := body 3 "h3" "h2"
def b₄ : BlockBody := body 4 "h4" "h3"

def votesOf (d : BlockBody) (votes : Set (Bool × BlockBody)) : Set (Bool × BlockBody) :=
  insert (false, d) (insert (true, d) votes)

/-- Both nodes after three rounds, when the first block is committed. -/
def three : Network Bool :=
  ⟨fun _ => round (round (round setting.initNode b₁) b₂) b₃,
    votesOf b₃ (votesOf b₂ (votesOf b₁ ∅)), insert b₃ (insert b₂ (insert b₁ ∅))⟩

/-- Both nodes after a fourth round, when the second block is committed too. -/
def four : Network Bool :=
  ⟨fun v => round (three.node v) b₄, votesOf b₄ three.votes, insert b₄ three.certs⟩

theorem three_reachable : setting.Reachable three := by
  have h₁ := round_run setting.initNode ∅ ∅ b₁ (by decide) (by decide)
  have h₂ := round_run (round setting.initNode b₁) _ _ b₂ (by decide) (by decide) |> h₁.trans
  exact round_run (round (round setting.initNode b₁) b₂) _ _ b₃ (by decide) (by decide) |> h₂.trans

theorem three_four : Relation.ReflTransGen setting.Step three four :=
  round_run _ _ _ b₄ (by decide) (by decide)

/-- The first two blocks as the nodes hold them once they are committed. -/
def committed (d : BlockBody) : XvBlock :=
  { d with blockHash := d.headerHash, flags := {.authenticated, .locked, .committed} }

theorem three_flagged (v : Bool) : three.Flagged v (committed b₁) :=
  ⟨⟨committed b₁, none, ∅⟩, by decide +revert, rfl, by decide⟩

theorem four_flagged (v : Bool) : four.Flagged v (committed b₂) :=
  ⟨⟨committed b₂, none, ∅⟩, by decide +revert, rfl, by decide⟩

theorem hash_injOn : Set.InjOn setting.hash (insert setting.genesis.toBlockBody four.certs) := by
  rintro x (rfl | rfl | rfl | rfl | rfl | hx) y (rfl | rfl | rfl | rfl | rfl | hy) h
  all_goals first
    | rfl
    | exact absurd h (by decide)
    | exact absurd hx (Set.notMem_empty _)
    | exact absurd hy (Set.notMem_empty _)

end Demo

open Demo in
theorem committed_agreement_three_chain : ∃ s : Network Bool, setting.Reachable s ∧
    ∃ b b' : XvBlock, s.Flagged true b ∧ s.Flagged false b' ∧ b.height = 1 ∧
      b.blockHash = b'.blockHash := by
  refine ⟨three, three_reachable, _, _, three_flagged true, three_flagged false, rfl, ?_⟩
  exact Setting.committed_agreement three_reachable .refl
    (hash_injOn.mono (Set.insert_subset_insert (Set.subset_insert _ _))) (three_flagged true)
    (three_flagged false) rfl

open Demo in
theorem committed_blocks_chained_sample :
    three.Flagged true (committed b₁) ∧ four.Flagged false (committed b₂) ∧
      (setting.protocol.Chain four.certs b₂ b₁ ∨ setting.protocol.Chain four.certs b₁ b₂) :=
  ⟨three_flagged true, four_flagged false, Setting.committed_blocks_chained three_reachable
    three_four hash_injOn (three_flagged true) (four_flagged false)⟩

end TopChain.Bft
