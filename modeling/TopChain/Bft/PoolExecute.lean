import TopChain.Bft.Context
import TopChain.Lib.Loop

/-!
# What the three-chain rule does to the pool

`do_execute` raises status flags and may move the lock and the commit.
-/
namespace TopChain.Bft

open Finset Option TopChain.Base TopChain.Lib

structure Grows (b b' : XvBlock) : Prop where
  body : b'.toBlockBody = b.toBlockBody
  hash : b'.blockHash = b.blockHash
  flags : b.flags ⊆ b'.flags

namespace Grows
variable {b b' b'' : XvBlock}

protected theorem refl (b : XvBlock) : Grows b b := ⟨rfl, rfl, Finset.Subset.refl _⟩

protected theorem trans (h : Grows b b') (h' : Grows b' b'') : Grows b b'' :=
  ⟨h'.body.trans h.body, h'.hash.trans h.hash, h.flags.trans h'.flags⟩

theorem addFlags (b : XvBlock) (fs : Finset BlockFlag) : Grows b { b with flags := b.flags ∪ fs } :=
  ⟨rfl, rfl, subset_union_left⟩

theorem height_eq (h : Grows b b') : b'.height = b.height := congrArg BlockBody.height h.body

theorem viewid_eq (h : Grows b b') : b'.viewid = b.viewid := congrArg BlockBody.viewid h.body

end Grows

def Below (a b : XvBlock) : Prop := a.height < b.height ∧ a.viewid < b.viewid

instance instDecidableBelow (a b : XvBlock) : Decidable (Below a b) :=
  inferInstanceAs (Decidable (_ ∧ _))

/-- The block stays or gives way to one that is not lower in height nor in view. -/
def Rises (o o' : Option XvBlock) : Prop :=
  ∀ b, o = some b → ∃ b', o' = some b' ∧ b.height ≤ b'.height ∧ b.viewid ≤ b'.viewid

theorem Rises.refl (o : Option XvBlock) : Rises o o := fun b h => ⟨b, h, le_rfl, le_rfl⟩

variable {o : Option XvBlock} {b : XvBlock}

theorem Rises.trans {o' o'' : Option XvBlock} (h : Rises o o') (h' : Rises o' o'') :
    Rises o o'' := by
  intro b hb
  obtain ⟨b', hb', hheight, hview⟩ := h b hb
  obtain ⟨b'', hb'', hheight', hview'⟩ := h' b' hb'
  exact ⟨b'', hb'', hheight.trans hheight', hview.trans hview'⟩

def Reached (o : Option XvBlock) (b : XvBlock) : Prop :=
  ∃ k, o = some k ∧ (b.height ≤ k.height ∨ b.viewid ≤ k.viewid)

theorem Reached.rises {o' : Option XvBlock} (h : Reached o b) (hr : Rises o o') : Reached o' b := by
  obtain ⟨k, hk, hle⟩ := h
  obtain ⟨k', hk', hheight, hview⟩ := hr k hk
  exact ⟨k', hk', hle.imp hheight.trans' hview.trans'⟩

theorem Grows.reached_iff {b' : XvBlock} (h : Grows b b') : Reached o b' ↔ Reached o b := by
  unfold Reached
  rw [h.height_eq, h.viewid_eq]

namespace BftContext
variable {c c' c'' : BftContext}

def InPool (c : BftContext) (i : Nat) (n : VbNode) : Prop := c.nodes[i]? = some n ∧ n.flags ≠ ∅

def Linked (c : BftContext) (j i : Nat) : Prop :=
  ∃ n m, c.InPool j n ∧ n.parent = some i ∧ c.InPool i m

def Buried (c : BftContext) (i : Nat) : Prop := ∃ j k, c.Linked j i ∧ c.Linked k j

variable {i p : Nat} {n pn : VbNode} {new : XvBlock}

theorem live_eq_some {p : Option Nat} {n : VbNode} (h : c.live p = some (i, n)) :
    p = some i ∧ c.nodes[i]? = some n ∧ n.flags ≠ ∅ := by
  cases p with
  | none => simp [live] at h
  | some j =>
    simp only [live] at h
    cases hj : c.nodes[j]? with
    | none => simp [hj] at h
    | some m =>
      simp only [hj] at h
      split_ifs at h with hf
      obtain ⟨rfl, rfl⟩ := Prod.mk.inj (Option.some.inj h)
      exact ⟨rfl, hj, hf⟩

theorem live_eq_some_iff {p : Option Nat} : c.live p = some (i, n) ↔ p = some i ∧ c.InPool i n := by
  constructor
  · intro h
    obtain ⟨hp, hn, hf⟩ := live_eq_some h
    exact ⟨hp, hn, hf⟩
  · rintro ⟨rfl, hn, hf⟩
    simp [live, hn, hf]

theorem InPool.unique {m : VbNode} (h : c.InPool i n) (h' : c.nodes[i]? = some m) :
    n = m := mem_unique h.1 h'

structure Raised (c : BftContext) (i : Nat) (n n' : VbNode) : Prop where
  block : Grows n.block n'.block
  parent : n'.parent = n.parent
  live : n'.flags = ∅ ↔ n.flags = ∅
  committed : .committed ∈ n'.block.flags → .committed ∈ n.block.flags ∨ c.Buried i

theorem Raised.refl (c : BftContext) (i : Nat) (n : VbNode) : Raised c i n n :=
  ⟨.refl _, rfl, Iff.rfl, .inl⟩

def FromNode (c : BftContext) (b : XvBlock) : Prop :=
  ∃ (i : Nat) (n : VbNode), c.nodes[i]? = some n ∧ Grows n.block b

structure Executes (c c' : BftContext) : Prop where
  length_eq : c'.nodes.length = c.nodes.length
  node : ∀ i n, c.nodes[i]? = some n → ∃ n', c'.nodes[i]? = some n' ∧ Raised c i n n'
  hashPool_eq : c'.hashPool = c.hashPool
  viewPool_eq : c'.viewPool = c.viewPool
  lock_rises : Rises c.latestLockBlock c'.latestLockBlock
  commit_rises : Rises c.latestCommitBlock c'.latestCommitBlock
  lock_from : ∀ b, c'.latestLockBlock = some b → c.latestLockBlock = some b ∨ c.FromNode b
  commit_from : ∀ b, c'.latestCommitBlock = some b → c.latestCommitBlock = some b ∨ c.FromNode b
  anchored : (c.latestCommitBlock.isSome → c.latestLockBlock.isSome) →
    c'.latestCommitBlock.isSome → c'.latestLockBlock.isSome

namespace Executes

theorem refl (c : BftContext) : Executes c c where
  length_eq := rfl
  node i n hn := ⟨n, hn, .refl c i n⟩
  hashPool_eq := rfl
  viewPool_eq := rfl
  lock_rises := .refl _
  commit_rises := .refl _
  lock_from _ := .inl
  commit_from _ := .inl
  anchored h := h

section
variable (h : Executes c c')
include h

theorem node_back {n' : VbNode} (hn' : c'.nodes[i]? = some n') :
    ∃ n, c.nodes[i]? = some n ∧ Raised c i n n' :=
  Loop.exists_getElem?_of_length_eq h.length_eq h.node hn'

theorem inPool (hn : c.InPool i n) : ∃ n', c'.InPool i n' ∧ Raised c i n n' := by
  obtain ⟨n', hn', hraised⟩ := h.node i n hn.1
  exact ⟨n', ⟨hn', fun hf => hn.2 (hraised.live.mp hf)⟩, hraised⟩

theorem inPool_back {n' : VbNode} (hn' : c'.InPool i n') : ∃ n, c.InPool i n ∧ Raised c i n n' := by
  obtain ⟨n, hn, hraised⟩ := h.node_back hn'.1
  exact ⟨n, ⟨hn, fun hf => hn'.2 (hraised.live.mpr hf)⟩, hraised⟩

theorem linked_iff (j i : Nat) : c'.Linked j i ↔ c.Linked j i := by
  constructor
  · rintro ⟨n', m', hn', hp, hm'⟩
    obtain ⟨n, hn, hraised⟩ := h.inPool_back hn'
    obtain ⟨m, hm, -⟩ := h.inPool_back hm'
    exact ⟨n, m, hn, hraised.parent ▸ hp, hm⟩
  · rintro ⟨n, m, hn, hp, hm⟩
    obtain ⟨n', hn', hraised⟩ := h.inPool hn
    obtain ⟨m', hm', -⟩ := h.inPool hm
    exact ⟨n', m', hn', hraised.parent.trans hp, hm'⟩

theorem buried_iff (i : Nat) : c'.Buried i ↔ c.Buried i := by
  simp only [Buried, h.linked_iff]

theorem fromNode_back (hb : c'.FromNode b) : c.FromNode b := by
  obtain ⟨i, n', hn', hg⟩ := hb
  obtain ⟨n, hn, hraised⟩ := h.node_back hn'
  exact ⟨i, n, hn, hraised.block.trans hg⟩

theorem trans (h' : Executes c' c'') : Executes c c'' where
  length_eq := h'.length_eq.trans h.length_eq
  node i n hn := by
    obtain ⟨n', hn', hr⟩ := h.node i n hn
    obtain ⟨n'', hn'', hr'⟩ := h'.node i n' hn'
    refine ⟨n'', hn'', hr.block.trans hr'.block, hr'.parent.trans hr.parent,
      hr'.live.trans hr.live, fun hcom => ?_⟩
    rcases hr'.committed hcom with hold | hburied
    · exact hr.committed hold
    · exact .inr ((h.buried_iff i).mp hburied)
  hashPool_eq := h'.hashPool_eq.trans h.hashPool_eq
  viewPool_eq := h'.viewPool_eq.trans h.viewPool_eq
  lock_rises := h.lock_rises.trans h'.lock_rises
  commit_rises := h.commit_rises.trans h'.commit_rises
  lock_from b hb := (h'.lock_from b hb).elim (h.lock_from b) (.inr ∘ h.fromNode_back)
  commit_from b hb := (h'.commit_from b hb).elim (h.commit_from b) (.inr ∘ h.fromNode_back)
  anchored ha := h'.anchored (h.anchored ha)

end
end Executes

theorem updateLockBlock_spec (c : BftContext) (new : XvBlock) : c.updateLockBlock new = (c, false) ∨
    (c.updateLockBlock new = ({ c with latestLockBlock := some new }, true) ∧
      (.locked ∈ new.flags ∨ .committed ∈ new.flags) ∧
      ∀ lock, c.latestLockBlock = some lock → lock.height < new.height ∧
        lock.viewid < new.viewid) := by
  unfold updateLockBlock
  split_ifs with hflags
  · exact .inl rfl
  have hflag : .locked ∈ new.flags ∨ .committed ∈ new.flags := by
    simpa [XvBlock.checkBlockFlag, or_iff_not_imp_left] using hflags
  cases hl : c.latestLockBlock with
  | none => exact .inr ⟨rfl, hflag, by simp⟩
  | some lock =>
    dsimp only
    split_ifs with hsame habove hchain
    · exact .inl rfl
    · refine .inr ⟨rfl, hflag, fun lock' hlock' => ?_⟩
      obtain rfl := some_inj.mp hlock'
      exact ⟨habove.2, habove.1⟩
    · exact .inl rfl
    · exact .inl rfl

theorem updateCommitBlock_spec (c : BftContext) (new : XvBlock) :
    c.updateCommitBlock new = (c, false) ∨
    (∃ lock, c.updateCommitBlock new =
        ({ c with latestCommitBlock := some new, latestLockBlock := lock }, true) ∧
      .committed ∈ new.flags ∧ (∀ commit, c.latestCommitBlock = some commit →
        commit.height < new.height ∧ commit.viewid < new.viewid) ∧
      (lock = c.latestLockBlock ∨ (lock = some new ∧ ∀ old, c.latestLockBlock = some old →
        old.height < new.height ∧ old.viewid < new.viewid)) ∧
      (c.latestCommitBlock = none → lock.isSome)) := by
  unfold updateCommitBlock
  split_ifs with hflags
  · exact .inl rfl
  have hcommitted : new.checkBlockFlag .committed = true := by
    by_contra h
    exact hflags (by simp [h])
  have hflag : .committed ∈ new.flags := by simpa [XvBlock.checkBlockFlag] using hcommitted
  cases hk : c.latestCommitBlock with
  | none =>
    refine .inr ⟨({ c with latestCommitBlock := some new }.updateLockBlock new).1.latestLockBlock,
      ?_, hflag, by simp, ?_, fun _ => ?_⟩
    · rcases updateLockBlock_spec { c with latestCommitBlock := some new } new with he | ⟨he, -⟩ <;>
        rw [he]
    · rcases updateLockBlock_spec { c with latestCommitBlock := some new } new
        with he | ⟨he, -, hup⟩
      · exact .inl (by rw [he])
      · exact .inr ⟨by rw [he], hup⟩
    · unfold updateLockBlock
      rw [if_neg (by simp [hcommitted])]
      cases hl : c.latestLockBlock with
      | none => rfl
      | some lock =>
        dsimp only
        split_ifs <;> simp
  | some commit =>
    dsimp only
    split_ifs with hsame habove hchain
    · exact .inl rfl
    · refine .inr ⟨c.latestLockBlock, rfl, hflag, fun commit' hc => ?_, .inl rfl, by simp⟩
      obtain rfl := some_inj.mp hc
      exact ⟨habove.2, habove.1⟩
    · exact .inl rfl
    · exact .inl rfl

theorem rises_of_above (h : ∀ b, o = some b → b.height < new.height ∧ b.viewid < new.viewid) :
    Rises o (some new) :=
  fun b hb => ⟨new, rfl, (h b hb).1.le, (h b hb).2.le⟩

structure Moves (c c' : BftContext) : Prop where
  nodes_eq : c'.nodes = c.nodes
  hashPool_eq : c'.hashPool = c.hashPool
  viewPool_eq : c'.viewPool = c.viewPool
  lock_rises : Rises c.latestLockBlock c'.latestLockBlock
  commit_rises : Rises c.latestCommitBlock c'.latestCommitBlock
  anchored : (c.latestCommitBlock.isSome → c.latestLockBlock.isSome) →
    c'.latestCommitBlock.isSome → c'.latestLockBlock.isSome

theorem Moves.refl (c : BftContext) : Moves c c := ⟨rfl, rfl, rfl, .refl _, .refl _, fun h => h⟩

theorem Moves.inPool_iff (h : Moves c c') : c'.InPool i n ↔ c.InPool i n := by
  unfold InPool
  rw [h.nodes_eq]

theorem Moves.linked_iff (h : Moves c c') {j : Nat} : c'.Linked j i ↔ c.Linked j i := by
  simp only [Linked, h.inPool_iff]

structure MovesTo (c : BftContext) (new : XvBlock) (c' : BftContext) : Prop extends Moves c c' where
  lock_from : ∀ b, c'.latestLockBlock = some b → c.latestLockBlock = some b ∨ b = new
  commit_from : ∀ b, c'.latestCommitBlock = some b → c.latestCommitBlock = some b ∨ b = new

theorem movesTo_updateLockBlock (c : BftContext) (new : XvBlock) :
    MovesTo c new (c.updateLockBlock new).1 := by
  rcases updateLockBlock_spec c new with he | ⟨he, -, hup⟩
  · rw [he]
    exact ⟨.refl c, fun _ => .inl, fun _ => .inl⟩
  · rw [he]
    exact ⟨⟨rfl, rfl, rfl, rises_of_above hup, .refl _, fun _ _ => rfl⟩,
      fun b hb => .inr (some_inj.mp hb).symm, fun _ => .inl⟩

theorem movesTo_updateCommitBlock (c : BftContext) (new : XvBlock) :
    MovesTo c new (c.updateCommitBlock new).1 := by
  rcases updateCommitBlock_spec c new with he | ⟨lock, he, -, hup, hlock, hfirst⟩
  · rw [he]
    exact ⟨.refl c, fun _ => .inl, fun _ => .inl⟩
  · rw [he]
    refine ⟨⟨rfl, rfl, rfl, ?_, rises_of_above hup, fun ha _ => ?_⟩, fun b hb => ?_,
      fun b hb => .inr (some_inj.mp hb).symm⟩
    · rcases hlock with rfl | ⟨rfl, hold⟩
      · exact .refl _
      · exact rises_of_above hold
    · cases hk : c.latestCommitBlock with
      | none => exact hfirst hk
      | some commit =>
        rcases hlock with rfl | ⟨rfl, -⟩
        · exact ha (by simp [hk])
        · rfl
    · rcases hlock with rfl | ⟨rfl, -⟩
      · exact .inl hb
      · exact .inr (some_inj.mp hb).symm

theorem MovesTo.executes (h : MovesTo c new c') (hfrom : c.FromNode new) : Executes c c' where
  length_eq := by rw [h.nodes_eq]
  node i n hn := ⟨n, h.nodes_eq ▸ hn, .refl c i n⟩
  hashPool_eq := h.hashPool_eq
  viewPool_eq := h.viewPool_eq
  lock_rises := h.lock_rises
  commit_rises := h.commit_rises
  lock_from b hb := (h.lock_from b hb).elim .inl fun he => .inr (he ▸ hfrom)
  commit_from b hb := (h.commit_from b hb).elim .inl fun he => .inr (he ▸ hfrom)
  anchored := h.anchored

def SameChain (o : Option XvBlock) (b : XvBlock) : Prop :=
  ∀ k, o = some k → b.chainid = k.chainid ∧ b.account = k.account

theorem updateLockBlock_reached (hflag : .locked ∈ new.flags)
    (hchain : SameChain c.latestLockBlock new) :
    Reached (c.updateLockBlock new).1.latestLockBlock new := by
  have hlocked : new.checkBlockFlag .locked = true := by simpa [XvBlock.checkBlockFlag] using hflag
  unfold updateLockBlock
  rw [if_neg (by simp [hlocked])]
  cases hl : c.latestLockBlock with
  | none => exact ⟨new, rfl, .inl le_rfl⟩
  | some lock =>
    dsimp only
    rw [if_pos (hchain lock hl)]
    split_ifs with hsame habove
    · exact ⟨lock, hl, .inl (hsame ▸ le_rfl)⟩
    · exact ⟨new, rfl, .inl le_rfl⟩
    · refine ⟨lock, hl, ?_⟩
      rw [not_and_or, not_lt, not_lt] at habove
      exact habove.symm

theorem updateCommitBlock_reached (hcommitted : .committed ∈ new.flags)
    (hauth : .authenticated ∈ new.flags) (hchain : SameChain c.latestCommitBlock new) :
    Reached (c.updateCommitBlock new).1.latestCommitBlock new := by
  have hc : new.checkBlockFlag .committed = true := by
    simpa [XvBlock.checkBlockFlag] using hcommitted
  have ha : new.checkBlockFlag .authenticated = true := by
    simpa [XvBlock.checkBlockFlag] using hauth
  unfold updateCommitBlock
  rw [if_neg (by simp [hc, ha])]
  cases hk : c.latestCommitBlock with
  | none =>
    refine ⟨new, ?_, .inl le_rfl⟩
    rcases updateLockBlock_spec { c with latestCommitBlock := some new } new with he | ⟨he, -⟩ <;>
      rw [he]
  | some commit =>
    dsimp only
    rw [if_pos (hchain commit hk)]
    split_ifs with hsame habove
    · exact ⟨commit, hk, .inl (hsame ▸ le_rfl)⟩
    · exact ⟨new, rfl, .inl le_rfl⟩
    · refine ⟨commit, hk, ?_⟩
      rw [not_and_or, not_lt, not_lt] at habove
      exact habove.symm

theorem getElem?_modify_of_eq_some {l : List VbNode} {j : Nat} {m : VbNode} (hm : l[j]? = some m)
    (i : Nat) (f : VbNode → VbNode) : (l.modify i f)[j]? = some (if i = j then f m else m) := by
  rw [List.getElem?_modify, hm]
  rfl

theorem eq_some_of_getElem?_modify {l : List VbNode} {j : Nat} {f : VbNode → VbNode} {m' : VbNode}
    (h : (l.modify i f)[j]? = some m') :
    ∃ m, l[j]? = some m ∧ m' = if i = j then f m else m := by
  rw [List.getElem?_modify] at h
  obtain ⟨m, hm, rfl⟩ := map_eq_some_iff.mp h
  exact ⟨m, hm, rfl⟩

theorem executes_mark (hn : c.InPool i n) {fs : Finset BlockFlag} {g : BlockFlag}
    (hcommitted : .committed ∈ fs → c.Buried i) : Executes c (c.mark i fs g) where
  length_eq := List.length_modify _ _ _
  node j m hm := by
    refine ⟨_, getElem?_modify_of_eq_some hm i _, ?_⟩
    split_ifs with hij
    · subst hij
      obtain rfl := hn.unique hm
      refine ⟨.addFlags _ _, rfl, ?_, fun hcom => ?_⟩
      · simp [hn.2]
      · exact (mem_union.mp hcom).imp id hcommitted
    · exact .refl c j m
  hashPool_eq := rfl
  viewPool_eq := rfl
  lock_rises := .refl _
  commit_rises := .refl _
  lock_from _ := .inl
  commit_from _ := .inl
  anchored h := h

theorem fromNode_mark (hn : c.nodes[i]? = some n) (fs : Finset BlockFlag) (g : BlockFlag) :
    (c.mark i fs g).FromNode { n.block with flags := n.block.flags ∪ fs } := by
  refine ⟨i, _, getElem?_modify_of_eq_some hn i _, ?_⟩
  rw [if_pos rfl]
  exact .refl _

theorem executes_commitAncestors (fuel : Nat) : ∀ {c : BftContext} {i : Nat},
    (∃ k, c.Linked k i) → Executes c (commitAncestors fuel c i) := by
  induction fuel with
  | zero => exact fun _ => .refl _
  | succ fuel ih =>
    intro c i hchild
    unfold commitAncestors
    split
    · exact .refl c
    next n hn =>
    split
    · exact .refl c
    next p m hlive =>
    obtain ⟨hp, hm⟩ := live_eq_some_iff.mp hlive
    obtain ⟨k, n', i', hk, hparent, hi'⟩ := hchild
    obtain rfl := hi'.unique hn
    have hlink : c.Linked i p := ⟨i', m, hi', hp, hm⟩
    have hmark : Executes c (c.mark p {.committed} .committed) :=
      executes_mark hm fun _ => ⟨i, k, hlink, n', i', hk, hparent, hi'⟩
    exact hmark.trans (ih ⟨i, (hmark.linked_iff i p).mpr hlink⟩)

def lockParent (c : BftContext) (p : Nat) (pn : VbNode) : BftContext :=
  ((c.mark p {.locked} .locked).updateLockBlock
    { pn.block with flags := pn.block.flags ∪ {.locked} }).1

def commitGrandparent (c : BftContext) (parent : Option Nat) : BftContext :=
  match c.live parent with
  | none => c
  | some (g, gn) =>
    commitAncestors gn.block.height.toNat
      ((c.mark g {.locked, .committed} .committed).updateCommitBlock
      { gn.block with flags := gn.block.flags ∪ {.locked, .committed} }).1 g

theorem executeChain_eq (c : BftContext) (p : Nat) (pn : VbNode) :
    c.executeChain p pn = (c.lockParent p pn).commitGrandparent pn.parent := rfl

theorem doExecute_of_linked (hip : c.Linked i p) (hpn : c.nodes[p]? = some pn) :
    (c.doExecute i).1 = (c.lockParent p pn).commitGrandparent pn.parent := by
  obtain ⟨n, pn', hn, hparent, hpn'⟩ := hip
  obtain rfl := hpn'.unique hpn
  simp only [doExecute, live_eq_some_iff.mpr ⟨rfl, hn⟩, live_eq_some_iff.mpr ⟨hparent, hpn'⟩,
    executeChain_eq]

theorem executes_lockParent (hpn : c.InPool p pn) : Executes c (c.lockParent p pn) := by
  have hmark : Executes c (c.mark p {.locked} .locked) := executes_mark hpn (by simp)
  exact hmark.trans ((movesTo_updateLockBlock _ _).executes (fromNode_mark hpn.1 {.locked} .locked))

theorem executes_commitNode {g : Nat} {gn : VbNode} (hip : c.Linked i p) (hpg : c.Linked p g)
    (hgn : c.InPool g gn) :
    Executes c ((c.mark g {.locked, .committed} .committed).updateCommitBlock
      { gn.block with flags := gn.block.flags ∪ {.locked, .committed} }).1 := by
  have hmark : Executes c (c.mark g {.locked, .committed} .committed) :=
    executes_mark hgn fun _ => ⟨p, i, hpg, hip⟩
  have hfrom := fromNode_mark hgn.1 {.locked, .committed} .committed
  have hmoves := movesTo_updateCommitBlock (c.mark g {.locked, .committed} .committed)
    { gn.block with flags := gn.block.flags ∪ {.locked, .committed} }
  exact hmark.trans (hmoves.executes hfrom)

theorem executes_commitGrandparent (hip : c.Linked i p) (hpn : c.InPool p pn) :
    Executes c (c.commitGrandparent pn.parent) := by
  unfold commitGrandparent
  split
  · exact .refl c
  next g gn hlive =>
  obtain ⟨hg, hgn⟩ := live_eq_some_iff.mp hlive
  have hpg : c.Linked p g := ⟨pn, gn, hpn, hg, hgn⟩
  have hmoved := executes_commitNode hip hpg hgn
  exact hmoved.trans (executes_commitAncestors _ ⟨p, (hmoved.linked_iff p g).mpr hpg⟩)

theorem executes_doExecute (c : BftContext) (i : Nat) : Executes c (c.doExecute i).1 := by
  by_cases hlinked : ∃ p, c.Linked i p
  · obtain ⟨p, hip⟩ := hlinked
    obtain ⟨n, pn, hn, hparent, hpn⟩ := hip
    rw [doExecute_of_linked ⟨n, pn, hn, hparent, hpn⟩ hpn.1]
    have hlock := executes_lockParent hpn
    obtain ⟨pn', hpn', hraised⟩ := hlock.inPool hpn
    rw [← hraised.parent]
    refine hlock.trans (executes_commitGrandparent ((hlock.linked_iff i p).mpr ?_) hpn')
    exact ⟨n, pn, hn, hparent, hpn⟩
  · -- without a parent in the pool nothing happens
    have hsame : (c.doExecute i).1 = c := by
      unfold doExecute
      split
      · rfl
      next j n hi =>
      obtain ⟨hij, hn⟩ := live_eq_some_iff.mp hi
      obtain rfl := some_inj.mp hij
      split
      · rfl
      next p pn hp =>
      obtain ⟨hparent, hpn⟩ := live_eq_some_iff.mp hp
      exact absurd ⟨p, n, pn, hn, hparent, hpn⟩ hlinked
    rw [hsame]
    exact .refl c

theorem executes_executeAll (c : BftContext) : Executes c c.executeAll :=
  Loop.foldl_rel .refl (fun _ _ _ => .trans) _ (fun c i _ => executes_doExecute c i) c

structure AllBlocks (P : XvBlock → Prop) (c : BftContext) : Prop where
  node : ∀ (i : Nat) (n : VbNode), c.nodes[i]? = some n → P n.block
  lock : ∀ b, c.latestLockBlock = some b → P b
  commit : ∀ b, c.latestCommitBlock = some b → P b

theorem AllBlocks.init {P : XvBlock → Prop} : AllBlocks P init :=
  ⟨by simp [BftContext.init], by simp [BftContext.init], by simp [BftContext.init]⟩

def FlagStable (P : XvBlock → Prop) : Prop := ∀ b b', Grows b b' → P b → P b'

variable {P : XvBlock → Prop}

theorem AllBlocks.fromNode (hP : FlagStable P) (h : AllBlocks P c) (hb : c.FromNode b) : P b := by
  obtain ⟨i, n, hn, hg⟩ := hb
  exact hP _ _ hg (h.node i n hn)

theorem AllBlocks.executes (hP : FlagStable P) (h : AllBlocks P c) (he : Executes c c') :
    AllBlocks P c' where
  node i n' hn' := by
    obtain ⟨n, hn, hraised⟩ := he.node_back hn'
    exact hP _ _ hraised.block (h.node i n hn)
  lock b hb := (he.lock_from b hb).elim (h.lock b) (h.fromNode hP)
  commit b hb := (he.commit_from b hb).elim (h.commit b) (h.fromNode hP)

/-- An authenticated block of the account's chain. -/
structure OnChain (chainid : UInt32) (account : String) (b : XvBlock) : Prop where
  chainid_eq : b.chainid = chainid
  account_eq : b.account = account
  authenticated : .authenticated ∈ b.flags

theorem AllBlocks.movesTo (h : AllBlocks P c) (hm : MovesTo c new c') (hnew : P new) :
    AllBlocks P c' where
  node i n hn := h.node i n (hm.nodes_eq ▸ hn)
  lock b hb := (hm.lock_from b hb).elim (h.lock b) fun he => he ▸ hnew
  commit b hb := (hm.commit_from b hb).elim (h.commit b) fun he => he ▸ hnew

variable {chainid : UInt32} {account : String}

theorem flagStable_onChain : FlagStable (OnChain chainid account) := by
  intro b b' hg h
  exact ⟨(congrArg BlockBody.chainid hg.body).trans h.chainid_eq,
    (congrArg BlockBody.account hg.body).trans h.account_eq, hg.flags h.authenticated⟩

theorem OnChain.sameChain (h : OnChain chainid account b)
    (ho : ∀ k, o = some k → OnChain chainid account k) : SameChain o b := fun k hk =>
  ⟨h.chainid_eq.trans (ho k hk).chainid_eq.symm, h.account_eq.trans (ho k hk).account_eq.symm⟩

section
variable (hall : AllBlocks (OnChain chainid account) c)
include hall

theorem lockParent_reached
    (hpn : c.nodes[p]? = some pn) : Reached (c.lockParent p pn).latestLockBlock pn.block := by
  have hgrows := Grows.addFlags pn.block {.locked}
  have hgrown := flagStable_onChain _ _ hgrows (hall.node p pn hpn)
  have hreached := updateLockBlock_reached (c := c.mark p {.locked} .locked)
    (mem_union_right pn.block.flags (mem_singleton_self _))
    (hgrown.sameChain hall.lock)
  exact hgrows.reached_iff.mp hreached

theorem commitGrandparent_reached {g : Nat}
    (hip : c.Linked i p) (hpg : c.Linked p g) {gn : VbNode} (hgn : c.nodes[g]? = some gn) :
    Reached (c.commitGrandparent (some g)).latestCommitBlock gn.block := by
  have hgn' : c.InPool g gn := by
    obtain ⟨_, gm, -, -, hgm⟩ := hpg
    exact hgm.unique hgn ▸ hgm
  have hmoved := executes_commitNode hip hpg hgn'
  have hgrows := Grows.addFlags gn.block {.locked, .committed}
  have hgrown := flagStable_onChain _ _ hgrows (hall.node g gn hgn)
  have hreached := updateCommitBlock_reached (c := c.mark g {.locked, .committed} .committed)
    (mem_union_right gn.block.flags (by simp)) hgrown.authenticated
    (hgrown.sameChain hall.commit)
  have hwalk := executes_commitAncestors gn.block.height.toNat ⟨p, (hmoved.linked_iff p g).mpr hpg⟩
  unfold commitGrandparent
  rw [live_eq_some_iff.mpr ⟨rfl, hgn'⟩]
  exact hgrows.reached_iff.mp (hreached.rises hwalk.commit_rises)

theorem doExecute_lock_reached (hip : c.Linked i p) (hpn : c.nodes[p]? = some pn) :
    Reached (c.doExecute i).1.latestLockBlock pn.block := by
  have hlive : c.InPool p pn := by
    obtain ⟨_, pn', -, -, hpn'⟩ := hip
    exact hpn'.unique hpn ▸ hpn'
  have hlock := executes_lockParent hlive
  obtain ⟨pn', hpn', hraised⟩ := hlock.inPool hlive
  have hrest := executes_commitGrandparent ((hlock.linked_iff i p).mpr hip) hpn'
  rw [doExecute_of_linked hip hpn, ← hraised.parent]
  exact (lockParent_reached hall hpn).rises hrest.lock_rises

theorem doExecute_commit_reached {g : Nat}
    (hip : c.Linked i p) (hpg : c.Linked p g) {gn : VbNode} (hgn : c.nodes[g]? = some gn) :
    Reached (c.doExecute i).1.latestCommitBlock gn.block := by
  obtain ⟨pn, gm, hpn, hparent, hgm⟩ := hpg
  have hlock := executes_lockParent hpn
  obtain ⟨gn', hgn', hraised⟩ := hlock.node g gn hgn
  have hreached := commitGrandparent_reached (hall.executes flagStable_onChain hlock)
    ((hlock.linked_iff i p).mpr hip)
    ((hlock.linked_iff p g).mpr ⟨pn, gm, hpn, hparent, hgm⟩) hgn'
  rw [doExecute_of_linked hip hpn.1, hparent]
  exact hraised.block.reached_iff.mp hreached

end

theorem executeAll_establishes {Q : BftContext → Prop} (hi : i ∈ c.hashPool.values)
    (hkeep : ∀ c c', Executes c c' → Q c → Q c')
    (hturn : ∀ c', Executes c c' → Q (c'.doExecute i).1) : Q c.executeAll := by
  exact Loop.foldl_establishes (R := Executes) .refl (fun _ _ _ => .trans) executes_doExecute hkeep
    hturn hi

section
variable (hall : AllBlocks (OnChain chainid account) c)
include hall

theorem executeAll_lock_reached
    (hi : i ∈ c.hashPool.values) (hip : c.Linked i p) (hpn : c.nodes[p]? = some pn) :
    Reached c.executeAll.latestLockBlock pn.block := by
  apply executeAll_establishes (Q := fun c' => Reached c'.latestLockBlock pn.block) hi
    (fun c c' he hr => hr.rises he.lock_rises)
  intro c' he
  obtain ⟨pn', hpn', hraised⟩ := he.node p pn hpn
  exact hraised.block.reached_iff.mp (doExecute_lock_reached
    (hall.executes flagStable_onChain he) ((he.linked_iff i p).mpr hip) hpn')

theorem executeAll_commit_reached {g : Nat}
    (hi : i ∈ c.hashPool.values) (hip : c.Linked i p) (hpg : c.Linked p g) {gn : VbNode}
    (hgn : c.nodes[g]? = some gn) : Reached c.executeAll.latestCommitBlock gn.block := by
  apply executeAll_establishes (Q := fun c' => Reached c'.latestCommitBlock gn.block) hi
    (fun c c' he hr => hr.rises he.commit_rises)
  intro c' he
  obtain ⟨gn', hgn', hraised⟩ := he.node g gn hgn
  exact hraised.block.reached_iff.mp (doExecute_commit_reached
    (hall.executes flagStable_onChain he) ((he.linked_iff i p).mpr hip)
    ((he.linked_iff p g).mpr hpg) hgn')

end
end BftContext
end TopChain.Bft
