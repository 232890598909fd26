import TopChain.Bft.PoolInvariant
import TopChain.Bft.Signing

/-!
# Committed nodes and the cleaning of the pool

What is left after `do_clean` is above the commit and not below the lock.
-/
namespace TopChain.Bft

open Option TopChain.Base
open BftDriver.LeaderRun (accepting)

namespace BftContext
variable {c c' c'' : BftContext} {rule : NodeRule} {chk : BlockChecks}

/-- The lock has reached every node with a child, and the commit whatever could be committed. -/
structure CommitInv (chainid : UInt32) (account : String) (c : BftContext) : Prop where
  all : AllBlocks (OnChain chainid account) c
  committed : ∀ i n, c.InPool i n → .committed ∈ n.block.flags →
    Reached c.latestCommitBlock n.block
  buried : ∀ i n, c.InPool i n → c.Buried i → Reached c.latestCommitBlock n.block
  parented : ∀ i n, c.InPool i n → (∃ j, c.Linked j i) → Reached c.latestLockBlock n.block

namespace CommitInv
variable {chainid : UInt32} {account : String}

theorem init : CommitInv chainid account init where
  all := .init
  committed _ _ h := by cases h.1
  buried _ _ h := by cases h.1
  parented _ _ h := by cases h.1

theorem of_executes (hall : AllBlocks (OnChain chainid account) c)
    (hcommitted : ∀ i n, c.InPool i n → .committed ∈ n.block.flags →
      Reached c.latestCommitBlock n.block) (he : Executes c c')
    (hburied : ∀ i n, c.InPool i n → c.Buried i → Reached c'.latestCommitBlock n.block)
    (hparented : ∀ i n, c.InPool i n → (∃ j, c.Linked j i) → Reached c'.latestLockBlock n.block) :
    CommitInv chainid account c' where
  all := hall.executes flagStable_onChain he
  committed i n' hn' hcom := by
    obtain ⟨n, hn, hraised⟩ := he.inPool_back hn'
    rw [hraised.block.reached_iff]
    rcases hraised.committed hcom with hold | hb
    · exact (hcommitted i n hn hold).rises he.commit_rises
    · exact hburied i n hn hb
  buried i n' hn' hb := by
    obtain ⟨n, hn, hraised⟩ := he.inPool_back hn'
    rw [hraised.block.reached_iff]
    exact hburied i n hn ((he.buried_iff i).mp hb)
  parented i n' hn' hj := by
    obtain ⟨n, hn, hraised⟩ := he.inPool_back hn'
    rw [hraised.block.reached_iff]
    exact hparented i n hn (hj.imp fun j => (he.linked_iff j i).mp)

section
variable (h : CommitInv chainid account c)
include h

theorem executes (he : Executes c c') : CommitInv chainid account c' :=
  of_executes h.all h.committed he (fun i n hn hb => (h.buried i n hn hb).rises he.commit_rises)
    (fun i n hn hj => (h.parented i n hn hj).rises he.lock_rises)

theorem drops (hd : Drops c c') : CommitInv chainid account c' where
  all := h.all.drops hd
  committed i n' hn' hcom := by
    obtain ⟨n, hn, hb, -⟩ := hd.inPool_back hn'
    rw [hd.commit_eq, hb]
    exact h.committed i n hn (hb ▸ hcom)
  buried i n' hn' hbur := by
    obtain ⟨n, hn, hb, -⟩ := hd.inPool_back hn'
    rw [hd.commit_eq, hb]
    exact h.buried i n hn (hd.buried_back hbur)
  parented i n' hn' hj := by
    obtain ⟨n, hn, hb, -⟩ := hd.inPool_back hn'
    rw [hd.lock_eq, hb]
    exact h.parented i n hn (hj.imp fun j => hd.linked_back)

theorem movesTo {new : XvBlock} (hm : MovesTo c new c')
    (hnew : OnChain chainid account new) : CommitInv chainid account c' where
  all := h.all.movesTo hm hnew
  committed i n hn hcom := (h.committed i n (hm.inPool_iff.mp hn) hcom).rises hm.commit_rises
  buried i n hn hb := by
    refine (h.buried i n (hm.inPool_iff.mp hn) ?_).rises hm.commit_rises
    simpa only [Buried, hm.linked_iff] using hb
  parented i n hn hj :=
    (h.parented i n (hm.inPool_iff.mp hn) (hj.imp fun _ => hm.linked_iff.mp)).rises hm.lock_rises

end
end CommitInv

theorem linked_insertNode (h : PoolInv c) {b : XvBlock} {j i : Nat}
    (hl : (c.insertNode rule b).Linked j i) :
    c.Linked j i ∨ (j = c.nodes.length ∧ (c.insertNode rule b).Linked j i ∧
      (c.hashPool.find? b.lastBlockHash).isSome) := by
  obtain ⟨n, m, hn, hp, hm⟩ := hl
  rcases inPool_insertNode.mp hn with hn' | ⟨rfl, rfl⟩
  · rcases inPool_insertNode.mp hm with hm' | ⟨rfl, rfl⟩
    · exact .inl ⟨n, m, hn', hp, hm'⟩
    · exact absurd (h.parent_lt j n _ hn'.1 hp) (lt_irrefl _)
  · refine .inr ⟨rfl, ⟨_, m, hn, hp, hm⟩, ?_⟩
    unfold findParent at hp
    split at hp
    · cases hp
    next q hq => rw [hq]; rfl

namespace CommitInv
variable {chainid : UInt32} {account : String}

section
variable (h : CommitInv chainid account c) (hp : PoolInv c)
include h hp

theorem enter {b : XvBlock} (hb : OnChain chainid account b) (hfresh : .committed ∉ b.flags) :
    CommitInv chainid account (c.enter rule b) := by
  have hall : AllBlocks (OnChain chainid account) (c.insertNode rule b) := h.all.insertNode hb
  have hcommitted : ∀ i n, (c.insertNode rule b).InPool i n → .committed ∈ n.block.flags →
      Reached c.latestCommitBlock n.block := by
    intro i n hn hcom
    rcases inPool_insertNode.mp hn with hn | ⟨rfl, rfl⟩
    · exact h.committed i n hn hcom
    · exact absurd hcom hfresh
  have he := executes_enter rule c b
  -- an old link leads to an old node
  have hold : ∀ {i j n}, (c.insertNode rule b).InPool i n → c.Linked j i → c.InPool i n := by
    intro i j n hn hl
    rcases inPool_insertNode.mp hn with hn | ⟨rfl, -⟩
    · exact hn
    · obtain ⟨_, m, -, -, hm⟩ := hl
      exact absurd (List.getElem?_eq_some_iff.mp hm.1).1 (lt_irrefl _)
  have hrun : (c.hashPool.find? b.lastBlockHash).isSome →
      c.enter rule b = ((c.insertNode rule b).doExecute c.nodes.length).1 :=
        fun hsome => if_pos hsome
  refine of_executes hall hcommitted he (fun i n hn hbur => ?_) (fun i n hn ⟨j, hji⟩ => ?_)
  · obtain ⟨j, k, hji, hkj⟩ := hbur
    rcases linked_insertNode hp hkj with hkj' | ⟨rfl, hnew, hsome⟩
    · -- an old grandchild: the new node has no child, so the child is old too
      rcases linked_insertNode hp hji with hji' | ⟨rfl, -, -⟩
      · exact (h.buried i n (hold hn hji') ⟨j, k, hji', hkj'⟩).rises he.commit_rises
      · obtain ⟨_, m, -, -, hm⟩ := hkj'
        exact absurd (List.getElem?_eq_some_iff.mp hm.1).1 (lt_irrefl _)
    · rw [hrun hsome]
      exact doExecute_commit_reached hall hnew hji hn.1
  · rcases linked_insertNode hp hji with hji' | ⟨rfl, hnew, hsome⟩
    · exact (h.parented i n (hold hn hji') ⟨j, hji'⟩).rises he.lock_rises
    · rw [hrun hsome]
      exact doExecute_lock_reached hall hnew hn.1

theorem adoptChildren {new : Nat} (hnew : new < c.nodes.length) (b : XvBlock) :
    CommitInv chainid account (c.adoptChildren rule new b) := by
  obtain ⟨hlinks, hpool, hsame⟩ := adoptLoop_spec rule hp hnew b c.hashPool.values
  unfold BftContext.adoptChildren
  dsimp only
  generalize c.hashPool.values.foldl (adoptChild rule new b) (c, false) = res at *
  split_ifs with hfound
  · -- the rule runs on every node, whatever links are new
    have hall : AllBlocks (OnChain chainid account) res.1 := h.all.relinks hlinks
    have hmem : ∀ {k j}, res.1.Linked k j → k ∈ res.1.hashPool.values := by
      rintro k j ⟨m, _, hm, -, -⟩
      exact hpool.mem_values hm
    refine of_executes hall (fun i n' hn' hcom => ?_) (executes_executeAll _)
      (fun i n hn ⟨j, k, hji, hkj⟩ => executeAll_commit_reached hall (hmem hkj) hkj hji hn.1)
      (fun i n hn ⟨j, hji⟩ => executeAll_lock_reached hall (hmem hji) hji hn.1)
    obtain ⟨n, hn, hb⟩ := hlinks.inPool_back hn'
    rw [hlinks.commit_eq, hb]
    exact h.committed i n hn (hb ▸ hcom)
  · rw [hsame (by simpa using hfound)]
    exact h

theorem doUpdate {b : XvBlock}
    (hb : OnChain chainid account b) : CommitInv chainid account (c.doUpdate chk rule b).1 := by
  rcases doUpdate_cases chk rule c b with he | ⟨hsafe, hhash, hview, he⟩
  · rw [he]
    exact h
  · rw [he]
    have hfresh : .committed ∉ b.flags := by
      simp only [safeCheckForCertBlock, Bool.and_eq_true, XvBlock.checkBlockFlag] at hsafe
      simpa using hsafe.1.1
    exact (h.enter hp hb hfresh).adoptChildren (hp.enter hhash hview) (length_lt_enter rule c b) b

end
end CommitInv

/-- The calls that change the pool of a context. -/
inductive PoolStep where
  | doUpdate (b : XvBlock)
  | doExecute (i : Nat)
  | doSubmit
  | doClean

def poolStep (chk : BlockChecks) (rule : NodeRule) (c : BftContext) : PoolStep → BftContext
  | .doUpdate b => (c.doUpdate chk rule b).1
  | .doExecute i => (c.doExecute i).1
  | .doSubmit => c.doSubmit.1
  | .doClean => c.doClean.1

def runSteps (chk : BlockChecks) (rule : NodeRule) (steps : List PoolStep) : BftContext :=
  steps.foldl (poolStep chk rule) init

def PoolStep.given : PoolStep → Option XvBlock
  | .doUpdate b => some b
  | _ => none

theorem poolInv_runSteps (chk : BlockChecks) (rule : NodeRule) (steps : List PoolStep) :
    PoolInv (runSteps chk rule steps) := by
  refine List.foldlRecOn (motive := PoolInv) _ _ .init fun c h e _ => ?_
  cases e with
  | doUpdate b => exact h.doUpdate b
  | doExecute i => exact h.executes (executes_doExecute c i)
  | doSubmit => exact (doSubmit_spec h).1
  | doClean => exact (doClean_spec h).1

theorem commitInv_runSteps (chk : BlockChecks) (rule : NodeRule) {chainid : UInt32}
    {account : String} (steps : List PoolStep)
    (hgiven : ∀ e ∈ steps, ∀ b, e.given = some b → OnChain chainid account b) :
    CommitInv chainid account (runSteps chk rule steps) := by
  have hboth : PoolInv (runSteps chk rule steps) ∧
      CommitInv chainid account (runSteps chk rule steps) := by
    refine List.foldlRecOn (motive := fun c => PoolInv c ∧ CommitInv chainid account c) _ _
      ⟨.init, .init⟩ fun c h e he => ?_
    cases e with
    | doUpdate b => exact ⟨h.1.doUpdate b, h.2.doUpdate h.1 (hgiven _ he b rfl)⟩
    | doExecute i =>
      exact ⟨h.1.executes (executes_doExecute c i), h.2.executes (executes_doExecute c i)⟩
    | doSubmit =>
      obtain ⟨hpool, hdrops, -⟩ := doSubmit_spec h.1
      exact ⟨hpool, h.2.drops hdrops⟩
    | doClean =>
      obtain ⟨hpool, hdrops, -⟩ := doClean_spec h.1
      exact ⟨hpool, h.2.drops hdrops⟩
  exact hboth.2

def nodeAt (c : BftContext) (hash : String) : Option VbNode :=
  (c.hashPool.find? hash).bind fun i => c.nodes[i]?

theorem PoolInv.nodeAt_eq_some (h : PoolInv c) {hash : String} {n : VbNode}
    (hn : c.nodeAt hash = some n) : ∃ i, c.hashPool.find? hash = some i ∧ c.InPool i n := by
  obtain ⟨i, hi, hget⟩ := bind_eq_some_iff.mp hn
  obtain ⟨m, hm, -⟩ := h.entry hash i hi
  obtain rfl := hm.unique hget
  exact ⟨i, hi, hm⟩

theorem PoolInv.nodeAt_of_inPool (h : PoolInv c) {i : Nat} {n : VbNode} (hn : c.InPool i n) :
    c.nodeAt n.block.blockHash = some n :=
  bind_eq_some_iff.mpr ⟨i, h.pooled i n hn, hn.1⟩

/-- The hash pool leads to nodes with their hashes, and the view pool holds their distinct views.
After `do_clean` every node is above the commit and not below the lock; none is committed if all
blocks were authenticated blocks of one account. -/
theorem context_pool_invariant (chk : BlockChecks) (rule : NodeRule) (steps : List PoolStep) :
    let c := runSteps chk rule steps
    (∀ hash, (c.hashPool.find? hash).isSome →
      ∃ n, c.nodeAt hash = some n ∧ n.block.blockHash = hash) ∧
    (∀ h h' n n', c.nodeAt h = some n → c.nodeAt h' = some n' →
      n.block.viewid = n'.block.viewid → h = h') ∧
    (∀ v, v ∈ c.viewPool ↔ ∃ h n, c.nodeAt h = some n ∧ n.block.viewid = v) ∧
    ∀ h n, c.doClean.1.nodeAt h = some n →
      (∃ commit lock, c.doClean.1.latestCommitBlock = some commit ∧
        c.doClean.1.latestLockBlock = some lock ∧ commit.height < n.block.height ∧
        commit.viewid < n.block.viewid ∧ lock.height ≤ n.block.height ∧
        (n.block.height = lock.height → n.block.viewid = lock.viewid)) ∧
      ∀ chainid account,
        (∀ e ∈ steps, ∀ b, e.given = some b → OnChain chainid account b) →
        .committed ∉ n.block.flags := by
  intro c
  have hpool : PoolInv c := poolInv_runSteps chk rule steps
  obtain ⟨hclean, hdrops, hkept⟩ := doClean_spec hpool
  refine ⟨fun hash hsome => ?_, fun h h' n n' hn hn' hv => ?_, fun v => ?_, fun h n hn => ⟨?_, ?_⟩⟩
  · obtain ⟨i, hi⟩ := isSome_iff_exists.mp hsome
    obtain ⟨n, hn, hb⟩ := hpool.entry hash i hi
    exact ⟨n, hb ▸ hpool.nodeAt_of_inPool hn, hb⟩
  · obtain ⟨i, hi, hin⟩ := hpool.nodeAt_eq_some hn
    obtain ⟨j, hj, hjn⟩ := hpool.nodeAt_eq_some hn'
    obtain rfl := hpool.view_inj i j n n' hin hjn hv
    obtain ⟨m, hm, rfl⟩ := hpool.entry h i hi
    obtain ⟨m', hm', rfl⟩ := hpool.entry h' i hj
    rw [hm.unique hm'.1]
  · rw [hpool.view_mem]
    constructor
    · rintro ⟨i, n, hn, hv⟩
      exact ⟨_, n, hpool.nodeAt_of_inPool hn, hv⟩
    · rintro ⟨h, n, hn, hv⟩
      obtain ⟨i, -, hin⟩ := hpool.nodeAt_eq_some hn
      exact ⟨i, n, hin, hv⟩
  · obtain ⟨i, -, hin⟩ := hclean.nodeAt_eq_some hn
    rw [hdrops.commit_eq, hdrops.lock_eq]
    exact outdated_eq_false hpool.anchored (hkept i n hin)
  · intro chainid account hgiven hcom
    obtain ⟨i, -, hin⟩ := hclean.nodeAt_eq_some hn
    have hinv := (commitInv_runSteps chk rule steps hgiven).drops hdrops
    obtain ⟨k, hk, hle⟩ := hinv.committed i n hin hcom
    obtain ⟨commit, lock, hcommit, -, hheight, hview, -⟩ :=
      outdated_eq_false hpool.anchored (hkept i n hin)
    rw [hdrops.commit_eq, hcommit] at hk
    obtain rfl := some_inj.mp hk
    rcases hle with hle | hle
    · exact absurd hheight (not_lt.mpr hle)
    · exact absurd hview (not_lt.mpr hle)

def documentedLink (child parent : XvBlock) : Bool :=
  parent.height + 1 = child.height && parent.blockHash = child.lastBlockHash

section
variable (child parent : XvBlock) (h : documentedLink child parent = true)
include child parent h

theorem height_of_documentedLink : parent.height + 1 = child.height :=
  of_decide_eq_true (Bool.and_eq_true_iff.mp h).1

theorem hash_of_documentedLink : parent.blockHash = child.lastBlockHash :=
  of_decide_eq_true (Bool.and_eq_true_iff.mp h).2

end

def documentedRule : NodeRule where
  linkOk := documentedLink
  height_eq := height_of_documentedLink
  hash_eq := hash_of_documentedLink

def certBlock (account : String) (height viewid : UInt64) (last hash : String) : XvBlock :=
  { BftDriver.LeaderRun.block height last hash with
    account := account, viewid := viewid, flags := {.authenticated} }

theorem context_pool_invariant_sample :
    ((runSteps accepting documentedRule
      [.doUpdate (certBlock "T" 5 5 "g" "a"), .doUpdate (certBlock "T" 6 6 "a" "b"),
       .doUpdate (certBlock "T" 7 7 "b" "c")]).doClean.1.nodeAt "b").isSome ∧
    ∀ n, (runSteps accepting documentedRule
      [.doUpdate (certBlock "T" 5 5 "g" "a"), .doUpdate (certBlock "T" 6 6 "a" "b"),
       .doUpdate (certBlock "T" 7 7 "b" "c")]).doClean.1.nodeAt "b" = some n →
      .committed ∉ n.block.flags := by
  refine ⟨by decide, fun n hn => ?_⟩
  refine ((context_pool_invariant accepting documentedRule _).2.2.2 "b" n hn).2 0 "T" ?_
  intro e he b hb
  simp only [List.mem_cons, List.not_mem_nil, or_false] at he
  rcases he with rfl | rfl | rfl <;>
  · obtain rfl := some_inj.mp hb
    exact ⟨rfl, rfl, Finset.mem_singleton_self _⟩

theorem committed_node_survives_clean :
    ((runSteps accepting documentedRule
      [.doUpdate (certBlock "B" 5 5 "g" "k"), .doUpdate (certBlock "A" 7 7 "k1" "k2"),
       .doUpdate (certBlock "A" 6 6 "k" "k1"),
       .doUpdate (certBlock "B" 8 8 "k2" "k3")]).doClean.1.nodeAt "k1").any
      (·.block.checkBlockFlag .committed) = true := by
  decide

end BftContext
end TopChain.Bft
