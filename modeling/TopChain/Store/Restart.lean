import TopChain.Lib.Run
import TopChain.Store.Finality

/-!
# Closing and opening a chain account (`xblockstore/src/xvblockhub.cpp`)

`close` keeps the latest certificate, saves the blocks in memory and the meta data.
-/
namespace TopChain.Store.ChainAccount

open Option List TopChain.Base TopChain.Lib TopChain.Lib.Guarantee

structure Reopening where
  present : UInt64 → Bool
  lastCertPresent : Bool
  blockchain : Option (UInt64 × String)
  lastFullBlockHeight : XvBlock → UInt64

section
variable (env : StoreEnv) (fuel : Nat)

def maintainConnect (p : Ptr) : StoreM Unit := do
  let b := (← object p).block
  let m := (← get).acctMeta
  if b.checkBlockFlag .stored then
    if b.checkBlockFlag .connected then
      if m.highestConnectBlockHeight < b.height then
        modifyMeta fun m => { m with
          highestConnectBlockHeight := b.height
          highestConnectBlockHash := b.blockHash }
    else if b.height = m.highestConnectBlockHeight + 1 ∧ b.checkBlockFlag .committed ∧
        m.highestConnectBlockHash = b.lastBlockHash then
      modifyMeta fun m => { m with
        highestConnectBlockHeight := b.height
        highestConnectBlockHash := b.blockHash }
      setBlockFlag env p .connected

def closeOne (p : Ptr) : StoreM Unit := do
  maintainConnect env p
  if 0 < (← object p).modifiedCount then
    let _ ← saveBlock env (loadBlock env fuel) fuel p
  closeBlock p

def closeBlocksFrom : Nat → UInt64 × SortedMap UInt64 Ptr → StoreM Unit
  | 0, _ => modify fun s => { s with exhausted := true }
  | n + 1, (height, views) => do
    views.values.forM (closeOne env fuel)
    match (← get).allBlocks.after? height with
    | some e => closeBlocksFrom n e
    | none => return ()

def closeBlocks : StoreM Unit := do
  match (← get).allBlocks.entries.head? with
  | some e => closeBlocksFrom env fuel fuel e
  | none => return ()
  setBlocks .empty

def keepLastCert : StoreM Unit := do
  match (← get).allBlocks.last?.bind SortedMap.last? with
  | some p =>
    let b := (← object p).block
    if ¬ b.checkBlockFlag .locked ∧ ¬ b.checkBlockFlag .committed then
      modify fun s => { s with lastCert := some b }
  | none => return ()

def close : StoreM Unit := do
  keepLastCert
  closeBlocks env fuel

end

section
variable (env : StoreEnv) (fuel : Nat) (found : Reopening)

def checkLastCert : StoreM Unit := do
  match (← get).lastCert with
  | some b =>
    if (← get).acctMeta.highestCertBlockHeight < b.height then
      modifyMeta fun m => { m with highestCertBlockHeight := b.height }
      let tryLock := b.height - 1
      if (← loadBlockObject (loadBlock env fuel) tryLock).isSome then
        modifyMeta fun m => { m with
          highestLockBlockHeight := max m.highestLockBlockHeight tryLock }
      let tryCommit := tryLock - 1
      if (← loadBlockObject (loadBlock env fuel) tryCommit).isSome then
        modifyMeta fun m => { m with
          highestCommitBlockHeight := max m.highestCommitBlockHeight tryCommit }
  | none => return ()

def checkExecuted : StoreM Unit := do
  match found.blockchain with
  | some (lastHeight, lastHash) =>
    if (← get).acctMeta.highestExecuteBlockHeight < lastHeight then
      modifyMeta fun m => { m with
        highestExecuteBlockHeight := lastHeight
        highestExecuteBlockHash := lastHash
        highestCommitBlockHeight := max m.highestCommitBlockHeight lastHeight
        highestLockBlockHeight := max m.highestLockBlockHeight
          (max m.highestCommitBlockHeight lastHeight) }
      let tryLock := (← get).acctMeta.highestCommitBlockHeight + 1
      if (← loadBlockObject (loadBlock env fuel) tryLock).isSome then
        modifyMeta fun m => { m with
          highestLockBlockHeight := max m.highestLockBlockHeight tryLock }
      modifyMeta fun m => { m with
        highestCertBlockHeight := max m.highestCertBlockHeight m.highestLockBlockHeight }
  | none => return ()

def checkMeta : StoreM Unit := do
  checkLastCert env fuel
  checkExecuted env fuel found

def reloadConnect : Nat → StoreM Unit
  | 0 => return ()
  | n + 1 => do
    if 0 < (← get).acctMeta.highestConnectBlockHeight then
      modifyMeta fun m => { m with highestConnectBlockHeight := m.highestConnectBlockHeight - 1 }
      match ← loadBlock env fuel (← get).acctMeta.highestConnectBlockHeight 1 with
      | some p =>
        let b := (← object p).block
        modifyMeta fun m => { m with highestConnectBlockHash := b.blockHash }
      | none => reloadConnect n

def initConnect : StoreM Unit := do
  match ← loadBlockObject (loadBlock env fuel) (← get).acctMeta.highestConnectBlockHeight with
  | some p =>
    let b := (← object p).block
    if (← get).acctMeta.highestConnectBlockHash = "" then
      modifyMeta fun m => { m with highestConnectBlockHash := b.blockHash }
  | none =>
    modifyMeta fun m => { m with highestConnectBlockHash := "" }
    reloadConnect env fuel 256

def initFull : StoreM Unit := do
  match ← loadBlockObject (loadBlock env fuel) (← get).acctMeta.highestFullBlockHeight with
  | some _ => return ()
  | none => modifyMeta fun m => { m with highestFullBlockHeight := 0 }

def preloadFull (p : Ptr) : StoreM Unit := do
  let b := (← object p).block
  if b.height ≠ 0 then
    let _ ← loadBlockObject (loadBlock env fuel) (found.lastFullBlockHeight b)

def initExecute : StoreM Unit := do
  match ← loadBlockObject (loadBlock env fuel) (← get).acctMeta.highestExecuteBlockHeight with
  | some p => preloadFull env fuel found p
  | none => return ()

def initCommit : StoreM Unit := do
  match ← loadBlockObject (loadBlock env fuel) (← get).acctMeta.highestCommitBlockHeight with
  | some p => preloadFull env fuel found p
  | none => modifyMeta fun m => { m with highestCommitBlockHeight := 0 }

def initLock : StoreM Unit := do
  match ← loadBlockObject (loadBlock env fuel) (← get).acctMeta.highestLockBlockHeight with
  | some p => preloadFull env fuel found p
  | none => modifyMeta fun m => { m with highestLockBlockHeight := m.highestCommitBlockHeight }

def initCert : StoreM Unit := do
  let m := (← get).acctMeta
  if m.highestLockBlockHeight < m.highestCertBlockHeight then
    match (← get).lastCert with
    | some b =>
      if b.height = m.highestCertBlockHeight then
        let p ← newObject b
        let _ ← storeBlock env fuel p
    | none => return ()

def readBack (s : ChainAccount) : ChainAccount :=
  { s with
    allBlocks := .empty
    vblocks := s.vblocks.filter fun e => found.present e.1
    lastCert := if found.lastCertPresent then s.lastCert else none }

def initExecuted : StoreM Unit := do
  checkMeta env fuel found
  initConnect env fuel
  initFull env fuel
  initExecute env fuel found

def initCommitted : StoreM Unit := do
  initExecuted env fuel found
  initCommit env fuel found

def reopen : StoreM Unit := do
  modify (readBack found)
  initCommitted env fuel found
  initLock env fuel found
  initCert env fuel

end

/-- The calls of the account, with a restart that closes it first. No crash is modelled. -/
inductive AccountCall where
  | call (c : StoreCall)
  | saveBlock (p : Ptr)
  | restart (found : Reopening)

def AccountCall.block? : AccountCall → Option XvBlock
  | .call (.storeBlock b) => some b
  | _ => none

def accountCall (env : StoreEnv) (fuel : Nat) : AccountCall → StoreM Unit
  | .call c => ChainAccount.call env fuel c
  | .saveBlock p => do
    if p < (← get).objects.length then
      let _ ← ChainAccount.saveBlock env (loadBlock env fuel) fuel p
  | .restart found => do
    close env fuel
    reopen env fuel found

def live (env : StoreEnv) (fuel : Nat) (s : ChainAccount) (c : AccountCall) :
    ChainAccount × List Empty :=
  (((accountCall env fuel c).run s).2, [])

def lifetime (env : StoreEnv) (fuel : Nat) (cs : List AccountCall) : ChainAccount :=
  (Run.run (live env fuel) (init env) cs).1

def sampleReopening : Reopening := ⟨fun _ => true, true, some (2, "c"), fun _ => 0⟩

variable {s : ChainAccount}

theorem Shape.readBack {S : List XvBlock} (hs : Shape S False s) (found : Reopening) :
    Shape S False (readBack found s) where
  inv := by
    refine ⟨hs.inv.objects, ?_, fun b hb => hs.inv.stored b (SortedMap.mem_values_filter hb)⟩
    intro e he
    cases he
  keyed _ := by
    intro _ _ _ h
    cases h
  rooted h := h.elim
  database b hb := hs.database b (SortedMap.mem_values_filter hb)

theorem lastCert_of_readBack {found : Reopening} {b : XvBlock}
    (h : (readBack found s).lastCert = some b) : s.lastCert = some b := by
  have hkept : (if found.lastCertPresent then s.lastCert else none) = some b := h
  split at hkept
  · exact hkept
  · cases hkept

theorem lifetime_inv {I : ChainAccount → Prop} {env : StoreEnv} {fuel : Nat} {cs : List AccountCall}
    {cond : ChainAccount → AccountCall → Prop} (hinit : I (init env))
    (hstep : ∀ s c, I s → cond s c → (∀ b ∈ c.block?, b ∈ env.genesisBlock ::
      cs.filterMap AccountCall.block?) → I (accountCall env fuel c s).2)
    (hcs : Run.Meets (live env fuel) cond (init env) cs) : I (lifetime env fuel cs) := by
  have hblocks : ∀ c ∈ cs, ∀ b ∈ c.block?,
      b ∈ env.genesisBlock :: cs.filterMap AccountCall.block? :=
    fun c hc b hb => mem_cons_of_mem _ (mem_filterMap.mpr ⟨c, hc, hb⟩)
  exact (Run.run_inv (P := fun _ => True) (fun s c hs hc =>
    ⟨hstep s c hs hc.1 hc.2, fun _ _ => trivial⟩)
    hinit cs (hcs.and hblocks)).1

theorem cached_of_last {p : Ptr} (h : s.allBlocks.last?.bind SortedMap.last? = some p) :
    ∃ height, p ∈ (viewsOf s height).values := by
  obtain ⟨views, hviews, hp⟩ := bind_eq_some_iff.mp h
  obtain ⟨e, he, rfl⟩ := map_eq_some_iff.mp hviews
  obtain ⟨e', he', rfl⟩ := map_eq_some_iff.mp hp
  refine ⟨e.1, ?_⟩
  rw [viewsOf_of_mem (mem_of_getLast? he)]
  exact mem_map_of_mem (mem_of_getLast? he')

namespace Walk
variable {S : List XvBlock} {ι : Type} {w : Walk S ι} {i : ι} {env : StoreEnv} {fuel : Nat}
  (hsaves : w.Saves env)

theorem keepLastCert_safe (h : ∀ {s : ChainAccount} {p : Ptr} {o : BlockObject} {height : UInt64},
    w.inv i s → p ∈ (viewsOf s height).values → s.objects[p]? = some o →
      .committed ∉ o.block.flags →
    Spec (w.frame i) (· = s) (modify fun s => { s with lastCert := some o.block })
      (fun _ _ => True)) :
    Safe (w.frame i) keepLastCert := by
  refine Spec.get_bind fun s hs _ => ?_
  cases hlast : s.allBlocks.last?.bind SortedMap.last? with
  | none => exact (Safe.pure ()).spec
  | some p =>
    obtain ⟨height, hcached⟩ := cached_of_last hlast
    obtain ⟨o, ho, -⟩ := (w.base hs).viewsAt hcached
    refine object_bind p ?_
    rintro t ht rfl
    rw [getD_of_getElem? ho]
    refine Spec.ite (fun hcert => h ht hcached ho fun hflag => ?_) fun _ => (Safe.pure ()).spec
    exact hcert.2 (decide_eq_true hflag)

include hsaves

theorem ready_of_mem {e : UInt64 × SortedMap UInt64 Ptr} (hs : w.inv i s)
    (he : e ∈ s.allBlocks.entries) : ∀ q ∈ e.2.values, w.Ready i q s := by
  intro q hq
  have hcached : q ∈ (viewsOf s e.1).values := by
    rw [viewsOf_of_mem he]
    exact hq
  exact ⟨((w.base hs).cache e he q hq).valid, hsaves.cached hs hcached⟩

variable (hone : ∀ p, Spec (w.frame i) (w.Ready i p) (closeOne env fuel p) (fun _ _ => True))

include hone

theorem closeBlocksFrom_spec (n : Nat) (e : UInt64 × SortedMap UInt64 Ptr) :
    Spec (w.frame i) (fun s => ∀ q ∈ e.2.values, w.Ready i q s) (closeBlocksFrom env fuel n e)
      (fun _ _ => True) := by
  induction n generalizing e with
  | zero => exact (hsaves.exhaust i).spec
  | succ n ih =>
    have hR : Stable (w.frame i) (fun s => ∀ q ∈ e.2.values, w.Ready i q s) :=
      fun s t hst h q hq => w.stable_ready (i := i) q s t hst (h q hq)
    refine Spec.bind (Spec.forM hR fun q hq => (hone q).pre fun _ _ h => h q hq) fun _ => ?_
    refine Spec.get_bind fun s hs _ => ?_
    cases hafter : s.allBlocks.after? e.1 with
    | none => exact (Safe.pure ()).spec
    | some e' => exact Spec.at (ready_of_mem hsaves hs (mem_of_find?_eq_some hafter)) (ih e')

theorem closeBlocks_safe (hforget : Safe (w.frame i) (setBlocks .empty)) :
    Safe (w.frame i) (closeBlocks env fuel) := by
  refine Spec.get_bind fun s hs _ => ?_
  cases hhead : s.allBlocks.entries.head? with
  | none => exact (Safe.pure ()).spec
  | some e =>
    exact Spec.bind (Spec.at (ready_of_mem hsaves hs (mem_of_mem_head? hhead))
      (closeBlocksFrom_spec hsaves hone fuel e)) fun _ => hforget

end Walk
end TopChain.Store.ChainAccount
