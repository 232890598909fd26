import TopChain.Bft.FinishEvent
import Mathlib.Data.String.Basic

/-!
# Requests for missing blocks (`xBFT/src/xconsync.cpp`)

A driver that lacks a block asks a peer for it.
-/
namespace TopChain.Bft

open List TopChain.Base TopChain.Lib SortedMap
open BftDriver.LeaderRun (accepting)

structure SynRequest where
  targetHeight : UInt64
  expiredClock : UInt64
  expiredViewid : UInt64
  syncTrycount : UInt8
deriving DecidableEq

structure SyncTarget where
  fromAddr : Xvip2
  toAddr : Xvip2
  targetBlockHeight : UInt64
  targetBlockHash : String
  proofBlockViewid : UInt64
  proofBlockViewtoken : UInt32
  proofBlockHeight : UInt64
  expiredAtClock : UInt64
  chainid : UInt64
  hasParent : Bool
  syncCookie : UInt32
  unsetViewid : UInt64
deriving DecidableEq

structure SyncRequestPdu where
  fromAddr : Xvip2
  toAddr : Xvip2
  packet : Packet
  syncTargets : UInt32
  syncCookie : UInt32
  blockHeight : UInt64
  blockHash : String
deriving DecidableEq

def syncKey (hash : String) (height : UInt64) : String := hash ++ toString height.toNat

structure BftSyncdrv where
  account : String
  rules : BftRules
  syncingRequests : SortedMap String SynRequest

/-- The calls that reach the table of open requests; `other` is any change of the rules. -/
inductive SyncEvent where
  | sendSyncRequest (t : SyncTarget)
  | setLockBlock (b : Option XvBlock)
  | viewFire (viewid clock : UInt64)
  | clockFire (height : UInt64)
  | syncRespond (m : SyncRespond)
  | other (rules : BftRules)

namespace BftSyncdrv
variable (chk : BlockChecks) (d : BftSyncdrv)

def init (account : String) : BftSyncdrv := ⟨account, .init, .empty⟩

def eraseRequests (p : SynRequest → Bool) : BftSyncdrv :=
  { d with syncingRequests := d.syncingRequests.filter fun e => !p e.2 }

/-- `set_lock_block` of the sync driver also drops requests more than 32 blocks behind. -/
def setLockBlock (b : Option XvBlock) : BftSyncdrv :=
  let res := d.rules.setLockBlock chk b
  let d := { d with rules := res.1 }
  match b with
  | none => d
  | some lock =>
    if res.2 then d.eraseRequests fun req => lock.height > req.targetHeight + 32 else d

def getLockBlock (stored : Option XvBlock) : BftSyncdrv :=
  match d.rules.latestLockBlock with
  | some _ => d
  | none => d.setLockBlock chk stored

def onViewFire (viewid clock : UInt64) : BftSyncdrv :=
  d.eraseRequests fun req =>
    if req.expiredViewid ≠ 0 then viewid ≥ req.expiredViewid
    else if req.expiredClock ≠ 0 then clock ≥ req.expiredClock
    else false

def onClockFire (height : UInt64) : BftSyncdrv :=
  d.eraseRequests fun req => req.expiredClock ≠ 0 && height ≥ req.expiredClock

def requestPdu (t : SyncTarget) : SyncRequestPdu where
  fromAddr := t.fromAddr
  toAddr := t.toAddr
  packet := ⟨t.chainid.toUInt32, d.account, t.proofBlockHeight, t.proofBlockViewid,
    t.proofBlockViewtoken⟩
  syncTargets := 0x01 ||| 0x02 ||| 0x04
  syncCookie := t.syncCookie
  blockHeight := t.targetBlockHeight
  blockHash := t.targetBlockHash

def sendSyncRequest (t : SyncTarget) : BftSyncdrv × Option SyncRequestPdu :=
  if t.hasParent && t.targetBlockHeight > 0 then
    let key := syncKey t.targetBlockHash t.targetBlockHeight
    match d.syncingRequests.find? key with
    | none =>
      let req : SynRequest := ⟨t.targetBlockHeight, t.expiredAtClock, t.unsetViewid, 1⟩
      ({ d with syncingRequests := d.syncingRequests.insert key req }, some (d.requestPdu t))
    | some req =>
      let req := { req with syncTrycount := req.syncTrycount + 1 }
      ({ d with syncingRequests := d.syncingRequests.insert key req },
        if req.syncTrycount > 2 then none else some (d.requestPdu t))
  else (d, none)

def respondOk (m : SyncRespond) (b : XvBlock) : Bool :=
  match d.rules.latestLockBlock with
  | none => false
  | some lock =>
    !(m.packet.viewid < m.packet.height || m.packet.chainid ≠ lock.chainid
      || m.packet.account ≠ lock.account || !m.decodes)
    && (d.rules.findCertBlock m.packet.viewid).isNone && chk.isValid b false && m.resourcesOk

/-- `handle_sync_respond_msg`: a block that was asked for goes to the verify job. -/
def handleSyncRespondMsg (m : SyncRespond) : BftSyncdrv × Option XvBlock :=
  let d := d.getLockBlock chk m.stored
  match m.block with
  | none => (d, none)
  | some b =>
    let key := syncKey b.blockHash b.height
    if d.respondOk chk m b && (d.syncingRequests.find? key).isSome
      && d.rules.safeCheckForSyncBlock chk b then
      ({ d with syncingRequests := d.syncingRequests.erase key },
        if chk.isValid b.resetBlockFlags true then some b.resetBlockFlags else none)
    else (d, none)

def step : SyncEvent → BftSyncdrv × List SyncRequestPdu
  | .sendSyncRequest t =>
    let res := d.sendSyncRequest t
    (res.1, res.2.toList)
  | .setLockBlock b => (d.setLockBlock chk b, [])
  | .viewFire viewid clock => (d.onViewFire viewid clock, [])
  | .clockFire height => (d.onClockFire height, [])
  | .syncRespond m => ((d.handleSyncRespondMsg chk m).1, [])
  | .other rules => ({ d with rules }, [])

variable {chk d}

def OnlyErases (d d' : BftSyncdrv) : Prop :=
  ∀ key req, d'.syncingRequests.find? key = some req → d.syncingRequests.find? key = some req

theorem eraseRequests_erases (p : SynRequest → Bool) : OnlyErases d (d.eraseRequests p) := by
  intro key req h
  have hval := find?_filter_val d.syncingRequests (fun req => !p req) key
  rw [eraseRequests, hval, Option.filter_eq_some_iff] at h
  exact h.1

theorem setLockBlock_erases (b : Option XvBlock) : OnlyErases d (d.setLockBlock chk b) := by
  unfold setLockBlock
  cases b with
  | none => exact fun _ _ h => h
  | some lock =>
    dsimp only
    split
    · exact eraseRequests_erases (d := { d with rules := _ }) _
    · exact fun _ _ h => h

theorem getLockBlock_erases (stored : Option XvBlock) :
    OnlyErases d (d.getLockBlock chk stored) := by
  unfold getLockBlock
  split
  · exact fun _ _ h => h
  · exact setLockBlock_erases stored

theorem handleSyncRespondMsg_erases (m : SyncRespond) :
    OnlyErases d (d.handleSyncRespondMsg chk m).1 := by
  intro key req h
  have herase : OnlyErases d (d.getLockBlock chk m.stored) := getLockBlock_erases m.stored
  apply herase key req
  unfold handleSyncRespondMsg at h
  cases hb : m.block with
  | none => simpa only [hb] using h
  | some b =>
    simp only [hb] at h
    split at h
    · rw [find?_erase] at h
      split_ifs at h
      exact h
    · exact h

def asks (key : String) : SyncEvent → Bool
  | .sendSyncRequest t => t.hasParent && t.targetBlockHeight > 0
      && syncKey t.targetBlockHash t.targetBlockHeight = key
  | _ => false

def isFor (key : String) (p : SyncRequestPdu) : Bool := syncKey p.blockHash p.blockHeight = key

/-- The event does not remove the request of this key. -/
def KeepsEntry (chk : BlockChecks) (key : String) (d : BftSyncdrv) (e : SyncEvent) : Prop :=
  (d.syncingRequests.find? key).isSome → ((d.step chk e).1.syncingRequests.find? key).isSome

/-- The block was asked for `n` times, as the counter of eight bits has it. -/
def Counted (key : String) (n : Nat) (d : BftSyncdrv) : Prop :=
  (n = 0 ∧ d.syncingRequests.find? key = none) ∨
  (0 < n ∧ ∃ req, d.syncingRequests.find? key = some req ∧ req.syncTrycount.toNat = n % 256)

def sends (n : Nat) : Nat := (List.range n).countP fun i => (i + 1) % 256 ≤ 2

theorem sends_succ (n : Nat) : sends (n + 1) = sends n + if (n + 1) % 256 ≤ 2 then 1 else 0 := by
  rw [sends, range_succ, countP_append]
  simp [sends]

theorem sends_mono {m n : Nat} (h : m ≤ n) : sends m ≤ sends n := by
  induction h with
  | refl => exact le_rfl
  | step _ ih =>
    rw [sends_succ]
    omega

theorem sends_256 : sends 256 = 3 := by decide +kernel

theorem sends_le_two_iff (n : Nat) : sends n ≤ 2 ↔ n ≤ 255 := by
  constructor
  · intro h
    by_contra hn
    have hmono := sends_mono (show 256 ≤ n by omega)
    rw [sends_256] at hmono
    omega
  · intro h
    have h255 : sends 255 = 2 := by decide +kernel
    have := sends_mono h
    omega

variable {key : String}

theorem Counted.of_erases {n : Nat} {d' : BftSyncdrv} (h : Counted key n d)
    (herase : OnlyErases d d')
    (hkeep : (d.syncingRequests.find? key).isSome → (d'.syncingRequests.find? key).isSome) :
    Counted key n d' := by
  rcases h with ⟨hn, hnone⟩ | ⟨hn, req, hreq, hcount⟩
  · refine .inl ⟨hn, ?_⟩
    cases hf : d'.syncingRequests.find? key with
    | none => rfl
    | some req => rw [herase key req hf] at hnone; cases hnone
  · obtain ⟨req', hreq'⟩ := Option.isSome_iff_exists.mp (hkeep (by simp [hreq]))
    have hsame := herase key req' hreq'
    rw [hreq] at hsame
    exact .inr ⟨hn, req, hreq'.trans hsame.symm, hcount⟩

theorem sendSyncRequest_other {t : SyncTarget} (h : asks key (.sendSyncRequest t) = false) :
    (d.sendSyncRequest t).1.syncingRequests.find? key = d.syncingRequests.find? key ∧
      (d.sendSyncRequest t).2.toList.countP (isFor key) = 0 := by
  unfold sendSyncRequest
  split_ifs with hguard
  · have hne : syncKey t.targetBlockHash t.targetBlockHeight ≠ key := by
      simpa [asks, hguard] using h
    have hpdu : isFor key (d.requestPdu t) = false := by simp [isFor, requestPdu, hne]
    dsimp only
    split
    · exact ⟨find?_insert_of_ne _ _ hne.symm, by simp [hpdu]⟩
    · refine ⟨find?_insert_of_ne _ _ hne.symm, ?_⟩
      split_ifs <;> simp [hpdu]
  · exact ⟨rfl, rfl⟩

theorem sendSyncRequest_counts {n : Nat} {t : SyncTarget} (hn : Counted key n d)
    (h : asks key (.sendSyncRequest t) = true) :
    Counted key (n + 1) (d.sendSyncRequest t).1 ∧
      (d.sendSyncRequest t).2.toList.countP (isFor key) = if (n + 1) % 256 ≤ 2 then 1 else 0 := by
  simp only [asks, Bool.and_eq_true, decide_eq_true_eq] at h
  obtain ⟨hguard, rfl⟩ := h
  have hpdu : isFor (syncKey t.targetBlockHash t.targetBlockHeight) (d.requestPdu t) = true := by
    simp [isFor, requestPdu]
  unfold sendSyncRequest
  rw [if_pos (by simpa using hguard)]
  rcases hn with ⟨rfl, hnone⟩ | ⟨hpos, req, hreq, hcount⟩
  · simp only [hnone]
    exact ⟨.inr ⟨by omega, _, find?_insert_self _ _ _, rfl⟩, by simp [hpdu]⟩
  · have hnext : (req.syncTrycount + 1).toNat = (n + 1) % 256 := by
      rw [UInt8.toNat_add, hcount, UInt8.toNat_one]
      omega
    have htwo : req.syncTrycount + 1 > 2 ↔ ¬ (n + 1) % 256 ≤ 2 := by
      rw [gt_iff_lt, UInt8.lt_iff_toNat_lt, hnext, not_le]
      rfl
    simp only [hreq, htwo]
    refine ⟨.inr ⟨by omega, _, find?_insert_self _ _ _, hnext⟩, ?_⟩
    split_ifs <;> simp_all

theorem step_counts {n : Nat} {e : SyncEvent} (hn : Counted key n d)
    (hkeep : KeepsEntry chk key d e) :
    Counted key (n + if asks key e then 1 else 0) (d.step chk e).1 ∧
      sends n + (d.step chk e).2.countP (isFor key) = sends (n + if asks key e then 1 else 0) := by
  have herase : ∀ {d' : BftSyncdrv}, OnlyErases d d' → (d.step chk e).1 = d' →
      Counted key n d' := by
    intro d' herase heq
    exact hn.of_erases herase (heq ▸ hkeep)
  cases e with
  | sendSyncRequest t =>
    by_cases hasks : asks key (.sendSyncRequest t) = true
    · obtain ⟨hcounted, hsent⟩ := sendSyncRequest_counts hn hasks
      rw [if_pos hasks, sends_succ]
      exact ⟨hcounted, congrArg (sends n + ·) hsent⟩
    · obtain ⟨hsame, hsent⟩ := sendSyncRequest_other (d := d) (Bool.not_eq_true _ ▸ hasks)
      rw [if_neg hasks]
      refine ⟨?_, congrArg (sends n + ·) hsent⟩
      simpa only [Counted, step, hsame, Nat.add_zero] using hn
  | setLockBlock b => exact ⟨herase (setLockBlock_erases b) rfl, rfl⟩
  | viewFire viewid clock => exact ⟨herase (eraseRequests_erases _) rfl, rfl⟩
  | clockFire height => exact ⟨herase (eraseRequests_erases _) rfl, rfl⟩
  | syncRespond m => exact ⟨herase (handleSyncRespondMsg_erases m) rfl, rfl⟩
  | other rules => exact ⟨hn, rfl⟩

theorem run_counts {n : Nat} (hn : Counted key n d) (es : List SyncEvent)
    (hkeep : Run.Meets (step chk) (KeepsEntry chk key) d es) :
    sends n + (Run.run (step chk) d es).2.countP (isFor key) =
      sends (n + es.countP (asks key)) := by
  induction es generalizing d n with
  | nil => simp [Run.run]
  | cons e es ih =>
    obtain ⟨hcounted, hsent⟩ := step_counts hn hkeep.1
    have hrest := ih hcounted hkeep.2
    rw [Run.run, countP_append, countP_cons]
    rw [show n + (es.countP (asks key) + if asks key e then 1 else 0) =
      n + (if asks key e then 1 else 0) + es.countP (asks key) by omega, ← hrest, ← hsent]
    omega

theorem keepsEntry_sendSyncRequest (key : String) (t : SyncTarget) :
    KeepsEntry chk key d (.sendSyncRequest t) := by
  intro hsome
  show ((d.sendSyncRequest t).1.syncingRequests.find? key).isSome
  unfold sendSyncRequest
  split_ifs
  · dsimp only
    by_cases hk : key = syncKey t.targetBlockHash t.targetBlockHeight
    · split <;> simp [hk]
    · split <;> simpa [find?_insert_of_ne _ _ hk] using hsome
  · exact hsome

theorem meets_keepsEntry_replicate (key : String) (t : SyncTarget) (n : Nat) :
    Run.Meets (step chk) (KeepsEntry chk key) d (.replicate n (.sendSyncRequest t)) := by
  induction n generalizing d with
  | zero => trivial
  | succ n ih => exact ⟨keepsEntry_sendSyncRequest key t, ih⟩

def sampleTarget : SyncTarget :=
  ⟨⟨1, 0⟩, ⟨2, 0⟩, 5, "b", 9, 0, 6, 100, 0, true, 0, 0⟩

/-- The limit of two packets holds up to the 255th call and for no longer run: the 256th call
finds the count at zero again. -/
theorem sync_requests_throttled_iff (chk : BlockChecks) (d : BftSyncdrv) (hash : String)
    (height : UInt64) (es : List SyncEvent)
    (hnew : d.syncingRequests.find? (syncKey hash height) = none)
    (hkeep : Run.Meets (step chk) (KeepsEntry chk (syncKey hash height)) d es) :
    (Run.run (step chk) d es).2.countP (isFor (syncKey hash height)) ≤ 2 ↔
      es.countP (asks (syncKey hash height)) ≤ 255 := by
  have hrun := run_counts (.inl ⟨rfl, hnew⟩) es hkeep
  rw [show sends 0 = 0 from rfl, Nat.zero_add, Nat.zero_add] at hrun
  rw [hrun]
  exact sends_le_two_iff _

theorem sync_requests_throttled_sample :
    (Run.run (step accepting) (init "T") (.replicate 3 (.sendSyncRequest sampleTarget))).2.countP
      (isFor (syncKey "b" 5)) ≤ 2 :=
  (sync_requests_throttled_iff accepting (init "T") "b" 5
    (.replicate 3 (.sendSyncRequest sampleTarget)) rfl
    (meets_keepsEntry_replicate _ _ 3)).mpr (countP_le_length.trans (by decide))

theorem sync_request_third_packet :
    Run.Meets (step accepting) (KeepsEntry accepting (syncKey "b" 5)) (init "T")
        (.replicate 256 (.sendSyncRequest sampleTarget)) ∧
      (Run.run (step accepting) (init "T")
        (.replicate 256 (.sendSyncRequest sampleTarget))).2.countP (isFor (syncKey "b" 5)) = 3 := by
  have hkeep : Run.Meets (step accepting) (KeepsEntry accepting (syncKey "b" 5)) (init "T")
      (.replicate 256 (.sendSyncRequest sampleTarget)) := meets_keepsEntry_replicate _ _ _
  have hasks : asks (syncKey "b" 5) (.sendSyncRequest sampleTarget) = true := by
    simp [asks, sampleTarget]
  have hrun := run_counts (.inl ⟨rfl, rfl⟩) _ hkeep
  rw [countP_replicate, if_pos hasks] at hrun
  simp only [Nat.zero_add, sends_256, show sends 0 = 0 from rfl] at hrun
  exact ⟨hkeep, hrun⟩

end BftSyncdrv
end TopChain.Bft
