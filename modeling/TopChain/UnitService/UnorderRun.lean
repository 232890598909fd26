import TopChain.UnitService.BatchPacker

/-!
# The out-of-order cache over a run (`xunit_service/src/xcons_unorder_cache.cpp`)

Every proposal packet goes through the cache, and every view event clears it. The lookup of
`get_proposal_event` does not come past an entry of another view.
-/
namespace TopChain.UnitService

open Option List TopChain.Base TopChain.Bft TopChain.Lib Word SortedMap UnorderCache

/-- What a call puts into the cache or takes out of it. -/
inductive CacheOutput where
  | cached (w : ProposalPdu)
  | handed (viewid : UInt64) (w : ProposalPdu)
deriving DecidableEq

namespace BatchPacker

def Early (accountViewid : UInt64) (w : ProposalPdu) : Prop :=
  accountViewid < w.packet.viewid ∧ w.packet.viewid ≤ accountViewid + UnorderCache.maxViewNum

instance instDecidableEarly (accountViewid : UInt64) (w : ProposalPdu) :
    Decidable (Early accountViewid w) := inferInstanceAs (Decidable (_ ∧ _))

variable (chk : BlockChecks) (p : BatchPacker)

/-- The checks of `on_view_fire` that stand before its call of `get_proposal_event`; the last one
is that another node leads the view. -/
def asks (v : ViewFire) : Bool :=
  (p.xip.zoneId = consensusZone || p.xip.zoneId = beaconZone || p.xip.zoneId = zecZone) &&
    v.services.latestCert.viewid < v.viewid && (v.latestBlocksOk && v.hasWork) &&
    (v.services.leaderOf p.account v.viewid p.xip p.xip).any (· ≠ p.xip)

/-- The cache that `on_view_fire` leaves, and whether its lookup hangs. -/
def viewCache (v : ViewFire) : UnorderCache × Bool :=
  let c := clearOld p.unorder v.viewid
  if p.asks v then
    match getProposalEvent c v.viewid with
    | .nothing => (c, p.stuck)
    | .event w rest => (filterEvent rest v.viewid w, p.stuck)
    | .stuck => (c, true)
  else (c, p.stuck)

def cacheOutputs : PackerEvent → List CacheOutput
  | .recvIn _ w => if Early p.lastViewid w then [.cached w] else []
  | .viewFire v =>
    if p.asks v then
      match getProposalEvent (clearOld p.unorder v.viewid) v.viewid with
      | .event w _ => [.handed v.viewid w]
      | _ => []
    else []
  | _ => []

/-- A step of the packer, with what it does to the cache. -/
def watch (e : PackerEvent) : BatchPacker × List CacheOutput :=
  ((p.step chk e).1, if p.stuck then [] else p.cacheOutputs e)

variable {chk p} {v : ViewFire}

theorem recvIn_cache (s : Services) (w : ProposalPdu) :
    (p.recvIn s w).1.lastViewid = p.lastViewid ∧ (p.recvIn s w).1.stuck = p.stuck ∧
      (p.recvIn s w).1.unorder = filterEvent p.unorder p.lastViewid w := by
  unfold recvIn
  dsimp only
  split_ifs
  · exact ⟨rfl, rfl, rfl⟩
  · exact ⟨rfl, rfl, rfl⟩
  · exact ⟨rfl, rfl, rfl⟩

theorem onViewFire_cache : (p.onViewFire chk v).1.lastViewid = v.viewid ∧
    (p.onViewFire chk v).1.unorder = (p.viewCache v).1 ∧
    (p.onViewFire chk v).1.stuck = (p.viewCache v).2 := by
  unfold onViewFire leadOrFollow viewCache asks
  dsimp only
  by_cases hzone : (p.xip.zoneId = consensusZone || p.xip.zoneId = beaconZone ||
    p.xip.zoneId = zecZone) = true
  swap
  · simp [hzone]
  by_cases hview : v.viewid ≤ v.services.latestCert.viewid
  · simp [hzone, hview, not_lt.mpr hview]
  by_cases hwork : (v.latestBlocksOk && v.hasWork) = true
  swap
  · simp [hzone, hview, hwork, ← Bool.not_and]
  rw [← Bool.not_and, hzone, hwork]
  cases hleader : v.services.leaderOf p.account v.viewid p.xip p.xip with
  | none => simp [hview]
  | some leader =>
    by_cases hself : leader = p.xip
    · have hnot : ¬ (leader ≠ p.xip) := not_not.mpr hself
      simp only [hview, hnot, if_false, Bool.not_true, Bool.false_eq_true, Option.any_some,
        decide_false, Bool.and_false]
      cases v.drandReady with
      | false => exact ⟨rfl, rfl, rfl⟩
      | true => cases v.start with
        | none => exact ⟨rfl, rfl, rfl⟩
        | some start => exact ⟨rfl, rfl, rfl⟩
    · simp only [hview, hself, not_le.mp hview, ne_eq, not_false_eq_true, if_true,
        if_false, Bool.not_true, Bool.false_eq_true, Option.any_some, decide_true, Bool.and_true]
      cases getProposalEvent (clearOld p.unorder v.viewid) v.viewid with
      | nothing => exact ⟨rfl, rfl, rfl⟩
      | stuck => exact ⟨rfl, rfl, rfl⟩
      | event w rest =>
        obtain ⟨hlast, hstuck, hcache⟩ := recvIn_cache
          (p := { p with lastViewid := v.viewid, unorder := rest }) v.services w
        exact ⟨hlast, hcache, hstuck⟩

/-- The view does not go back. -/
def NonDecreasing (p : BatchPacker) : PackerEvent → Prop
  | .viewFire v => p.lastViewid ≤ v.viewid
  | _ => True

/-- Every view is above the last. -/
def Increasing (p : BatchPacker) : PackerEvent → Prop
  | .viewFire v => p.lastViewid < v.viewid
  | _ => True

/-- The last proposal of a view that was cached and not handed out since. -/
def pending (viewid : UInt64) (outs : List CacheOutput) : Option ProposalPdu :=
  outs.foldl (fun last o => match o with
    | .cached w => if w.packet.viewid = viewid then some w else last
    | .handed v _ => if v = viewid then none else last) none

variable {outs : List CacheOutput} {viewid current : UInt64} {c : UnorderCache}

theorem pending_cached (w : ProposalPdu) : pending viewid (outs ++ [.cached w]) =
    if w.packet.viewid = viewid then some w else pending viewid outs := by
  simp [pending, foldl_append]

theorem pending_handed (v' : UInt64) (w : ProposalPdu) : pending viewid (outs ++ [.handed v' w]) =
    if v' = viewid then none else pending viewid outs := by
  simp [pending, foldl_append]

theorem filterEvent_eq (c : UnorderCache) (accountViewid : UInt64) (w : ProposalPdu) :
    UnorderCache.filterEvent c accountViewid w =
      if Early accountViewid w then c.insert w.packet.viewid w else c := by
  have hdrop : (w.packet.viewid < accountViewid || w.packet.viewid >
      accountViewid + maxViewNum) = true ∨ w.packet.viewid = accountViewid ↔
      ¬ Early accountViewid w := by
    simp only [Early, Bool.or_eq_true, decide_eq_true_eq, not_and_or, not_lt, not_le, gt_iff_lt]
    rw [le_iff_lt_or_eq (a := w.packet.viewid)]
    tauto
  unfold filterEvent
  by_cases hearly : Early accountViewid w
  · obtain ⟨hin, hne⟩ := not_or.mp fun h => hdrop.mp h hearly
    rw [if_neg hne, if_neg hin, if_pos hearly]
  · rw [if_neg hearly]
    rcases hdrop.mpr hearly with h | h <;> simp [h]

theorem Early.toNat_eq {w : ProposalPdu} (h : Early viewid w) :
    w.packet.viewid.toNat = viewid.toNat + 1 := by
  have hlow := lt_nat.mp h.1
  have hhigh := le_nat.mp h.2
  have hone : maxViewNum.toNat = 1 := rfl
  have hmod := Nat.mod_le (viewid.toNat + 1) (2 ^ 64)
  rw [UInt64.toNat_add, hone] at hhigh
  omega

/-- From the view on, the cache has the pending proposals, and none is more than one view ahead. -/
structure CacheInv (outs : List CacheOutput) (current : UInt64) (c : UnorderCache) : Prop where
  find_eq : ∀ k, c.find? k = if k < current then none else pending k outs
  ahead : ∀ k w, pending k outs = some w → k.toNat ≤ current.toNat + 1
  own : ∀ k w, pending k outs = some w → w.packet.viewid = k

namespace CacheInv
variable (h : CacheInv outs current c)
include h

theorem packet (w : ProposalPdu) :
    CacheInv (outs ++ if Early current w then [.cached w] else []) current
      (filterEvent c current w) := by
  rw [filterEvent_eq]
  by_cases hearly : Early current w
  · rw [if_pos hearly, if_pos hearly]
    refine ⟨fun k => ?_, fun k w' hk => ?_, fun k w' hk => ?_⟩
    · rw [pending_cached]
      by_cases hkw : w.packet.viewid = k
      · rw [if_pos hkw, ← hkw, find?_insert_self, if_neg hearly.1.asymm]
      · rw [if_neg hkw, find?_insert_of_ne _ _ (Ne.symm hkw)]
        exact h.find_eq k
    · rw [pending_cached] at hk
      split_ifs at hk with hkw
      · exact (hkw ▸ hearly.toNat_eq).le
      · exact h.ahead k w' hk
    · rw [pending_cached] at hk
      split_ifs at hk with hkw
      · exact Option.some.inj hk ▸ hkw
      · exact h.own k w' hk
  · rw [if_neg hearly, if_neg hearly, append_nil]
    exact h

theorem clear (hv : current < viewid) : CacheInv outs viewid (clearOld c viewid) := by
  refine ⟨fun k => ?_, fun k w hk => (h.ahead k w hk).trans ?_, h.own⟩
  · have hclear := find?_filter_key c (fun k => !(k < viewid)) k
    rw [clearOld, hclear, h.find_eq]
    by_cases hk : k < viewid
    · simp [hk]
    · simp [hk, (hv.trans_le (le_of_not_gt hk)).asymm]
  · have hlt := lt_nat.mp hv
    omega

/-- After a rise of the view all that is left in the cache is of the new view, so the lookup ends
at its first entry. -/
theorem getProposalEvent_eq (hv : current < viewid) :
    getProposalEvent (clearOld c viewid) viewid =
      (pending viewid outs).elim .nothing fun w =>
        .event w (SortedMap.erase (clearOld c viewid) viewid) := by
  have hfind : ∀ k, SortedMap.find? (clearOld c viewid) k =
      if k < viewid then none else pending k outs := (h.clear hv).find_eq
  generalize clearOld c viewid = c' at hfind
  have hown : ∀ k w, c'.find? k = some w → k = viewid := by
    intro k w hk
    rw [hfind] at hk
    split_ifs at hk with hkv
    have hle := le_nat.mp (le_of_not_gt hkv)
    have hlt := lt_nat.mp hv
    have hahead := h.ahead k w hk
    exact UInt64.toNat_inj.mp (by omega)
  have hself : c'.find? viewid = pending viewid outs := by rw [hfind, if_neg (lt_irrefl viewid)]
  unfold getProposalEvent
  cases he : c'.entries with
  | nil =>
    have hnone : c'.find? viewid = none := find?_eq_none_iff.mpr (by simp [he])
    rw [← hself, hnone]
    rfl
  | cons e rest =>
    have hk : c'.find? e.1 = some e.2 := find?_eq_some_iff.mpr (he ▸ mem_cons_self)
    have hev := hown e.1 e.2 hk
    rw [← hself, ← hev, hk]
    exact if_pos rfl

theorem handed (hv : current < viewid) {w : ProposalPdu} (hp : pending viewid outs = some w) :
    CacheInv (outs ++ [.handed viewid w]) viewid
      (filterEvent (SortedMap.erase (clearOld c viewid) viewid) viewid w) := by
  have hclear := h.clear hv
  -- the packet goes through the cache again, and stays out of it at its own view
  rw [filterEvent_eq, if_neg fun hearly => hearly.1.ne (h.own viewid w hp).symm]
  refine ⟨fun k => ?_, fun k w' hk => ?_, fun k w' hk => ?_⟩
  · rw [find?_erase, hclear.find_eq, pending_handed]
    by_cases hkv : k = viewid
    · simp [hkv]
    · rw [if_neg hkv, if_neg (Ne.symm hkv)]
  · rw [pending_handed] at hk
    split_ifs at hk
    exact hclear.ahead k w' hk
  · rw [pending_handed] at hk
    split_ifs at hk
    exact h.own k w' hk

theorem length_le : c.entries.length ≤ 2 := by
  have hnodup : (c.entries.map (·.1.toNat)).Nodup :=
    pairwise_map.mpr (c.sorted.imp fun hlt => (lt_nat.mp hlt).ne)
  have hsub : c.entries.map (·.1.toNat) ⊆ [current.toNat, current.toNat + 1] := by
    intro k hk
    obtain ⟨e, he, rfl⟩ := mem_map.mp hk
    have hfind : c.find? e.1 = some e.2 := find?_eq_some_iff.mpr he
    rw [h.find_eq] at hfind
    split_ifs at hfind with hlt
    have hlow := le_nat.mp (le_of_not_gt hlt)
    have hahead := h.ahead e.1 e.2 hfind
    simp only [mem_cons, not_mem_nil, or_false]
    omega
  simpa using (subperm_of_subset hnodup hsub).length_le

end CacheInv

/-- No call has hung, and the cache is as it should be. -/
structure Watched (outs : List CacheOutput) (p : BatchPacker) : Prop where
  running : p.stuck = false
  cache : CacheInv outs p.lastViewid p.unorder

section
variable (h : Watched outs p)
include h

theorem Watched.not_stuck : ¬ p.stuck = true := by
  rw [h.running]
  exact Bool.false_ne_true

theorem Watched.outputs_view (hv : p.lastViewid < v.viewid) (hasks : p.asks v = true) :
    (p.watch chk (.viewFire v)).2 = (pending v.viewid outs).toList.map (.handed v.viewid) := by
  rw [watch, if_neg h.not_stuck, cacheOutputs, if_pos hasks, h.cache.getProposalEvent_eq hv]
  cases pending v.viewid outs with
  | none => rfl
  | some w => rfl

theorem Watched.view (hv : p.lastViewid < v.viewid) :
    Watched (outs ++ (p.watch chk (.viewFire v)).2) (p.watch chk (.viewFire v)).1 := by
  obtain ⟨hlast, hunorder, hstuck⟩ := @onViewFire_cache chk p v
  have hstep : (p.watch chk (.viewFire v)).1 = (p.onViewFire chk v).1 := by
    rw [watch, BatchPacker.step, if_neg h.not_stuck]
  rw [viewCache, h.cache.getProposalEvent_eq hv, h.running] at hunorder hstuck
  cases hasks : p.asks v with
  | false =>
    have hno : ¬ p.asks v = true := by simp [hasks]
    have hout : (p.watch chk (.viewFire v)).2 = [] := by
      rw [watch, if_neg h.not_stuck, cacheOutputs, if_neg hno]
    rw [if_neg hno] at hunorder hstuck
    rw [hout, hstep, append_nil]
    refine ⟨hstuck, ?_⟩
    rw [hlast, hunorder]
    exact h.cache.clear hv
  | true =>
    rw [if_pos hasks] at hunorder hstuck
    rw [h.outputs_view hv hasks, hstep]
    cases hp : pending v.viewid outs with
    | none =>
      rw [hp] at hunorder hstuck
      refine ⟨hstuck, ?_⟩
      rw [hlast, hunorder, Option.toList_none, map_nil, append_nil]
      exact h.cache.clear hv
    | some w =>
      rw [hp] at hunorder hstuck
      refine ⟨hstuck, ?_⟩
      rw [hlast, hunorder]
      exact h.cache.handed hv hp

theorem Watched.step {e : PackerEvent} (he : Increasing p e) :
    Watched (outs ++ (p.watch chk e).2) (p.watch chk e).1 := by
  have hkept : Watched (outs ++ []) p := by rwa [append_nil]
  cases e with
  | viewFire v => exact h.view he
  | recvIn s w =>
    obtain ⟨hlast, hstuck, hcache⟩ := recvIn_cache (p := p) s w
    rw [watch, BatchPacker.step, if_neg h.not_stuck, if_neg h.not_stuck]
    refine ⟨hstuck.trans h.running, ?_⟩
    rw [hlast, hcache]
    exact h.cache.packet w
  | resetXip xip =>
    rw [watch, BatchPacker.step, if_neg h.not_stuck, if_neg h.not_stuck]
    exact ⟨hkept.running, hkept.cache⟩
  | deliver i v =>
    rw [watch, BatchPacker.step, if_neg h.not_stuck, if_neg h.not_stuck]
    dsimp only
    split
    · exact hkept
    · exact ⟨hkept.running, hkept.cache⟩
  | driver e hint =>
    rw [watch, BatchPacker.step, if_neg h.not_stuck, if_neg h.not_stuck]
    exact ⟨hkept.running, hkept.cache⟩

end

/-- When each view event has a higher view than the one before, all calls return, the cache has at
most two events, and a lookup hands out the last proposal of its view that was not handed out. -/
theorem unorder_cache_answers (chk : BlockChecks) (account : String) (xip : Xvip2)
    (events : List PackerEvent)
    (hm : Run.Meets (watch chk) Increasing (init account xip) events) :
    let r := Run.run (watch chk) (init account xip) events
    r.1.stuck = false ∧ r.1.unorder.entries.length ≤ 2 ∧
      ∀ v : ViewFire, r.1.lastViewid < v.viewid → r.1.asks v = true →
        (r.1.watch chk (.viewFire v)).2 = (pending v.viewid r.2).toList.map (.handed v.viewid) := by
  have hnone : ∀ k w, pending k [] ≠ some w := fun _ _ hk => nomatch hk
  have hinit : Watched [] (init account xip) :=
    ⟨rfl, fun k => (ite_self none).symm, fun k w hk => absurd hk (hnone k w),
      fun k w hk => absurd hk (hnone k w)⟩
  have hrun := Run.run_hist (I := Watched) (fun _ _ _ h he => h.step he) hinit events hm
  exact ⟨hrun.running, hrun.cache.length_le, fun v hv hasks => hrun.outputs_view hv hasks⟩

namespace Sample

/-- A view event at a node that follows, above the certified view 4. -/
def fire (viewid : UInt64) : ViewFire :=
  ⟨viewid, services { blockD leader with viewid := 4 }, true, true, true, none⟩

def sixth : ProposalPdu := ⟨⟨0, "T", 5, 6, 1⟩, leader, ⟨3, 0⟩, true, true, none⟩

def ahead : List PackerEvent := [.viewFire (fire 5), .recvIn (services (blockD leader)) sixth]

end Sample

open Sample in
theorem unorder_cache_answers_sample :
    let chk := BftDriver.LeaderRun.accepting
    Run.Meets (watch chk) Increasing (init "T" ⟨3, 0⟩) ahead ∧
      ((Run.run (watch chk) (init "T" ⟨3, 0⟩) ahead).1.watch chk (.viewFire (fire 6))).2 =
        [.handed 6 sixth] := by
  intro chk
  have hmeets : Run.Meets (watch chk) Increasing (init "T" ⟨3, 0⟩) ahead :=
    ⟨show (0 : UInt64) < 5 by decide, trivial, trivial⟩
  refine ⟨hmeets, ?_⟩
  have hanswer := (unorder_cache_answers chk "T" ⟨3, 0⟩ ahead hmeets).2.2 (fire 6)
    (by decide) (by decide)
  exact hanswer.trans (by decide)

open Sample in
/-- The pacemaker repeats no view (`xclockcert_view::update_view`), so this run is only what the
assertion of `on_view_fire` allows. -/
theorem repeated_view_hangs :
    let chk := BftDriver.LeaderRun.accepting
    let events := ahead ++ [.viewFire (fire 5)]
    Run.Meets (watch chk) NonDecreasing (init "T" ⟨3, 0⟩) events ∧
      (Run.run (watch chk) (init "T" ⟨3, 0⟩) ahead).1.asks (fire 5) = true ∧
      (Run.run (watch chk) (init "T" ⟨3, 0⟩) events).1.stuck = true :=
  ⟨⟨show (0 : UInt64) ≤ 5 by decide, trivial, le_rfl, trivial⟩, by decide, by decide⟩

end BatchPacker
end TopChain.UnitService
