import TopChain.Election.Rotation
import TopChain.Lib.Run

/-!
# Virtual nodes and their pool services (`xvnode_manager.cpp`, `xtxpool_service_mgr.cpp`)

Each version of an address has a virtual node of its own, and all of them share one pool service.
A service is found by the address without its version; `destroy` is called with the address of
the whole group, whose slot is the broadcast slot, and so it finds no service.
-/
namespace TopChain.Election

open Function List TopChain.Lib

abbrev broadcastSlotId : ℕ := 0x3FF

/-- An address with the version erased (`xcons_utl::erase_version`). -/
structure ServiceKey where
  group : String
  slot : ℕ
deriving DecidableEq

structure Vnode where
  key : ServiceKey
  version : ℕ
  times : GroupElement
  running : Bool
  faded : Bool

structure VnodeManager where
  allNodes : List Vnode
  services : ServiceKey → Option Bool

/-- The host in a group of an election result: its slot, the version and the time of the group. -/
structure HostElement where
  slot : Fin broadcastSlotId
  version : ℕ
  time : UInt64

def HostElement.key (g : HostElement) (group : String) : ServiceKey := ⟨group, g.slot⟩

/-- An election result for a group, with up to three of its host elements, or the timer. -/
inductive VnodeEvent where
  | election (group : String) (outdated faded added : Option HostElement)
  | timer (now : UInt64)

namespace Vnode

def status (now : UInt64) (v : Vnode) : RotationStatus := v.times.rotationStatus now

def isAt (key : ServiceKey) (version : ℕ) (v : Vnode) : Bool := v.key = key ∧ v.version = version

/-- Started and not yet faded. -/
def active (v : Vnode) : Bool := v.running && !v.faded

def fades (now : UInt64) (v : Vnode) : Bool := v.status now = .faded ∧ !v.faded ∧ v.running

def starts (now : UInt64) (v : Vnode) : Bool := v.status now = .started ∧ !v.running

def fade (now : UInt64) (v : Vnode) : Vnode := if v.fades now then { v with faded := true } else v

def start (now : UInt64) (v : Vnode) : Vnode :=
  if v.starts now then { v with running := true } else v

end Vnode

open Vnode

def setRunning (services : ServiceKey → Option Bool) (key : ServiceKey) (b : Bool) :
    ServiceKey → Option Bool :=
  Function.update services key ((services key).map fun _ => b)

namespace VnodeManager

def empty : VnodeManager := ⟨[], fun _ => none⟩

def holds (m : VnodeManager) (group : String) (g : HostElement) : Bool :=
  m.allNodes.any (isAt (g.key group) g.version)

def setTimes (m : VnodeManager) (key : ServiceKey) (version : ℕ) (f : GroupElement → GroupElement) :
    VnodeManager :=
  { m with allNodes := m.allNodes.map fun v =>
      if v.isAt key version then { v with times := f v.times } else v }

def create (m : VnodeManager) (key : ServiceKey) (version : ℕ) (startTime : UInt64) :
    VnodeManager where
  allNodes := ⟨key, version, ⟨startTime, judgementDay, judgementDay⟩, false, false⟩ :: m.allNodes
  services := Function.update m.services key (some ((m.services key).getD false))

def destroy (m : VnodeManager) (key : ServiceKey) : VnodeManager :=
  { m with services := Function.update m.services key none }

def handleElectionData (m : VnodeManager) (group : String)
    (outdated faded added : Option HostElement) : VnodeManager :=
  let hasOutdated := outdated.any (m.holds group)
  let hasFaded := faded.any (m.holds group)
  let m := outdated.elim m fun g =>
    m.setTimes (g.key group) g.version fun t => { t with outdateTime := g.time }
  let m := faded.elim m fun g =>
    m.setTimes (g.key group) g.version fun t => { t with fadeTime := g.time }
  match added with
  | some g => if m.holds group g then m else m.create (g.key group) g.version g.time
  | none => if hasOutdated && !hasFaded then m.destroy ⟨group, broadcastSlotId⟩ else m

def onTimer (m : VnodeManager) (now : UInt64) : VnodeManager :=
  let held := m.allNodes.filter (·.status now ≠ .outdated)
  let services :=
    held.foldl (fun s v => if v.fades now then setRunning s v.key false else s) m.services
  let held := held.map (fade now)
  let services :=
    held.foldl (fun s v => if v.starts now then setRunning s v.key true else s) services
  ⟨held.map (start now), services⟩

def step (m : VnodeManager) : VnodeEvent → VnodeManager × List Empty
  | .election group outdated faded added => (m.handleElectionData group outdated faded added, [])
  | .timer now => (m.onTimer now, [])

/-- What a tick must find: a node that was started and has not faded is started still, or fades
now together with all such nodes at its address; and no node that has faded is to be started. -/
def Orderly (m : VnodeManager) : VnodeEvent → Prop
  | .election _ _ _ _ => True
  | .timer now => ∀ v ∈ m.allNodes,
    (v.active = true → v.status now = .started ∨ v.status now = .faded ∧
      ∀ w ∈ m.allNodes, w.key = v.key → w.active = true → w.status now = .faded) ∧
    (v.faded = true → v.status now ≠ .started)

structure Tracks (m : VnodeManager) : Prop where
  running : ∀ key b, m.services key = some b →
    (b = true ↔ ∃ v ∈ m.allNodes, v.key = key ∧ v.active = true)
  kept : ∀ v ∈ m.allNodes, v.key.slot < broadcastSlotId ∧ m.services v.key ≠ none

variable {m : VnodeManager} {now : UInt64} {key : ServiceKey} {b : Bool}

theorem setTimes_same (key : ServiceKey) (version : ℕ) (f : GroupElement → GroupElement)
    (v : Vnode) :
    (if v.isAt key version then { v with times := f v.times } else v).key = v.key ∧
      (if v.isAt key version then { v with times := f v.times } else v).active = v.active := by
  split_ifs
  · exact ⟨rfl, rfl⟩
  · exact ⟨rfl, rfl⟩

theorem Tracks.setTimes (h : Tracks m) (key : ServiceKey) (version : ℕ)
    (f : GroupElement → GroupElement) : Tracks (m.setTimes key version f) := by
  constructor
  · intro k b hb
    rw [h.running k b hb]
    simp only [VnodeManager.setTimes, mem_map, exists_exists_and_eq_and, (setTimes_same _ _ _ _).1,
      (setTimes_same _ _ _ _).2]
  · intro v' hv'
    obtain ⟨v, hv, rfl⟩ := mem_map.mp hv'
    rw [(setTimes_same _ _ _ v).1]
    exact h.kept v hv

/-- A service that is new belongs to no node held so far, so that none of them is active. -/
theorem Tracks.create (h : Tracks m) (hkey : key.slot < broadcastSlotId) (version : ℕ)
    (startTime : UInt64) : Tracks (m.create key version startTime) := by
  constructor
  · intro k b hb
    have hnodes : (∃ v ∈ (m.create key version startTime).allNodes, v.key = k ∧ v.active = true) ↔
        ∃ v ∈ m.allNodes, v.key = k ∧ v.active = true := by
      simp [VnodeManager.create, active]
    rw [hnodes]
    by_cases hk : k = key
    · subst hk
      simp only [VnodeManager.create, update_self] at hb
      cases hs : m.services k with
      | none =>
        rw [hs] at hb
        obtain rfl := Option.some.inj hb
        refine iff_of_false Bool.false_ne_true ?_
        rintro ⟨v, hv, rfl, -⟩
        exact (h.kept v hv).2 hs
      | some b' =>
        rw [hs] at hb
        obtain rfl := Option.some.inj hb
        exact h.running k _ hs
    · simp only [VnodeManager.create, update_of_ne hk] at hb
      exact h.running k b hb
  · intro v hv
    simp only [VnodeManager.create]
    rcases mem_cons.mp hv with rfl | hv
    · exact ⟨hkey, by simp⟩
    · refine ⟨(h.kept v hv).1, ?_⟩
      rw [Function.update_apply]
      split_ifs
      · exact Option.some_ne_none _
      · exact (h.kept v hv).2

/-- No node has the broadcast slot, so its service survives the call. -/
theorem Tracks.destroy (h : Tracks m) (group : String) :
    Tracks (m.destroy ⟨group, broadcastSlotId⟩) := by
  constructor
  · intro k b hb
    by_cases hk : k = ⟨group, broadcastSlotId⟩
    · simp [hk, VnodeManager.destroy] at hb
    · simp only [VnodeManager.destroy, update_of_ne hk] at hb
      exact h.running k b hb
  · intro v hv
    obtain ⟨hslot, hservice⟩ := h.kept v hv
    have hne : v.key ≠ ⟨group, broadcastSlotId⟩ := fun heq => by simp [heq] at hslot
    simp only [VnodeManager.destroy, update_of_ne hne]
    exact ⟨hslot, hservice⟩

theorem foldl_setRunning (p : Vnode → Bool) (l : List Vnode) (s : ServiceKey → Option Bool) :
    l.foldl (fun s v => if p v then setRunning s v.key b else s) s key =
      if ∃ v ∈ l, v.key = key ∧ p v = true then (s key).map fun _ => b else s key := by
  induction l generalizing s with
  | nil => simp
  | cons v l ih =>
    rw [foldl_cons, ih]
    by_cases hp : p v = true
    · by_cases hk : v.key = key
      · subst hk
        have hmap : ((s v.key).map fun _ => b).map (fun _ => b) = (s v.key).map fun _ => b := by
          rw [Option.map_map]
          rfl
        simp [hp, setRunning, hmap]
      · simp [hp, hk, setRunning, update_of_ne (Ne.symm hk)]
    · simp [hp]

theorem fade_same (v : Vnode) : (fade now v).times = v.times ∧ (fade now v).key = v.key := by
  unfold fade
  split_ifs
  · exact ⟨rfl, rfl⟩
  · exact ⟨rfl, rfl⟩

theorem tick_same (v : Vnode) : (start now (fade now v)).status now = v.status now ∧
    (start now (fade now v)).key = v.key := by
  obtain ⟨htimes, hkey⟩ := @fade_same now v
  unfold start status
  split_ifs
  · exact ⟨by rw [htimes], hkey⟩
  · exact ⟨by rw [htimes], hkey⟩

theorem fade_of_ne {v : Vnode} (h : v.status now ≠ .faded) : fade now v = v :=
  if_neg (by simp [fades, h])

theorem active_tick {v : Vnode} (hstatus : v.active = true → v.status now = .started ∨
    v.status now = .faded) (hfaded : v.faded = true → v.status now ≠ .started) :
    (start now (fade now v)).active = true ↔ v.status now = .started := by
  by_cases hs : v.status now = .started
  · refine iff_of_true ?_ hs
    have hflag : v.faded = false := Bool.eq_false_iff.mpr fun h => hfaded h hs
    rw [fade_of_ne (by simp [hs])]
    unfold start
    cases hrun : v.running with
    | false => simp [starts, hs, hrun, active, hflag]
    | true => simp [starts, hrun, active, hflag]
  · refine iff_of_false ?_ hs
    have hstart : start now (fade now v) = fade now v :=
      if_neg (by
        simp [starts, status, (fade_same v).1, show v.times.rotationStatus now ≠ _ from hs])
    rw [hstart]
    by_cases hf : v.status now = .faded
    · unfold fade
      split_ifs with hfades
      · simp [active]
      · simpa [fades, hf, active, and_comm] using hfades
    · rw [fade_of_ne hf]
      exact fun h => (hstatus h).elim hs hf

theorem exists_held (m : VnodeManager) (now : UInt64) {p : Vnode → Prop}
    (hp : ∀ v, p v → v.status now ≠ .outdated) :
    (∃ v ∈ m.allNodes.filter (·.status now ≠ .outdated), p v) ↔ ∃ v ∈ m.allNodes, p v := by
  simp only [mem_filter, decide_eq_true_eq, and_assoc]
  exact exists_congr fun v => and_congr_right fun _ => and_iff_right_of_imp (hp v)

theorem services_onTimer : (m.onTimer now).services key =
    if ∃ v ∈ m.allNodes, v.key = key ∧ v.starts now = true then (m.services key).map fun _ => true
    else if ∃ v ∈ m.allNodes, v.key = key ∧ v.fades now = true then
      (m.services key).map fun _ => false
    else m.services key := by
  have hstarts : ∀ v : Vnode, (fade now v).starts now = v.starts now := by
    intro v
    unfold fade
    split_ifs
    · rfl
    · rfl
  have hfade := exists_held m now (p := fun v => v.key = key ∧ v.fades now = true) fun v h => by
    simp only [fades, decide_eq_true_eq] at h
    simp [h.2.1]
  have hstart := exists_held m now (p := fun v => v.key = key ∧ v.starts now = true) fun v h => by
    simp only [starts, decide_eq_true_eq] at h
    simp [h.2.1]
  unfold onTimer
  dsimp only
  rw [foldl_setRunning, foldl_setRunning]
  simp only [mem_map, exists_exists_and_eq_and, hstarts, (fade_same _).2, hfade, hstart]
  split_ifs
  · rw [Option.map_map]
    rfl
  · rfl
  · rfl
  · rfl

theorem active_iff_started (h : m.Orderly (.timer now)) :
    ∀ v ∈ (m.onTimer now).allNodes, v.active = true ↔ v.status now = .started := by
  intro v' hv'
  obtain ⟨w, hw, rfl⟩ := mem_map.mp hv'
  obtain ⟨v, hv, rfl⟩ := mem_map.mp hw
  have ho := h v (mem_filter.mp hv).1
  rw [(tick_same v).1]
  exact active_tick (fun ha => (ho.1 ha).imp_right And.left) ho.2

theorem exists_started_onTimer :
    (∃ v ∈ (m.onTimer now).allNodes, v.key = key ∧ v.status now = .started) ↔
      ∃ v ∈ m.allNodes, v.key = key ∧ v.status now = .started := by
  simp only [onTimer, mem_map, exists_exists_and_eq_and, (tick_same _).1, (tick_same _).2]
  exact exists_held m now fun v h => by simp [h.2]

theorem Tracks.started (h : Tracks m) (ho : m.Orderly (.timer now))
    (hb : (m.onTimer now).services key = some b) :
    b = true ↔ ∃ v ∈ m.allNodes, v.key = key ∧ v.status now = .started := by
  rw [services_onTimer] at hb
  have hrunning : ∀ v ∈ m.allNodes, v.key = key → v.status now = .started →
      (¬ ∃ v ∈ m.allNodes, v.key = key ∧ v.starts now = true) → v.active = true := by
    intro v hv hk hs hnone
    have hflag : v.faded = false := Bool.eq_false_iff.mpr fun h => (ho v hv).2 h hs
    have hrun : v.running = true := by
      by_contra hrun
      exact hnone ⟨v, hv, hk, by simp [starts, hs, hrun]⟩
    simp [active, hflag, hrun]
  split_ifs at hb with hstarts hfades
  · obtain ⟨b', -, rfl⟩ := Option.map_eq_some_iff.mp hb
    obtain ⟨v, hv, hk, hv'⟩ := hstarts
    simp only [starts, decide_eq_true_eq] at hv'
    exact iff_of_true rfl ⟨v, hv, hk, hv'.1⟩
  · obtain ⟨b', -, rfl⟩ := Option.map_eq_some_iff.mp hb
    refine iff_of_false Bool.false_ne_true ?_
    rintro ⟨w, hw, hk, hs⟩
    -- a node that goes on would be active beside the one that fades
    obtain ⟨v, hv, hvk, hv'⟩ := hfades
    simp only [fades, decide_eq_true_eq] at hv'
    obtain ⟨hvs, hvf, hvr⟩ := hv'
    have hactive : v.active = true := by simpa [active, hvr] using hvf
    obtain hstarted | ⟨-, hall⟩ := (ho v hv).1 hactive
    · rw [hvs] at hstarted
      cases hstarted
    · have hws := hall w hw (hk.trans hvk.symm) (hrunning w hw hk hs hstarts)
      rw [hs] at hws
      cases hws
  · rw [h.running key b hb]
    constructor
    · rintro ⟨v, hv, hk, ha⟩
      obtain hs | ⟨hs, -⟩ := (ho v hv).1 ha
      · exact ⟨v, hv, hk, hs⟩
      · refine absurd ⟨v, hv, hk, ?_⟩ hfades
        have hflags : v.running = true ∧ v.faded = false := by simpa [active] using ha
        simp [fades, hs, hflags]
    · rintro ⟨v, hv, hk, hs⟩
      exact ⟨v, hv, hk, hrunning v hv hk hs hstarts⟩

theorem Tracks.onTimer (h : Tracks m) (ho : m.Orderly (.timer now)) : Tracks (m.onTimer now) := by
  constructor
  · intro key b hb
    rw [h.started ho hb, ← exists_started_onTimer]
    constructor
    · rintro ⟨v, hv, hk, hs⟩
      exact ⟨v, hv, hk, (active_iff_started ho v hv).mpr hs⟩
    · rintro ⟨v, hv, hk, ha⟩
      exact ⟨v, hv, hk, (active_iff_started ho v hv).mp ha⟩
  · intro v' hv'
    obtain ⟨w, hw, rfl⟩ := mem_map.mp hv'
    obtain ⟨v, hv, rfl⟩ := mem_map.mp hw
    obtain ⟨hslot, hservice⟩ := h.kept v (mem_filter.mp hv).1
    rw [(tick_same v).2, services_onTimer]
    refine ⟨hslot, ?_⟩
    split_ifs
    · exact Option.map_eq_none_iff.not.mpr hservice
    · exact Option.map_eq_none_iff.not.mpr hservice
    · exact hservice

theorem Tracks.handleElectionData (h : Tracks m) (group : String)
    (outdated faded added : Option HostElement) :
    Tracks (m.handleElectionData group outdated faded added) := by
  have hset : ∀ (m : VnodeManager) (g : Option HostElement)
      (f : UInt64 → GroupElement → GroupElement), Tracks m →
      Tracks (g.elim m fun g => m.setTimes (g.key group) g.version (f g.time)) := by
    intro m g f h
    cases g with
    | none => exact h
    | some g => exact h.setTimes _ g.version (f g.time)
  have hboth := hset _ faded (fun t times => { times with fadeTime := t })
    (hset m outdated (fun t times => { times with outdateTime := t }) h)
  unfold VnodeManager.handleElectionData
  dsimp only
  cases added with
  | none =>
    dsimp only
    split
    · exact hboth.destroy group
    · exact hboth
  | some g =>
    dsimp only
    split
    · exact hboth
    · exact hboth.create g.slot.isLt g.version g.time

/-- When the ticks find the nodes of each address in order, a service that is kept runs after a
tick exactly when some node at its address is started. -/
theorem pool_services_follow (events : List VnodeEvent) (hm : Run.Meets step Orderly empty events)
    (now : UInt64) (hnow : (Run.run step empty events).1.Orderly (.timer now)) :
    let m := (Run.run step empty events).1.onTimer now
    ∀ key b, m.services key = some b →
      (b = true ↔ ∃ v ∈ m.allNodes, v.key = key ∧ v.status now = .started) := by
  intro m key b hb
  have hstep : ∀ m e, Tracks m → Orderly m e →
      Tracks (m.step e).1 ∧ ∀ o ∈ (m.step e).2, True := by
    intro m e h ho
    refine ⟨?_, fun _ _ => trivial⟩
    cases e with
    | election group outdated faded added => exact h.handleElectionData group outdated faded added
    | timer now => exact h.onTimer ho
  have hempty : Tracks empty := ⟨fun _ _ h => (nomatch h), fun _ h => (nomatch h)⟩
  have hrun := (Run.run_inv hstep hempty events hm).1
  rw [hrun.started hnow hb, ← exists_started_onTimer]

/-- Version 1 starts at 1, fades at 10, when version 2 starts, and is outdated at 20. -/
def rotation : List VnodeEvent :=
  [.election "A" none none (some ⟨1, 1, 1⟩), .timer 2,
    .election "A" none (some ⟨1, 1, 10⟩) (some ⟨1, 2, 10⟩), .timer 10,
    .election "A" (some ⟨1, 1, 20⟩) none none]

theorem pool_services_follow_sample :
    ((Run.run step empty rotation).1.onTimer 20).services ⟨"A", 1⟩ = some true ∧
      ∃ v ∈ ((Run.run step empty rotation).1.onTimer 20).allNodes,
        v.key = ⟨"A", 1⟩ ∧ v.status 20 = .started := by
  refine ⟨rfl, (pool_services_follow rotation ⟨trivial, ?_, trivial, ?_, trivial, trivial⟩ 20 ?_
    ⟨"A", 1⟩ true rfl).mp rfl⟩
  · unfold Orderly
    decide
  · unfold Orderly
    decide
  · unfold Orderly
    decide

def skippedFade : List VnodeEvent :=
  [.election "A" none none (some ⟨1, 1, 1⟩), .timer 2,
    .election "A" none (some ⟨1, 1, 10⟩) (some ⟨1, 2, 10⟩),
    .election "A" (some ⟨1, 1, 30⟩) (some ⟨1, 2, 30⟩) none, .timer 30]

theorem service_left_running :
    (Run.run step empty skippedFade).1.services ⟨"A", 1⟩ = some true ∧
      (Run.run step empty skippedFade).1.allNodes.map (·.status 30) = [.faded] :=
  ⟨rfl, rfl⟩

end VnodeManager
end TopChain.Election
