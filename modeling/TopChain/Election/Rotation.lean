import Mathlib.Data.List.Induction
import TopChain.Lib.Word

/-!
# Rotation of a group (`xelection/src/xcluster_element.cpp`, `xcommon/xrotation_aware.h`)

The results of a group are kept by start time, the newest first.
-/
namespace TopChain.Election

open List TopChain.Lib

def judgementDay : UInt64 := Word.top

def fadedThresholdCount : ℕ := 1

def outdatedThresholdCount : ℕ := 2

structure GroupElement where
  startTime : UInt64
  fadeTime : UInt64
  outdateTime : UInt64
deriving DecidableEq

inductive RotationStatus where
  | started | faded | outdated | invalid
deriving DecidableEq

structure ElectionResult where
  timestamp : UInt64
  startTime : UInt64

namespace GroupElement

def rotationStatus (g : GroupElement) (logicTime : UInt64) : RotationStatus :=
  if g.outdateTime ≤ logicTime then .outdated
  else if g.fadeTime ≤ logicTime then .faded
  else if g.startTime ≤ logicTime then .started
  else .invalid

def fade (startTime : UInt64) (g : GroupElement) : GroupElement :=
  if g.fadeTime = judgementDay then { g with fadeTime := startTime } else g

def outdate (startTime : UInt64) (g : GroupElement) : GroupElement :=
  if g.outdateTime = judgementDay then { g with outdateTime := startTime } else g

def insert (startTime : UInt64) : List GroupElement → List GroupElement
  | [] => [⟨startTime, judgementDay, judgementDay⟩]
  | g :: rest =>
    if g.startTime < startTime then ⟨startTime, judgementDay, judgementDay⟩ :: g :: rest
    else if g.startTime = startTime then g :: rest
    else g :: insert startTime rest

end GroupElement

open GroupElement

def addGroupElement (groups : List GroupElement) (r : ElectionResult) : List GroupElement :=
  let inserted := insert r.startTime groups
  let faded := inserted.take fadedThresholdCount ++
    (inserted.drop fadedThresholdCount).map (fade r.startTime)
  faded.take outdatedThresholdCount ++
    ((faded.drop outdatedThresholdCount).map (outdate r.startTime)).filter
      (·.rotationStatus r.timestamp ≠ .outdated)

def stamps (outdated faded : UInt64) : List UInt64 → List GroupElement
  | [] => []
  | start :: rest => ⟨start, faded, outdated⟩ :: stamps faded start rest

variable {o f start t : UInt64} {starts : List UInt64} {g : GroupElement} {i : ℕ}

theorem le_judgementDay (t : UInt64) : t ≤ judgementDay := by
  have hlt := t.toNat_lt
  have htop : judgementDay.toNat = 2 ^ 64 - 1 := by decide
  rw [Word.le_nat, htop]
  omega

theorem fade_of_ne (h : g.fadeTime ≠ judgementDay) : fade start g = g := if_neg h

theorem outdate_of_ne (h : g.outdateTime ≠ judgementDay) : outdate start g = g := if_neg h

theorem getElem?_stamps (h : (stamps o f starts)[i]? = some g) : starts[i]? = some g.startTime ∧
    (f :: starts)[i]? = some g.fadeTime ∧ (o :: f :: starts)[i]? = some g.outdateTime := by
  induction starts generalizing o f i with
  | nil => simp [stamps] at h
  | cons start rest ih =>
    cases i with
    | zero =>
      obtain rfl := Option.some.inj h
      exact ⟨rfl, rfl, rfl⟩
    | succ i => exact ih h

theorem map_startTime_stamps : (stamps o f starts).map (·.startTime) = starts := by
  induction starts generalizing o f with
  | nil => rfl
  | cons start rest ih => exact congrArg (start :: ·) ih

theorem map_stamps (start : UInt64) (h : (o :: f :: starts).Pairwise (· > ·))
    (ho : o < judgementDay) :
    (stamps o f starts).map (fade start) = stamps o f starts ∧
      (stamps o f starts).map (outdate start) = stamps o f starts := by
  induction starts generalizing o f with
  | nil => exact ⟨rfl, rfl⟩
  | cons a rest ih =>
    obtain ⟨hof, hrest⟩ := pairwise_cons.mp h
    have hf : f < judgementDay := (hof f mem_cons_self).trans ho
    obtain ⟨hfade, houtdate⟩ := ih hrest hf
    simp only [stamps, map_cons, hfade, houtdate]
    constructor
    · rw [fade_of_ne hf.ne]
    · rw [outdate_of_ne ho.ne]

theorem filter_stamps (h : (o :: f :: starts).Pairwise (· > ·)) :
    ∃ n, (stamps o f starts).filter (·.rotationStatus t ≠ .outdated) =
      stamps o f (starts.take n) := by
  have hkeep : ∀ g : GroupElement, decide (g.rotationStatus t ≠ .outdated) =
      decide (t < g.outdateTime) := by
    intro g
    unfold rotationStatus
    by_cases hle : g.outdateTime ≤ t
    · simp [hle, not_lt.mpr hle]
    · simp only [hle, not_le.mp hle, if_false, decide_true, decide_eq_true_eq]
      split_ifs <;> decide
  simp only [hkeep]
  induction starts generalizing o f with
  | nil => exact ⟨0, rfl⟩
  | cons a rest ih =>
    obtain ⟨hof, hrest⟩ := pairwise_cons.mp h
    by_cases ht : t < o
    · obtain ⟨n, hn⟩ := ih hrest
      refine ⟨n + 1, ?_⟩
      rw [stamps, filter_cons_of_pos (by simpa using ht), hn]
      rfl
    · refine ⟨0, filter_eq_nil_iff.mpr fun g hg => ?_⟩
      obtain ⟨i, hi⟩ := List.getElem?_of_mem hg
      have hmem := mem_of_getElem? (getElem?_stamps hi).2.2
      have hle : g.outdateTime ≤ o := by
        rcases mem_cons.mp hmem with heq | hmem
        · exact heq.le
        · exact (hof _ hmem).le
      simpa using hle.trans (not_lt.mp ht)

theorem addGroupElement_newest {r : ElectionResult} (h : (r.startTime :: starts).Pairwise (· > ·)) :
    ∃ n, addGroupElement (stamps judgementDay judgementDay starts) r =
      stamps judgementDay judgementDay ((r.startTime :: starts).take n) := by
  obtain ⟨hnew, hstarts⟩ := pairwise_cons.mp h
  have hinsert : insert r.startTime (stamps judgementDay judgementDay starts) =
      ⟨r.startTime, judgementDay, judgementDay⟩ :: stamps judgementDay judgementDay starts := by
    cases starts with
    | nil => rfl
    | cons a rest => exact if_pos (hnew a mem_cons_self)
  unfold addGroupElement
  rw [hinsert]
  cases starts with
  | nil => exact ⟨1, rfl⟩
  | cons a rest =>
    have ha : a < judgementDay := (hnew a mem_cons_self).trans_le (le_judgementDay _)
    cases rest with
    | nil => exact ⟨2, by simp [stamps, fadedThresholdCount, outdatedThresholdCount, fade]⟩
    | cons b rest =>
      obtain ⟨hfade, houtdate⟩ := map_stamps r.startTime hstarts ha
      obtain ⟨n, hn⟩ := filter_stamps (t := r.timestamp) h
      refine ⟨n + 2, ?_⟩
      simp only [stamps, fadedThresholdCount, outdatedThresholdCount, take_succ_cons,
        take_zero, drop_succ_cons, drop_zero, map_cons, cons_append,
        nil_append, hfade] at hn ⊢
      rw [fade_of_ne (g := ⟨b, a, judgementDay⟩) ha.ne]
      simp only [fade, outdate, if_true, houtdate]
      rw [hn]

theorem run_stamps (results : List ElectionResult)
    (h : (results.map (·.startTime)).Pairwise (· < ·)) :
    ∃ n, results.foldl addGroupElement [] =
      stamps judgementDay judgementDay ((results.map (·.startTime)).reverse.take n) := by
  induction results using List.reverseRecOn with
  | nil => exact ⟨0, rfl⟩
  | append_singleton results r ih =>
    rw [map_append, pairwise_append] at h
    obtain ⟨n, hn⟩ := ih h.1
    have hnewest :
        (r.startTime :: (results.map (·.startTime)).reverse.take n).Pairwise (· > ·) := by
      refine pairwise_cons.mpr ⟨fun x hx => ?_, ?_⟩
      · exact h.2.2 x (mem_reverse.mp (mem_of_mem_take hx)) _ (by simp)
      · exact (pairwise_reverse.mpr h.1).sublist (take_sublist _ _)
    obtain ⟨k, hk⟩ := addGroupElement_newest hnewest
    rw [foldl_append, hn, foldl_cons, foldl_nil, hk]
    refine ⟨min k (n + 1), ?_⟩
    rw [map_append, reverse_append, ← take_take]
    rfl

theorem early_of_lt (hfade : t < g.fadeTime) (houtdate : t < g.outdateTime) :
    g.rotationStatus t ≠ .faded ∧ g.rotationStatus t ≠ .outdated := by
  unfold rotationStatus
  rw [if_neg (not_le.mpr houtdate), if_neg (not_le.mpr hfade)]
  split_ifs <;> simp

/-- When results come in the order of their start times, the newest are held, each fade time is the
start time of the next newer group and each outdate time that of the second next. -/
theorem rotation_times (results : List ElectionResult)
    (h : (results.map (·.startTime)).Pairwise (· < ·)) :
    let held := results.foldl addGroupElement []
    held.map (·.startTime) <+: (results.map (·.startTime)).reverse ∧
      ∀ i g, held[i]? = some g →
        (∀ g', held[i + fadedThresholdCount]? = some g' → g'.fadeTime = g.startTime ∧
          ∀ t, t < g.startTime → g'.rotationStatus t ≠ .faded ∧ g'.rotationStatus t ≠ .outdated) ∧
        ∀ g', held[i + outdatedThresholdCount]? = some g' → g'.outdateTime = g.startTime := by
  intro held
  obtain ⟨n, hn⟩ := run_stamps results h
  have hheld : held = stamps _ _ ((results.map (·.startTime)).reverse.take n) := hn
  have hsorted : (judgementDay :: (results.map (·.startTime)).reverse.take n).Pairwise (· ≥ ·) := by
    refine pairwise_cons.mpr ⟨fun t _ => le_judgementDay t, ?_⟩
    exact ((pairwise_reverse.mpr h).sublist (take_sublist _ _)).imp fun hlt => le_of_lt hlt
  rw [hheld]
  refine ⟨?_, fun i g hg => ⟨fun g' hg' => ?_, fun g' hg' => ?_⟩⟩
  · rw [map_startTime_stamps]
    exact take_prefix _ _
  · have hstart := (getElem?_stamps hg).1
    obtain ⟨-, hfade, hout⟩ := getElem?_stamps hg'
    have heq : g'.fadeTime = g.startTime := Option.mem_unique hfade hstart
    refine ⟨heq, fun t ht => early_of_lt (heq ▸ ht) (ht.trans_le ?_)⟩
    -- the outdate time is one place before the start time of the successor
    obtain ⟨hi, hout⟩ := List.getElem?_eq_some_iff.mp
      (show (judgementDay :: (results.map (·.startTime)).reverse.take n)[i]? = _ from hout)
    obtain ⟨hi', hstart⟩ := List.getElem?_eq_some_iff.mp
      (show (judgementDay :: (results.map (·.startTime)).reverse.take n)[i + 1]? = _ from hstart)
    have hle := pairwise_iff_getElem.mp hsorted i (i + 1) hi hi' (Nat.lt_succ_self i)
    rw [hout, hstart] at hle
    exact hle
  · have hstart := (getElem?_stamps hg).1
    exact Option.some.inj ((getElem?_stamps hg').2.2.symm.trans hstart)

theorem rotation_times_sample :
    [(⟨0, 5⟩ : ElectionResult), ⟨0, 10⟩].foldl addGroupElement [] =
        [⟨10, judgementDay, judgementDay⟩, ⟨5, 10, judgementDay⟩] ∧
      ∀ t, t < 10 → (⟨5, 10, judgementDay⟩ : GroupElement).rotationStatus t ≠ .faded ∧
        (⟨5, 10, judgementDay⟩ : GroupElement).rotationStatus t ≠ .outdated :=
  ⟨by decide, (((rotation_times [⟨0, 5⟩, ⟨0, 10⟩] (by decide)).2 0 ⟨10, judgementDay, judgementDay⟩
    (by decide)).1 ⟨5, 10, judgementDay⟩ (by decide)).2⟩

theorem late_result_fades_early :
    [(⟨0, 10⟩ : ElectionResult), ⟨0, 5⟩].foldl addGroupElement [] =
        [⟨10, judgementDay, judgementDay⟩, ⟨5, 5, judgementDay⟩] ∧
      (⟨5, 5, judgementDay⟩ : GroupElement).rotationStatus 7 = .faded := by
  decide

end TopChain.Election
