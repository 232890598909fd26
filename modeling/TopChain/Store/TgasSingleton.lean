import Mathlib.Logic.Function.Basic
import Mathlib.Data.Nat.Notation
import Mathlib.Tactic.SplitIfs

/-!
# The total of locked gas tokens (`xstore/src/xtgas_singleton.cpp`)

Leader and backup read it off the chain of the workload contract, each through its own cache.
-/
namespace TopChain.Store

open Function

/-- The tgas property in the block of each height, as `touint64` reads it. -/
abbrev WorkloadChain := ℕ → Option UInt64

structure WorkloadStore where
  latestExecuted : ℕ
  holds : ℕ → Bool

structure TgasSingleton where
  lastUpdateTime : UInt64 := 0
  lastTotalLockTgasToken : UInt64 := 0
  lastPropertyHeight : ℕ := 0

namespace TgasSingleton

def tgasUpdateInterval : UInt64 := 60

variable (chain : WorkloadChain) (store : WorkloadStore) (t : TgasSingleton) (timerHeight : UInt64)

def propertyFrom : ℕ → Option (UInt64 × ℕ)
  | 0 => none
  | height + 1 =>
    if !store.holds (height + 1) then none
    else match chain (height + 1) with
    | some value => some (value, height + 1)
    | none => propertyFrom height

def getLatestProperty : Option (UInt64 × ℕ) :=
  if store.latestExecuted = 0 then none
  else match chain store.latestExecuted with
  | some value => some (value, store.latestExecuted)
  | none => propertyFrom chain store (store.latestExecuted - 1)

/-- The call never fails; it returns the total and the height it was read at. -/
def leaderGetTotalLockTgasToken : (UInt64 × ℕ) × TgasSingleton :=
  if timerHeight - t.lastUpdateTime ≤ tgasUpdateInterval then
    ((t.lastTotalLockTgasToken, t.lastPropertyHeight), t)
  else
    let t := match getLatestProperty chain store with
      | none => t
      | some (value, height) =>
        if t.lastPropertyHeight < height then
          { t with lastTotalLockTgasToken := value, lastPropertyHeight := height }
        else t
    ((t.lastTotalLockTgasToken, t.lastPropertyHeight), { t with lastUpdateTime := timerHeight })

def backupGetTotalLockTgasToken (height : ℕ) : Option UInt64 × TgasSingleton :=
  if height = 0 then (some 0, t)
  else if height = t.lastPropertyHeight then (some t.lastTotalLockTgasToken, t)
  else if !store.holds height then (none, t)
  else match chain height with
  | none => (none, t)
  | some value =>
    (some value, if t.lastPropertyHeight < height then ⟨timerHeight, value, height⟩ else t)

/-- The total at a height, whoever reads it. -/
def totalAt (height : ℕ) : Option UInt64 := if height = 0 then some 0 else chain height

/-- The total that is cached is the one on chain at the height it is from. -/
def Backed : Prop := totalAt chain t.lastPropertyHeight = some t.lastTotalLockTgasToken

inductive Call where
  | leader (timerHeight : UInt64)
  | backup (timerHeight : UInt64) (propertyHeight : ℕ)

variable {ι : Type} [DecidableEq ι]

/-- The calls of all nodes in any order, each with what its node's store holds by then. -/
def run (s : ι → TgasSingleton) : List (ι × WorkloadStore × Call) → ι → TgasSingleton
  | [] => s
  | (i, store, .leader clock) :: calls =>
    run (update s i ((s i).leaderGetTotalLockTgasToken chain store clock).2) calls
  | (i, store, .backup clock height) :: calls =>
    run (update s i ((s i).backupGetTotalLockTgasToken chain store clock height).2) calls

variable {chain store t timerHeight} {value : UInt64} {height : ℕ}

theorem propertyFrom_spec (n : ℕ) (h : propertyFrom chain store n = some (value, height)) :
    totalAt chain height = some value := by
  induction n with
  | zero => cases h
  | succ n ih =>
    unfold propertyFrom at h
    split_ifs at h
    split at h
    · cases h
      exact (if_neg n.succ_ne_zero).trans ‹_›
    · exact ih h

theorem getLatestProperty_spec (h : getLatestProperty chain store = some (value, height)) :
    totalAt chain height = some value := by
  unfold getLatestProperty at h
  split_ifs at h with hpos
  split at h
  · cases h
    exact (if_neg hpos).trans ‹_›
  · exact propertyFrom_spec _ h

theorem Backed.leader (h : t.Backed chain) :
    let r := t.leaderGetTotalLockTgasToken chain store timerHeight
    totalAt chain r.1.2 = some r.1.1 ∧ r.2.Backed chain := by
  unfold leaderGetTotalLockTgasToken
  dsimp only
  split
  · exact ⟨h, h⟩
  split
  · exact ⟨h, h⟩
  · rename_i hlatest
    have htotal := getLatestProperty_spec hlatest
    split
    · exact ⟨htotal, htotal⟩
    · exact ⟨h, h⟩

theorem Backed.backup (h : t.Backed chain) :
    (t.backupGetTotalLockTgasToken chain store timerHeight height).2.Backed chain := by
  unfold backupGetTotalLockTgasToken
  by_cases hpos : height = 0
  · rw [if_pos hpos]
    exact h
  rw [if_neg hpos]
  split
  · exact h
  split
  · exact h
  split
  · exact h
  · dsimp only
    split
    · exact (if_neg hpos).trans ‹_›
    · exact h

theorem Backed.backup_eq (h : t.Backed chain) (htotal : totalAt chain height = some value)
    (hload : store.holds height = true) :
    (t.backupGetTotalLockTgasToken chain store timerHeight height).1 = some value := by
  unfold backupGetTotalLockTgasToken
  by_cases hpos : height = 0
  · rw [if_pos hpos]
    exact (if_pos hpos).symm.trans htotal
  rw [if_neg hpos, (if_neg hpos).symm.trans htotal, hload]
  split
  · rename_i hcached
    exact h.symm.trans (hcached ▸ htotal)
  · rfl

theorem Backed.update {s : ι → TgasSingleton} (h : ∀ i, (s i).Backed chain) (i : ι)
    (ht : t.Backed chain) (j : ι) : (update s i t j).Backed chain :=
  (forall_update_iff s fun _ t => t.Backed chain).mpr ⟨ht, fun k _ => h k⟩ j

theorem Backed.run (calls : List (ι × WorkloadStore × Call)) {s : ι → TgasSingleton}
    (h : ∀ i, (s i).Backed chain) : ∀ i, (run chain s calls i).Backed chain := by
  fun_induction TgasSingleton.run chain s calls with
  | case1 => exact h
  | case2 s i store clock calls ih => exact ih (Backed.update h i (h i).leader.2)
  | case3 s i store clock height calls ih => exact ih (Backed.update h i (h i).backup)

/-- What a leader's call returns, a backup's call returns for the same height, whatever calls came
before and between. -/
theorem leader_backup_agree (before between : List (ι × WorkloadStore × Call)) (leader backup : ι)
    (store store' : WorkloadStore) (clock clock' : UInt64) :
    let s := run chain (fun _ => {}) before
    let r := (s leader).leaderGetTotalLockTgasToken chain store clock
    let s' := run chain (update s leader r.2) between
    store'.holds r.1.2 = true →
      ((s' backup).backupGetTotalLockTgasToken chain store' clock' r.1.2).1 = some r.1.1 := by
  intro s r s' hload
  have hs : ∀ i, (s i).Backed chain := Backed.run before fun _ => rfl
  have hr : totalAt chain r.1.2 = some r.1.1 ∧ r.2.Backed chain := (hs leader).leader
  exact (Backed.run between (Backed.update hs leader hr.2) backup).backup_eq hr.1 hload

theorem leader_backup_agree_sample :
    let chain : WorkloadChain := fun height => [none, some 40, some 70][height]?.join
    let store (latest : ℕ) : WorkloadStore := ⟨latest, fun _ => true⟩
    let s := run chain (fun _ => {}) [(true, store 1, .leader 100), (false, store 1, .backup 110 1)]
    let r := (s true).leaderGetTotalLockTgasToken chain (store 3) 200
    let s' := run chain (update s true r.2) [(true, store 3, .leader 210)]
    ((s true).lastPropertyHeight, (s' false).lastPropertyHeight) = (1, 1) ∧ r.1 = (70, 2) ∧
      ((s' false).backupGetTotalLockTgasToken chain (store 3) 220 r.1.2).1 = some r.1.1 :=
  ⟨by decide, by decide, leader_backup_agree _ _ true false _ _ 200 220 rfl⟩

end TgasSingleton
end TopChain.Store
