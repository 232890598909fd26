import TopChain.Lib.Lru
import TopChain.Lib.Run

/-!
# The cache of `xbasic/xlru_cache.h`

A list of items, the last used first, and a map from keys to iterators into that list. The iterator
of a key is that of its item, so the map is modelled by its keys.
-/
namespace TopChain.Base

open List TopChain.Lib

structure XlruCache (κ α : Type) where
  maxSize : ℕ
  itemList : List (κ × α) := []
  itemMap : List κ := []

/-- A value enters, is read, or is handed to the deletor. An erased entry has no value to read. -/
inductive CacheEvent (κ α : Type) where
  | inserted (k : κ) (v : α)
  | read (k : κ) (v : α)
  | deleted (v : α)
  | erasedRead
deriving DecidableEq

inductive CacheCall (κ α : Type) where
  | put (k : κ) (v : α)
  | get (k : κ)
  | setMaxSize (maxSize : UInt32)
  | clear

namespace XlruCache
variable {κ α : Type} [DecidableEq κ]

def evict (c : XlruCache κ α) : XlruCache κ α × List (CacheEvent κ α) :=
  match c.itemList.getLast? with
  | none => (c, [.erasedRead])
  | some e => ({ c with
      itemList := c.itemList.dropLast
      itemMap := c.itemMap.erase e.1 }, [.deleted e.2])

/-- The loop of `clean` and `clear`; the size of the map is fuel enough. -/
def shrink (bound : ℕ) : ℕ → XlruCache κ α → XlruCache κ α × List (CacheEvent κ α)
  | 0, c => (c, [])
  | fuel + 1, c =>
    if bound < c.itemMap.length then
      let r := c.evict
      let t := shrink bound fuel r.1
      (t.1, r.2 ++ t.2)
    else (c, [])

def clean (c : XlruCache κ α) : XlruCache κ α × List (CacheEvent κ α) :=
  c.shrink c.maxSize c.itemMap.length

/-- The deletor is given the value of the item that has just been erased. -/
def eraseOld (c : XlruCache κ α) (k : κ) : XlruCache κ α × List (CacheEvent κ α) :=
  if k ∈ c.itemMap then
    ({ c with
      itemList := c.itemList.eraseP (·.1 == k)
      itemMap := c.itemMap.erase k }, [.erasedRead])
  else (c, [])

def put (c : XlruCache κ α) (k : κ) (v : α) : XlruCache κ α × List (CacheEvent κ α) :=
  let r := c.eraseOld k
  let t := { r.1 with itemList := (k, v) :: r.1.itemList, itemMap := k :: r.1.itemMap }.clean
  (t.1, r.2 ++ .inserted k v :: t.2)

def get (c : XlruCache κ α) (k : κ) : XlruCache κ α × List (CacheEvent κ α) :=
  if k ∈ c.itemMap then
    match firstOf c.itemList k with
    | none => (c, [.erasedRead])
    | some v => ({ c with itemList := (k, v) :: c.itemList.eraseP (·.1 == k) }, [.read k v])
  else (c, [])

def step (c : XlruCache κ α) : CacheCall κ α → XlruCache κ α × List (CacheEvent κ α)
  | .put k v => c.put k v
  | .get k => c.get k
  | .setMaxSize maxSize => { c with maxSize := maxSize.toNat }.clean
  | .clear => c.shrink 0 c.itemMap.length

/-- The keys that were put or read, the last first. -/
def recentKeys (h : List (CacheEvent κ α)) : List κ :=
  h.foldl (fun l e => match e with
    | .inserted k _ | .read k _ => k :: l.erase k
    | _ => l) []

def entered (h : List (CacheEvent κ α)) : List α :=
  h.filterMap fun
    | .inserted _ v => some v
    | _ => none

def handedOver (h : List (CacheEvent κ α)) : List α :=
  h.filterMap fun
    | .deleted v => some v
    | _ => none

/-- The put is of a key that the cache does not hold. -/
def PutsNew (c : XlruCache κ α) : CacheCall κ α → Prop
  | .put k _ => k ∉ c.itemMap
  | _ => True

/-- List and map against the events so far. -/
structure Owned (h : List (CacheEvent κ α)) (c : XlruCache κ α) : Prop where
  mirror : c.itemMap.Perm (c.itemList.map Prod.fst)
  keys : (c.itemList.map Prod.fst).Nodup
  recent : c.itemList.map Prod.fst <+: recentKeys h
  values : (entered h).Perm (c.itemList.map Prod.snd ++ handedOver h)
  sound : .erasedRead ∉ h

variable {h : List (CacheEvent κ α)} {c : XlruCache κ α} {k : κ} {v : α}

section
variable (hc : Owned h c)
include hc

theorem Owned.size : c.itemMap.length = c.itemList.length := by
  rw [hc.mirror.length_eq, length_map]

theorem Owned.evict {init : List (κ × α)} {e : κ × α} (hl : c.itemList = init ++ [e]) :
    Owned (h ++ c.evict.2) c.evict.1 ∧ c.evict.1.itemList = init ∧
      c.evict.1.maxSize = c.maxSize := by
  obtain ⟨hmirror, hkeys, hrecent, hvalues, hsound⟩ := hc
  rw [hl, map_append] at hmirror hkeys hrecent hvalues
  have hrun : c.evict = ({ c with itemList := init, itemMap := c.itemMap.erase e.1 },
      [.deleted e.2]) := by
    simp [XlruCache.evict, hl]
  have hentered : entered (h ++ [.deleted e.2]) = entered h := by simp [entered]
  have hhanded : handedOver (h ++ [.deleted e.2]) = handedOver h ++ [e.2] := by
    simp [handedOver]
  rw [hrun]
  refine ⟨⟨?_, hkeys.of_append_left, ?_, ?_, by simpa using hsound⟩, rfl, rfl⟩
  · have hlast : c.itemMap.Perm (e.1 :: init.map Prod.fst) := hmirror.trans perm_append_comm
    simpa using hlast.erase e.1
  · simpa [recentKeys] using (prefix_append _ _).trans hrecent
  · rw [hentered, hhanded]
    refine hvalues.trans ?_
    rw [append_assoc]
    exact perm_append_comm.append_left _

theorem Owned.shrink {bound fuel : ℕ} (hlen : c.itemList.length ≤ bound + fuel) :
    Owned (h ++ (c.shrink bound fuel).2) (c.shrink bound fuel).1 ∧
      (c.shrink bound fuel).1.itemList.length ≤ bound ∧
      (c.shrink bound fuel).1.maxSize = c.maxSize := by
  induction fuel generalizing c h with
  | zero => exact ⟨by simpa [XlruCache.shrink] using hc, hlen, rfl⟩
  | succ fuel ih =>
    unfold XlruCache.shrink
    rw [hc.size]
    split
    · rename_i hmore
      obtain hnil | ⟨init, e, hl⟩ := c.itemList.eq_nil_or_concat'
      · rw [hnil] at hmore
        cases hmore
      · obtain ⟨hnext, hitems, hmax⟩ := hc.evict hl
        rw [hl, length_append, length_singleton] at hlen
        obtain ⟨hown, hle, hmax'⟩ := ih hnext (by rw [hitems]; omega)
        rw [← append_assoc]
        exact ⟨hown, hle, hmax'.trans hmax⟩
    · rename_i hfits
      exact ⟨by simpa using hc, not_lt.mp hfits, rfl⟩

theorem Owned.clean : Owned (h ++ c.clean.2) c.clean.1 ∧
    c.clean.1.itemList.length ≤ c.clean.1.maxSize := by
  obtain ⟨hown, hle, hmax⟩ := hc.shrink (hc.size.ge.trans (Nat.le_add_left _ c.maxSize))
  exact ⟨hown, hle.trans hmax.ge⟩

end

omit [DecidableEq κ] in
theorem prefix_erase [DecidableEq κ] {l r : List κ} (hl : l <+: r) (k : κ) :
    l.erase k <+: r.erase k := by
  obtain ⟨rest, rfl⟩ := hl
  by_cases hk : k ∈ l
  · rw [erase_append_left _ hk]
    exact prefix_append _ _
  · rw [erase_append_right _ hk, erase_of_not_mem hk]
    exact prefix_append _ _

theorem Owned.putNew (hc : Owned h c) (hk : k ∉ c.itemMap) (v : α) : Owned (h ++ [.inserted k v])
      { c with itemList := (k, v) :: c.itemList, itemMap := k :: c.itemMap } := by
  have hnew : k ∉ c.itemList.map Prod.fst := fun hmem => hk (hc.mirror.symm.subset hmem)
  have hentered : entered (h ++ [.inserted k v]) = entered h ++ [v] := by simp [entered]
  have hhanded : handedOver (h ++ [.inserted k v]) = handedOver h := by simp [handedOver]
  have hrecent : recentKeys (h ++ [.inserted k v]) = k :: (recentKeys h).erase k := by
    simp [recentKeys]
  refine ⟨hc.mirror.cons k, nodup_cons.mpr ⟨hnew, hc.keys⟩, ?_, ?_, by simpa using hc.sound⟩
  · rw [hrecent, map_cons, ← erase_of_not_mem hnew]
    exact cons_prefix_cons.mpr ⟨rfl, prefix_erase hc.recent k⟩
  · rw [hentered, hhanded]
    exact (hc.values.append_right [v]).trans perm_append_comm

theorem Owned.get (hc : Owned h c) (k : κ) :
    Owned (h ++ (c.get k).2) (c.get k).1 ∧ (c.get k).1.itemList.length = c.itemList.length ∧
      (c.get k).1.maxSize = c.maxSize := by
  unfold XlruCache.get
  split
  · rename_i hk
    obtain ⟨e, he, rfl⟩ := mem_map.mp (hc.mirror.subset hk)
    rw [(firstOf_eq_some_of_nodup hc.keys).mpr he]
    have hrecent : recentKeys (h ++ [.read e.1 e.2]) = e.1 :: (recentKeys h).erase e.1 := by
      simp [recentKeys]
    have hperm : c.itemList.Perm (e :: c.itemList.eraseP (·.1 == e.1)) := by
      obtain ⟨e', l₁, l₂, -, hkey, hl, herase⟩ := exists_of_eraseP (p := (·.1 == e.1)) he (by simp)
      obtain rfl : e' = e := inj_on_of_nodup_map hc.keys (by simp [hl]) he (by simpa using hkey)
      rw [herase]
      exact hl ▸ perm_middle
    have hkeys : (c.itemList.eraseP (·.1 == e.1)).map Prod.fst =
        (c.itemList.map Prod.fst).erase e.1 := by
      rw [erase_eq_eraseP', eraseP_map]
      rfl
    refine ⟨⟨hc.mirror.trans (hperm.map _), (hperm.map _).nodup_iff.mp hc.keys, ?_, ?_, ?_⟩,
      hperm.length_eq.symm, rfl⟩
    · rw [hrecent, map_cons, hkeys]
      exact cons_prefix_cons.mpr ⟨rfl, prefix_erase hc.recent e.1⟩
    · have hsame : entered (h ++ [.read e.1 e.2]) = entered h ∧
          handedOver (h ++ [.read e.1 e.2]) = handedOver h := by
        simp [entered, handedOver]
      rw [hsame.1, hsame.2]
      exact hc.values.trans ((hperm.map _).append_right _)
    · simpa using hc.sound
  · exact ⟨by simpa using hc, rfl, rfl⟩

theorem Owned.step (hc : Owned h c) (hle : c.itemList.length ≤ c.maxSize) (call : CacheCall κ α)
    (hcall : c.PutsNew call) :
    Owned (h ++ (c.step call).2) (c.step call).1 ∧
      (c.step call).1.itemList.length ≤ (c.step call).1.maxSize := by
  cases call with
  | put k v =>
    have hnew : k ∉ c.itemMap := hcall
    have hclean := (hc.putNew hnew v).clean
    rw [append_assoc] at hclean
    have hold : c.eraseOld k = (c, []) := if_neg hnew
    change Owned (h ++ (c.put k v).2) (c.put k v).1 ∧
      (c.put k v).1.itemList.length ≤ (c.put k v).1.maxSize
    rw [XlruCache.put, hold]
    exact hclean
  | get k =>
    obtain ⟨hown, hlen, hmax⟩ := hc.get k
    exact ⟨hown, hlen.trans_le (hle.trans hmax.ge)⟩
  | setMaxSize maxSize => exact Owned.clean { hc with }
  | clear =>
    obtain ⟨hown, hnone, -⟩ := hc.shrink (hc.size.ge.trans (Nat.le_add_left _ 0))
    exact ⟨hown, hnone.trans (Nat.zero_le _)⟩

/-- While no key is put that is in the cache, list and map hold the same keys, the last used ones,
and every value that has left was handed to the deletor once. -/
theorem cache_owns_values (maxSize : ℕ) (calls : List (CacheCall κ α))
    (hcalls : Run.Meets step PutsNew { maxSize } calls) :
    let r := Run.run step { maxSize } calls
    r.1.itemMap.Perm (r.1.itemList.map Prod.fst) ∧ (r.1.itemList.map Prod.fst).Nodup ∧
    r.1.itemList.length ≤ r.1.maxSize ∧ r.1.itemList.map Prod.fst <+: recentKeys r.2 ∧
    (entered r.2).Perm (r.1.itemList.map Prod.snd ++ handedOver r.2) ∧ .erasedRead ∉ r.2 := by
  have hstart : Owned [] ({ maxSize } : XlruCache κ α) := ⟨.nil, .nil, nil_prefix, .nil, nofun⟩
  have hrun := Run.run_hist (I := fun h c => Owned h c ∧ c.itemList.length ≤ c.maxSize)
    (fun _ _ e hc hcond => hc.1.step hc.2 e hcond) ⟨hstart, Nat.zero_le _⟩ calls hcalls
  rw [nil_append] at hrun
  obtain ⟨hown, hle⟩ := hrun
  exact ⟨hown.mirror, hown.keys, hle, hown.recent, hown.values, hown.sound⟩

def cacheCalls : List (CacheCall ℕ ℕ) := [.put 1 10, .put 2 20, .get 1, .put 3 30]

theorem cache_owns_values_sample :
    let r := Run.run step { maxSize := 2 } cacheCalls
    r.1.itemList = [(3, 30), (1, 10)] ∧ handedOver r.2 = [20] ∧
    (entered r.2).Perm (r.1.itemList.map Prod.snd ++ handedOver r.2) :=
  ⟨by decide, by decide, (cache_owns_values 2 cacheCalls
    ⟨by change _ ∉ _; decide, by change _ ∉ _; decide, trivial, by change _ ∉ _; decide,
      trivial⟩).2.2.2.2.1⟩

theorem put_reads_erased_item :
    let r := Run.run step { maxSize := 2 } [.put 1 10, .put 1 11]
    CacheEvent.erasedRead ∈ r.2 ∧ r.1.itemList = [(1, 11)] ∧ entered r.2 = [10, 11] ∧
      handedOver r.2 = [] := by
  decide

end XlruCache
end TopChain.Base
