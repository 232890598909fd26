import TopChain.Lib.Word
import Mathlib.Data.List.Pairwise
import Mathlib.Data.List.Perm.Subperm
import Mathlib.Algebra.GroupWithZero.Nat

/-!
# Ordered maps as key-sorted lists

An ordered map is the list of its entries, strictly increasing in the key.
-/
namespace TopChain.Lib

open List Option

structure SortedMap (κ : Type) (α : Type) [LinearOrder κ] where
  entries : List (κ × α)
  sorted : entries.Pairwise (fun a b => a.1 < b.1)
deriving DecidableEq

namespace SortedMap
variable {κ α : Type} [LinearOrder κ]

def empty : SortedMap κ α := ⟨[], List.Pairwise.nil⟩

instance : Inhabited (SortedMap κ α) := ⟨empty⟩

def insertList (k : κ) (v : α) : List (κ × α) → List (κ × α)
  | [] => [(k, v)]
  | e :: rest =>
    if k < e.1 then (k, v) :: e :: rest
    else if k = e.1 then (k, v) :: rest
    else e :: insertList k v rest

variable {k : κ} {v : α} {l : List (κ × α)} {m : SortedMap κ α} {p : κ × α → Bool}

theorem mem_insertList {e : κ × α} (h : e ∈ insertList k v l) : e = (k, v) ∨ e ∈ l := by
  induction l with
  | nil => simpa [insertList] using h
  | cons a rest ih =>
    rw [insertList] at h
    split_ifs at h with h1 h2
    · simpa using h
    · rcases mem_cons.mp h with h | h
      · exact .inl h
      · exact .inr (mem_cons_of_mem _ h)
    · rcases mem_cons.mp h with h | h
      · exact .inr (h ▸ mem_cons_self)
      · exact (ih h).imp id (mem_cons_of_mem _)

theorem insertList_sorted (k : κ) (v : α) (h : l.Pairwise (fun a b => a.1 < b.1)) :
    (insertList k v l).Pairwise (fun a b => a.1 < b.1) := by
  induction l with
  | nil => simp [insertList]
  | cons a rest ih =>
    obtain ⟨ha, hrest⟩ := pairwise_cons.mp h
    rw [insertList]
    split_ifs with h1 h2
    · refine pairwise_cons.mpr ⟨fun b hb => ?_, h⟩
      rcases mem_cons.mp hb with rfl | hb
      · exact h1
      · exact h1.trans (ha b hb)
    · exact pairwise_cons.mpr ⟨fun b hb => h2 ▸ ha b hb, hrest⟩
    · refine pairwise_cons.mpr ⟨fun b hb => ?_, ih hrest⟩
      rcases mem_insertList hb with rfl | hb
      · exact lt_of_le_of_ne (not_lt.mp h1) (Ne.symm h2)
      · exact ha b hb

def insert (m : SortedMap κ α) (k : κ) (v : α) : SortedMap κ α :=
  ⟨insertList k v m.entries, insertList_sorted k v m.sorted⟩

def find? (m : SortedMap κ α) (k : κ) : Option α :=
  (m.entries.find? (fun e => e.1 = k)).map (·.2)

def emplace (m : SortedMap κ α) (k : κ) (v : α) : SortedMap κ α × Bool :=
  match m.find? k with
  | some _ => (m, false)
  | none => (m.insert k v, true)

def filter (m : SortedMap κ α) (p : κ × α → Bool) : SortedMap κ α :=
  ⟨m.entries.filter p, m.sorted.filter p⟩

def erase (m : SortedMap κ α) (k : κ) : SortedMap κ α :=
  m.filter (fun e => e.1 ≠ k)

def mapVal {β : Type} (m : SortedMap κ α) (f : α → β) : SortedMap κ β :=
  ⟨m.entries.map (fun e => (e.1, f e.2)), pairwise_map.mpr m.sorted⟩

def drop (m : SortedMap κ α) (n : Nat) : SortedMap κ α :=
  ⟨m.entries.drop n, m.sorted.drop⟩

def dropWhile (m : SortedMap κ α) (p : κ × α → Bool) : SortedMap κ α :=
  ⟨m.entries.dropWhile p, m.sorted.sublist (dropWhile_sublist p)⟩

def last? (m : SortedMap κ α) : Option α :=
  m.entries.getLast?.map (·.2)

def before? (m : SortedMap κ α) (k : κ) : Option (κ × α) := m.entries.reverse.find? (·.1 < k)

def after? (m : SortedMap κ α) (k : κ) : Option (κ × α) := m.entries.find? (k < ·.1)

def values (m : SortedMap κ α) : List α := m.entries.map (·.2)

theorem mem_values : v ∈ m.values ↔ ∃ k, (k, v) ∈ m.entries := by
  simp [values]

@[simp] theorem not_mem_values_empty (v : α) : ¬ v ∈ (empty : SortedMap κ α).values := by
  simp [values, empty]

theorem mem_values_insert {x : α} (h : x ∈ (m.insert k v).values) : x = v ∨ x ∈ m.values := by
  obtain ⟨k', hk⟩ := mem_values.mp h
  rcases mem_insertList hk with he | he
  · exact .inl (Prod.mk.inj he).2
  · exact .inr (mem_values.mpr ⟨k', he⟩)

theorem mem_insertList_self (k : κ) (v : α) (l : List (κ × α)) : (k, v) ∈ insertList k v l := by
  induction l with
  | nil => simp [insertList]
  | cons a rest ih =>
    rw [insertList]
    split_ifs
    · exact mem_cons_self
    · exact mem_cons_self
    · exact mem_cons_of_mem _ ih

theorem mem_insertList_of_ne {e : κ × α} (h : e ∈ l) (hne : e.1 ≠ k) : e ∈ insertList k v l := by
  induction l with
  | nil => simp at h
  | cons a rest ih =>
    rw [insertList]
    split_ifs with h1 h2
    · exact mem_cons_of_mem _ h
    · rcases mem_cons.mp h with rfl | h
      · exact absurd h2.symm hne
      · exact mem_cons_of_mem _ h
    · rcases mem_cons.mp h with rfl | h
      · exact mem_cons_self
      · exact mem_cons_of_mem _ (ih h)

theorem mem_values_foldl_insert {f : α → κ} {l : List α} {x : α}
    (hx : x ∈ l ∨ (f x, x) ∈ m.entries) (huniq : ∀ y ∈ l, f y = f x → y = x) :
    x ∈ (l.foldl (fun m y => m.insert (f y) y) m).values := by
  induction l generalizing m with
  | nil =>
    rcases hx with hx | hx
    · simp at hx
    · exact mem_values.mpr ⟨_, hx⟩
  | cons y l ih =>
    refine ih ?_ fun z hz => huniq z (mem_cons_of_mem _ hz)
    by_cases hyx : f y = f x
    · obtain rfl := huniq y mem_cons_self hyx
      exact .inr (mem_insertList_self _ _ _)
    · rcases hx with hx | hx
      · rcases mem_cons.mp hx with rfl | hx
        · exact absurd rfl hyx
        · exact .inl hx
      · exact .inr (mem_insertList_of_ne hx (Ne.symm hyx))

theorem mem_of_mem_values_foldl_insert {f : α → κ} {l : List α} {x : α}
    (hx : x ∈ (l.foldl (fun m y => m.insert (f y) y) m).values) : x ∈ l ∨ x ∈ m.values := by
  induction l generalizing m with
  | nil => exact .inr hx
  | cons y l ih =>
    rcases ih hx with h | h
    · exact .inl (mem_cons_of_mem _ h)
    · rcases mem_values_insert h with rfl | h
      · exact .inl mem_cons_self
      · exact .inr h

theorem mem_values_emplace {x : α} (h : x ∈ (m.emplace k v).1.values) : x = v ∨ x ∈ m.values := by
  unfold emplace at h
  split at h
  · exact .inr h
  · exact mem_values_insert h

theorem mem_values_drop {n : Nat} {x : α} (h : x ∈ (m.drop n).values) : x ∈ m.values := by
  obtain ⟨k, hk⟩ := mem_values.mp h
  exact mem_values.mpr ⟨k, mem_of_mem_drop hk⟩

theorem mem_values_of_find? {x : α} (h : m.find? k = some x) : x ∈ m.values := by
  obtain ⟨e, he, rfl⟩ := map_eq_some_iff.mp h
  exact mem_values.mpr ⟨e.1, mem_of_find?_eq_some he⟩

theorem mem_values_filter {x : α} (h : x ∈ (m.filter p).values) : x ∈ m.values := by
  obtain ⟨k, hk⟩ := mem_values.mp h
  exact mem_values.mpr ⟨k, (mem_filter.mp hk).1⟩

/-! ## Lookup

A lookup is membership of an entry, so two maps with the same lookups are equal. -/

theorem eq_of_mem_entries {w : α} (hv : (k, v) ∈ m.entries) (hw : (k, w) ∈ m.entries) : v = w := by
  have hne : m.entries.Pairwise (fun a b => a.1 ≠ b.1) := m.sorted.imp fun h => h.ne
  have : Std.Symm (fun a b : κ × α => a.1 ≠ b.1) := ⟨fun _ _ h => h.symm⟩
  by_contra hvw
  exact hne.forall hv hw (fun he => hvw (congrArg Prod.snd he)) rfl

theorem find?_eq_some_iff : m.find? k = some v ↔ (k, v) ∈ m.entries := by
  constructor
  · intro h
    obtain ⟨e, he, rfl⟩ := map_eq_some_iff.mp h
    have hk : e.1 = k := by simpa using find?_some he
    exact hk ▸ mem_of_find?_eq_some he
  · intro h
    have hsome : (m.entries.find? (fun e => e.1 = k)).isSome :=
      find?_isSome.mpr ⟨_, h, by simp⟩
    obtain ⟨e, he⟩ := isSome_iff_exists.mp hsome
    have hk : e.1 = k := by simpa using find?_some he
    have hev := eq_of_mem_entries (hk ▸ mem_of_find?_eq_some he : (k, e.2) ∈ m.entries) h
    rw [find?, he, ← hev]
    rfl

theorem find?_eq_none_iff : m.find? k = none ↔ ∀ v, (k, v) ∉ m.entries := by
  constructor
  · intro h v hv
    rw [find?_eq_some_iff.mpr hv] at h
    cases h
  · intro h
    cases hf : m.find? k with
    | none => rfl
    | some v => exact absurd (find?_eq_some_iff.mp hf) (h v)

@[simp] theorem find?_empty (k : κ) : (empty : SortedMap κ α).find? k = none := rfl

@[simp] theorem find?_insert_self (m : SortedMap κ α) (k : κ) (v : α) :
    (m.insert k v).find? k = some v :=
  find?_eq_some_iff.mpr (mem_insertList_self k v m.entries)

theorem find?_insert_of_ne (m : SortedMap κ α) {k' : κ} (v : α) (h : k' ≠ k) :
    (m.insert k v).find? k' = m.find? k' := by
  cases hf : m.find? k' with
  | some w => exact find?_eq_some_iff.mpr (mem_insertList_of_ne (find?_eq_some_iff.mp hf) h)
  | none =>
    refine find?_eq_none_iff.mpr fun w hw => ?_
    rcases mem_insertList hw with he | he
    · exact h (congrArg Prod.fst he)
    · exact find?_eq_none_iff.mp hf w he

theorem find?_filter_key (m : SortedMap κ α) (p : κ → Bool) (k : κ) :
    (m.filter (fun e => p e.1)).find? k = if p k then m.find? k else none := by
  split_ifs with hp
  · cases hf : m.find? k with
    | some w => exact find?_eq_some_iff.mpr (mem_filter.mpr ⟨find?_eq_some_iff.mp hf, hp⟩)
    | none =>
      exact find?_eq_none_iff.mpr fun w hw =>
        find?_eq_none_iff.mp hf w (mem_filter.mp hw).1
  · exact find?_eq_none_iff.mpr fun w hw => hp (mem_filter.mp hw).2

omit [LinearOrder κ] in
theorem mem_dropWhile {e : κ × α} (h : e ∈ l) (hp : p e = false) : e ∈ l.dropWhile p := by
  induction l with
  | nil => simp at h
  | cons a rest ih =>
    rw [dropWhile_cons]
    split_ifs with ha
    · rcases mem_cons.mp h with rfl | h
      · rw [hp] at ha
        cases ha
      · exact ih h
    · exact h

theorem find?_dropWhile (h : m.find? k = some v) (hp : p (k, v) = false) :
    (m.dropWhile p).find? k = some v :=
  find?_eq_some_iff.mpr (mem_dropWhile (find?_eq_some_iff.mp h) hp)

theorem find?_erase (m : SortedMap κ α) (k k' : κ) :
    (m.erase k).find? k' = if k' = k then none else m.find? k' := by
  rw [erase, find?_filter_key m (fun k' => k' ≠ k)]
  by_cases h : k' = k <;> simp [h]

@[simp] theorem find?_erase_self (m : SortedMap κ α) (k : κ) : (m.erase k).find? k = none := by
  rw [find?_erase, if_pos rfl]

theorem find?_erase_of_ne (m : SortedMap κ α) {k' : κ} (h : k' ≠ k) :
    (m.erase k).find? k' = m.find? k' := by
  rw [find?_erase, if_neg h]

theorem find?_mapVal {β : Type} (m : SortedMap κ α) (f : α → β) (k : κ) :
    (m.mapVal f).find? k = (m.find? k).map f := by
  rw [find?, find?, mapVal, find?_map, Option.map_map, Option.map_map]
  rfl

theorem ext_find? {m' : SortedMap κ α} (h : ∀ k, m.find? k = m'.find? k) : m = m' := by
  have hmem : ∀ e, e ∈ m.entries ↔ e ∈ m'.entries := fun ⟨k, v⟩ => by
    rw [← find?_eq_some_iff, ← find?_eq_some_iff, h k]
  have hperm : m.entries.Perm m'.entries :=
    (perm_ext_iff_of_nodup (m.sorted.imp fun h he => h.ne (congrArg Prod.fst he))
      (m'.sorted.imp fun h he => h.ne (congrArg Prod.fst he))).mpr hmem
  have heq := hperm.eq_of_pairwise (fun a b _ _ hab hba => absurd (hab.trans hba) (lt_irrefl _))
    m.sorted m'.sorted
  obtain ⟨es, hs⟩ := m
  obtain ⟨es', hs'⟩ := m'
  cases heq
  rfl

theorem insert_insert (m : SortedMap κ α) (k : κ) (v v' : α) :
    (m.insert k v).insert k v' = m.insert k v' := by
  refine ext_find? fun j => ?_
  by_cases hj : j = k
  · rw [hj, find?_insert_self, find?_insert_self]
  · rw [find?_insert_of_ne _ _ hj, find?_insert_of_ne _ _ hj, find?_insert_of_ne _ _ hj]

theorem insert_of_find? (h : m.find? k = some v) : m.insert k v = m := by
  refine ext_find? fun j => ?_
  by_cases hj : j = k
  · rw [hj, find?_insert_self, h]
  · rw [find?_insert_of_ne _ _ hj]

theorem erase_insert_comm (m : SortedMap κ α) {k' : κ} (v : α) (h : k ≠ k') :
    (m.insert k v).erase k' = (m.erase k').insert k v := by
  refine ext_find? fun j => ?_
  by_cases hj' : j = k'
  · subst hj'
    rw [find?_erase_self, find?_insert_of_ne _ _ h.symm, find?_erase_self]
  · rw [find?_erase_of_ne _ hj']
    by_cases hj : j = k
    · subst hj
      rw [find?_insert_self, find?_insert_self]
    · rw [find?_insert_of_ne _ _ hj, find?_insert_of_ne _ _ hj, find?_erase_of_ne _ hj']

theorem erase_comm (m : SortedMap κ α) (k k' : κ) :
    (m.erase k).erase k' = (m.erase k').erase k := by
  refine ext_find? fun j => ?_
  rw [find?_erase, find?_erase, find?_erase, find?_erase]
  split_ifs <;> rfl

theorem erase_insert_self (v : α) (h : m.find? k = none) : (m.insert k v).erase k = m := by
  refine ext_find? fun j => ?_
  by_cases hj : j = k
  · rw [hj, find?_erase_self, h]
  · rw [find?_erase_of_ne _ hj, find?_insert_of_ne _ _ hj]

theorem insert_erase_self (h : m.find? k = some v) : (m.erase k).insert k v = m := by
  refine ext_find? fun j => ?_
  by_cases hj : j = k
  · rw [hj, find?_insert_self, h]
  · rw [find?_insert_of_ne _ _ hj, find?_erase_of_ne _ hj]

def total (m : SortedMap κ α) (f : α → Nat) : Nat := (m.values.map f).sum

theorem perm_insertList (h : ∀ e ∈ l, e.1 ≠ k) : (insertList k v l).Perm ((k, v) :: l) := by
  induction l with
  | nil => exact .refl _
  | cons e rest ih =>
    rw [insertList, if_neg (h e mem_cons_self).symm]
    split
    · exact .refl _
    · exact ((ih fun e' he' => h e' (mem_cons_of_mem e he')).cons e).trans (.swap _ _ _)

theorem total_insert (v : α) (f : α → Nat) (h : m.find? k = none) :
    (m.insert k v).total f = m.total f + f v := by
  have hperm : (m.insert k v).entries.Perm ((k, v) :: m.entries) :=
    perm_insertList fun e he hk => find?_eq_none_iff.mp h e.2 (hk ▸ he)
  rw [total, values, ((hperm.map _).map f).sum_nat, map_cons, map_cons, sum_cons, Nat.add_comm]
  rfl

theorem total_erase (f : α → Nat) (h : m.find? k = some v) :
    m.total f = (m.erase k).total f + f v := by
  rw [← total_insert v f (find?_erase_self m k), insert_erase_self h]

theorem find?_filter_val (m : SortedMap κ α) (p : α → Bool) (k : κ) :
    (m.filter (fun e => p e.2)).find? k = (m.find? k).filter p := by
  ext x
  rw [find?_eq_some_iff, filter_eq_some_iff, find?_eq_some_iff]
  exact mem_filter

theorem mem_keys (m : SortedMap κ α) (k : κ) : k ∈ m.entries.map (·.1) ↔ (m.find? k).isSome := by
  rw [isSome_iff_exists]
  constructor
  · intro hk
    obtain ⟨e, he, rfl⟩ := mem_map.mp hk
    exact ⟨e.2, find?_eq_some_iff.mpr he⟩
  · rintro ⟨v, hv⟩
    exact mem_map_of_mem (find?_eq_some_iff.mp hv)

theorem isSome_find?_of_length {β : Type} {m' : SortedMap κ β}
    (hlen : m.entries.length = m'.entries.length)
    (hsub : ∀ k, (m.find? k).isSome → (m'.find? k).isSome) (h : (m'.find? k).isSome) :
    (m.find? k).isSome := by
  have hnodup : (m.entries.map (·.1)).Nodup :=
    pairwise_map.mpr (m.sorted.imp fun hlt => ne_of_lt hlt)
  have hperm : (m.entries.map (·.1)).Perm (m'.entries.map (·.1)) := by
    refine (hnodup.subperm fun k hk => ?_).perm_of_length_le ?_
    · exact (m'.mem_keys k).mpr (hsub k ((m.mem_keys k).mp hk))
    · rw [length_map, length_map, hlen]
  exact (m.mem_keys k).mp (hperm.mem_iff.mpr ((m'.mem_keys k).mpr h))

theorem countP_key (m : SortedMap κ α) (k : κ) (p : α → Bool) :
    m.entries.countP (fun e => e.1 = k && p e.2) = if (m.find? k).any p then 1 else 0 := by
  unfold find?
  have hsorted := m.sorted
  generalize m.entries = l at hsorted
  induction l with
  | nil => rfl
  | cons e rest ih =>
    obtain ⟨hlt, hrest⟩ := pairwise_cons.mp hsorted
    by_cases he : e.1 = k
    · have hnone : rest.countP (fun e => e.1 = k && p e.2) = 0 := by
        rw [countP_eq_zero]
        intro e' he' h
        have hkey : e'.1 = k := by
          simp only [Bool.and_eq_true, decide_eq_true_eq] at h
          exact h.1
        exact (hlt e' he').ne (he.trans hkey.symm)
      rw [countP_cons, hnone, find?_cons_of_pos (by simpa using he)]
      simp [he]
    · rw [countP_cons_of_neg (by simp [he]), find?_cons_of_neg (by simpa using he)]
      exact ih hrest

end SortedMap
end TopChain.Lib
