import Mathlib.Data.Finset.Card

/-!
# Least-recently-used caches

A cache is the list of its entries, most recently used first, with distinct keys and a bound on
its length.
-/
namespace TopChain.Lib

open Option List

structure Lru (κ α : Type) where
  maxSize : ℕ
  items : List (κ × α)
  nodup : (items.map Prod.fst).Nodup
  size_le : items.length ≤ maxSize

def firstOf {κ α : Type} [DecidableEq κ] (l : List (κ × α)) (k : κ) : Option α :=
  (l.find? (fun e => e.1 = k)).map (·.2)

section
variable {κ α : Type} [DecidableEq κ] {l : List (κ × α)} {e : κ × α} {k : κ} {v : α}

theorem firstOf_cons_self : firstOf (e :: l) e.1 = some e.2 := by
  simp [firstOf]

theorem firstOf_cons_of_ne (h : e.1 ≠ k) : firstOf (e :: l) k = firstOf l k := by
  simp [firstOf, h]

theorem firstOf_eq_none : firstOf l k = none ↔ k ∉ l.map Prod.fst := by
  rw [firstOf, map_eq_none_iff, List.find?_eq_none]
  constructor
  · intro h hk
    obtain ⟨e, he, rfl⟩ := mem_map.mp hk
    exact h e he (by simp)
  · intro h e he hk
    exact h (mem_map.mpr ⟨e, he, by simpa using hk⟩)

theorem mem_of_firstOf (h : firstOf l k = some v) : (k, v) ∈ l := by
  rw [firstOf, map_eq_some_iff] at h
  obtain ⟨e, he, rfl⟩ := h
  have hk : e.1 = k := by simpa using List.find?_some he
  rw [← hk]
  exact mem_of_find?_eq_some he

theorem firstOf_eq_some_of_nodup (hl : (l.map Prod.fst).Nodup) :
    firstOf l k = some v ↔ (k, v) ∈ l := by
  refine ⟨mem_of_firstOf, fun h => ?_⟩
  induction l with
  | nil => simp at h
  | cons e l ih =>
    obtain ⟨hnot, hl⟩ := nodup_cons.mp hl
    rcases mem_cons.mp h with rfl | h
    · exact firstOf_cons_self
    · have hne : e.1 ≠ k := fun he => hnot (he ▸ mem_map_of_mem h)
      rw [firstOf_cons_of_ne hne]
      exact ih hl h

end

namespace Lru
variable {κ α : Type}

def empty (maxSize : ℕ) : Lru κ α := ⟨maxSize, [], nodup_nil, Nat.zero_le _⟩

def keys (c : Lru κ α) : List κ := c.items.map Prod.fst

variable [DecidableEq κ]

def find? (c : Lru κ α) (k : κ) : Option α := firstOf c.items k

def put (c : Lru κ α) (k : κ) (v : α) : Lru κ α where
  maxSize := c.maxSize
  items := ((k, v) :: c.items.filter (fun e => e.1 ≠ k)).take c.maxSize
  nodup := by
    refine List.Nodup.sublist ((take_sublist _ _).map _) ?_
    rw [map_cons, nodup_cons]
    refine ⟨by simp, c.nodup.sublist (filter_sublist.map _)⟩
  size_le := length_take_le _ _

def get (c : Lru κ α) (k : κ) : Option α × Lru κ α :=
  match c.find? k with
  | none => (none, c)
  | some v => (some v, c.put k v)

def putNew (c : Lru κ α) (k : κ) (v : α) : Lru κ α :=
  match c.get k with
  | (some _, c') => c'
  | (none, c') => c'.put k v

def fill (c : Lru κ α) (l : List (κ × α)) : Lru κ α :=
  l.foldl (fun c e => c.putNew e.1 e.2) c

variable {c : Lru κ α} {k k' : κ} {v w : α} {l front : List (κ × α)} {S : Finset κ}

theorem find?_eq_some : c.find? k = some v ↔ (k, v) ∈ c.items := firstOf_eq_some_of_nodup c.nodup

theorem find?_eq_none : c.find? k = none ↔ k ∉ c.keys := firstOf_eq_none

theorem putNew_eq (c : Lru κ α) (k : κ) (v : α) : c.putNew k v = c.put k ((c.find? k).getD v) := by
  unfold putNew get
  cases h : c.find? k <;> rfl

@[simp] theorem putNew_maxSize (c : Lru κ α) (k : κ) (v : α) :
    (c.putNew k v).maxSize = c.maxSize := by
  rw [putNew_eq]
  rfl

@[simp] theorem fill_maxSize (c : Lru κ α) (l : List (κ × α)) : (c.fill l).maxSize = c.maxSize := by
  induction l generalizing c with
  | nil => rfl
  | cons e l ih => exact (ih _).trans (putNew_maxSize c e.1 e.2)

theorem mem_put {e : κ × α} (h : e ∈ (c.put k v).items) : e = (k, v) ∨ (e ∈ c.items ∧ e.1 ≠ k) := by
  rcases mem_cons.mp (mem_of_mem_take h) with h | h
  · exact .inl h
  · exact .inr (by simpa using h)

structure Window (S : Finset κ) (front : List (κ × α)) (c : Lru κ α) : Prop where
  isPrefix : front <+: c.items
  keys : ∀ e ∈ front, e.1 ∈ S

omit [DecidableEq κ] in
theorem Window.nil (S : Finset κ) (c : Lru κ α) : Window S [] c :=
  ⟨ nil_prefix, by simp⟩

theorem Window.put (h : Window S front c) (hk : k ∈ S) (hS : S.card ≤ c.maxSize) (v : α) :
    Window S ((k, v) :: front.filter (fun e => e.1 ≠ k)) (c.put k v) := by
  obtain ⟨⟨rest, hrest⟩, hfront⟩ := h
  set front' := (k, v) :: front.filter (fun e => e.1 ≠ k) with hfront'
  have hkeys : ∀ e ∈ front', e.1 ∈ S := by
    intro e he
    rcases mem_cons.mp he with rfl | he
    · exact hk
    · exact hfront e (mem_of_mem_filter he)
  have hlen : front'.length ≤ c.maxSize := by
    have hnodup : (front'.map Prod.fst).Nodup := by
      rw [hfront', map_cons, nodup_cons]
      have hsub : (front.map Prod.fst).Nodup := by
        refine c.nodup.sublist (List.Sublist.map _ ?_)
        rw [← hrest]
        exact sublist_append_left _ _
      exact ⟨by simp, hsub.sublist (filter_sublist.map _)⟩
    calc front'.length = (front'.map Prod.fst).toFinset.card := by
          rw [toFinset_card_of_nodup hnodup, length_map]
      _ ≤ S.card := by
          refine Finset.card_le_card fun k' hk' => ?_
          obtain ⟨e, he, rfl⟩ := mem_map.mp (mem_toFinset.mp hk')
          exact hkeys e he
      _ ≤ c.maxSize := hS
  refine ⟨?_, hkeys⟩
  -- the cut falls behind the window
  have hitems : (c.put k v).items = (front' ++ rest.filter (fun e => e.1 ≠ k)).take c.maxSize := by
    simp only [Lru.put, ← hrest, filter_append, hfront', cons_append]
  rw [hitems, take_append, take_of_length_le hlen]
  exact prefix_append _ _

omit [DecidableEq κ] in
theorem Window.mem (h : Window S front c) {e : κ × α} (he : e ∈ front) : e ∈ c.items :=
  h.isPrefix.subset he

theorem Window.find?_putNew (h : Window S front c) (hk' : k' ∈ S) (hS : S.card ≤ c.maxSize)
    (hk : k ∈ front.map Prod.fst) (v : α) : (c.putNew k' v).find? k = c.find? k := by
  obtain ⟨e, he, rfl⟩ := mem_map.mp hk
  have hcur : c.find? e.1 = some e.2 := find?_eq_some.mpr (h.mem he)
  rw [hcur, putNew_eq, find?_eq_some]
  apply (h.put hk' hS _).mem
  by_cases hne : e.1 = k'
  · rw [← hne, hcur]
    exact mem_cons_self
  · exact mem_cons_of_mem _ (mem_filter.mpr ⟨he, by simpa using hne⟩)

theorem Window.find?_fill (h : Window S front c) (hl : ∀ e ∈ l, e.1 ∈ S)
    (hS : S.card ≤ c.maxSize) (hk : k ∈ front.map Prod.fst) :
    (c.fill l).find? k = c.find? k := by
  induction l generalizing c front with
  | nil => rfl
  | cons e l ih =>
    have he := hl e mem_cons_self
    have hnext := h.put he hS ((c.find? e.1).getD e.2)
    rw [← putNew_eq] at hnext
    have hmem : k ∈ ((e.1, (c.find? e.1).getD e.2) ::
        front.filter (fun e' => e'.1 ≠ e.1)).map Prod.fst := by
      obtain ⟨e', he', rfl⟩ := mem_map.mp hk
      by_cases hne : e'.1 = e.1
      · rw [hne]
        exact mem_cons_self
      · exact mem_map_of_mem (mem_cons_of_mem _ (mem_filter.mpr ⟨he', by simpa using hne⟩))
    have hsize : S.card ≤ (c.putNew e.1 e.2).maxSize := by rwa [putNew_maxSize]
    exact (ih hnext (fun e' he' => hl e' (mem_cons_of_mem _ he')) hsize hmem).trans
      (h.find?_putNew he hS hk e.2)

theorem find?_fill_of_none_within (hS : S.card ≤ c.maxSize) (hkeys : ∀ e ∈ l, e.1 ∈ S)
    (hk : c.find? k = none) : (c.fill l).find? k = firstOf l k := by
  induction l generalizing c with
  | nil => exact hk
  | cons e l ih =>
    have he := hkeys e mem_cons_self
    have hrest : ∀ e' ∈ l, e'.1 ∈ S := fun e' he' => hkeys e' (mem_cons_of_mem _ he')
    have hsize : S.card ≤ (c.putNew e.1 e.2).maxSize := by rwa [putNew_maxSize]
    change ((c.putNew e.1 e.2).fill l).find? k = _
    by_cases hne : e.1 = k
    · -- written now, and in front from now on
      have hwin : Window S [(e.1, e.2)] (c.putNew e.1 e.2) := by
        rw [putNew_eq, hne, hk, getD_none, ← hne]
        exact (Window.nil S c).put he hS e.2
      rw [hwin.find?_fill hrest hsize (by simp [hne]), ← hne, firstOf_cons_self, find?_eq_some]
      exact hwin.mem mem_cons_self
    · rw [firstOf_cons_of_ne hne]
      refine ih hsize hrest ?_
      rw [find?_eq_none] at hk ⊢
      rw [putNew_eq]
      intro hmem
      obtain ⟨e', he', rfl⟩ := mem_map.mp hmem
      rcases mem_put he' with rfl | ⟨he', -⟩
      · exact hne rfl
      · exact hk (mem_map_of_mem he')

theorem find?_fill_of_none (hl : (l.map Prod.fst).toFinset.card ≤ c.maxSize)
    (hk : c.find? k = none) : (c.fill l).find? k = firstOf l k :=
  find?_fill_of_none_within hl (fun _ he => mem_toFinset.mpr (mem_map_of_mem he)) hk

theorem Window.mem_fill (hwin : Window S front c) (hS : S.card ≤ c.maxSize)
    (hkeys : ∀ e ∈ l, e.1 ∈ S) (h : (k, v) ∈ (c.fill l).items) :
    (k, v) ∈ c.items ∨ (k ∉ front.map Prod.fst ∧ firstOf l k = some v) := by
  induction l generalizing c front with
  | nil => exact .inl h
  | cons e l ih =>
    have he := hkeys e mem_cons_self
    have hnext := hwin.put he hS ((c.find? e.1).getD e.2)
    have hsize : S.card ≤ (c.putNew e.1 e.2).maxSize := by rwa [putNew_maxSize]
    rw [← putNew_eq] at hnext
    rcases ih hnext hsize (fun e' he' => hkeys e' (mem_cons_of_mem _ he')) h with
      h | ⟨hnot, hfirst⟩
    · rw [putNew_eq] at h
      rcases mem_put h with heq | ⟨h, -⟩
      · obtain ⟨rfl, rfl⟩ := Prod.mk.inj heq
        cases hfind : c.find? e.1 with
        | some w => exact .inl (find?_eq_some.mp hfind)
        | none =>
          -- absent from the cache, hence from the window
          rw [find?_eq_none] at hfind
          refine .inr ⟨fun hmem => hfind ?_, firstOf_cons_self⟩
          obtain ⟨e', he', hk⟩ := mem_map.mp hmem
          exact mem_map.mpr ⟨e', hwin.mem he', hk⟩
      · exact .inl h
    · simp only [map_cons, mem_cons, not_or] at hnot
      have hne : e.1 ≠ k := fun hne => hnot.1 hne.symm
      refine .inr ⟨fun hmem => hnot.2 ?_, by rwa [firstOf_cons_of_ne hne]⟩
      obtain ⟨e', he', rfl⟩ := mem_map.mp hmem
      exact mem_map_of_mem (mem_filter.mpr ⟨he', by simpa using Ne.symm hne⟩)

theorem mem_fill (hl : (l.map Prod.fst).toFinset.card ≤ c.maxSize)
    (h : (k, v) ∈ (c.fill l).items) : (k, v) ∈ c.items ∨ firstOf l k = some v := by
  have hkeys : ∀ e ∈ l, e.1 ∈ (l.map Prod.fst).toFinset := fun _ he =>
    mem_toFinset.mpr (mem_map_of_mem he)
  exact ((Window.nil _ c).mem_fill hl hkeys h).imp_right And.right

end Lru
end TopChain.Lib
