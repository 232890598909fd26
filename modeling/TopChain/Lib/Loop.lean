import Mathlib.Data.List.Basic

/-!
# Loops over a list

A loop threads a state through the elements of a list.
-/
namespace TopChain.Lib.Loop

open Option List

variable {σ α : Type} {f : σ → α → σ} {R : σ → σ → Prop}

section
variable (hrefl : ∀ s, R s s) (htrans : ∀ s s' s'', R s s' → R s' s'' → R s s'')
include hrefl htrans

theorem foldl_rel (l : List α) (hstep : ∀ s, ∀ a ∈ l, R s (f s a)) (s : σ) : R s (l.foldl f s) := by
  induction l generalizing s with
  | nil => exact hrefl s
  | cons a l ih =>
    have hfirst := hstep s a mem_cons_self
    have hrest := ih (fun s a' ha' => hstep s a' (mem_cons_of_mem a ha')) (f s a)
    exact htrans _ _ _ hfirst hrest

theorem foldl_establishes (hstep : ∀ s a, R s (f s a))
    {Q : σ → Prop} (hkeep : ∀ s s', R s s' → Q s → Q s') {s : σ} {a : α}
    (hturn : ∀ s', R s s' → Q (f s' a)) {l : List α} (ha : a ∈ l) : Q (l.foldl f s) := by
  obtain ⟨before, after, rfl⟩ := append_of_mem ha
  rw [foldl_append, foldl_cons]
  have hbefore := foldl_rel hrefl htrans before (fun s a _ => hstep s a) s
  have hafter := foldl_rel hrefl htrans after (fun s a _ => hstep s a) (f (before.foldl f s) a)
  exact hkeep _ _ hafter (hturn _ hbefore)

end

theorem exists_getElem?_of_length_eq {β : Type} {l : List α} {l' : List β} {R : ℕ → α → β → Prop}
    (hlen : l'.length = l.length)
    (h : ∀ i a, l[i]? = some a → ∃ b, l'[i]? = some b ∧ R i a b) {i : ℕ} {b : β}
    (hb : l'[i]? = some b) : ∃ a, l[i]? = some a ∧ R i a b := by
  have hlt : i < l.length := hlen ▸ (List.getElem?_eq_some_iff.mp hb).1
  obtain ⟨b', hb', hrel⟩ := h i l[i] (List.getElem?_eq_getElem hlt)
  obtain rfl : b = b' := mem_unique hb hb'
  exact ⟨_, List.getElem?_eq_getElem hlt, hrel⟩

section
variable {β : Type} {g : α → Option β} {l : List α} {l' : List β}

theorem mem_iff_of_mapM_eq_some (h : l.mapM g = some l') (y : β) :
    y ∈ l' ↔ ∃ x ∈ l, g x = some y := by
  induction l generalizing l' with
  | nil =>
    cases h
    simp
  | cons a rest ih =>
    rw [mapM_cons] at h
    obtain ⟨z, hz, h⟩ := bind_eq_some_iff.mp h
    obtain ⟨zs, hzs, h⟩ := bind_eq_some_iff.mp h
    cases h
    simp [ih hzs, hz, eq_comm]

theorem exists_of_mapM_eq_some (h : l.mapM g = some l') {x : α} (hx : x ∈ l) :
    ∃ y, g x = some y := by
  induction l generalizing l' with
  | nil => cases hx
  | cons a rest ih =>
    rw [mapM_cons] at h
    obtain ⟨z, hz, h⟩ := bind_eq_some_iff.mp h
    obtain ⟨zs, hzs, -⟩ := bind_eq_some_iff.mp h
    rcases mem_cons.mp hx with rfl | hx
    · exact ⟨z, hz⟩
    · exact ih hzs hx

end
end TopChain.Lib.Loop
