import TopChain.Lib.Word
import Mathlib.Data.List.Perm.Basic

/-!
# Ordered bags

Entries in the order of a comparison, equals in the order they came, as in a `std::multiset`.
-/
namespace TopChain.Lib

open List

class StrictWeak {α : Type} (lt : α → α → Bool) : Prop where
  asymm : ∀ a b, lt a b → ¬ lt b a
  cotrans : ∀ a b c, lt a c → lt a b ∨ lt b c

theorem strictWeak_key {α β : Type} [LinearOrder β] {lt : α → α → Bool} (key : α → β)
    (hkey : ∀ {a b}, lt a b ↔ key a < key b) : StrictWeak lt where
  asymm a b h := by
    rw [hkey] at h ⊢
    exact h.not_gt
  cotrans a b c h := by
    simp only [hkey] at h ⊢
    rcases lt_or_ge (key a) (key b) with hlt | hge
    · exact .inl hlt
    · exact .inr (hge.trans_lt h)

structure Bag {α : Type} (lt : α → α → Bool) where
  entries : List α
  sorted : entries.Pairwise fun a b => ¬ lt b a
deriving DecidableEq

namespace Bag
variable {α : Type} {lt : α → α → Bool} {x y : α} {l : List α}

def empty : Bag lt := ⟨[], .nil⟩

def insertList (lt : α → α → Bool) (x : α) : List α → List α
  | [] => [x]
  | y :: rest => if lt x y then x :: y :: rest else y :: insertList lt x rest

theorem perm_insertList (x : α) (l : List α) : (insertList lt x l).Perm (x :: l) := by
  induction l with
  | nil => exact .refl _
  | cons y rest ih =>
    unfold insertList
    split
    · exact .refl _
    · exact (ih.cons y).trans (.swap x y rest)

theorem insertList_of_last (h : ∀ y ∈ l, ¬ lt x y) : insertList lt x l = l ++ [x] := by
  induction l with
  | nil => rfl
  | cons y rest ih =>
    have hrest := ih fun z hz => h z (mem_cons_of_mem y hz)
    rw [insertList, if_neg (h y mem_cons_self), hrest]
    rfl

section
variable [StrictWeak lt]

theorem irrefl (x : α) : ¬ lt x x := fun h => StrictWeak.asymm x x h h

theorem not_lt_trans {a b c : α} (hab : ¬ lt b a) (hbc : ¬ lt c b) : ¬ lt c a := by
  intro h
  rcases StrictWeak.cotrans c b a h with h | h
  · exact hbc h
  · exact hab h

theorem sorted_insertList (x : α) (hl : l.Pairwise fun a b => ¬ lt b a) :
    (insertList lt x l).Pairwise fun a b => ¬ lt b a := by
  induction l with
  | nil => exact pairwise_singleton _ x
  | cons y rest ih =>
    obtain ⟨hy, hrest⟩ := pairwise_cons.mp hl
    unfold insertList
    split
    · rename_i hxy
      have hyx : ¬ lt y x := StrictWeak.asymm x y hxy
      refine pairwise_cons.mpr ⟨fun z hz => ?_, hl⟩
      rcases mem_cons.mp hz with rfl | hz
      · exact hyx
      · exact not_lt_trans hyx (hy z hz)
    · rename_i hxy
      refine pairwise_cons.mpr ⟨fun z hz => ?_, ih hrest⟩
      rcases mem_cons.mp ((perm_insertList x rest).subset hz) with rfl | hz
      · exact hxy
      · exact hy z hz

def insert (m : Bag lt) (x : α) : Bag lt :=
  ⟨insertList lt x m.entries, sorted_insertList x m.sorted⟩

theorem perm_insert (m : Bag lt) (x : α) : (m.insert x).entries.Perm (x :: m.entries) :=
  perm_insertList x m.entries

theorem perm_foldl_insert (l : List α) (m : Bag lt) :
    (l.foldl insert m).entries.Perm (l ++ m.entries) := by
  induction l generalizing m with
  | nil => exact .refl _
  | cons x l ih => exact (ih _).trans (((m.perm_insert x).append_left l).trans perm_middle)

end

def restrict (m : Bag lt) (l : List α) (h : l.Sublist m.entries) : Bag lt := ⟨l, m.sorted.sublist h⟩

def take (m : Bag lt) (n : Nat) : Bag lt := m.restrict (m.entries.take n) (take_sublist n _)

def drop (m : Bag lt) (n : Nat) : Bag lt := m.restrict (m.entries.drop n) (drop_sublist n _)

def dropWhile (m : Bag lt) (p : α → Bool) : Bag lt :=
  m.restrict (m.entries.dropWhile p) (dropWhile_sublist p)

def below (m : Bag lt) (x : α) : List α := m.entries.takeWhile (lt · x)

def equal (m : Bag lt) (x : α) : List α :=
  (m.entries.dropWhile (lt · x)).takeWhile fun y => !lt x y

def above (m : Bag lt) (x : α) : List α :=
  (m.entries.dropWhile (lt · x)).dropWhile fun y => !lt x y

theorem below_append_equal_append_above (m : Bag lt) (x : α) :
    m.below x ++ (m.equal x ++ m.above x) = m.entries := by
  rw [equal, above, takeWhile_append_dropWhile, below, takeWhile_append_dropWhile]

theorem eraseEqual_sublist (m : Bag lt) (x : α) (i : Nat) :
    (m.below x ++ ((m.equal x).eraseIdx i ++ m.above x)).Sublist m.entries := by
  conv_rhs => rw [← m.below_append_equal_append_above x]
  exact ((eraseIdx_sublist _ i).append (.refl _)).append_left _

theorem truncateEqual_sublist (m : Bag lt) (x : α) (i : Nat) :
    (m.below x ++ (m.equal x).eraseIdx i).Sublist m.entries := by
  conv_rhs => rw [← m.below_append_equal_append_above x]
  exact ((eraseIdx_sublist _ i).trans (sublist_append_left _ _)).append_left _

def eraseEqual (m : Bag lt) (x : α) (i : Nat) : Bag lt :=
  m.restrict (m.below x ++ ((m.equal x).eraseIdx i ++ m.above x)) (m.eraseEqual_sublist x i)

def truncateEqual (m : Bag lt) (x : α) (i : Nat) : Bag lt :=
  m.restrict (m.below x ++ (m.equal x).eraseIdx i) (m.truncateEqual_sublist x i)

variable {m : Bag lt}

theorem perm_eraseEqual {i : Nat} (h : (m.equal x)[i]? = some y) :
    m.entries.Perm (y :: (m.eraseEqual x i).entries) := by
  obtain ⟨hi, rfl⟩ := List.getElem?_eq_some_iff.mp h
  have hrange : (m.equal x).Perm ((m.equal x)[i] :: (m.equal x).eraseIdx i) :=
    (getElem_cons_eraseIdx_perm hi).symm
  conv_lhs => rw [← m.below_append_equal_append_above x]
  exact ((hrange.append_right (m.above x)).append_left (m.below x)).trans perm_middle

theorem perm_truncateEqual {i : Nat} (h : (m.equal x)[i]? = some y) :
    m.entries.Perm (y :: (m.above x ++ (m.truncateEqual x i).entries)) := by
  have htail : (m.eraseEqual x i).entries =
      (m.truncateEqual x i).entries ++ m.above x := (append_assoc _ _ _).symm
  refine (perm_eraseEqual h).trans (.cons y ?_)
  rw [htail]
  exact perm_append_comm

variable [StrictWeak lt]

theorem mem_equal (hx : x ∈ m.entries) : x ∈ m.equal x := by
  have hsplit := m.below_append_equal_append_above x
  have hall : (m.below x).all (lt · x) := all_takeWhile
  have hbelow : x ∉ m.below x := fun h => irrefl x (all_eq_true.mp hall x h)
  have habove : x ∉ m.above x := by
    intro h
    cases ha : m.above x with
    | nil =>
      rw [ha] at h
      cases h
    | cons y rest =>
      have hy : lt x y := by
        have hhead := List.head?_dropWhile_not (fun y => !lt x y) (m.entries.dropWhile (lt · x))
        rw [← above, ha] at hhead
        simpa using hhead
      have hsorted : (y :: rest).Pairwise fun a b => ¬ lt b a := by
        rw [← ha]
        refine m.sorted.sublist ?_
        rw [← hsplit, ← append_assoc]
        exact sublist_append_right _ _
      rw [ha] at h
      rcases mem_cons.mp h with rfl | h
      · exact irrefl x hy
      · exact (pairwise_cons.mp hsorted).1 x h hy
  rw [← hsplit] at hx
  rcases mem_append.mp hx with h | h
  · exact absurd h hbelow
  · rcases mem_append.mp h with h | h
    · exact h
    · exact absurd h habove

theorem not_lt_of_mem_equal (hy : y ∈ m.equal x) : ¬ lt y x ∧ ¬ lt x y := by
  have hall : (m.equal x).all fun z => !lt x z := all_takeWhile
  have hxy : ¬ lt x y := by simpa using all_eq_true.mp hall y hy
  refine ⟨fun hyx => ?_, hxy⟩
  have hmem : y ∈ m.entries.dropWhile (lt · x) := (takeWhile_sublist _).subset hy
  cases hd : m.entries.dropWhile (lt · x) with
  | nil =>
    rw [hd] at hmem
    cases hmem
  | cons z rest =>
    -- the range starts at an entry that is not before `x`, and `y` is not before that one
    have hz : ¬ lt z x := by
      have hhead := List.head?_dropWhile_not (lt · x) m.entries
      rw [hd] at hhead
      simpa using hhead
    have hsorted : (z :: rest).Pairwise fun a b => ¬ lt b a := by
      rw [← hd]
      exact m.sorted.sublist (dropWhile_sublist _)
    rw [hd] at hmem
    rcases mem_cons.mp hmem with rfl | hmem
    · exact hz hyx
    · rcases StrictWeak.cotrans y z x hyx with h | h
      · exact (pairwise_cons.mp hsorted).1 y hmem h
      · exact hz h

theorem range_of_split {l₁ l₂ : List α} (hm : m.entries = l₁ ++ x :: l₂) (h₁ : ∀ y ∈ l₁, lt y x)
    (h₂ : ∀ y ∈ l₂, lt x y) :
    m.below x = l₁ ∧ m.equal x = [x] ∧ m.above x = l₂ := by
  have hx : (lt x x) = false := Bool.eq_false_iff.mpr (irrefl x)
  have hdrop : m.entries.dropWhile (lt · x) = x :: l₂ := by
    rw [hm, dropWhile_append_of_pos h₁, dropWhile_cons_of_neg (p := (lt · x)) (irrefl x)]
  have hbelow : m.below x = l₁ := by
    rw [below, hm, takeWhile_append_of_pos h₁,
      takeWhile_cons_of_neg (p := (lt · x)) (irrefl x), append_nil]
  refine ⟨hbelow, ?_, ?_⟩
  · rw [equal, hdrop, takeWhile_cons_of_pos (by rw [hx]; rfl)]
    cases l₂ with
    | nil => rfl
    | cons z rest =>
      have hz : lt x z := h₂ z mem_cons_self
      rw [takeWhile_cons_of_neg (by simp [hz])]
  · rw [above, hdrop, dropWhile_cons_of_pos (by rw [hx]; rfl)]
    cases l₂ with
    | nil => rfl
    | cons z rest =>
      have hz : lt x z := h₂ z mem_cons_self
      rw [dropWhile_cons_of_neg (by simp [hz])]

end Bag
end TopChain.Lib
