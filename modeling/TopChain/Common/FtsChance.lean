import TopChain.Common.Fts
import Mathlib.Probability.Distributions.Uniform

/-!
# The chances of the stake tree

`FtsNode.select` with an ideal generator, whose draws up to a bound are uniform.
-/
namespace TopChain.Common

open scoped ENNReal

section
variable {β : Type}

theorem uniform_threshold {n k : ℕ} (hk : k ≤ n) (p q : PMF β) (x : β) :
    (((PMF.uniformOfFintype (Fin (n + 1))).bind fun i => if i.val ≤ k then p else q) x).toReal =
      (k + 1) / (n + 1) * (p x).toReal + (n - k) / (n + 1) * (q x).toReal := by
  have hsum : ∀ a b : ℝ, ∑ i : Fin (n + 1), (if i.val ≤ k then a else b) =
      (k + 1) * a + (n - k) * b := by
    intro a b
    have hlow : (Finset.range (n + 1)).filter (· ≤ k) = Finset.range (k + 1) := by
      ext i
      simp only [Finset.mem_filter, Finset.mem_range]
      omega
    have hhigh : ((Finset.range (n + 1)).filter (¬ · ≤ k)).card = n - k := by
      have := Finset.card_filter_add_card_filter_not (s := Finset.range (n + 1)) (· ≤ k)
      rw [hlow, Finset.card_range, Finset.card_range] at this
      omega
    rw [Fin.sum_univ_eq_sum_range (fun i => if i ≤ k then a else b), Finset.sum_ite, hlow,
      Finset.sum_const, Finset.sum_const, hhigh, Finset.card_range, nsmul_eq_mul, nsmul_eq_mul,
      Nat.cast_sub hk, Nat.cast_succ]
  have hterm : ∀ i : Fin (n + 1), (((n : ℝ≥0∞) + 1)⁻¹ * (if i.val ≤ k then p else q) x).toReal =
      ((n : ℝ) + 1)⁻¹ * (if i.val ≤ k then (p x).toReal else (q x).toReal) := by
    intro i
    rw [ENNReal.toReal_mul, ENNReal.toReal_inv, apply_ite (fun p : PMF β => (p x).toReal)]
    norm_cast
  rw [PMF.bind_apply, tsum_fintype, ENNReal.toReal_sum]
  · simp only [PMF.uniformOfFintype_apply, Fintype.card_fin, Nat.cast_succ, hterm]
    rw [← Finset.mul_sum, hsum]
    ring
  · intro i _
    exact ENNReal.mul_ne_top (PMF.apply_ne_top _ _) (PMF.apply_ne_top _ _)

end

noncomputable def idealDraw (n : UInt64) : PMF UInt64 :=
  (PMF.uniformOfFintype (Fin (n.toNat + 1))).map fun i => UInt64.ofNat i.val

theorem idealDraw_threshold {n l : UInt64} (hl : l.toNat ≤ n.toNat) {β : Type} (p q : PMF β)
    (x : β) :
    (((idealDraw n).bind fun r => if r ≤ l then p else q) x).toReal =
      (l.toNat + 1) / (n.toNat + 1) * (p x).toReal +
        (n.toNat - l.toNat) / (n.toNat + 1) * (q x).toReal := by
  rw [← uniform_threshold hl p q x, idealDraw, PMF.bind_map]
  congr 3
  funext i
  have hi : (UInt64.ofNat i.val).toNat = i.val := by
    exact Nat.mod_eq_of_lt (lt_of_lt_of_le i.isLt n.toNat_lt)
  simp only [Function.comp_apply, UInt64.le_iff_toNat_le, hi]

variable {α : Type}

def totalStake (data : List (Candidate α)) : ℕ := (data.map (·.1.toNat)).sum

theorem totalStake_append (l r : List (Candidate α)) :
    totalStake (l ++ r) = totalStake l + totalStake r := by
  rw [totalStake, List.map_append, List.sum_append, totalStake, totalStake]

theorem totalStake_cast (data : List (Candidate α)) :
    (totalStake data : ℝ) = (data.map fun x => (x.1.toNat : ℝ)).sum := by
  rw [totalStake, Nat.cast_list_sum, List.map_map]
  rfl

namespace FtsNode

noncomputable def chance (node : FtsNode α) (x : Candidate α) : ℝ :=
  (node.select idealDraw (some x)).toReal

variable {node left right : FtsNode α} {stake : UInt64}

theorem Merged.stake_toNat (hm : node.Merged) (hfit : totalStake node.leaves < 2 ^ 64) :
    node.stake.toNat = totalStake node.leaves := by
  induction node with
  | leaf stake value => simp [totalStake, leaves, FtsNode.stake]
  | single left stake ih =>
    obtain ⟨hstake, hleft⟩ := hm
    rw [FtsNode.stake, hstake]
    exact ih hleft hfit
  | pair left right stake ihl ihr =>
    obtain ⟨hstake, hl, hr⟩ := hm
    rw [leaves, totalStake_append] at hfit ⊢
    rw [FtsNode.stake, hstake, UInt64.toNat_add, ihl hl (by omega), ihr hr (by omega)]
    exact Nat.mod_eq_of_lt hfit

theorem chance_leaf [DecidableEq α] (stake : UInt64) (value : α) (x : Candidate α) :
    (leaf stake value).chance x = if x = (stake, value) then 1 else 0 := by
  have h : (leaf stake value).select idealDraw = PMF.pure (some (stake, value)) := rfl
  rw [chance, h, PMF.pure_apply]
  simp only [Option.some.injEq]
  split <;> simp

theorem chance_single (hstake : stake = left.stake) (x : Candidate α) :
    (single left stake).chance x = left.chance x := by
  have h : (single left stake).select idealDraw = (idealDraw stake).bind fun r =>
      if r ≤ left.stake then left.select idealDraw else PMF.pure none := rfl
  have hpos : (stake.toNat : ℝ) + 1 ≠ 0 := by positivity
  rw [chance, h, idealDraw_threshold (le_of_eq (congrArg _ hstake.symm)), ← hstake, div_self hpos,
    sub_self, zero_div, one_mul, zero_mul, add_zero]
  rfl

theorem chance_pair {l r : ℕ} (hl : left.stake.toNat = l) (hstake : stake.toNat = l + r)
    (x : Candidate α) :
    (pair left right stake).chance x =
      (l + 1) / (l + r + 1) * left.chance x + r / (l + r + 1) * right.chance x := by
  have h : (pair left right stake).select idealDraw = (idealDraw stake).bind fun r =>
      if r ≤ left.stake then left.select idealDraw else right.select idealDraw := rfl
  rw [chance, h, idealDraw_threshold (by omega), hl, hstake, Nat.cast_add, add_sub_cancel_left]
  rfl

theorem Merged.chance_pair (hm : (pair left right stake).Merged)
    (hfit : totalStake (left.leaves ++ right.leaves) < 2 ^ 64) (x : Candidate α) :
    (pair left right stake).chance x =
      (totalStake left.leaves + 1) / (totalStake left.leaves + totalStake right.leaves + 1) *
          left.chance x +
        totalStake right.leaves / (totalStake left.leaves + totalStake right.leaves + 1) *
          right.chance x := by
  have hstake := hm.stake_toNat hfit
  rw [totalStake_append] at hfit
  refine FtsNode.chance_pair (hm.2.1.stake_toNat (by omega)) ?_ x
  rwa [leaves, totalStake_append] at hstake

theorem chance_of_notMem (hm : node.Merged) (hfit : totalStake node.leaves < 2 ^ 64)
    {x : Candidate α} (hx : x ∉ node.leaves) :
    node.chance x = 0 := by
  classical
  induction node with
  | leaf stake value =>
    exact (chance_leaf stake value x).trans (if_neg (by simpa [leaves] using hx))
  | single left stake ih => exact (chance_single hm.1 x).trans (ih hm.2 hfit hx)
  | pair left right stake ihl ihr =>
    obtain ⟨hxl, hxr⟩ := not_or.mp fun h => hx (List.mem_append.mpr h)
    have hsum := totalStake_append left.leaves right.leaves
    have hfit' : totalStake (left.leaves ++ right.leaves) < 2 ^ 64 := hfit
    rw [hm.chance_pair hfit, ihl hm.2.1 (by omega) hxl, ihr hm.2.2 (by omega) hxr, mul_zero,
      mul_zero, add_zero]

section

theorem sum_scaled {l : List (Candidate α)} {f p q : Candidate α → ℝ} {c d : ℝ}
    (hf : ∀ x, f x = c * p x + d * q x) (hq : ∀ x ∈ l, q x = 0) :
    (l.map f).sum = c * (l.map p).sum := by
  rw [← List.sum_map_mul_left]
  refine congrArg List.sum (List.map_congr_left fun x hx => ?_)
  rw [hf, hq x hx, mul_zero, add_zero]

theorem sum_chance (hm : node.Merged) (hfit : totalStake node.leaves < 2 ^ 64)
    (hnodup : node.leaves.Nodup) :
    (node.leaves.map node.chance).sum = 1 := by
  classical
  induction node with
  | leaf stake value => simp [leaves, chance_leaf]
  | single left stake ih =>
    rw [leaves, List.map_congr_left fun x _ => chance_single hm.1 x]
    exact ih hm.2 hfit hnodup
  | pair left right stake ihl ihr =>
    have hsum := totalStake_append left.leaves right.leaves
    have hfit' : totalStake (left.leaves ++ right.leaves) < 2 ^ 64 := hfit
    obtain ⟨hnl, hnr, hdis⟩ := List.nodup_append'.mp hnodup
    have hpair := hm.chance_pair hfit
    have hleft := sum_scaled (l := left.leaves) hpair fun x hx =>
      chance_of_notMem hm.2.2 (by omega) (hdis hx)
    have hright := sum_scaled (l := right.leaves) (fun x => (hpair x).trans (add_comm _ _))
      fun x hx => chance_of_notMem hm.2.1 (by omega) (hdis.symm hx)
    rw [leaves, List.map_append, List.sum_append, hleft, hright, ihl hm.2.1 (by omega) hnl,
      ihr hm.2.2 (by omega) hnr]
    field_simp
    ring

def Proportional (node : FtsNode α) : Prop :=
  ∀ x ∈ node.leaves, node.chance x = x.1.toNat / totalStake node.leaves

theorem leaves_ne_nil (node : FtsNode α) : node.leaves ≠ [] := by
  induction node with
  | leaf stake value => exact List.cons_ne_nil _ _
  | single left stake ih => exact ih
  | pair left right stake ihl _ => exact List.append_ne_nil_of_left_ne_nil ihl _

theorem totalStake_eq_zero (data : List (Candidate α)) :
    totalStake data = 0 ↔ ∀ x ∈ data, x.1 = 0 := by
  rw [totalStake, List.sum_eq_zero_iff, List.forall_mem_map]
  exact forall₂_congr fun x _ => UInt64.toNat_inj (b := 0)

section
variable (hm : (pair left right stake).Merged)
  (hfit : totalStake (left.leaves ++ right.leaves) < 2 ^ 64)
include hm hfit

theorem chance_pair_of_right_zero (hright : totalStake right.leaves = 0) (x : Candidate α) :
    (pair left right stake).chance x = left.chance x := by
  rw [hm.chance_pair hfit, hright, Nat.cast_zero, zero_div, zero_mul, add_zero, add_zero,
    div_self (by positivity), one_mul]

theorem right_zero_of_proportional (hnodup : (left.leaves ++ right.leaves).Nodup)
    (hpos : 0 < totalStake (left.leaves ++ right.leaves))
    (hprop : (pair left right stake).Proportional) : totalStake right.leaves = 0 := by
  obtain ⟨hnl, -, hdis⟩ := List.nodup_append'.mp hnodup
  have hsum := totalStake_append left.leaves right.leaves
  have hscaled := sum_scaled (l := left.leaves) (hm.chance_pair hfit) fun x hx =>
    chance_of_notMem hm.2.2 (by omega) (hdis hx)
  rw [sum_chance hm.2.1 (by omega) hnl, mul_one] at hscaled
  have hshare : (left.leaves.map (pair left right stake).chance).sum =
      totalStake left.leaves / totalStake (left.leaves ++ right.leaves) := by
    rw [List.map_congr_left fun x hx => hprop x (List.mem_append_left _ hx)]
    simp only [div_eq_mul_inv]
    rw [List.sum_map_mul_right, ← totalStake_cast, leaves]
  rw [hscaled, hsum, Nat.cast_add, div_eq_div_iff (by positivity) (by norm_cast; omega)] at hshare
  -- (L + 1) (L + R) = L (L + R + 1)
  have hright : (totalStake right.leaves : ℝ) = 0 := by linarith
  exact_mod_cast hright

end

theorem proportional_iff (hm : node.Merged) (hfit : totalStake node.leaves < 2 ^ 64)
    (hnodup : node.leaves.Nodup) (hpos : 0 < totalStake node.leaves) :
    node.Proportional ↔ ∀ x ∈ node.leaves.tail, x.1 = 0 := by
  classical
  induction node with
  | leaf stake value =>
    have hne : (stake.toNat : ℝ) ≠ 0 := by
      exact_mod_cast hpos.ne'
    simp [Proportional, leaves, chance_leaf, totalStake, hne]
  | single left stake ih =>
    rw [← show left.Proportional ↔ (single left stake).Proportional from
      forall₂_congr fun x _ => by rw [chance_single hm.1]; rfl]
    exact ih hm.2 hfit hnodup hpos
  | pair left right stake ihl _ =>
    have hsum := totalStake_append left.leaves right.leaves
    have hfit' : totalStake (left.leaves ++ right.leaves) < 2 ^ 64 := hfit
    have hpos' : 0 < totalStake (left.leaves ++ right.leaves) := hpos
    obtain ⟨hnl, -, hdis⟩ := List.nodup_append'.mp hnodup
    have htail : (pair left right stake).leaves.tail = left.leaves.tail ++ right.leaves :=
      List.tail_append_of_ne_nil left.leaves_ne_nil
    rw [htail, List.forall_mem_append, ← totalStake_eq_zero right.leaves]
    constructor
    · intro hprop
      have hright := right_zero_of_proportional hm hfit hnodup hpos hprop
      refine ⟨(ihl hm.2.1 (by omega) hnl (by omega)).mp fun x hx => ?_, hright⟩
      rw [← chance_pair_of_right_zero hm hfit hright, hprop x (List.mem_append_left _ hx), leaves,
        hsum, hright, Nat.add_zero]
    · rintro ⟨hleft, hright⟩ x hx
      rw [chance_pair_of_right_zero hm hfit hright, leaves, hsum, hright, Nat.add_zero]
      rcases List.mem_append.mp hx with hx | hx
      · exact (ihl hm.2.1 (by omega) hnl (by omega)).mpr hleft x hx
      · rw [chance_of_notMem hm.2.1 (by omega) (hdis.symm hx),
          (totalStake_eq_zero _).mp hright x hx,
          UInt64.toNat_zero, Nat.cast_zero, zero_div]

end
end FtsNode

def atPosition (data : List (Candidate α)) (i : Fin data.length) : Candidate (α × ℕ) :=
  ((data.get i).1, (data.get i).2, i)

def labelled (data : List (Candidate α)) : List (Candidate (α × ℕ)) :=
  List.ofFn (atPosition data)

noncomputable def chanceAt (data : List (Candidate α)) (i : Fin data.length) : ℝ :=
  (FtsNode.construct (labelled data)).elim 0 fun root => root.chance (atPosition data i)

theorem labelled_stakes (data : List (Candidate α)) :
    (labelled data).map (·.1) = data.map (·.1) := by
  conv_rhs => rw [← List.ofFn_get data]
  rw [labelled, List.map_ofFn, List.map_ofFn]
  rfl

theorem labelled_nodup (data : List (Candidate α)) : (labelled data).Nodup := by
  refine List.nodup_ofFn.mpr fun i j h => Fin.ext ?_
  exact congrArg (·.2.2) h

theorem totalStake_of_stakes {β : Type} {l : List (Candidate α)} {r : List (Candidate β)}
    (h : l.map (·.1) = r.map (·.1)) : totalStake l = totalStake r := by
  have hsum := congrArg (fun stakes => (stakes.map UInt64.toNat).sum) h
  simp only [List.map_map] at hsum
  exact hsum

/-- The stake tree picks every candidate in proportion to its stake just when the first
candidate of the list has all the stake. -/
theorem proportional_iff_first_has_all (data : List (Candidate α)) (hpos : 0 < totalStake data)
    (hfit : totalStake data < 2 ^ 64) :
    (∀ i, chanceAt data i = (data.get i).1.toNat / totalStake data) ↔
      ∀ x ∈ data.tail, x.1 = 0 := by
  have htotal : totalStake (labelled data) = totalStake data :=
    totalStake_of_stakes (labelled_stakes data)
  have hne : labelled data ≠ [] := by
    rintro h
    rw [h] at htotal
    exact hpos.ne htotal
  obtain ⟨root, hroot, hleaves, hm⟩ := FtsNode.construct_spec hne
  have hiff := FtsNode.proportional_iff hm (by rwa [hleaves, htotal])
    (by rw [hleaves]; exact labelled_nodup data) (by rwa [hleaves, htotal])
  have hchance : ∀ i, chanceAt data i = root.chance (atPosition data i) := fun i => by
    rw [chanceAt, hroot, Option.elim_some]
  have htail : (∀ x ∈ (labelled data).tail, x.1 = 0) ↔ ∀ x ∈ data.tail, x.1 = 0 := by
    rw [← List.forall_mem_map (f := fun x : Candidate (α × ℕ) => x.1) (P := (· = 0)),
      ← List.forall_mem_map (f := fun x : Candidate α => x.1) (P := (· = 0)), List.map_tail,
      List.map_tail, labelled_stakes]
  rw [hleaves, htail] at hiff
  refine Iff.trans ?_ hiff
  unfold FtsNode.Proportional
  rw [hleaves, htotal, labelled, List.forall_mem_ofFn_iff]
  exact forall_congr' fun i => by rw [hchance, atPosition]

theorem proportional_sample :
    (∀ i, chanceAt [(3, true), (0, false)] i =
      (([(3, true), (0, false)] : List (Candidate Bool)).get i).1.toNat /
        totalStake [((3 : UInt64), true), (0, false)]) ∧
      totalStake [((3 : UInt64), true), (0, false)] = 3 :=
  ⟨(proportional_iff_first_has_all [(3, true), (0, false)] (by decide) (by decide)).mpr (by simp),
    rfl⟩

theorem zero_stake_picked :
    chanceAt [(0, ()), (1, ())] ⟨0, Nat.zero_lt_two⟩ = 1 / 2 ∧
      totalStake [((0 : UInt64), ()), (1, ())] = 1 := by
  have hroot : FtsNode.construct (labelled [(0, ()), (1, ())]) =
      some (.pair (.leaf 0 ((), 0)) (.leaf 1 ((), 1)) 1) := by
    simp [labelled, atPosition, FtsNode.construct, FtsNode.constructLoop, FtsNode.constructImpl,
      FtsNode.stake]
  refine ⟨?_, by decide⟩
  rw [chanceAt, hroot, Option.elim_some]
  refine (FtsNode.chance_pair (l := 0) (r := 1) rfl rfl _).trans ?_
  rw [FtsNode.chance_leaf, FtsNode.chance_leaf]
  norm_num [atPosition]

end TopChain.Common
