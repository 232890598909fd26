import Mathlib.Data.List.Basic

/-!
# Selection by stake (`xcommon/xfts.h`)

Candidates with their stakes are the leaves of a binary tree that is built pairwise from below.
-/
namespace TopChain.Common

open List

abbrev Candidate (α : Type) := UInt64 × α

/-- `xtop_fts_tree_node`. The right child of an inner node may be null; its value is never read. -/
inductive FtsNode (α : Type) where
  | leaf (stake : UInt64) (value : α)
  | single (left : FtsNode α) (stake : UInt64)
  | pair (left right : FtsNode α) (stake : UInt64)

variable {α : Type} {m : Type → Type} [Monad m]

namespace FtsNode

def stake : FtsNode α → UInt64
  | leaf stake _ => stake
  | single _ stake => stake
  | pair _ _ stake => stake

def constructImpl : List (FtsNode α) → List (FtsNode α)
  | [] => []
  | [left] => [single left left.stake]
  | left :: right :: rest => pair left right (left.stake + right.stake) :: constructImpl rest

theorem constructImpl_length (nodes : List (FtsNode α)) :
    (constructImpl nodes).length = (nodes.length + 1) / 2 := by
  fun_induction constructImpl nodes with
  | case1 => simp
  | case2 left => simp
  | case3 left right rest ih =>
    rw [length_cons, ih, length_cons, length_cons]
    omega

def constructLoop : List (FtsNode α) → Option (FtsNode α)
  | [] => none
  | [root] => some root
  | left :: right :: rest => constructLoop (constructImpl (left :: right :: rest))
termination_by nodes => nodes.length
decreasing_by
  rw [constructImpl_length, length_cons, length_cons]
  omega

def construct (data : List (Candidate α)) : Option (FtsNode α) :=
  constructLoop (data.map fun datum => leaf datum.1 datum.2)

def select (draw : UInt64 → m UInt64) : FtsNode α → m (Option (Candidate α))
  | leaf stake value => pure (some (stake, value))
  | single left stake => do
    let r ← draw stake
    if r ≤ left.stake then left.select draw else pure none
  | pair left right stake => do
    let r ← draw stake
    if r ≤ left.stake then left.select draw else right.select draw

end FtsNode

/-- `tmp.erase(std::remove(begin, end, value))`; `none` where the end itself would be erased. -/
def eraseRemove [DecidableEq α] (tmp : List α) (value : α) : Option (List α) :=
  let kept := tmp.filter (· != value)
  if kept.length = tmp.length then none else some (kept ++ tmp.drop (kept.length + 1))

section
variable [DecidableEq α]

def selectLoop (draw : UInt64 → m UInt64) :
    Nat → List (Candidate α) → List (Candidate α) → m (Option (List (Candidate α)))
  | 0, _, result => pure (some result)
  | n + 1, tmp, result =>
    match FtsNode.construct tmp with
    | none => pure none
    | some root => do
      match ← root.select draw with
      | none => pure none
      | some choosen =>
        match eraseRemove tmp choosen with
        | none => pure none
        | some tmp => selectLoop draw n tmp (result ++ [choosen])

def select (draw : UInt64 → m UInt64) (data : List (Candidate α)) (count : Nat) :
    m (Option (List (Candidate α))) :=
  if data.isEmpty then pure (some [])
  else if data.length ≤ count then pure (some data)
  else selectLoop draw count data []

end

/-- A pseudo-random generator with its distribution: `std::mt19937_64` and
`std::uniform_int_distribution`. -/
structure Prng (σ : Type) where
  seed : UInt64 → σ
  uniform : UInt64 → StateM σ UInt64
  uniform_le : ∀ n s, (uniform n s).1 ≤ n

namespace FtsNode

def leaves : FtsNode α → List (Candidate α)
  | leaf stake value => [(stake, value)]
  | single left _ => left.leaves
  | pair left right _ => left.leaves ++ right.leaves

def Merged : FtsNode α → Prop
  | leaf _ _ => True
  | single left stake => stake = left.stake ∧ left.Merged
  | pair left right stake => stake = left.stake + right.stake ∧ left.Merged ∧ right.Merged

theorem constructImpl_leaves (nodes : List (FtsNode α)) :
    (constructImpl nodes).flatMap leaves = nodes.flatMap leaves := by
  fun_induction constructImpl nodes with
  | case1 => rfl
  | case2 left => rfl
  | case3 left right rest ih =>
    rw [flatMap_cons, ih, flatMap_cons, flatMap_cons, leaves, append_assoc]

theorem constructImpl_merged {nodes : List (FtsNode α)} (h : ∀ n ∈ nodes, n.Merged) :
    ∀ n ∈ constructImpl nodes, n.Merged := by
  fun_induction constructImpl nodes with
  | case1 => exact h
  | case2 left =>
    intro n hn
    obtain rfl := mem_singleton.mp hn
    exact ⟨rfl, h left mem_cons_self⟩
  | case3 left right rest ih =>
    obtain ⟨hl, hr, hrest⟩ := forall_mem_cons.mp h |>.imp_right forall_mem_cons.mp
    exact forall_mem_cons.mpr ⟨⟨rfl, hl, hr⟩, ih hrest⟩

theorem constructLoop_spec {nodes : List (FtsNode α)} (hne : nodes ≠ [])
    (hmerged : ∀ n ∈ nodes, n.Merged) :
    ∃ root, constructLoop nodes = some root ∧ root.leaves = nodes.flatMap leaves ∧ root.Merged := by
  fun_induction constructLoop nodes with
  | case1 => exact absurd rfl hne
  | case2 root => exact ⟨root, rfl, by simp, hmerged root mem_cons_self⟩
  | case3 left right rest ih =>
    have hne' : constructImpl (left :: right :: rest) ≠ [] := cons_ne_nil _ _
    obtain ⟨root, hroot, hleaves, hm⟩ := ih hne' (constructImpl_merged hmerged)
    exact ⟨root, hroot, hleaves.trans (constructImpl_leaves _), hm⟩

theorem construct_spec {data : List (Candidate α)} (hne : data ≠ []) :
    ∃ root, construct data = some root ∧ root.leaves = data ∧ root.Merged := by
  have hmerged : ∀ n ∈ data.map (fun datum => leaf datum.1 datum.2), n.Merged := by
    intro n hn
    obtain ⟨datum, -, rfl⟩ := mem_map.mp hn
    trivial
  obtain ⟨root, hroot, hleaves, hm⟩ :=
    constructLoop_spec (fun h => hne (map_eq_nil_iff.mp h)) hmerged
  refine ⟨root, hroot, ?_, hm⟩
  rw [hleaves, flatMap_map]
  exact flatMap_singleton' data

theorem select_mem {σ : Type} (P : Prng σ) {node : FtsNode α} (hm : node.Merged) (s : σ) :
    ∃ choosen ∈ node.leaves, ∃ s', node.select P.uniform s = (some choosen, s') := by
  induction node generalizing s with
  | leaf stake value => exact ⟨_, mem_singleton_self _, s, rfl⟩
  | single left stake ih =>
    obtain ⟨hstake, hleft⟩ := hm
    have hle : (P.uniform stake s).1 ≤ left.stake := hstake ▸ P.uniform_le stake s
    obtain ⟨choosen, hmem, s', h⟩ := ih hleft (P.uniform stake s).2
    refine ⟨choosen, hmem, s', Eq.trans ?_ h⟩
    change (if (P.uniform stake s).1 ≤ left.stake then left.select P.uniform
      else pure none : StateM σ _) (P.uniform stake s).2 = _
    rw [if_pos hle]
  | pair left right stake ihl ihr =>
    obtain ⟨-, hl, hr⟩ := hm
    change ∃ choosen ∈ left.leaves ++ right.leaves, ∃ s',
      (if (P.uniform stake s).1 ≤ left.stake then left.select P.uniform
        else right.select P.uniform : StateM σ _) (P.uniform stake s).2 = (some choosen, s')
    split
    · obtain ⟨choosen, hmem, h⟩ := ihl hl (P.uniform stake s).2
      exact ⟨choosen, mem_append_left _ hmem, h⟩
    · obtain ⟨choosen, hmem, h⟩ := ihr hr (P.uniform stake s).2
      exact ⟨choosen, mem_append_right _ hmem, h⟩

end FtsNode

section
variable [DecidableEq α]

theorem eraseRemove_spec {tmp : List α} {value : α} (hnodup : tmp.Nodup) (hmem : value ∈ tmp) :
    ∃ rest, eraseRemove tmp value = some rest ∧ rest.length + 1 = tmp.length ∧ rest.Nodup ∧
      ∀ x ∈ rest, x ∈ tmp ∧ x ≠ value := by
  have hkept : tmp.filter (· != value) = tmp.erase value := (hnodup.erase_eq_filter value).symm
  have hlen : (tmp.erase value).length + 1 = tmp.length := length_erase_add_one hmem
  have hne : (tmp.erase value).length ≠ tmp.length := by omega
  refine ⟨tmp.erase value, ?_, hlen, hnodup.erase value, fun x hx => ?_⟩
  · simp only [eraseRemove, hkept, if_neg hne, hlen, drop_length, append_nil]
  · exact (hnodup.mem_erase_iff.mp hx).symm

theorem selectLoop_spec {σ : Type} (P : Prng σ) (n : Nat) {tmp : List (Candidate α)}
    (hnodup : tmp.Nodup) (hn : n ≤ tmp.length) (result : List (Candidate α)) (s : σ) :
    ∃ picked, (selectLoop P.uniform n tmp result s).1 = some (result ++ picked) ∧
      picked.length = n ∧ (∀ x ∈ picked, x ∈ tmp) ∧ picked.Nodup := by
  induction n generalizing tmp result s with
  | zero => exact ⟨[], by rw [append_nil]; rfl, rfl, forall_mem_nil _, nodup_nil⟩
  | succ n ih =>
    obtain ⟨root, hroot, hleaves, hm⟩ :=
      FtsNode.construct_spec (ne_nil_of_length_pos (Nat.zero_lt_of_lt hn))
    obtain ⟨choosen, hmem, s', hsel⟩ := FtsNode.select_mem P hm s
    rw [hleaves] at hmem
    obtain ⟨rest, hrest, hlen, hnodup', hother⟩ := eraseRemove_spec hnodup hmem
    obtain ⟨picked, hrun, hcount, hsub, hdist⟩ :=
      ih hnodup' (by omega) (result ++ [choosen]) s'
    refine ⟨choosen :: picked, ?_, by rw [length_cons, hcount], ?_, ?_⟩
    · rw [append_cons, ← hrun, selectLoop, hroot]
      simp only [bind, StateT.bind, hsel, hrest]
    · rintro x (_ | ⟨_, hx⟩)
      · exact hmem
      · exact (hother x (hsub x hx)).1
    · -- what is picked later is not the value just erased
      refine nodup_cons.mpr ⟨fun h => ?_, hdist⟩
      exact (hother choosen (hsub choosen h)).2 rfl

/-- Whatever is drawn, `select` returns distinct entries, as many as asked for or all of them. -/
theorem select_distinct {σ : Type} (P : Prng σ) (data : List (Candidate α)) (hnodup : data.Nodup)
    (seed : UInt64) (count : Nat) :
    ∃ result, (select P.uniform data count (P.seed seed)).1 = some result ∧
      result.length = min count data.length ∧ (∀ x ∈ result, x ∈ data) ∧ result.Nodup := by
  unfold select
  split
  next hempty =>
    obtain rfl := isEmpty_iff.mp hempty
    exact ⟨[], rfl, by simp, forall_mem_nil _, nodup_nil⟩
  next =>
  split
  next hle => exact ⟨data, rfl, by omega, fun _ h => h, hnodup⟩
  next hlt =>
    obtain ⟨picked, hrun, hcount, hsub, hdist⟩ :=
      selectLoop_spec P count hnodup (by omega) [] (P.seed seed)
    exact ⟨picked, hrun, by omega, hsub, hdist⟩

def cutOff (n : UInt64) : StateM UInt64 UInt64 := fun s => (if s ≤ n then s else n, s)

theorem cutOff_le (n s : UInt64) : (cutOff n s).1 ≤ n := by
  change (if s ≤ n then s else n) ≤ n
  split
  next h => exact h
  next => exact UInt64.le_refl n

def cutOffPrng : Prng UInt64 := ⟨id, cutOff, cutOff_le⟩

theorem select_distinct_sample :
    ∃ result, (select cutOffPrng.uniform [(5, 0), (3, 1), (5, 2)] 2 (cutOffPrng.seed 4)).1 =
        some result ∧
      result.length = 2 ∧ (∀ x ∈ result, x ∈ [(5, 0), (3, 1), (5, 2)]) ∧ result.Nodup :=
  select_distinct cutOffPrng [(5, 0), (3, 1), (5, 2)] (by decide) 4 2

end
end TopChain.Common
