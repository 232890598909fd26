import Mathlib.Algebra.Group.Nat.Defs
import Mathlib.Data.Nat.Log
import TopChain.Base.Merkle

/-!
# Merkle trees (`xutility/xmerkle.hpp`)

`calc_root` and `calc_path` over a list of leaf values.
-/
namespace TopChain.Base

open Function Option List MerkleHash

namespace MerkleHash
variable {η : Type} (h : MerkleHash η)

def hashValue (value : String) : Option η := (h.getHash value).filter (h.data · ≠ "")

def hashLeafs (values : List String) : Option (List η) := values.mapM h.hashValue

def pairUp : List η → List String
  | a :: b :: rest => (h.data a ++ h.data b) :: pairUp rest
  | [a] => [h.data a]
  | [] => []

def hashList (nodes : List η) : Option (List η) := (h.pairUp nodes).mapM h.hashValue

def rootLoop : ℕ → List η → Option η
  | 0, nodes => nodes.head?
  | fuel + 1, nodes =>
    if nodes.length ≤ 1 then nodes.head? else (h.hashList nodes).bind (rootLoop fuel)

def calcRoot (values : List String) : String :=
  match (h.hashLeafs values).bind (h.rootLoop values.length) with
  | none => ""
  | some v => h.data v

def pathNode (nodes : List η) (i : ℕ) (level pos : UInt32) : List (PathNode η) :=
  nodes[i]?.toList.map fun signature => ⟨level, pos, signature⟩

def addPathNode (nodes : List η) (index : ℕ) (level : UInt32) (path : List (PathNode η)) :
    List (PathNode η) :=
  if nodes.length = 0 then path
  else if nodes.length = 1 then path ++ pathNode nodes index level 0
  else if index % 2 = 1 then path ++ pathNode nodes (index - 1) level 1
  else if index = nodes.length - 1 then
    -- only the first odd node is added
    if path.isEmpty then path ++ pathNode nodes index level 0 else path
  else path ++ pathNode nodes (index + 1) level 2

def pathLoop : ℕ → List η → ℕ → UInt32 → List (PathNode η) → Bool × List (PathNode η)
  | 0, _, _, _, path => (true, path)
  | fuel + 1, nodes, index, level, path =>
    if nodes.length ≤ 1 then (true, path)
    else
      match h.hashList nodes with
      | none => (false, [])
      | some next => pathLoop fuel next (index / 2) (level - 1) (addPathNode nodes index level path)

def calcPath (values : List String) (index : ℤ) (path : List (PathNode η)) :
    Bool × List (PathNode η) :=
  if values.isEmpty || !(0 ≤ index && index < values.length) then (false, path)
  else
    match h.hashLeafs values with
    | none => (false, path)
    | some nodes =>
      h.pathLoop values.length nodes index.toNat (.ofNat (Nat.log 2 values.length + 1)) path

theorem pairUp_length (nodes : List η) : (h.pairUp nodes).length = (nodes.length + 1) / 2 := by
  induction nodes using pairUp.induct with
  | case1 a b rest ih =>
    rw [pairUp, length_cons, ih]
    simp only [length_cons]
    omega
  | case2 a => simp [pairUp]
  | case3 => simp [pairUp]

theorem pairUp_pair (nodes : List η) (j : ℕ) {a b : η} (ha : nodes[2 * j]? = some a)
    (hb : nodes[2 * j + 1]? = some b) :
    (h.pairUp nodes)[j]? = some (h.data a ++ h.data b) := by
  induction nodes using pairUp.induct generalizing j with
  | case1 x y rest ih =>
    cases j with
    | zero =>
      obtain rfl := Option.some.inj ha
      obtain rfl := Option.some.inj hb
      rfl
    | succ j => exact ih j ha hb
  | case2 x => simp at hb
  | case3 => simp at ha

theorem pairUp_last (nodes : List η) (j : ℕ) {a : η} (ha : nodes[2 * j]? = some a)
    (hlast : 2 * j + 1 = nodes.length) : (h.pairUp nodes)[j]? = some (h.data a) := by
  induction nodes using pairUp.induct generalizing j with
  | case1 x y rest ih =>
    cases j with
    | zero => simp at hlast
    | succ j =>
      simp only [length_cons] at hlast
      exact ih j ha (by omega)
  | case2 x =>
    obtain rfl : j = 0 := by
      simp only [length_cons, length_nil] at hlast
      omega
    obtain rfl := Option.some.inj ha
    rfl
  | case3 => simp at ha

end MerkleHash

/-- `xsha2_256_t` with `uint256_t`: `get_hash` never fails, and all hash values have one
number of bytes. -/
structure Digest (η : Type) where
  digest : String → η
  data : η → String
  size : ℕ
  size_pos : 0 < size
  data_length : ∀ v, (data v).length = size

namespace Digest
variable {η : Type} (d : Digest η)

def merkle : MerkleHash η := ⟨fun s => some (d.digest s), d.data⟩

theorem data_ne_empty (v : η) : d.data v ≠ "" := by
  intro hv
  have hlen := d.data_length v
  rw [hv] at hlen
  exact d.size_pos.ne hlen

@[simp] theorem merkle_data (v : η) : d.merkle.data v = d.data v := rfl

@[simp] theorem merkle_hash (s : String) : d.merkle.hash s = d.data (d.digest s) := rfl

@[simp] theorem merkle_hashValue (s : String) : d.merkle.hashValue s = some (d.digest s) := by
  have hne := d.data_ne_empty (d.digest s)
  simp [hashValue, merkle, hne]

theorem mapM_hashValue (l : List String) : l.mapM d.merkle.hashValue = some (l.map d.digest) := by
  induction l with
  | nil => rfl
  | cons s l ih => simp [mapM_cons, ih]

@[simp] theorem merkle_hashLeafs (values : List String) :
    d.merkle.hashLeafs values = some (values.map d.digest) := d.mapM_hashValue values

def next (nodes : List η) : List η := (d.merkle.pairUp nodes).map d.digest

@[simp] theorem merkle_hashList (nodes : List η) :
    d.merkle.hashList nodes = some (d.next nodes) := d.mapM_hashValue _

theorem next_length (nodes : List η) : (d.next nodes).length = (nodes.length + 1) / 2 := by
  rw [next, length_map, pairUp_length]

theorem iterate_hash_data (v : η) (k : ℕ) :
    (List.replicate k ()).foldlM (fun v _ => d.merkle.getHash (d.merkle.data v)) v =
      some ((fun v => d.digest (d.data v))^[k] v) := by
  induction k generalizing v with
  | zero => rfl
  | succ k ih =>
    exact ih _

theorem data_iterate (v : η) (k : ℕ) :
    d.data ((fun v => d.digest (d.data v))^[k] v) = d.merkle.hash^[k] (d.data v) := by
  induction k generalizing v with
  | zero => rfl
  | succ k ih =>
    rw [iterate_succ_apply, ih, iterate_succ_apply]
    rfl

def rounds (times : UInt32) : ℕ := if times < 2147483648 then times.toNat - 1 else 0

theorem hashMultiTimes_eq (hs : String) (times : UInt32) :
    d.merkle.hashMultiTimes hs times = d.merkle.hash^[rounds times + 1] hs := by
  have hget : d.merkle.getHash hs = some (d.digest hs) := rfl
  unfold hashMultiTimes
  simp only [hget, iterate_hash_data]
  rw [merkle_data, data_iterate, iterate_succ_apply]
  rfl

theorem rounds_succ {times : UInt32} (hpos : 0 < times.toNat) (hint : times.toNat < 2 ^ 31) :
    rounds times + 1 = times.toNat := by
  have hlt : times < 2147483648 := UInt32.lt_iff_toNat_lt.mpr hint
  rw [rounds, if_pos hlt]
  omega

/-- A round of `calc_path` adds the neighbour of place `i`, or nothing but an odd first node. -/
theorem round_cases (nodes : List η) (i : ℕ) (level : UInt32) (path : List (PathNode η))
    {a : η} (hlen : 1 < nodes.length) (ha : nodes[i]? = some a) :
    (∃ node : PathNode η, node.level = level ∧ node.pos ≠ 0 ∧
      MerkleHash.addPathNode nodes i level path = path ++ [node] ∧
      ∃ p, (d.next nodes)[i / 2]? = some p ∧ d.merkle.join (d.data a) node = d.data p) ∨
    (MerkleHash.addPathNode nodes i level path =
        (if path.isEmpty then path ++ [⟨level, 0, a⟩] else path) ∧ 2 < nodes.length ∧
      (d.next nodes)[i / 2]? = some (d.digest (d.data a))) := by
  have hi : i < nodes.length := (List.getElem?_eq_some_iff.mp ha).1
  unfold addPathNode
  rw [if_neg (by omega), if_neg (by omega)]
  by_cases hodd : i % 2 = 1
  · -- the left neighbour
    obtain ⟨b, hb⟩ : ∃ b, nodes[i - 1]? = some b := ⟨_, List.getElem?_eq_getElem (by omega)⟩
    rw [if_pos hodd, MerkleHash.pathNode, hb]
    refine .inl ⟨⟨level, 1, b⟩, rfl, by simp, rfl, d.digest (d.data b ++ d.data a), ?_, rfl⟩
    have hpair := d.merkle.pairUp_pair nodes (i / 2) (a := b) (b := a)
      (by rwa [show 2 * (i / 2) = i - 1 by omega]) (by rwa [show 2 * (i / 2) + 1 = i by omega])
    rw [next, List.getElem?_map, hpair]
    rfl
  · rw [if_neg hodd]
    by_cases hlast : i = nodes.length - 1
    · rw [if_pos hlast]
      refine .inr ⟨?_, by omega, ?_⟩
      · rw [MerkleHash.pathNode, ha]
        rfl
      · have hodd := d.merkle.pairUp_last nodes (i / 2) (a := a)
          (by rwa [show 2 * (i / 2) = i by omega]) (by omega)
        rw [next, List.getElem?_map, hodd]
        rfl
    · -- the right neighbour
      obtain ⟨b, hb⟩ : ∃ b, nodes[i + 1]? = some b := ⟨_, List.getElem?_eq_getElem (by omega)⟩
      rw [if_neg hlast, MerkleHash.pathNode, hb]
      refine .inl ⟨⟨level, 2, b⟩, rfl, by simp, rfl, d.digest (d.data a ++ d.data b), ?_, rfl⟩
      have hpair := d.merkle.pairUp_pair nodes (i / 2) (a := a) (b := b)
        (by rwa [show 2 * (i / 2) = i by omega]) (by rwa [show 2 * (i / 2) + 1 = i + 1 by omega])
      rw [next, List.getElem?_map, hpair]
      rfl

/-- How often `validate_path` hashes the running value on its way down to the level of a node. -/
def gap (level : UInt32) (node : PathNode η) : ℕ :=
  if node.level < level then rounds (level - node.level) + 1 else 0

theorem carry_eq (hs : String) (level : UInt32) (node : PathNode η) :
    d.merkle.carry hs level node = d.merkle.hash^[gap level node] hs := by
  unfold carry gap
  split
  · exact d.hashMultiTimes_eq hs _
  · rfl

theorem gap_lt (level : UInt32) (node : PathNode η) : gap level node < 2 ^ 31 := by
  unfold gap rounds
  split_ifs with hlt hint
  · have hpos := UInt32.lt_iff_toNat_lt.mp hint
    change (level - node.level).toNat < 2 ^ 31 at hpos
    omega
  · decide
  · decide

theorem gap_eq {level : UInt32} {node : PathNode η} {k : ℕ}
    (hlevel : level.toNat = node.level.toNat + k) (hsmall : level.toNat < 2 ^ 31) :
    gap level node = k := by
  unfold gap
  split_ifs with hlt
  · rw [UInt32.lt_iff_toNat_lt] at hlt
    have hsub : (level - node.level).toNat = k := by
      rw [UInt32.toNat_sub_of_le _ _ (UInt32.le_iff_toNat_le.mpr hlt.le)]
      omega
    rw [rounds_succ (by omega) (by omega), hsub]
  · rw [UInt32.lt_iff_toNat_lt] at hlt
    omega

/-- The two strings that `join` hashes, one after the other. -/
def joinInput (hs : String) (node : PathNode η) : String :=
  if node.pos = 1 then d.data node.signature ++ hs else hs ++ d.data node.signature

theorem join_eq (hs : String) (node : PathNode η) : d.merkle.join hs node =
    if node.pos = 1 ∨ node.pos = 2 then d.merkle.hash (d.joinInput hs node) else "" := by
  unfold MerkleHash.join joinInput hashPair
  by_cases h1 : node.pos = 1
  · rw [if_pos h1, if_pos (.inl h1), if_pos h1]
    rfl
  by_cases h2 : node.pos = 2
  · rw [if_neg h1, if_pos h2, if_pos (.inr h2), if_neg h1]
    rfl
  · rw [if_neg h1, if_neg h2, if_neg fun h => h.elim h1 h2]

theorem hash_ne_empty (s : String) : d.merkle.hash s ≠ "" := d.data_ne_empty _

/-- One node of a path, for a hash that never fails. -/
theorem pathStep_eq (st : String × UInt32) (node : PathNode η) : d.merkle.pathStep st node =
    if st.2 = noLevel ∧ node.pos = 0 then
      if st.1 ≠ d.data node.signature then none else some (st.1, node.level)
    else if node.level > startLevel st.2 node then none
    else if node.pos = 1 ∨ node.pos = 2 then
      some (d.merkle.hash (d.joinInput
        (d.merkle.hash^[gap (startLevel st.2 node) node] st.1) node), node.level - 1)
    else none := by
  unfold pathStep
  dsimp only
  rw [carry_eq, join_eq, merkle_data]
  have hcarry : ¬ (node.level < startLevel st.2 node ∧
      d.merkle.hash^[gap (startLevel st.2 node) node] st.1 = "") := by
    rintro ⟨hlt, hempty⟩
    rw [gap, if_pos hlt, iterate_succ_apply'] at hempty
    exact d.hash_ne_empty _ hempty
  rw [if_neg hcarry]
  by_cases hpos : node.pos = 1 ∨ node.pos = 2
  · rw [if_pos hpos, if_neg (d.hash_ne_empty _), if_pos hpos]
  · rw [if_neg hpos, if_pos rfl, if_neg hpos]

theorem pathStep_of_join (hs : String) {lv : UInt32} {node : PathNode η} {a p : η} (k : ℕ)
    (hlv : lv.toNat = node.level.toNat + k) (hsmall : lv.toNat < 2 ^ 31)
    (hhs : d.merkle.hash^[k] hs = d.data a) (hjoin : d.merkle.join (d.data a) node = d.data p) :
    d.merkle.pathStep (hs, lv) node = some (d.data p, node.level - 1) := by
  have hne : lv ≠ MerkleHash.noLevel := by
    rintro rfl
    exact absurd hsmall (by decide)
  have hle : ¬ node.level > lv := by
    rw [gt_iff_lt, UInt32.lt_iff_toNat_lt]
    omega
  rw [join_eq] at hjoin
  split_ifs at hjoin with hpos
  · rw [pathStep_eq, if_neg fun h => hne h.1]
    simp only [startLevel, if_neg hne, if_neg hle, if_pos hpos, gap_eq hlv hsmall, hhs, hjoin]
  · exact absurd hjoin.symm (d.data_ne_empty p)

theorem pathStep_first {hs : String} {node : PathNode η} (hpos : node.pos ≠ 0)
    (hne : node.level ≠ MerkleHash.noLevel) :
    d.merkle.pathStep (hs, MerkleHash.noLevel) node = d.merkle.pathStep (hs, node.level) node := by
  simp [MerkleHash.pathStep, startLevel, hpos, hne]

theorem ofNat_pred_level {ℓ : ℕ} (hpos : 0 < ℓ) (hℓ : ℓ < 2 ^ 31) :
    UInt32.ofNat ℓ - 1 = UInt32.ofNat (ℓ - 1) := by
  apply UInt32.toNat_inj.mp
  rw [UInt32.toNat_sub_of_le _ _ (UInt32.le_iff_toNat_le.mpr ?_)]
  · simp only [UInt32.toNat_ofNat', UInt32.toNat_one]
    omega
  · simp only [UInt32.toNat_ofNat', UInt32.toNat_one]
    omega

/-- The path so far folds to the data of `a`, but for the levels that are still to be hashed. -/
def Carries (ℓ : ℕ) (a : η) (path : List (PathNode η)) (hs : String) (lv : UInt32) : Prop :=
  (path = [] ∧ lv = MerkleHash.noLevel ∧ hs = d.data a) ∨
    path ≠ [] ∧ lv.toNat < 2 ^ 31 ∧ ∃ k, lv.toNat = ℓ + k ∧ d.merkle.hash^[k] hs = d.data a

theorem toNat_ofNat_level {ℓ : ℕ} (hℓ : ℓ < 2 ^ 31) : (UInt32.ofNat ℓ).toNat = ℓ := by
  rw [UInt32.toNat_ofNat']
  omega

theorem pathStep_of_carries {ℓ : ℕ} {a p : η} {path : List (PathNode η)} {hs : String} {lv : UInt32}
    {node : PathNode η} (h : d.Carries ℓ a path hs lv) (hpos : 0 < ℓ) (hℓ : ℓ < 2 ^ 31)
    (hlevel : node.level = .ofNat ℓ) (hside : node.pos ≠ 0)
    (hjoin : d.merkle.join (d.data a) node = d.data p) :
    d.merkle.pathStep (hs, lv) node = some (d.data p, .ofNat (ℓ - 1)) := by
  have hnode : node.level.toNat = ℓ := by
    rw [hlevel]
    exact toNat_ofNat_level hℓ
  rw [← ofNat_pred_level hpos hℓ, ← hlevel]
  rcases h with ⟨-, rfl, rfl⟩ | ⟨-, hsmall, k, hlv, hhs⟩
  · have hnl : node.level ≠ MerkleHash.noLevel := by
      intro hnl
      rw [hnl] at hnode
      change 4294967295 = ℓ at hnode
      omega
    rw [d.pathStep_first hside hnl]
    exact d.pathStep_of_join _ 0 rfl (by omega) rfl hjoin
  · exact d.pathStep_of_join hs k (by omega) hsmall hhs hjoin

theorem pathLoop_accepts (fuel : ℕ) : ∀ (nodes : List η) (i ℓ : ℕ) (a : η) (hs : String)
    (lv : UInt32) (path : List (PathNode η)), nodes.length ≤ fuel → nodes.length ≤ 2 ^ ℓ →
    ℓ < 2 ^ 31 → nodes[i]? = some a → d.Carries ℓ a path hs lv →
    (nodes.length = 1 → hs = d.data a) →
    ∃ q r lv', d.merkle.rootLoop fuel nodes = some r ∧
      d.merkle.pathLoop fuel nodes i (.ofNat ℓ) path = (true, path ++ q) ∧
      q.foldlM d.merkle.pathStep (hs, lv) = some (d.data r, lv') := by
  induction fuel with
  | zero =>
    intro nodes i ℓ a hs lv path hfuel _ _ ha
    rw [length_eq_zero_iff.mp (Nat.le_zero.mp hfuel)] at ha
    simp at ha
  | succ fuel ih =>
    intro nodes i ℓ a hs lv path hfuel hpow hmax ha hcarries htop
    have hi : i < nodes.length := (List.getElem?_eq_some_iff.mp ha).1
    rw [MerkleHash.rootLoop, MerkleHash.pathLoop]
    by_cases hone : nodes.length ≤ 1
    · -- the root
      obtain ⟨x, rfl⟩ : ∃ x, nodes = [x] := length_eq_one_iff.mp (by omega)
      obtain rfl : i = 0 := by simpa using hi
      obtain rfl := Option.some.inj ha
      exact ⟨[], x, lv, by simp, by simp, by simpa using htop rfl⟩
    rw [if_neg hone, if_neg hone, merkle_hashList, bind_some]
    have hℓ : 0 < ℓ := by
      rcases Nat.eq_zero_or_pos ℓ with rfl | h
      · simp at hpow
        omega
      · exact h
    have hnext := d.next_length nodes
    have hpow' : (d.next nodes).length ≤ 2 ^ (ℓ - 1) := by
      have hdouble : 2 ^ ℓ = 2 * 2 ^ (ℓ - 1) := by rw [← pow_succ', Nat.sub_add_cancel hℓ]
      omega
    have hlevel : (UInt32.ofNat ℓ).toNat = ℓ := toNat_ofNat_level hmax
    have hlevel' : (UInt32.ofNat (ℓ - 1)).toNat = ℓ - 1 := toNat_ofNat_level (by omega)
    dsimp only
    rw [ofNat_pred_level hℓ hmax]
    rcases d.round_cases nodes i (.ofNat ℓ) path (by omega) ha with
      ⟨node, hnode, hside, hadd, p, hp, hjoin⟩ | ⟨hadd, hthree, hp⟩
    · obtain ⟨q, r, lv', hr, hq, hfold⟩ := ih (d.next nodes) (i / 2) (ℓ - 1) p (d.data p)
        (.ofNat (ℓ - 1)) (path ++ [node]) (by omega) hpow' (by omega) hp
        (.inr ⟨by simp, by omega, 0, hlevel', rfl⟩) fun _ => rfl
      refine ⟨node :: q, r, lv', hr, ?_, ?_⟩
      · rw [hadd, hq, append_assoc, singleton_append]
      · rw [foldlM_cons, d.pathStep_of_carries hcarries hℓ hmax hnode hside hjoin]
        exact hfold
    rcases hcarries with ⟨rfl, rfl, rfl⟩ | ⟨hpath, hsmall, k, hlv, hhs⟩
    · -- an odd leaf repeats its hash, and its level is hashed on the way to the next node
      have hstep : d.merkle.pathStep (d.data a, MerkleHash.noLevel) ⟨.ofNat ℓ, 0, a⟩ =
          some (d.data a, .ofNat ℓ) := by
        simp [MerkleHash.pathStep]
      obtain ⟨q, r, lv', hr, hq, hfold⟩ := ih (d.next nodes) (i / 2) (ℓ - 1) _ (d.data a) (.ofNat ℓ)
        [⟨.ofNat ℓ, 0, a⟩] (by omega) hpow' (by omega) hp
          (.inr ⟨by simp, by omega, 1, by omega, rfl⟩)
        (by omega)
      refine ⟨⟨.ofNat ℓ, 0, a⟩ :: q, r, lv', hr, ?_, ?_⟩
      · rw [hadd, isEmpty_nil, if_pos rfl, nil_append, hq, singleton_append, nil_append]
      · rw [foldlM_cons, hstep]
        exact hfold
    · -- an odd node: one more level to hash
      rw [if_neg (by simpa using hpath)] at hadd
      have hhs' : d.merkle.hash^[k + 1] hs = d.data (d.digest (d.data a)) := by
        rw [iterate_succ_apply', hhs]
        rfl
      obtain ⟨q, r, lv', hr, hq, hfold⟩ := ih (d.next nodes) (i / 2) (ℓ - 1) _ hs lv path (by omega)
        hpow' (by omega) hp (.inr ⟨hpath, hsmall, k + 1, by omega, hhs'⟩) (by omega)
      exact ⟨q, r, lv', hr, by rw [hadd, hq], hfold⟩

theorem pathLoop_valid (fuel : ℕ) {nodes : List η} {i : ℕ} {value : String} (hne : value ≠ "")
    (hfuel : nodes.length ≤ fuel) (hint : nodes.length < 2 ^ 31)
    (ha : nodes[i]? = some (d.digest value)) :
    ∃ r path, d.merkle.rootLoop fuel nodes = some r ∧
      d.merkle.pathLoop fuel nodes i (.ofNat (Nat.log 2 nodes.length + 1)) [] = (true, path) ∧
      d.merkle.validatePath value (d.data r) path = true := by
  have hi : i < nodes.length := (List.getElem?_eq_some_iff.mp ha).1
  have hlog : Nat.log 2 nodes.length < 31 := Nat.log_lt_of_lt_pow (by omega) hint
  have hpow := Nat.lt_pow_succ_log_self (b := 2) (by omega) nodes.length
  obtain ⟨path, r, lv', hr, hpath, hfold⟩ := d.pathLoop_accepts fuel nodes i _ _
    (d.merkle.hash value) MerkleHash.noLevel [] hfuel hpow.le (by omega) ha
    (.inl ⟨rfl, rfl, rfl⟩) fun _ => rfl
  refine ⟨r, path, hr, hpath, ?_⟩
  have hroot := d.data_ne_empty r
  have hhash : d.merkle.hash value ≠ "" := d.data_ne_empty _
  rw [validatePath, if_neg (by simp [hne, hroot]), if_neg hhash, hfold]
  simp

/-- **Completeness.** Every leaf has a path, and the path leads to the root. -/
theorem calcPath_validates (values : List String) (hvalues : ∀ v ∈ values, v ≠ "")
    (hint : values.length < 2 ^ 31) (i : ℕ) (hi : i < values.length) :
    ∃ path, d.merkle.calcPath values i [] = (true, path) ∧
      d.merkle.validatePath values[i] (d.merkle.calcRoot values) path = true := by
  have hne : values[i] ≠ "" := hvalues _ (getElem_mem hi)
  have hleaf : (values.map d.digest)[i]? = some (d.digest values[i]) := by
    rw [List.getElem?_map, List.getElem?_eq_getElem hi]
    rfl
  obtain ⟨r, path, hr, hpath, hvalid⟩ := d.pathLoop_valid values.length hne
    (by rw [length_map]) (by rwa [length_map]) hleaf
  refine ⟨path, ?_, ?_⟩
  · have hnonempty : values ≠ [] := ne_nil_of_length_pos (by omega)
    rw [length_map] at hpath
    rw [MerkleHash.calcPath, if_neg (by simp [hnonempty, hi]), merkle_hashLeafs]
    exact hpath
  · rw [MerkleHash.calcRoot, merkle_hashLeafs, bind_some, hr]
    exact hvalid

namespace Sample

def letters : Digest (Fin 4) where
  digest s := if s = "left" then 0 else if s = "right" then 1 else if s = "LR" then 2 else 3
  data
    | 0 => "L"
    | 1 => "R"
    | 2 => "T"
    | 3 => "?"
  size := 1
  size_pos := by decide
  data_length := by decide

end Sample

open Sample in
theorem calcPath_validates_odd : ∃ path,
    letters.merkle.calcPath ["left", "right", "left"] 2 [] = (true, path) ∧
      letters.merkle.validatePath "left" (letters.merkle.calcRoot ["left", "right", "left"])
        path = true :=
  calcPath_validates letters ["left", "right", "left"] (by decide) (by decide) 2 (by decide)

end Digest
end TopChain.Base
