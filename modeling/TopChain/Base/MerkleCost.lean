import TopChain.Base.MerkleTree

/-!
# The cost of checking a Merkle path

`validate_path` once more, with a counter of the hashes it computes.
-/
namespace TopChain.Base

open List MerkleHash

abbrev HashCount := StateM ℕ

/-- What a node says of its place in the tree. -/
def PathNode.place {η : Type} (node : PathNode η) : UInt32 × UInt32 := (node.level, node.pos)

namespace MerkleHash
variable {η : Type} (h : MerkleHash η)

def countedGetHash (value : String) : HashCount (Option η) := fun n => (h.getHash value, n + 1)

def text (v : Option η) : String := (v.map h.data).getD ""

def countedHash (value : String) : HashCount String := do
  return h.text (← h.countedGetHash value)

def countedRounds : ℕ → η → HashCount (Option η)
  | 0, v => pure (some v)
  | n + 1, v => do
    match ← h.countedGetHash (h.data v) with
    | none => pure none
    | some v => countedRounds n v

def countedMultiTimes (value : String) (times : UInt32) : HashCount String := do
  match ← h.countedGetHash value with
  | none => pure ""
  | some v => return h.text (← h.countedRounds (Digest.rounds times) v)

def countedCarry (hs : String) (level : UInt32) (node : PathNode η) : HashCount String :=
  if node.level < level then h.countedMultiTimes hs (level - node.level) else pure hs

def countedJoin (hs : String) (node : PathNode η) : HashCount String :=
  if node.pos = 1 then h.countedHash (h.data node.signature ++ hs)
  else if node.pos = 2 then h.countedHash (hs ++ h.data node.signature)
  else pure ""

def countedStep (st : String × UInt32) (node : PathNode η) : HashCount (Option (String × UInt32)) :=
  if st.2 = noLevel ∧ node.pos = 0 then
    pure (if st.1 ≠ h.data node.signature then none else some (st.1, node.level))
  else if node.level > startLevel st.2 node then pure none
  else do
    let hs ← h.countedCarry st.1 (startLevel st.2 node) node
    if node.level < startLevel st.2 node ∧ hs = "" then pure none
    else
      let hs ← h.countedJoin hs node
      if hs = "" then pure none else pure (some (hs, node.level - 1))

def countedWalk : String × UInt32 → List (PathNode η) → HashCount (Option (String × UInt32))
  | st, [] => pure (some st)
  | st, node :: rest => do
    match ← h.countedStep st node with
    | none => pure none
    | some st => countedWalk st rest

def countedValidatePath (value root : String) (path : List (PathNode η)) : HashCount Bool :=
  if value = "" || root = "" then pure false
  else do
    let hs ← h.countedHash value
    if hs = "" then pure false
    else
      match ← h.countedWalk (hs, noLevel) path with
      | none => pure false
      | some st => pure (st.1 = root)

end MerkleHash

/-! ## One function after the other

Each counted function answers as the plain one does. What it costs depends on the levels and
positions alone, but for the comparison of a node of position 0. -/

namespace Digest
variable {η : Type} (d : Digest η)

theorem bind_run {α β : Type} (x : HashCount α) (f : α → HashCount β) (n : ℕ) :
    (x >>= f) n = f (x n).1 (x n).2 := rfl

theorem countedHash_run (value : String) (n : ℕ) :
    d.merkle.countedHash value n = (d.merkle.hash value, n + 1) := rfl

theorem countedRounds_run (k : ℕ) (v : η) (n : ℕ) : d.merkle.countedRounds k v n =
    ((List.replicate k ()).foldlM (fun v _ => d.merkle.getHash (d.merkle.data v)) v, n + k) := by
  induction k generalizing v n with
  | zero => rfl
  | succ k ih =>
    rw [countedRounds, bind_run]
    exact (ih _ (n + 1)).trans (by rw [Nat.add_right_comm]; rfl)

theorem countedMultiTimes_run (value : String) (times : UInt32) (n : ℕ) :
    d.merkle.countedMultiTimes value times n =
      (d.merkle.hashMultiTimes value times, n + (rounds times + 1)) := by
  have hget : d.merkle.getHash value = some (d.digest value) := rfl
  rw [countedMultiTimes, bind_run]
  change (d.merkle.countedRounds (rounds times) (d.digest value) >>=
    fun v => pure (d.merkle.text v)) (n + 1) = _
  rw [bind_run, countedRounds_run, iterate_hash_data, hashMultiTimes]
  simp only [hget, iterate_hash_data]
  exact Prod.ext rfl (by change n + 1 + rounds times = _; omega)

theorem countedCarry_run (hs : String) (level : UInt32) (node : PathNode η) (n : ℕ) :
    d.merkle.countedCarry hs level node n =
      (d.merkle.carry hs level node, n + gap level node) := by
  unfold countedCarry carry gap
  split
  · exact d.countedMultiTimes_run hs _ n
  · rfl

/-- What `join` costs: nothing for a position it does not know. -/
def joinCost (node : PathNode η) : ℕ := if node.pos = 1 ∨ node.pos = 2 then 1 else 0

theorem countedJoin_run (hs : String) (node : PathNode η) (n : ℕ) :
    d.merkle.countedJoin hs node n = (d.merkle.join hs node, n + joinCost node) := by
  unfold countedJoin MerkleHash.join joinCost
  by_cases h1 : node.pos = 1
  · rw [if_pos h1, if_pos h1, if_pos (.inl h1)]
    rfl
  by_cases h2 : node.pos = 2
  · rw [if_neg h1, if_neg h1, if_pos h2, if_pos h2, if_pos (.inr h2)]
    rfl
  · rw [if_neg h1, if_neg h1, if_neg h2, if_neg h2, if_neg fun h => h.elim h1 h2]
    rfl

def stepCost (level : UInt32) (node : PathNode η) : ℕ :=
  if level = noLevel ∧ node.pos = 0 then 0
  else if node.level > startLevel level node then 0
  else gap (startLevel level node) node + joinCost node

theorem countedStep_run (st : String × UInt32) (node : PathNode η) (n : ℕ) :
    d.merkle.countedStep st node n =
      (d.merkle.pathStep st node, n + stepCost st.2 node) := by
  unfold countedStep pathStep stepCost
  dsimp only
  split
  · rfl
  split
  · rfl
  have hcarry : ¬ (node.level < startLevel st.2 node ∧
      d.merkle.carry st.1 (startLevel st.2 node) node = "") := by
    rintro ⟨hlt, hempty⟩
    rw [carry_eq, gap, if_pos hlt, Function.iterate_succ_apply'] at hempty
    exact d.hash_ne_empty _ hempty
  rw [bind_run, countedCarry_run, if_neg hcarry, if_neg hcarry, bind_run, countedJoin_run,
    Nat.add_assoc]
  split <;> rfl

/-- The levels that a path leads down: from the level its first node names to that of the last
one, and again from the next node after each node of level 0. A node that is refused ends it. -/
def levelsDown (level : UInt32) : List (PathNode η) → ℕ
  | [] => 0
  | node :: rest =>
    if level = noLevel ∧ node.pos = 0 then levelsDown node.level rest
    else if node.level > startLevel level node then 0
    else
      gap (startLevel level node) node +
        if node.pos = 1 ∨ node.pos = 2 then 1 + levelsDown (node.level - 1) rest else 0

theorem countedWalk_run (path : List (PathNode η)) (st : String × UInt32) (n : ℕ) :
    (d.merkle.countedWalk st path n).1 = path.foldlM d.merkle.pathStep st ∧
      (d.merkle.countedWalk st path n).2 ≤ n + levelsDown st.2 path := by
  induction path generalizing st n with
  | nil => exact ⟨rfl, le_rfl⟩
  | cons node rest ih =>
    rw [countedWalk, bind_run, countedStep_run, foldlM_cons, levelsDown, stepCost, joinCost,
      pathStep_eq]
    split_ifs
    · exact ⟨rfl, Nat.le_add_right _ _⟩
    · exact ih _ _
    · exact ⟨rfl, le_rfl⟩
    · refine (ih _ _).imp_right fun h => h.trans ?_
      dsimp only
      omega
    · exact ⟨rfl, le_rfl⟩

theorem levelsDown_congr {path path' : List (PathNode η)} (level : UInt32)
    (hplaces : path'.map PathNode.place = path.map PathNode.place) :
    levelsDown level path' = levelsDown level path := by
  induction path generalizing path' level with
  | nil => rw [map_eq_nil_iff.mp hplaces]
  | cons node rest ih =>
    obtain ⟨⟨level', pos', signature'⟩, rest', rfl, hnode, hrest⟩ := map_eq_cons_iff.mp hplaces
    obtain ⟨rfl, rfl⟩ : level' = node.level ∧ pos' = node.pos := Prod.mk.inj hnode
    rw [levelsDown, levelsDown, ih _ hrest, ih _ hrest]
    rfl

/-- With the signatures that pass every comparison, a path costs all that its levels and
positions ask for. -/
theorem exists_countedWalk (path : List (PathNode η)) (a : η) (level : UInt32) (n : ℕ) :
    ∃ path' : List (PathNode η), path'.map PathNode.place = path.map PathNode.place ∧
      (d.merkle.countedWalk (d.data a, level) path' n).2 = n + levelsDown level path := by
  induction path generalizing a level n with
  | nil => exact ⟨[], rfl, rfl⟩
  | cons node rest ih =>
    by_cases hodd : level = noLevel ∧ node.pos = 0
    · obtain ⟨path', hplaces, hcost⟩ := ih a node.level n
      refine ⟨⟨node.level, node.pos, a⟩ :: path', by rw [map_cons, hplaces]; rfl, ?_⟩
      rw [countedWalk, bind_run, countedStep_run, pathStep_eq, if_pos hodd,
        if_neg (not_not.mpr rfl), stepCost, if_pos hodd, levelsDown, if_pos hodd]
      exact hcost
    by_cases hgo : ¬ node.level > startLevel level node ∧ (node.pos = 1 ∨ node.pos = 2)
    · obtain ⟨path', hplaces, hcost⟩ := ih (d.digest (d.joinInput
        (d.merkle.hash^[gap (startLevel level node) node] (d.data a)) node)) (node.level - 1)
        (n + (gap (startLevel level node) node + 1))
      refine ⟨node :: path', by rw [map_cons, hplaces]; rfl, ?_⟩
      rw [countedWalk, bind_run, countedStep_run, pathStep_eq, if_neg hodd, if_neg hgo.1,
        if_pos hgo.2, stepCost, if_neg hodd, if_neg hgo.1, joinCost, if_pos hgo.2, levelsDown,
        if_neg hodd, if_neg hgo.1, if_pos hgo.2]
      exact hcost.trans (by omega)
    · refine ⟨node :: rest, rfl, ?_⟩
      rw [countedWalk, bind_run, countedStep_run, pathStep_eq, if_neg hodd, stepCost,
        if_neg hodd, levelsDown, if_neg hodd, joinCost]
      split_ifs with hup hpos
      · rfl
      · exact absurd ⟨hup, hpos⟩ hgo
      · rfl

theorem countedValidatePath_fst (value root : String) (path : List (PathNode η)) (n : ℕ) :
    (d.merkle.countedValidatePath value root path n).1 =
      d.merkle.validatePath value root path := by
  unfold countedValidatePath validatePath
  split
  · rfl
  rw [bind_run, countedHash_run]
  dsimp only
  split
  · rfl
  rw [bind_run, (d.countedWalk_run path _ _).1]
  cases path.foldlM d.merkle.pathStep (d.merkle.hash value, noLevel) <;> rfl

theorem countedValidatePath_snd {value root : String} (hempty : ¬ (value = "" ∨ root = ""))
    (path : List (PathNode η)) (n : ℕ) :
    (d.merkle.countedValidatePath value root path n).2 =
      (d.merkle.countedWalk (d.merkle.hash value, noLevel) path (n + 1)).2 := by
  rw [countedValidatePath, if_neg (by simpa using hempty), bind_run, countedHash_run]
  dsimp only
  rw [if_neg (d.hash_ne_empty value), bind_run]
  cases (d.merkle.countedWalk (d.merkle.hash value, noLevel) path (n + 1)).1 <;> rfl

theorem countedValidatePath_le (value root : String) (path : List (PathNode η)) :
    (d.merkle.countedValidatePath value root path 0).2 ≤ 1 + levelsDown noLevel path := by
  by_cases hempty : value = "" ∨ root = ""
  · rw [countedValidatePath, if_pos (by simpa using hempty)]
    exact Nat.zero_le _
  · rw [d.countedValidatePath_snd hempty]
    exact (d.countedWalk_run path _ _).2

/-- The counted check is `validate_path`, and it costs no more than one hash a node and 65 more,
whatever the signatures, the value and the root, exactly if the levels and positions of the path
ask for no more. -/
theorem validatePath_hashes_le (d : Digest η) (path : List (PathNode η)) :
    (∀ value root, (d.merkle.countedValidatePath value root path 0).1 =
        d.merkle.validatePath value root path) ∧
      ((∀ value root, ∀ path' : List (PathNode η),
          path'.map PathNode.place = path.map PathNode.place →
          (d.merkle.countedValidatePath value root path' 0).2 ≤ path.length + 65) ↔
        levelsDown noLevel path ≤ path.length + 64) := by
  refine ⟨fun value root => d.countedValidatePath_fst value root path 0, fun hle => ?_,
    fun hcost value root path' hplaces => ?_⟩
  · obtain ⟨path', hplaces, hcost⟩ := d.exists_countedWalk path (d.digest "v") noLevel 1
    have h := hle "v" "r" path' hplaces
    rw [d.countedValidatePath_snd (by decide)] at h
    have hall := hcost.symm.trans_le h
    omega
  · have h := d.countedValidatePath_le value root path'
    rw [levelsDown_congr noLevel hplaces] at h
    omega

namespace Sample

def oneHash : Digest Unit where
  digest _ := ()
  data _ := "h"
  size := 1
  size_pos := Nat.one_pos
  data_length _ := rfl

end Sample

open Sample in
theorem two_nodes_cost :
    oneHash.merkle.countedValidatePath "v" "h" [⟨2147483647, 1, ()⟩, ⟨0, 1, ()⟩] 0 =
      (true, 2147483649) := by
  have hfirst : oneHash.merkle.countedStep ("h", noLevel) ⟨2147483647, 1, ()⟩ 1 =
      (some ("h", 2147483646), 2) := rfl
  have hfixed : oneHash.merkle.hash^[2147483646] "h" = "h" := Function.iterate_fixed rfl _
  have hgap : gap 2147483646 (⟨0, 1, ()⟩ : PathNode Unit) = 2147483646 :=
    gap_eq (by decide) (by decide)
  have hstart : startLevel 2147483646 (⟨0, 1, ()⟩ : PathNode Unit) = 2147483646 := rfl
  have hsecond : oneHash.merkle.countedStep ("h", 2147483646) ⟨0, 1, ()⟩ 2 =
      (some ("h", noLevel), 2147483649) := by
    have hodd : ¬ ((2147483646 : UInt32) = noLevel ∧ (1 : UInt32) = 0) := by decide
    have hdown : ¬ (0 : UInt32) > 2147483646 := by decide
    rw [countedStep_run, pathStep_eq, stepCost, joinCost]
    simp only [hstart, if_neg hodd, if_neg hdown, hgap, hfixed]
    rfl
  have hwalk : oneHash.merkle.countedWalk ("h", noLevel) [⟨2147483647, 1, ()⟩, ⟨0, 1, ()⟩] 1 =
      (some ("h", noLevel), 2147483649) := by
    rw [countedWalk, bind_run, hfirst]
    dsimp only
    rw [countedWalk, bind_run, hsecond]
    rfl
  have hhash : oneHash.merkle.countedHash "v" 0 = ("h", 1) := rfl
  rw [countedValidatePath, if_neg (by decide), bind_run, hhash]
  dsimp only
  rw [if_neg (by decide), bind_run, hwalk]
  rfl

end Digest
end TopChain.Base
