import TopChain.Base.MerkleTree

/-!
# What a Merkle root vouches for

Leaves, pairs and odd nodes are hashed in the same way, and a path may start at any level.
-/
namespace TopChain.Base

open Option List MerkleHash

namespace Digest
variable {η : Type} (d : Digest η)

/-! ## The strings that are hashed -/

def carryInputs (hs : String) (level : UInt32) (node : PathNode η) : List String :=
  (List.range (gap level node)).map fun j => d.merkle.hash^[j] hs

def stepInputs (st : String × UInt32) (node : PathNode η) : List String :=
  if st.2 = noLevel ∧ node.pos = 0 then []
  else
    let level := startLevel st.2 node
    d.carryInputs st.1 level node ++ [d.joinInput (d.merkle.hash^[gap level node] st.1) node]

def walkInputs (st : String × UInt32) : List (PathNode η) → List String
  | [] => []
  | node :: rest =>
    d.stepInputs st node ++
      match d.merkle.pathStep st node with
      | none => []
      | some st' => walkInputs st' rest

/-- The strings that `validate_path` hashes. -/
def pathInputs (value : String) (path : List (PathNode η)) : List String :=
  value :: d.walkInputs (d.merkle.hash value, noLevel) path

def innerLoop : ℕ → List η → List String
  | 0, _ => []
  | fuel + 1, nodes =>
    if nodes.length ≤ 1 then [] else d.merkle.pairUp nodes ++ innerLoop fuel (d.next nodes)

/-- The strings that `calc_root` hashes above the leaves. -/
def innerInputs (values : List String) : List String :=
  d.innerLoop values.length (values.map d.digest)

def rootInputs (values : List String) : List String := values ++ d.innerInputs values

/-- One half of `s` is `part`, the other one a hash value. -/
def IsHalf (part s : String) : Prop :=
  ∃ sibling, s = d.data sibling ++ part ∨ s = part ++ d.data sibling

/-- What the hash of a value leads to: hashed `k` times more it is one half of a string, whose
hash leads on, and so to the root. All strings that are hashed on the way are in `U`. -/
inductive Leads (U : Set String) (root : String) : String → Prop
  | root : Leads U root root
  | join {hs s : String} (k : ℕ) (hk : k < 2 ^ 31) (hcarry : ∀ j < k, d.merkle.hash^[j] hs ∈ U)
      (hmem : s ∈ U) (hhalf : d.IsHalf (d.merkle.hash^[k] hs) s)
      (hrest : Leads U root (d.merkle.hash s)) : Leads U root hs

variable {d} {U : Set String} {s root : String} {values : List String}

theorem hash_length (s : String) : (d.merkle.hash s).length = d.size := d.data_length _

theorem isHalf_joinInput (hs : String) (node : PathNode η) : d.IsHalf hs (d.joinInput hs node) := by
  unfold joinInput
  split_ifs
  · exact ⟨_, .inl rfl⟩
  · exact ⟨_, .inr rfl⟩

theorem IsHalf.length {part : String} (h : d.IsHalf part s) : s.length = d.size + part.length := by
  obtain ⟨sibling, rfl | rfl⟩ := h
  · rw [String.length_append, d.data_length]
  · rw [String.length_append, d.data_length, Nat.add_comm]

/-! ## Paths and what leads to the root -/

theorem leads_of_walk {path : List (PathNode η)} {st st' : String × UInt32}
    (hU : ∀ s ∈ d.walkInputs st path, s ∈ U)
    (hwalk : path.foldlM d.merkle.pathStep st = some st') : d.Leads U st'.1 st.1 := by
  induction path generalizing st with
  | nil =>
    obtain rfl := Option.some.inj hwalk
    exact .root
  | cons node rest ih =>
    rw [foldlM_cons, bind_eq_bind, bind_eq_some_iff] at hwalk
    obtain ⟨st₁, hstep, hwalk⟩ := hwalk
    rw [walkInputs, hstep] at hU
    have hrest := ih (fun s hs => hU s (mem_append_right _ hs)) hwalk
    have hinputs : ∀ s ∈ d.stepInputs st node, s ∈ U := fun s hs => hU s (mem_append_left _ hs)
    rw [pathStep_eq] at hstep
    unfold stepInputs at hinputs
    split_ifs at hstep hinputs
    · obtain rfl := Option.some.inj hstep
      exact hrest
    · obtain rfl := Option.some.inj hstep
      refine .join _ (gap_lt _ node) (fun j hj => hinputs _ (mem_append_left _ ?_))
        (hinputs _ (mem_append_right _ (mem_singleton_self _))) (isHalf_joinInput _ node) hrest
      exact mem_map.mpr ⟨j, mem_range.mpr hj, rfl⟩

theorem exists_node (h : d.IsHalf root s) :
    ∃ node : PathNode η, node.level = 0 ∧ (node.pos = 1 ∨ node.pos = 2) ∧
      d.joinInput root node = s := by
  obtain ⟨sibling, rfl | rfl⟩ := h
  · exact ⟨⟨0, 1, sibling⟩, rfl, .inl rfl, rfl⟩
  · exact ⟨⟨0, 2, sibling⟩, rfl, .inr rfl, rfl⟩

/-- A node of level 0 sends the counter back to its sentinel: what comes after it starts over,
so that a step towards the root takes two nodes of its own. -/
theorem exists_two_nodes {k : ℕ} (hk : k < 2 ^ 31) (a : η)
    (hhalf : d.IsHalf (d.merkle.hash^[k] (d.data a)) s) :
    ∃ first second : PathNode η, ∀ path : List (PathNode η),
      (first :: second :: path).foldlM d.merkle.pathStep (d.data a, noLevel) =
        path.foldlM d.merkle.pathStep (d.merkle.hash s, noLevel) ∧
      d.walkInputs (d.data a, noLevel) (first :: second :: path) =
        ((List.range k).map fun j => d.merkle.hash^[j] (d.data a)) ++
          s :: d.walkInputs (d.merkle.hash s, noLevel) path := by
  obtain ⟨node, hlevel, hpos, hjoin⟩ := exists_node hhalf
  have hk' : (UInt32.ofNat k).toNat = k := toNat_ofNat_level hk
  have hset : UInt32.ofNat k ≠ noLevel := by
    intro h
    rw [h] at hk'
    exact absurd (hk' ▸ hk) (by decide)
  have hstart : startLevel (UInt32.ofNat k) node = UInt32.ofNat k := if_neg hset
  have hgap : gap (UInt32.ofNat k) node = k :=
    gap_eq (by rw [hk', hlevel]; exact (Nat.zero_add k).symm) (by rwa [hk'])
  have hfirst : d.merkle.pathStep (d.data a, noLevel) ⟨.ofNat k, 0, a⟩ =
      some (d.data a, .ofNat k) := by
    rw [pathStep_eq, if_pos ⟨rfl, rfl⟩, if_neg (not_not.mpr rfl)]
  have hsecond : d.merkle.pathStep (d.data a, .ofNat k) node =
      some (d.merkle.hash s, noLevel) := by
    have hdown : ¬ node.level > UInt32.ofNat k := by
      rw [hlevel]
      exact Nat.not_lt_zero _
    rw [pathStep_eq, if_neg fun h => hset h.1, hstart, if_neg hdown, if_pos hpos, hgap, hjoin,
      hlevel]
    rfl
  refine ⟨⟨.ofNat k, 0, a⟩, node, fun path => ⟨?_, ?_⟩⟩
  · rw [foldlM_cons, hfirst, bind_eq_bind, bind_some, foldlM_cons, hsecond]
    rfl
  · rw [walkInputs, hfirst]
    dsimp only
    rw [walkInputs, hsecond, stepInputs, if_pos ⟨rfl, rfl⟩, nil_append, stepInputs,
      if_neg fun h => hset h.1, hstart]
    dsimp only
    rw [hgap, hjoin, carryInputs, hgap, append_assoc, singleton_append]

theorem exists_path {hs : String} (h : d.Leads U root hs) :
    ∀ a, hs = d.data a → ∃ path st, path.foldlM d.merkle.pathStep (hs, noLevel) = some st ∧
      st.1 = root ∧ ∀ s ∈ d.walkInputs (hs, noLevel) path, s ∈ U := by
  induction h with
  | root => exact fun a ha => ⟨[], _, rfl, rfl, fun s hs => absurd hs not_mem_nil⟩
  | @join hs s k hk hcarry hmem hhalf _ ih =>
    rintro a rfl
    obtain ⟨path, st, hwalk, hroot, hU⟩ := ih _ rfl
    obtain ⟨first, second, hnodes⟩ := exists_two_nodes hk a hhalf
    refine ⟨first :: second :: path, st, (hnodes path).1.trans hwalk, hroot, ?_⟩
    rw [(hnodes path).2]
    intro t ht
    rcases mem_append.mp ht with ht | ht
    · obtain ⟨j, hj, rfl⟩ := mem_map.mp ht
      exact hcarry j (mem_range.mp hj)
    · rcases mem_cons.mp ht with rfl | ht
      · exact hmem
      · exact hU t ht

/-- The strings that a root vouches for: those whose hash leads to it. -/
theorem exists_validatePath_iff {v : String} (hv : v ≠ "") (hmem : v ∈ U) {top : String} :
    (∃ path, (∀ s ∈ d.pathInputs v path, s ∈ U) ∧
      d.merkle.validatePath v (d.merkle.hash top) path = true) ↔
        d.Leads U (d.merkle.hash top) (d.merkle.hash v) := by
  have hempty : ¬ ((v = "" || d.merkle.hash top = "") = true) := by
    simp [hv, d.data_ne_empty]
  constructor
  · rintro ⟨path, hU, haccept⟩
    rw [validatePath, if_neg hempty, if_neg (d.hash_ne_empty v)] at haccept
    split at haccept
    · cases haccept
    next st hwalk =>
    rw [← of_decide_eq_true haccept]
    exact leads_of_walk (fun s hs => hU s (mem_cons_of_mem _ hs)) hwalk
  · intro h
    obtain ⟨path, st, hwalk, hroot, hU⟩ := exists_path h _ rfl
    refine ⟨path, fun s hs => ?_, ?_⟩
    · rcases mem_cons.mp hs with rfl | hs
      · exact hmem
      · exact hU s hs
    · rw [validatePath, if_neg hempty, if_neg (d.hash_ne_empty v), hwalk]
      exact decide_eq_true hroot

/-! ## The tree of `calc_root` -/

theorem exists_pairUp {nodes : List η} {a : η} (ha : a ∈ nodes) :
    ∃ s ∈ d.merkle.pairUp nodes, d.IsHalf (d.data a) s ∨
      s = d.data a ∧ (nodes.length = 1 ∨ 3 ≤ nodes.length) := by
  induction nodes using MerkleHash.pairUp.induct with
  | case1 x y rest ih =>
    rw [mem_cons, mem_cons] at ha
    rcases ha with rfl | rfl | ha
    · exact ⟨_, mem_cons_self, .inl ⟨y, .inr rfl⟩⟩
    · exact ⟨_, mem_cons_self, .inl ⟨x, .inl rfl⟩⟩
    · obtain ⟨s, hs, hpart⟩ := ih ha
      have hpos := length_pos_of_mem ha
      refine ⟨s, mem_cons_of_mem _ hs, hpart.imp_right fun h => ⟨h.1, .inr ?_⟩⟩
      simp only [length_cons]
      omega
  | case2 x => exact ⟨_, mem_cons_self, .inr ⟨by rw [mem_singleton.mp ha]; rfl, .inl rfl⟩⟩
  | case3 => exact absurd ha not_mem_nil

/-- A hash value below the root: it is hashed `k` times and is then one half of a string that
leads on. A list of `n` nodes has fewer than `n - 1` levels of odd nodes. -/
def Climbs (d : Digest η) (U : Set String) (root : String) (n : ℕ) (hs : String) : Prop :=
  ∃ k s, k + 2 ≤ n ∧ (∀ j < k, d.merkle.hash^[j] hs ∈ U) ∧ s ∈ U ∧
    d.IsHalf (d.merkle.hash^[k] hs) s ∧ d.Leads U root (d.merkle.hash s)

theorem Climbs.leads {n : ℕ} {hs : String} (h : d.Climbs U root n hs) (hn : n ≤ 2 ^ 31) :
    d.Leads U root hs := by
  obtain ⟨k, s, hk, hcarry, hmem, hhalf, hrest⟩ := h
  exact .join k (by omega) hcarry hmem hhalf hrest

theorem Climbs.hash {n : ℕ} {hs : String} (h : d.Climbs U root n (d.merkle.hash hs))
    (hmem : hs ∈ U) : d.Climbs U root (n + 1) hs := by
  obtain ⟨k, s, hk, hcarry, hs', hhalf, hrest⟩ := h
  refine ⟨k + 1, s, by omega, fun j hj => ?_, hs', hhalf, hrest⟩
  cases j with
  | zero => exact hmem
  | succ j => exact hcarry j (by omega)

theorem Climbs.mono {n m : ℕ} {hs : String} (h : d.Climbs U root n hs) (hle : n ≤ m) :
    d.Climbs U root m hs := by
  obtain ⟨k, s, hk, hrest⟩ := h
  exact ⟨k, s, hk.trans hle, hrest⟩

/-- Every node climbs to the root, and so do the hashes of all strings hashed above it. -/
theorem climbs_of_mem (fuel : ℕ) : ∀ {nodes : List η} {r : η}, nodes.length ≤ fuel →
    nodes.length < 2 ^ 31 → (∀ s ∈ d.innerLoop fuel nodes, s ∈ U) →
    d.merkle.rootLoop fuel nodes = some r →
    (∀ a ∈ nodes, d.Leads U (d.data r) (d.data a) ∧
      (2 ≤ nodes.length → d.Climbs U (d.data r) nodes.length (d.data a))) ∧
    ∀ s ∈ d.innerLoop fuel nodes, d.Leads U (d.data r) (d.merkle.hash s) := by
  induction fuel with
  | zero =>
    intro nodes r hfuel _ _ hroot
    rw [length_eq_zero_iff.mp (Nat.le_zero.mp hfuel)] at hroot
    cases hroot
  | succ fuel ih =>
    intro nodes r hfuel hint hU hroot
    rw [MerkleHash.rootLoop] at hroot
    rw [innerLoop] at hU ⊢
    split_ifs at hroot hU ⊢ with hone
    · refine ⟨fun a ha => ?_, fun s hs => absurd hs not_mem_nil⟩
      obtain ⟨x, rfl⟩ : ∃ x, nodes = [x] :=
        length_eq_one_iff.mp (by have := length_pos_of_mem ha; omega)
      obtain rfl := Option.some.inj hroot
      rw [mem_singleton.mp ha]
      exact ⟨.root, fun h => absurd h (Nat.not_succ_le_self 1)⟩
    · rw [merkle_hashList, bind_some] at hroot
      have hnext := d.next_length nodes
      obtain ⟨hnodes, hinner⟩ := ih (by omega) (by omega)
        (fun s hs => hU s (mem_append_right _ hs)) hroot
      have hpair : ∀ s ∈ d.merkle.pairUp nodes, d.digest s ∈ d.next nodes := fun s hs =>
        mem_map_of_mem hs
      have hclimb : ∀ a ∈ nodes, d.Climbs U (d.data r) nodes.length (d.data a) := by
        intro a ha
        obtain ⟨s, hs, hhalf | ⟨rfl, hlen⟩⟩ := exists_pairUp (d := d) ha
        · exact ⟨0, s, by omega, fun j hj => absurd hj (Nat.not_lt_zero j),
            hU s (mem_append_left _ hs), hhalf, (hnodes _ (hpair s hs)).1⟩
        · have hrest := (hnodes _ (hpair _ hs)).2 (by omega)
          exact (Climbs.hash hrest (hU _ (mem_append_left _ hs))).mono (by omega)
      refine ⟨fun a ha => ⟨(hclimb a ha).leads hint.le, fun _ => hclimb a ha⟩, fun s hs => ?_⟩
      rcases mem_append.mp hs with hs | hs
      · exact (hnodes _ (hpair s hs)).1
      · exact hinner s hs

theorem rootLoop_eq_digest {T : Set String} (fuel : ℕ) : ∀ {nodes : List η}, nodes ≠ [] →
    (∀ a ∈ nodes, ∃ x ∈ T, a = d.digest x) → (∀ s ∈ d.innerLoop fuel nodes, s ∈ T) →
    ∃ top ∈ T, d.merkle.rootLoop fuel nodes = some (d.digest top) := by
  have hhead : ∀ {nodes : List η}, nodes ≠ [] → (∀ a ∈ nodes, ∃ x ∈ T, a = d.digest x) →
      ∃ top ∈ T, nodes.head? = some (d.digest top) := by
    intro nodes hne hnodes
    obtain ⟨a, rest, rfl⟩ := exists_cons_of_ne_nil hne
    obtain ⟨x, hx, rfl⟩ := hnodes a mem_cons_self
    exact ⟨x, hx, rfl⟩
  induction fuel with
  | zero => exact fun hne hnodes _ => hhead hne hnodes
  | succ fuel ih =>
    intro nodes hne hnodes hsub
    rw [MerkleHash.rootLoop]
    rw [innerLoop] at hsub
    split_ifs at hsub ⊢ with hone
    · exact hhead hne hnodes
    · rw [merkle_hashList, bind_some]
      refine ih ?_ (fun a ha => ?_) (fun s hs => hsub s (mem_append_right _ hs))
      · refine ne_nil_of_length_pos ?_
        rw [next_length]
        omega
      · obtain ⟨s, hs, rfl⟩ := mem_map.mp ha
        exact ⟨s, hsub s (mem_append_left _ hs), rfl⟩

theorem calcRoot_eq_hash (hvalues : values ≠ []) :
    ∃ top ∈ d.rootInputs values, d.merkle.calcRoot values = d.merkle.hash top ∧
      d.merkle.rootLoop values.length (values.map d.digest) = some (d.digest top) := by
  have hleafs : ∀ a ∈ values.map d.digest,
      ∃ x ∈ {s | s ∈ d.rootInputs values}, a = d.digest x := by
    intro a ha
    obtain ⟨x, hx, rfl⟩ := mem_map.mp ha
    exact ⟨x, mem_append_left _ hx, rfl⟩
  obtain ⟨top, htop, hroot⟩ := rootLoop_eq_digest (d := d) values.length
    (by simpa using hvalues) hleafs fun s hs => mem_append_right _ hs
  refine ⟨top, htop, ?_, hroot⟩
  rw [MerkleHash.calcRoot, merkle_hashLeafs, bind_some, hroot]
  rfl

/-! ## Soundness -/

/-- The strings that the root of a list vouches for: those that `calc_root` hashes, leaves or not,
and each one whose hash, hashed up to `2 ^ 31` times more, is one half of such a string. -/
inductive Vouched (d : Digest η) (U : Set String) (values : List String) : String → Prop
  | tree {s : String} (hs : s ∈ d.rootInputs values) : Vouched d U values s
  | under {x s : String} (k : ℕ) (hk : k < 2 ^ 31)
      (hcarry : ∀ j < k, d.merkle.hash^[j] (d.merkle.hash x) ∈ U) (hmem : s ∈ U)
      (hhalf : d.IsHalf (d.merkle.hash^[k] (d.merkle.hash x)) s) (hs : Vouched d U values s) :
      Vouched d U values x

theorem vouched_of_leads (hcf : Set.InjOn d.merkle.hash U) {top : String} (htop : top ∈ U)
    (htree : top ∈ d.rootInputs values) {hs : String}
    (hleads : d.Leads U (d.merkle.hash top) hs) :
    ∀ x ∈ U, d.merkle.hash x = hs → d.Vouched U values x := by
  induction hleads with
  | root => exact fun x hx heq => .tree (hcf hx htop heq ▸ htree)
  | @join hs s k hk hcarry hmem hhalf _ ih =>
    rintro x hx rfl
    exact .under k hk hcarry hmem hhalf (ih s hmem rfl)

theorem leads_of_vouched (hint : values.length < 2 ^ 31) (hroot : ∀ s ∈ d.rootInputs values, s ∈ U)
    {top : String}
    (hloop : d.merkle.rootLoop values.length (values.map d.digest) = some (d.digest top))
    {v : String} (hv : d.Vouched U values v) :
    d.Leads U (d.merkle.hash top) (d.merkle.hash v) := by
  obtain ⟨hleafs, hinner⟩ := climbs_of_mem (U := U) values.length (by rw [length_map])
    (by rwa [length_map]) (fun s hs => hroot s (mem_append_right _ hs)) hloop
  induction hv with
  | tree hs =>
    rcases mem_append.mp hs with hs | hs
    · exact (hleafs _ (mem_map_of_mem hs)).1
    · exact hinner _ hs
  | under k hk hcarry hmem hhalf _ ih => exact .join k hk hcarry hmem hhalf ih

/-- **Soundness**, as far as it goes. Where the hash has no collision in `U`, a string that is no
value of the list has no path to its root exactly if the root does not vouch for it. -/
theorem validatePath_sound (d : Digest η) (U : Set String) (hcf : Set.InjOn d.merkle.hash U)
    (values : List String) (hvalues : values ≠ []) (hint : values.length < 2 ^ 31)
    (hroot : ∀ s ∈ d.rootInputs values, s ∈ U) (v : String) (hv : v ∈ U) :
    (∀ path, (∀ s ∈ d.pathInputs v path, s ∈ U) →
        d.merkle.validatePath v (d.merkle.calcRoot values) path = true → v ∈ values) ↔
      v = "" ∨ v ∈ values ∨ ¬ d.Vouched U values v := by
  obtain ⟨top, htop, hcalc, hloop⟩ := calcRoot_eq_hash (d := d) hvalues
  rw [hcalc]
  constructor
  · intro hsound
    refine or_iff_not_imp_left.mpr fun hne => or_iff_not_imp_right.mpr fun hvouched => ?_
    obtain ⟨path, hU, haccept⟩ := (exists_validatePath_iff hne hv).mpr
      (leads_of_vouched hint hroot hloop (not_not.mp hvouched))
    exact hsound path hU haccept
  · rintro (rfl | hmem | hnot) path hU haccept
    · simp [validatePath] at haccept
    · exact hmem
    · have hne : v ≠ "" := by
        rintro rfl
        simp [validatePath] at haccept
      have hleads := (exists_validatePath_iff hne hv).mp ⟨path, hU, haccept⟩
      exact absurd (vouched_of_leads hcf (hroot top htop) htop hleads v hv rfl) hnot

namespace Sample

def hashed : Set String := {s | s ∈ ["left", "right", "LR"]}

theorem letters_injOn : Set.InjOn letters.merkle.hash hashed := by
  have hlist : ∀ s ∈ ["left", "right", "LR"], ∀ t ∈ ["left", "right", "LR"],
      letters.merkle.hash s = letters.merkle.hash t → s = t := by decide
  exact fun s hs t ht => hlist s hs t ht

end Sample

open Sample in
theorem validatePath_sound_left :
    (∀ path, (∀ s ∈ letters.pathInputs "right" path, s ∈ hashed) →
        letters.merkle.validatePath "right" (letters.merkle.calcRoot ["left"]) path = true →
          "right" ∈ ["left"]) ∧
      ¬ ∀ path, (∀ s ∈ letters.pathInputs "LR" path, s ∈ hashed) →
        letters.merkle.validatePath "LR" (letters.merkle.calcRoot ["left", "right"]) path = true →
          "LR" ∈ ["left", "right"] := by
  have hone := validatePath_sound letters hashed letters_injOn ["left"] (by decide) (by decide)
    (fun s hs => mem_cons.mpr (.inl (mem_singleton.mp hs))) "right" (by simp [hashed])
  have htwo := validatePath_sound letters hashed letters_injOn ["left", "right"] (by decide)
    (by decide) (fun s hs => hs) "LR" (by simp [hashed])
  refine ⟨hone.mpr (.inr (.inr fun hvouched => ?_)), fun h => ?_⟩
  · have hleft : ∀ x, letters.Vouched hashed ["left"] x → x = "left" := by
      intro x hx
      induction hx with
      | tree hs => exact mem_singleton.mp hs
      | @under x s k _ _ _ hhalf _ ih =>
        -- "left" is too long to be made of two hashes
        have hlen := hhalf.length
        rw [ih, ← Function.iterate_succ_apply, Function.iterate_succ_apply', hash_length] at hlen
        exact absurd hlen (by decide)
    exact absurd (hleft _ hvouched) (by decide)
  · rcases htwo.mp h with h | h | h
    · exact absurd h (by decide)
    · exact absurd h (by decide)
    · exact h (.tree (by decide))

open Sample in
theorem pair_accepted_as_leaf :
    letters.merkle.validatePath "LR" (letters.merkle.calcRoot ["left", "right"]) [] = true ∧
      "LR" ∉ ["left", "right"] ∧ Set.InjOn letters.merkle.hash hashed ∧
      (∀ s ∈ letters.rootInputs ["left", "right"], s ∈ hashed) ∧
      ∀ s ∈ letters.pathInputs "LR" [], s ∈ hashed := by
  refine ⟨by decide, by decide, letters_injOn, fun s hs => hs, fun s hs => ?_⟩
  exact mem_of_mem_tail (mem_of_mem_tail hs)

end Digest
end TopChain.Base
