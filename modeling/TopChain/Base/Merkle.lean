import Mathlib.Data.List.Basic

/-!
# Merkle paths (`xutility/xmerkle.hpp`)

The check of a path from a leaf value to a root.
-/
namespace TopChain.Base

structure MerkleHash (η : Type) where
  getHash : String → Option η
  data : η → String

structure PathNode (η : Type) where
  level : UInt32
  pos : UInt32
  signature : η

namespace MerkleHash
variable {η : Type} (h : MerkleHash η)

def hash (value : String) : String :=
  match h.getHash value with
  | none => ""
  | some v => h.data v

def hashPair (left right : String) : String := h.hash (left ++ right)

def hashMultiTimes (value : String) (times : UInt32) : String :=
  match h.getHash value with
  | none => ""
  | some v =>
    let rounds := if times < 2147483648 then times.toNat - 1 else 0
    match (List.replicate rounds ()).foldlM (fun v _ => h.getHash (h.data v)) v with
    | none => ""
    | some v => h.data v

def noLevel : UInt32 := 0xFFFFFFFF

def startLevel (level : UInt32) (node : PathNode η) : UInt32 :=
  if level = noLevel then node.level else level

def carry (hs : String) (level : UInt32) (node : PathNode η) : String :=
  if node.level < level then h.hashMultiTimes hs (level - node.level) else hs

def join (hs : String) (node : PathNode η) : String :=
  if node.pos = 1 then h.hashPair (h.data node.signature) hs
  else if node.pos = 2 then h.hashPair hs (h.data node.signature)
  else ""

def pathStep (st : String × UInt32) (node : PathNode η) : Option (String × UInt32) :=
  if st.2 = noLevel ∧ node.pos = 0 then
    -- an odd leaf repeats its own hash
    if st.1 ≠ h.data node.signature then none else some (st.1, node.level)
  else
    let level := startLevel st.2 node
    if node.level > level then none
    else if node.level < level ∧ h.carry st.1 level node = "" then none
    else if h.join (h.carry st.1 level node) node = "" then none
    else some (h.join (h.carry st.1 level node) node, node.level - 1)

def validatePath (value root : String) (path : List (PathNode η)) : Bool :=
  if value = "" || root = "" then false
  else if h.hash value = "" then false
  else match path.foldlM h.pathStep (h.hash value, noLevel) with
    | none => false
    | some st => st.1 = root

theorem foldlM_inv {σ α : Type} {f : σ → α → Option σ} {I : σ → Prop}
    (hstep : ∀ s x s', I s → f s x = some s' → I s') {l : List α} {s t : σ} (hs : I s)
    (h : l.foldlM f s = some t) : I t := by
  induction l generalizing s with
  | nil => cases h; exact hs
  | cons x xs ih =>
    rw [List.foldlM_cons, Option.bind_eq_bind, Option.bind_eq_some_iff] at h
    obtain ⟨s', hs', h⟩ := h
    exact ih (hstep s x s' hs hs') h

theorem hash_eq_data {value : String} (hne : h.hash value ≠ "") : ∃ v, h.hash value = h.data v := by
  unfold hash at hne ⊢
  split at hne
  · exact absurd rfl hne
  next v _ => exact ⟨v, rfl⟩

theorem join_eq_data {hs : String} {node : PathNode η} (hne : h.join hs node ≠ "") :
    ∃ v, h.join hs node = h.data v := by
  unfold join at hne ⊢
  split_ifs at hne ⊢
  · exact h.hash_eq_data hne
  · exact h.hash_eq_data hne
  · exact absurd rfl hne

theorem pathStep_data {st st' : String × UInt32} {node : PathNode η}
    (hst : ∃ v, st.1 = h.data v) (hstep : h.pathStep st node = some st') :
    ∃ v, st'.1 = h.data v := by
  simp only [pathStep] at hstep
  split_ifs at hstep with h1 h2 h3 h4 h5
  · cases hstep
    exact hst
  · cases hstep
    exact h.join_eq_data h5

theorem validatePath_root {value root : String} {path : List (PathNode η)}
    (haccept : h.validatePath value root path = true) : ∃ v, root = h.data v := by
  unfold validatePath at haccept
  split_ifs at haccept with h1 h2
  split at haccept
  · cases haccept
  next st hst =>
  obtain ⟨v, hv⟩ := foldlM_inv (I := fun st : String × UInt32 => ∃ v, st.1 = h.data v)
    (fun s x s' hs => h.pathStep_data hs) (h.hash_eq_data h2) hst
  exact ⟨v, (of_decide_eq_true haccept).symm.trans hv⟩

end MerkleHash
end TopChain.Base
