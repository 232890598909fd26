import TopChain.Store.Blockchain

/-!
# Execution of a block in the store

`xstore::execute_block` with `execute_lightunit` and `execute_fullunit`, and
`make_fullunit_output`.
-/
namespace TopChain.Store

open Option TopChain.TxExecutor Blockchain

/-- `calc_dataunit_hash`: a digest, which is never the empty text. -/
structure PropertyHasher where
  hash : Dataobj → String
  hash_ne_empty : ∀ obj, hash obj ≠ ""

def PropertyHasher.hashPtr (H : PropertyHasher) : Option Dataobj → String
  | some obj => H.hash obj
  | none => ""

/-- An account with its properties, those of the latest block and those at a height. -/
structure Xstore where
  account : Option Blockchain := none
  property : String → Option Dataobj := fun _ => none
  propertyAt : Nat → String → Option Dataobj := fun _ _ => none

structure PropertyPairs where
  latest : List (String × Dataobj) := []
  atHeight : List (String × Dataobj) := []

def putAll (values : String → Option Dataobj) (pairs : List (String × Dataobj)) :
    String → Option Dataobj :=
  fun name => ((pairs.find? (·.1 = name)).map (·.2)).or (values name)

@[simp] theorem putAll_nil (values : String → Option Dataobj) : putAll values [] = values := rfl

section
variable {values : String → Option Dataobj} {pairs : List (String × Dataobj)} {name : String}

theorem putAll_of_not_mem (h : ∀ obj, (name, obj) ∉ pairs) :
    putAll values pairs name = values name := by
  have hnone : pairs.find? (·.1 = name) = none := by
    refine List.find?_eq_none.mpr fun e he hname => ?_
    obtain rfl : e.1 = name := by simpa using hname
    exact h e.2 he
  rw [putAll, hnone]
  rfl

theorem putAll_of_mem {obj : Dataobj} (h : (name, obj) ∈ pairs)
    (huniq : ∀ obj', (name, obj') ∈ pairs → obj' = obj) : putAll values pairs name = some obj := by
  have hsome : (pairs.find? (·.1 = name)).isSome := List.find?_isSome.mpr ⟨_, h, by simp⟩
  obtain ⟨e, he⟩ := isSome_iff_exists.mp hsome
  have hname : e.1 = name := by simpa using List.find?_some he
  have hobj : e.2 = obj := huniq e.2 (hname ▸ List.mem_of_find?_eq_some he)
  rw [putAll, he, ← hobj]
  rfl

end

namespace Xstore
variable (H : PropertyHasher) (s : Xstore)

def storedProperties (acc : Blockchain) : StoredProperties where
  hasProperty name := (acc.accountState.propertyHash.find? name).isSome
  cloneProperty := s.property

def executeLightunit (acc : Blockchain) (unit : Lightunit) : Option (List (String × Dataobj)) :=
  match (s.storedProperties acc).executeLightunit H.hashPtr
      ⟨unit.resource.binlog, unit.resource.propertyHash⟩ with
  | none => none
  | some objs => objs.entries.mapM fun e => e.2.map fun obj => (e.1, obj)

def executeFullunit (acc : Blockchain) (b : Xblock) (unit : Fullunit) : PropertyPairs where
  latest := if acc.lastStateBlockHeight + 1 ≠ b.height then unit.accountPropertys else []
  atHeight := unit.accountPropertys

def executeBody (acc : Blockchain) (b : Xblock) : Option (Blockchain × PropertyPairs) :=
  match b.body with
  | .fullunit unit => some (acc, executeFullunit acc b unit)
  | body =>
    if b.blockClass = .full then none
    else if b.height ≠ 0 ∧ acc.lastStateBlockHeight + 1 < b.height then none
    else match body with
      | .lightunit unit =>
        (s.executeLightunit H acc unit).map fun pairs => (acc, { latest := pairs })
      | .tableblock _ units => some (acc.executeTableblock units, {})
      | _ => some (acc, {})

def write (height : Nat) (acc : Blockchain) (pairs : PropertyPairs) : Xstore where
  account := some acc
  property := putAll s.property pairs.latest
  propertyAt := fun h => if h = height then putAll (s.propertyAt h) pairs.atHeight
    else s.propertyAt h

def executeBlock (b : Xblock) (connected written : Bool) : Xstore × Bool :=
  if !connected then (s, false)
  else if s.account.isSome ∧ b.height = 0 then (s, true)
  else
    let acc := s.account.getD {}
    if b.height ≠ 0 ∧ b.height ≤ acc.lastStateBlockHeight then (s, true)
    else match s.executeBody H acc b with
      | none => (s, false)
      | some (acc, pairs) =>
        match acc.updateBlockchainByBlock b with
        | none => (s, false)
        | some acc => if written then (s.write b.height acc pairs, true) else (s, false)

/-- `make_fullunit_output`: the properties whose hashes the account has, with their latest
values. -/
def makeFullunitOutput : Option Fullunit :=
  match s.account with
  | none => none
  | some acc =>
    (acc.accountState.propertyHash.entries.mapM fun e : String × String =>
      match s.property e.1 with
      | none => none
      | some obj => if H.hash obj ≠ e.2 then none else some (e.1, obj)).map fun propertys =>
        { accountState := acc.accountState
          accountPropertys := propertys
          firstUnitHeight := acc.lastFullBlockHeight
          firstUnitHash := acc.lastFullBlockHash }

end Xstore

variable {pairs : PropertyPairs}

section
variable {H : PropertyHasher} {s s' : Xstore} {acc acc' : Blockchain} {b : Xblock}

theorem executeBody_cases (h : s.executeBody H acc b = some (acc', pairs)) :
    acc' = acc.applyTable b ∧ (b.isFullunit ∨ b.blockClass ≠ .full ∧
      (b.height = 0 ∨ b.height ≤ acc.lastStateBlockHeight + 1)) := by
  unfold Xstore.executeBody at h
  unfold applyTable
  cases hbody : b.body with
  | fullunit unit =>
    rw [hbody] at h
    cases h
    exact ⟨rfl, .inl (Xblock.isFullunit_iff.mpr ⟨unit, hbody⟩)⟩
  | _ =>
    rw [hbody] at h
    dsimp only at h
    split at h
    · cases h
    · rename_i hclass
      split at h
      · cases h
      · refine ⟨?_, .inr ⟨hclass, by omega⟩⟩
        first
          | (cases h; rfl)
          | (obtain ⟨ps, -, hps⟩ := map_eq_some_iff.mp h; cases hps; rfl)

theorem executeBlock_cases (H : PropertyHasher) (s : Xstore) (b : Xblock)
    (connected written : Bool) :
    (s.executeBlock H b connected written).1 = s ∧
        ((s.executeBlock H b connected written).2 = true →
          ∃ acc, s.account = some acc ∧ b.height ≤ acc.lastStateBlockHeight) ∨
      ∃ acc' pairs, s.executeBlock H b connected written = (s.write b.height acc' pairs, true) ∧
        (∀ acc, s.account = some acc → acc.lastStateBlockHeight < b.height) ∧
        s.executeBody H (s.account.getD {}) b = some ((s.account.getD {}).applyTable b, pairs) ∧
        ((s.account.getD {}).applyTable b).updateBlockchainByBlock b = some acc' := by
  unfold Xstore.executeBlock
  split
  · exact .inl ⟨rfl, fun h => absurd h Bool.false_ne_true⟩
  · split
    · rename_i hgenesis
      obtain ⟨acc, hacc⟩ := isSome_iff_exists.mp hgenesis.1
      exact .inl ⟨rfl, fun _ => ⟨acc, hacc, by omega⟩⟩
    · rename_i hgenesis
      dsimp only
      split
      · rename_i hold
        refine .inl ⟨rfl, fun _ => ?_⟩
        cases hacc : s.account with
        | none =>
          rw [hacc] at hold
          exact absurd hold.2 (by have := hold.1; show ¬ b.height ≤ 0; omega)
        | some acc => exact ⟨acc, rfl, by rw [hacc] at hold; exact hold.2⟩
      · rename_i hnew
        cases hbody : s.executeBody H (s.account.getD {}) b with
        | none => exact .inl ⟨rfl, fun h => absurd h Bool.false_ne_true⟩
        | some r =>
          obtain ⟨acc₁, pairs⟩ := r
          obtain ⟨rfl, -⟩ := executeBody_cases hbody
          dsimp only
          cases hupd : ((s.account.getD {}).applyTable b).updateBlockchainByBlock b with
          | none => exact .inl ⟨rfl, fun h => absurd h Bool.false_ne_true⟩
          | some acc₂ =>
            cases written with
            | false => exact .inl ⟨rfl, fun h => absurd h Bool.false_ne_true⟩
            | true =>
              refine .inr ⟨acc₂, pairs, rfl, fun acc hacc => ?_, rfl, rfl⟩
              rw [hacc] at hnew hgenesis
              have hnew : ¬ (b.height ≠ 0 ∧ b.height ≤ acc.lastStateBlockHeight) := hnew
              have hgenesis : ¬ b.height = 0 := fun h0 => hgenesis ⟨rfl, h0⟩
              omega

theorem executeBlock_of_above (hacc : s.account = some acc)
    (hlast : acc.lastStateBlockHeight < b.height)
    (hbody : s.executeBody H acc b = some (acc.applyTable b, pairs))
    (hupd : (acc.applyTable b).updateBlockchainByBlock b = some acc') :
    s.executeBlock H b true true = (s.write b.height acc' pairs, true) := by
  have hgenesis : ¬ ((some acc).isSome ∧ b.height = 0) := fun h0 => by omega
  have hnew : ¬ (b.height ≠ 0 ∧ b.height ≤ acc.lastStateBlockHeight) := fun h0 => by omega
  unfold Xstore.executeBlock
  rw [hacc, getD_some, if_neg (by simp), if_neg hgenesis, if_neg hnew, hbody]
  dsimp only
  rw [hupd]
  rfl

def Xstore.execute (H : PropertyHasher) (s : Xstore) (b : Xblock) : Option Xstore :=
  match s.executeBlock H b true true with
  | (s', true) => some s'
  | (_, false) => none

theorem execute_cases (hlast : ∀ acc, s.account = some acc → acc.lastStateBlockHeight < b.height)
    (h : s.execute H b = some s') :
    ∃ acc' pairs, s' = s.write b.height acc' pairs ∧
      s.executeBody H (s.account.getD {}) b = some ((s.account.getD {}).applyTable b, pairs) ∧
      ((s.account.getD {}).applyTable b).updateBlockchainByBlock b = some acc' := by
  unfold Xstore.execute at h
  rcases executeBlock_cases H s b true true with ⟨hsame, hold⟩ | ⟨acc', pairs, hr, -, hbody, hupd⟩
  · split at h
    · rename_i heq
      obtain ⟨acc, hacc, hle⟩ := hold (by rw [heq])
      have := hlast acc hacc
      omega
    · cases h
  · rw [hr] at h
    cases h
    exact ⟨acc', pairs, rfl, hbody, hupd⟩

theorem execute_of_executeBlock {connected written : Bool}
    (h : s.executeBlock H b connected written = (s', true)) : s.execute H b = some s' := by
  cases connected with
  | false => cases h
  | true =>
    cases written with
    | true => rw [Xstore.execute, h]
    | false =>
      unfold Xstore.executeBlock at h
      unfold Xstore.execute Xstore.executeBlock
      split at h
      · cases h
      · rename_i hconn
        rw [if_neg hconn]
        split at h
        · rename_i hgenesis
          cases h
          rw [if_pos hgenesis]
        · rename_i hgenesis
          rw [if_neg hgenesis]
          dsimp only at h ⊢
          split at h
          · rename_i hold
            cases h
            rw [if_pos hold]
          · split at h
            · cases h
            · split at h <;> cases h

end

namespace AccountChain
variable {H : PropertyHasher} {C : AccountChain} {s s' : Xstore} {acc acc' : Blockchain}

theorem sameState_of_executed {n : Nat}
    (hstart : (s.account = none ∧ (n = 0 ∨ (C.block n).isFullunit)) ∨
      ∃ acc m, s.account = some acc ∧ acc.SameState (C.accountAt m) ∧ m < n)
    (hbody : s.executeBody H (s.account.getD {}) (C.block n) =
      some ((s.account.getD {}).applyTable (C.block n), pairs))
    (hupd : ((s.account.getD {}).applyTable (C.block n)).updateBlockchainByBlock (C.block n) =
      some acc') :
    acc'.SameState (C.accountAt n) := by
  have hheight := C.height_block n
  cases n with
  | zero =>
    have hnone : s.account = none := by
      rcases hstart with ⟨h, -⟩ | ⟨-, m, -, -, hm⟩
      · exact h
      · omega
    rw [hnone] at hupd
    obtain ⟨acc₀, hacc₀, hsame⟩ := updateBlockchainByBlock_genesis hheight
    obtain rfl : acc₀ = acc' := mem_unique hacc₀ hupd
    exact hsame
  | succ n =>
    by_cases hfull : (C.block (n + 1)).isFullunit
    · obtain ⟨unit, hunit⟩ := Xblock.isFullunit_iff.mp hfull
      have hempty := C.unconfirmedAccounts_accountAt (C.isUnit_of_fullunit hunit)
      rcases hstart with ⟨hnone, -⟩ | ⟨acc, m, hacc, hsame, hm⟩
      · rw [hnone] at hupd
        refine sameState_of_fullunit hunit ?_ ?_ (hempty n).symm hupd
        · show 0 < _
          omega
        · show 0 < _
          omega
      · rw [hacc] at hupd
        have hlast := hsame.lastStateBlockHeight.trans (C.lastStateBlockHeight_accountAt m)
        have hmax := hsame.maxBlockHeight.trans (C.maxBlockHeight_accountAt m)
        have hunconf : acc.unconfirmedAccounts = (C.accountAt n).unconfirmedAccounts := by
          rw [hsame.unconfirmedAccounts, hempty m, hempty n]
        exact sameState_of_fullunit hunit (by show acc.lastStateBlockHeight < _; omega)
          (by show acc.maxBlockHeight < _; omega) hunconf hupd
    · rcases hstart with ⟨-, h0 | hf⟩ | ⟨acc, m, hacc, hsame, hm⟩
      · omega
      · exact absurd hf hfull
      · rw [hacc] at hupd hbody
        have hlast := hsame.lastStateBlockHeight.trans (C.lastStateBlockHeight_accountAt m)
        have hmax := hsame.maxBlockHeight.trans (C.maxBlockHeight_accountAt m)
        have hle : (C.block (n + 1)).height ≤ acc.lastStateBlockHeight + 1 := by
          rcases (executeBody_cases hbody).2 with hf | ⟨-, h0 | hle⟩
          · exact absurd hf hfull
          · omega
          · exact hle
        obtain rfl : m = n := by omega
        exact (sameState_of_next (by show acc.lastStateBlockHeight + 1 = _; omega)
          (by show acc.maxBlockHeight < _; omega) hupd).trans (hsame.applyBlock _)

/-- The states of a store that has executed blocks upwards and each of them once, from a first
height on: the genesis block or a full unit. -/
inductive RunTo (H : PropertyHasher) (C : AccountChain) (first : Nat) : Nat → Xstore → Prop
  | start {s : Xstore} (hfirst : first = 0 ∨ (C.block first).isFullunit)
      (h : Xstore.execute H {} (C.block first) = some s) : RunTo H C first first s
  | next {n : Nat} {s s' : Xstore} (hs : RunTo H C first n s)
      (h : s.execute H (C.block (n + 1)) = some s') : RunTo H C first (n + 1) s'
  | join {n m : Nat} {s s' : Xstore} (hs : RunTo H C first n s) (hnm : n < m)
      (hfull : (C.block m).isFullunit) (h : s.execute H (C.block m) = some s') :
      RunTo H C first m s'

variable {first n m : Nat}

theorem execute_above (hacc : s.account = some acc) (hsame : acc.SameState (C.accountAt n))
    (hnm : n < m) (h : s.execute H (C.block m) = some s') :
    ∃ acc' pairs, s' = s.write m acc' pairs ∧
      s.executeBody H acc (C.block m) = some (acc.applyTable (C.block m), pairs) ∧
      acc'.SameState (C.accountAt m) := by
  have hlast := hsame.lastStateBlockHeight.trans (C.lastStateBlockHeight_accountAt n)
  have hheight := C.height_block m
  obtain ⟨acc', pairs, hs', hbody, hupd⟩ := execute_cases (fun acc₀ hacc₀ => by
    obtain rfl := mem_unique hacc hacc₀
    omega) h
  have hsame' := sameState_of_executed (.inr ⟨acc, n, hacc, hsame, hnm⟩) hbody hupd
  rw [hacc] at hbody
  rw [hheight] at hs'
  exact ⟨acc', pairs, hs', hbody, hsame'⟩

theorem RunTo.account (h : C.RunTo H first n s) :
    ∃ acc, s.account = some acc ∧ acc.SameState (C.accountAt n) := by
  induction h with
  | start hfirst h =>
    obtain ⟨acc', pairs, rfl, hbody, hupd⟩ := execute_cases (fun acc hacc => by cases hacc) h
    exact ⟨acc', rfl, sameState_of_executed (.inl ⟨rfl, hfirst⟩) hbody hupd⟩
  | @next n s s' _ h ih =>
    obtain ⟨acc, hacc, hsame⟩ := ih
    obtain ⟨acc', pairs, rfl, -, hsame'⟩ := execute_above hacc hsame (Nat.lt_add_one n) h
    exact ⟨acc', rfl, hsame'⟩
  | join _ hnm _ h ih =>
    obtain ⟨acc, hacc, hsame⟩ := ih
    obtain ⟨acc', pairs, rfl, -, hsame'⟩ := execute_above hacc hsame hnm h
    exact ⟨acc', rfl, hsame'⟩

end AccountChain
end TopChain.Store
