import TopChain.Store.ChainAccount
import TopChain.TxExecutor.Executor

/-!
# The account object and what a block does to it

`xblockchain2_t` with `xaccount_mstate2`, and `update_blockchain_by_block` of the store.
-/
namespace TopChain.Store

open TopChain.Lib TopChain.TxExecutor SortedMap

def addChange (n : Nat) (change : Int) : Nat := ((n + change) % 2 ^ 64).toNat

structure Mstate where
  latestSendTransNumber : Nat := 0
  latestSendTransHash : String := ""
  latestRecvTransNumber : Nat := 0
  latestRecvTransHash : String := ""
  accountBalance : Nat := 0
  accountBurnBalance : Nat := 0
  pledgeTgas : Nat := 0
  pledgeDisk : Nat := 0
  pledgeVote : Nat := 0
  accountLockBalance : Nat := 0
  accountLockTgas : Nat := 0
  accountUnvoteNum : Nat := 0
  accountCreateTime : Nat := 0
  propertyHash : SortedMap String String := .empty
  nativeProperty : SortedMap String NativeObj := .empty
  unconfirmSendtxNum : Nat := 0
deriving DecidableEq

def insertAll {α : Type} (m : SortedMap String α) (pairs : List (String × α)) :
    SortedMap String α :=
  pairs.foldl (fun m e => m.insert e.1 e.2) m

theorem isSome_find?_insertAll_of_isSome {α : Type} {m : SortedMap String α} {name : String}
    (pairs : List (String × α)) (h : (m.find? name).isSome) :
    ((insertAll m pairs).find? name).isSome := by
  induction pairs generalizing m with
  | nil => exact h
  | cons e rest ih =>
    refine ih ?_
    by_cases he : name = e.1
    · rw [he, find?_insert_self]
      rfl
    · rwa [find?_insert_of_ne _ _ he]

theorem isSome_find?_insertAll_of_mem {α : Type} {e : String × α} {pairs : List (String × α)}
    (he : e ∈ pairs) (m : SortedMap String α) : ((insertAll m pairs).find? e.1).isSome := by
  induction pairs generalizing m with
  | nil => cases he
  | cons a rest ih =>
    rcases List.mem_cons.mp he with rfl | he
    · refine isSome_find?_insertAll_of_isSome rest ?_
      rw [find?_insert_self]
      rfl
    · exact ih he _

/-- `get_send_trans_info`: the highest nonce the account has sent, with the digest. -/
def sendTransInfo (unit : Lightunit) : Nat × String :=
  unit.inputs.foldl (fun latest i =>
    if (i.subtype = .self ∨ i.subtype = .send) ∧ latest.1 < i.tx.txNonce then
      (i.tx.txNonce, i.tx.digest)
    else latest) (0, "")

def recvTransInfo (unit : Lightunit) : Nat × String :=
  unit.inputs.foldl (fun latest i =>
    if i.subtype = .recv then (latest.1 + 1, i.tx.digest) else latest) (0, "")

def burnBalanceChange (unit : Lightunit) : Int :=
  (unit.outputs.map fun o : OutputEntity =>
    ((if o.subtype = .self ∨ o.subtype = .confirm then o.state.usedDeposit else 0)
      + o.state.beaconServiceFee + o.state.selfBurnBalance : Int)).sum

def Mstate.addLightUnit (m : Mstate) (unit : Lightunit) : Mstate :=
  let r := unit.resource
  let m := { m with
    accountBalance := addChange m.accountBalance r.balanceChange
    accountBurnBalance := addChange m.accountBurnBalance (burnBalanceChange unit)
    pledgeTgas := addChange m.pledgeTgas r.pledgeTgasChange
    pledgeDisk := addChange m.pledgeDisk r.pledgeDiskChange
    pledgeVote := addChange m.pledgeVote r.pledgeVoteChange
    accountLockBalance := addChange m.accountLockBalance r.lockBalanceChange
    accountLockTgas := addChange m.accountLockTgas r.lockTgasChange
    accountUnvoteNum := addChange m.accountUnvoteNum r.unvoteNumChange
    unconfirmSendtxNum := r.unconfirmSendtxNum
    propertyHash := insertAll m.propertyHash r.propertyHash.entries
    nativeProperty := insertAll m.nativeProperty r.nativeProperty }
  let sent := sendTransInfo unit
  let m := if sent.1 ≠ 0 then
    { m with latestSendTransNumber := sent.1, latestSendTransHash := sent.2 } else m
  let received := recvTransInfo unit
  if received.1 ≠ 0 then
    { m with
      latestRecvTransNumber := addChange m.latestRecvTransNumber received.1
      latestRecvTransHash := received.2 }
  else m

@[simp] theorem propertyHash_addLightUnit (m : Mstate) (unit : Lightunit) :
    (m.addLightUnit unit).propertyHash =
      insertAll m.propertyHash unit.resource.propertyHash.entries := by
  unfold Mstate.addLightUnit
  dsimp only
  split_ifs <;> rfl

def Mstate.setCreateTime (m : Mstate) (gmtime : Nat) (first : Bool) : Mstate :=
  if m.accountCreateTime = 0 ∧ first then { m with accountCreateTime := gmtime } else m

@[simp] theorem propertyHash_setCreateTime (m : Mstate) (gmtime : Nat) (first : Bool) :
    (m.setCreateTime gmtime first).propertyHash = m.propertyHash := by
  unfold Mstate.setCreateTime
  split_ifs <;> rfl

structure Fullunit where
  accountState : Mstate
  accountPropertys : List (String × Dataobj)
  firstUnitHeight : Nat
  firstUnitHash : String
deriving DecidableEq

structure TableUnit where
  account : String
  blockClass : BlockClass
  unconfirmSendtxNum : Nat
deriving DecidableEq

inductive XblockBody where
  | emptyunit
  | lightunit (unit : Lightunit)
  | fullunit (unit : Fullunit)
  | tableblock (blockClass : BlockClass) (units : List TableUnit)
  | container (blockClass : BlockClass)

structure Xblock where
  height : Nat
  blockHash : String
  lastBlockHash : String
  gmtime : Nat
  body : XblockBody

namespace Xblock

def blockClass (b : Xblock) : BlockClass :=
  match b.body with
  | .emptyunit => .nil
  | .lightunit _ => .light
  | .fullunit _ => .full
  | .tableblock c _ => c
  | .container c => c

def isUnit (b : Xblock) : Bool :=
  match b.body with
  | .emptyunit | .lightunit _ | .fullunit _ => true
  | .tableblock _ _ | .container _ => false

def isFullunit (b : Xblock) : Bool := b.isUnit && b.blockClass = .full

theorem isFullunit_iff {b : Xblock} : b.isFullunit ↔ ∃ unit, b.body = .fullunit unit := by
  unfold isFullunit isUnit blockClass
  cases b.body <;> simp

end Xblock

structure Blockchain where
  minBlockHeight : Nat := 0
  maxBlockHeight : Nat := 0
  lastStateBlockHeight : Nat := 0
  lastStateBlockHash : String := ""
  lastFullBlockHeight : Nat := 0
  lastFullBlockHash : String := ""
  accountState : Mstate := {}
  unconfirmedAccounts : Finset String := ∅

namespace Blockchain
variable (acc : Blockchain) (b : Xblock)

def updateMinMaxHeight (height : Nat) : Blockchain :=
  { acc with
    minBlockHeight := if acc.minBlockHeight = 0 ∨ height < acc.minBlockHeight then height
      else acc.minBlockHeight
    maxBlockHeight := if acc.maxBlockHeight < height then height else acc.maxBlockHeight }

@[simp] theorem lastStateBlockHeight_updateMinMaxHeight (height : Nat) :
    (acc.updateMinMaxHeight height).lastStateBlockHeight = acc.lastStateBlockHeight := rfl

@[simp] theorem lastStateBlockHash_updateMinMaxHeight (height : Nat) :
    (acc.updateMinMaxHeight height).lastStateBlockHash = acc.lastStateBlockHash := rfl

def setCreateTime (first : Bool) : Blockchain :=
  { acc with accountState := acc.accountState.setCreateTime b.gmtime first }

def updateLastBlockState : Blockchain :=
  match b.body with
  | .lightunit unit => { acc with accountState := acc.accountState.addLightUnit unit }
  | .fullunit unit =>
    { acc with
      accountState := unit.accountState
      lastFullBlockHeight := b.height
      lastFullBlockHash := b.blockHash }
  | _ => acc

def setLastStateBlock : Blockchain :=
  { acc with lastStateBlockHeight := b.height, lastStateBlockHash := b.blockHash }

def updateStateByGenesisBlock : Blockchain :=
  let acc := acc.setCreateTime b (b.blockClass ≠ .nil)
  let acc := if acc.lastStateBlockHeight = 0 then
    (acc.updateLastBlockState b).setLastStateBlock b else acc
  if acc.lastFullBlockHeight = 0 then
    { acc with lastFullBlockHeight := b.height, lastFullBlockHash := b.blockHash }
  else acc

def updateStateByNextHeightBlock : Option Blockchain :=
  if acc.lastStateBlockHeight + 1 ≠ b.height ∨
      (acc.lastStateBlockHash ≠ b.lastBlockHash ∧ 2 ≤ b.height) then none
  else
    let acc := acc.setCreateTime b (b.height = 1)
    some ((acc.updateLastBlockState b).setLastStateBlock b)

def updateStateByFullBlock : Option Blockchain :=
  if b.blockClass ≠ .full then none
  else some ((acc.updateLastBlockState b).setLastStateBlock b)

def updateBlockchainByBlock : Option Blockchain :=
  let acc := acc.updateMinMaxHeight b.height
  if b.height = 0 then some (acc.updateStateByGenesisBlock b)
  else if acc.lastStateBlockHeight + 1 = b.height then acc.updateStateByNextHeightBlock b
  else if acc.lastStateBlockHeight + 1 < b.height ∧ b.isFullunit then
    acc.updateStateByFullBlock b
  else none

def unconfirmedAfter (accounts : Finset String) (units : List TableUnit) : Finset String :=
  units.foldl (fun accounts unit =>
    match unit.blockClass with
    | .light =>
      if 0 < unit.unconfirmSendtxNum then insert unit.account accounts
      else accounts.erase unit.account
    | .full => accounts.erase unit.account
    | .nil => accounts) accounts

def executeTableblock (units : List TableUnit) : Blockchain :=
  { acc with unconfirmedAccounts := unconfirmedAfter acc.unconfirmedAccounts units }

def applyTable : Blockchain :=
  match b.body with
  | .tableblock _ units => acc.executeTableblock units
  | _ => acc

def applyBlock : Blockchain :=
  let acc := (acc.applyTable b).setCreateTime b
    ((b.height = 0 ∧ b.blockClass ≠ .nil) ∨ b.height = 1)
  let acc := acc.updateLastBlockState b
  { acc with
    maxBlockHeight := b.height
    lastStateBlockHeight := b.height
    lastStateBlockHash := b.blockHash
    lastFullBlockHeight := if b.height = 0 then 0 else acc.lastFullBlockHeight
    lastFullBlockHash := if b.height = 0 then b.blockHash else acc.lastFullBlockHash }

theorem propertyHash_applyBlock : (acc.applyBlock b).accountState.propertyHash =
    match b.body with
    | .lightunit unit =>
      insertAll acc.accountState.propertyHash unit.resource.propertyHash.entries
    | .fullunit unit => unit.accountState.propertyHash
    | _ => acc.accountState.propertyHash := by
  unfold applyBlock updateLastBlockState applyTable
  cases b.body <;> simp [setCreateTime, executeTableblock]

def forgetMin : Blockchain := { acc with minBlockHeight := 0 }

/-- The states agree, but for the lowest block height applied so far. -/
def SameState (acc acc' : Blockchain) : Prop := acc.forgetMin = acc'.forgetMin

theorem forgetMin_applyBlock : (acc.applyBlock b).forgetMin = acc.forgetMin.applyBlock b := by
  unfold applyBlock applyTable updateLastBlockState
  cases b.body <;> rfl

section
variable {acc acc' acc₀ : Blockchain} {b : Xblock}

theorem SameState.symm (h : acc.SameState acc') : acc'.SameState acc := Eq.symm h

theorem SameState.trans {acc'' : Blockchain} (h : acc.SameState acc') (h' : acc'.SameState acc'') :
    acc.SameState acc'' := Eq.trans h h'

theorem SameState.congr {β : Type} (h : acc.SameState acc') (f : Blockchain → β) :
    f acc.forgetMin = f acc'.forgetMin := congrArg f h

section
variable (h : acc.SameState acc')
include h

theorem SameState.lastStateBlockHeight : acc.lastStateBlockHeight = acc'.lastStateBlockHeight :=
  h.congr Blockchain.lastStateBlockHeight

theorem SameState.lastStateBlockHash : acc.lastStateBlockHash = acc'.lastStateBlockHash :=
  h.congr Blockchain.lastStateBlockHash

theorem SameState.maxBlockHeight : acc.maxBlockHeight = acc'.maxBlockHeight :=
  h.congr Blockchain.maxBlockHeight

theorem SameState.accountState : acc.accountState = acc'.accountState :=
  h.congr Blockchain.accountState

theorem SameState.unconfirmedAccounts : acc.unconfirmedAccounts = acc'.unconfirmedAccounts :=
  h.congr Blockchain.unconfirmedAccounts

theorem SameState.applyBlock (b : Xblock) : (acc.applyBlock b).SameState (acc'.applyBlock b) := by
  show (acc.applyBlock b).forgetMin = (acc'.applyBlock b).forgetMin
  rw [forgetMin_applyBlock, forgetMin_applyBlock, h]

end

theorem updateBlockchainByBlock_genesis (hb : b.height = 0) :
    ∃ acc', (({} : Blockchain).applyTable b).updateBlockchainByBlock b = some acc' ∧
      acc'.SameState (({} : Blockchain).applyBlock b) := by
  refine ⟨_, by rw [updateBlockchainByBlock, if_pos hb], ?_⟩
  unfold SameState updateStateByGenesisBlock Blockchain.applyBlock applyTable updateLastBlockState
  cases hbody : b.body <;>
    simp [hb, hbody, Xblock.blockClass, forgetMin, executeTableblock, setCreateTime,
      updateMinMaxHeight, setLastStateBlock]

@[simp] theorem lastStateBlockHeight_applyTable :
    (acc.applyTable b).lastStateBlockHeight = acc.lastStateBlockHeight := by
  unfold applyTable
  cases b.body <;> rfl

section
variable (hnext : acc.lastStateBlockHeight + 1 = b.height)
include hnext

theorem sameState_of_next (hmax : acc.maxBlockHeight < b.height)
    (h : (acc.applyTable b).updateBlockchainByBlock b = some acc') :
    acc'.SameState (acc.applyBlock b) := by
  have hb : b.height ≠ 0 := by omega
  have hlast : ((acc.applyTable b).updateMinMaxHeight b.height).lastStateBlockHeight + 1 =
      b.height := by
    rw [lastStateBlockHeight_updateMinMaxHeight, lastStateBlockHeight_applyTable, hnext]
  rw [updateBlockchainByBlock, if_neg hb, if_pos hlast, updateStateByNextHeightBlock] at h
  split at h
  · cases h
  · cases h
    unfold SameState Blockchain.applyBlock updateLastBlockState applyTable
    cases hbody : b.body <;>
      simp [hb, hmax, forgetMin, executeTableblock, setCreateTime, updateMinMaxHeight,
        setLastStateBlock]

theorem isSome_updateBlockchainByBlock_next (hlink : acc.lastStateBlockHash = b.lastBlockHash) :
    (acc.updateBlockchainByBlock b).isSome := by
  have hb : b.height ≠ 0 := by omega
  have hfit : ¬ (acc.lastStateBlockHeight + 1 ≠ b.height ∨
      (acc.lastStateBlockHash ≠ b.lastBlockHash ∧ 2 ≤ b.height)) := by
    rintro (hne | ⟨hne, -⟩)
    · exact hne hnext
    · exact hne hlink
  rw [updateBlockchainByBlock, if_neg hb, lastStateBlockHeight_updateMinMaxHeight, if_pos hnext,
    updateStateByNextHeightBlock, lastStateBlockHeight_updateMinMaxHeight,
    lastStateBlockHash_updateMinMaxHeight, if_neg hfit]
  rfl

end

section
variable {unit : Fullunit}

section
variable (hbody : b.body = .fullunit unit)
include hbody

theorem applyBlock_fullunit (hb : b.height ≠ 0) : (acc.applyBlock b).SameState
      { maxBlockHeight := b.height
        lastStateBlockHeight := b.height
        lastStateBlockHash := b.blockHash
        lastFullBlockHeight := b.height
        lastFullBlockHash := b.blockHash
        accountState := unit.accountState
        unconfirmedAccounts := acc.unconfirmedAccounts } := by
  unfold SameState Blockchain.applyBlock updateLastBlockState applyTable
  simp [hbody, hb, forgetMin, setCreateTime]

theorem updateBlockchainByBlock_join (habove : acc.lastStateBlockHeight + 1 < b.height) :
    (acc.applyTable b).updateBlockchainByBlock b =
      some (((acc.updateMinMaxHeight b.height).updateLastBlockState b).setLastStateBlock b) := by
  have htable : acc.applyTable b = acc := by rw [applyTable, hbody]
  have hclass : ¬ b.blockClass ≠ .full := by simp [Xblock.blockClass, hbody]
  have hjoin : acc.lastStateBlockHeight + 1 < b.height ∧ b.isFullunit :=
    ⟨habove, Xblock.isFullunit_iff.mpr ⟨unit, hbody⟩⟩
  rw [htable, updateBlockchainByBlock, if_neg (by omega), lastStateBlockHeight_updateMinMaxHeight,
    if_neg habove.ne, if_pos hjoin, updateStateByFullBlock, if_neg hclass]

theorem sameState_of_fullunit
    (hlast : acc.lastStateBlockHeight < b.height) (hmax : acc.maxBlockHeight < b.height)
    (hunconf : acc.unconfirmedAccounts = acc₀.unconfirmedAccounts)
    (h : (acc.applyTable b).updateBlockchainByBlock b = some acc') :
    acc'.SameState (acc₀.applyBlock b) := by
  have hb : b.height ≠ 0 := by omega
  have happly : acc'.SameState (acc.applyBlock b) := by
    by_cases hnext : acc.lastStateBlockHeight + 1 = b.height
    · exact sameState_of_next hnext hmax h
    · rw [updateBlockchainByBlock_join hbody (by omega)] at h
      cases h
      refine SameState.trans ?_ (applyBlock_fullunit hbody hb).symm
      unfold SameState updateLastBlockState
      simp [hbody, hmax, forgetMin, updateMinMaxHeight, setLastStateBlock]
  refine happly.trans ((applyBlock_fullunit hbody hb).trans (SameState.symm ?_))
  rw [hunconf]
  exact applyBlock_fullunit hbody hb

theorem isSome_updateBlockchainByBlock_fullunit (hlast : acc.lastStateBlockHeight < b.height)
    (hlink : acc.lastStateBlockHeight + 1 = b.height → acc.lastStateBlockHash = b.lastBlockHash) :
    ((acc.applyTable b).updateBlockchainByBlock b).isSome := by
  by_cases hnext : acc.lastStateBlockHeight + 1 = b.height
  · rw [applyTable, hbody]
    exact isSome_updateBlockchainByBlock_next hnext (hlink hnext)
  · rw [updateBlockchainByBlock_join hbody (by omega)]
    rfl

end
end
end
end Blockchain

/-- One block at each height, linked by their hashes, all of the unit level or none of them. -/
structure AccountChain where
  block : Nat → Xblock
  height_block : ∀ n, (block n).height = n
  linked : ∀ n, (block (n + 1)).lastBlockHash = (block n).blockHash
  genesis_hash : (block 0).blockHash ≠ ""
  oneLevel : (∀ n, (block n).isUnit) ∨ ∀ n, ¬ (block n).isUnit

namespace AccountChain
variable (C : AccountChain)

def accountAt : Nat → Blockchain
  | 0 => ({} : Blockchain).applyBlock (C.block 0)
  | n + 1 => (accountAt n).applyBlock (C.block (n + 1))

theorem lastStateBlockHeight_accountAt (n : Nat) : (C.accountAt n).lastStateBlockHeight = n := by
  cases n with
  | zero => exact C.height_block 0
  | succ n => exact C.height_block (n + 1)

theorem lastStateBlockHash_accountAt (n : Nat) :
    (C.accountAt n).lastStateBlockHash = (C.block n).blockHash := by
  cases n <;> rfl

theorem maxBlockHeight_accountAt (n : Nat) : (C.accountAt n).maxBlockHeight = n := by
  cases n with
  | zero => exact C.height_block 0
  | succ n => exact C.height_block (n + 1)

theorem unconfirmedAccounts_applyBlock {acc : Blockchain} {b : Xblock} (hb : b.isUnit) :
    (acc.applyBlock b).unconfirmedAccounts = acc.unconfirmedAccounts := by
  unfold Xblock.isUnit at hb
  unfold Blockchain.applyBlock Blockchain.applyTable Blockchain.updateLastBlockState
  cases hbody : b.body with
  | emptyunit => rfl
  | lightunit unit => rfl
  | fullunit unit => rfl
  | tableblock c units => simp [hbody] at hb
  | container c => simp [hbody] at hb

theorem unconfirmedAccounts_accountAt (hunit : ∀ n, (C.block n).isUnit) (n : Nat) :
    (C.accountAt n).unconfirmedAccounts = ∅ := by
  induction n with
  | zero => exact unconfirmedAccounts_applyBlock (hunit 0)
  | succ n ih => exact (unconfirmedAccounts_applyBlock (hunit (n + 1))).trans ih

theorem isUnit_of_fullunit {h : Nat} {unit : Fullunit} (hbody : (C.block h).body = .fullunit unit)
    (n : Nat) : (C.block n).isUnit := by
  rcases C.oneLevel with hall | hnone
  · exact hall n
  · exact absurd (by rw [Xblock.isUnit, hbody]) (hnone h)

end AccountChain
end TopChain.Store
