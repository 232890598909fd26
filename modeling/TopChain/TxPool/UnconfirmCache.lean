import TopChain.Cert.Receipt
import TopChain.Lib.SortedMap
import Mathlib.Data.String.Basic

/-!
# The cache of unconfirmed send transactions

`xunconfirm_sendtx_cache_t` of a table.
-/
namespace TopChain.TxPool

open TopChain.Lib TopChain.Cert

variable {δ : Type}

structure UnitTx (δ : Type) where
  subtype : TxSubtype
  digest : δ
deriving DecidableEq

structure LightUnit (δ : Type) where
  txs : List (UnitTx δ)
  unconfirmSendtxNum : UInt16
  prevSendtxConfirmed : Bool

namespace LightUnit

def ofSubtype (txs : List (UnitTx δ)) (t : TxSubtype) : List δ :=
  (txs.filter (·.subtype = t)).map (·.digest)

def sends (l : LightUnit δ) : List δ := ofSubtype l.txs .send

def confirms (l : LightUnit δ) : List δ := ofSubtype l.txs .confirm

/-- The constructor of `xlightunit_output_resource_t`: the flag is taken before the unit's own
sends are added. -/
def make (accountUnconfirmSendtxNum : UInt16) (txs : List (UnitTx δ)) : LightUnit δ :=
  let rest := accountUnconfirmSendtxNum - UInt16.ofNat (ofSubtype txs .confirm).length
  { txs
    unconfirmSendtxNum := rest + UInt16.ofNat (ofSubtype txs .send).length
    prevSendtxConfirmed := rest = 0 }

end LightUnit

inductive UnitBody (δ : Type) where
  | nil
  | light (unit : LightUnit δ)
  | full

/-- `extended` says that the certificate has an extend cert and extend data. -/
structure AccountUnit (δ : Type) where
  height : Nat
  connected : Bool
  executed : Bool
  extended : Bool
  body : UnitBody δ

structure SendReceipt (δ : Type) where
  digest : δ
  unitHeight : Nat
deriving DecidableEq

namespace AccountUnit

def createTxreceipt (u : AccountUnit δ) (tx : UnitTx δ) : Option (SendReceipt δ) :=
  if u.extended then some ⟨tx.digest, u.height⟩ else none

def createSendTxreceipts (u : AccountUnit δ) (txs : List (UnitTx δ)) :
    Option (List (SendReceipt δ)) :=
  (txs.filter (·.subtype = .send)).mapM u.createTxreceipt

end AccountUnit

structure UnitStore (δ : Type) where
  latestCommittedBlock : Option (AccountUnit δ)
  loadBlockObject : Nat → Option (AccountUnit δ)

inductive UpdateResult where
  | success | stateBehind | heightNotMatch | notExist
deriving DecidableEq, Repr

section
variable [LinearOrder δ]

structure AccountCache (δ : Type) [LinearOrder δ] where
  accountMaxHeight : Nat := 0
  cacheMaxHeight : Nat := 0
  receipts : SortedMap δ (SendReceipt δ) := .empty

namespace AccountCache

def pushReceipt (c : AccountCache δ) (r : SendReceipt δ) : AccountCache δ :=
  { c with receipts := (c.receipts.emplace r.digest r).1 }

def popReceipt (c : AccountCache δ) (txhash : δ) : AccountCache δ :=
  { c with receipts := c.receipts.erase txhash }

def popAllReceipt (c : AccountCache δ) : AccountCache δ := { c with receipts := .empty }

def hasTxhashReceipt (c : AccountCache δ) (txhash : δ) : Bool := (c.receipts.find? txhash).isSome

def updateByUnit (u : AccountUnit δ) (c : AccountCache δ) : Option (AccountCache δ) :=
  match u.body with
  | .light l => do
    let receipts ← u.createSendTxreceipts l.txs
    let c := receipts.foldl pushReceipt c
    let c := l.confirms.foldl popReceipt c
    some { c with cacheMaxHeight := u.height }
  | _ => none

/-- `traverse_units_and_update_receipt_cache`, from the back of the list. -/
def traverseUnitsAndUpdateReceiptCache (c : AccountCache δ) (units : List (AccountUnit δ)) :
    Option (AccountCache δ) :=
  let c :=
    match units.getLast? with
    | some beginUnit =>
      if c.cacheMaxHeight ≠ 0 && c.cacheMaxHeight + 1 < beginUnit.height then c.popAllReceipt else c
    | none => c
  units.foldrM updateByUnit c

end AccountCache

namespace UnitStore
variable (S : UnitStore δ)

/-- The loop of `traverse_and_get_unconfirm_units`, from a block down. -/
def traverseAndGetUnconfirmUnits (beginHeight : Nat) :
    Nat → AccountUnit δ → Option (List (AccountUnit δ))
  | n, block =>
    match block.body with
    | .light l =>
      if l.prevSendtxConfirmed || block.height ≤ beginHeight + 1 then some [block]
      else
        match n with
        | 0 => none
        | n + 1 => do
          let prev ← S.loadBlockObject (block.height - 1)
          let units ← traverseAndGetUnconfirmUnits beginHeight n prev
          some (block :: units)
    | _ => none

def updateCache (c : AccountCache δ) (lastCommittedUnit : AccountUnit δ) :
    Option (AccountCache δ) := do
  let units ← S.traverseAndGetUnconfirmUnits c.cacheMaxHeight lastCommittedUnit.height
    lastCommittedUnit
  c.traverseUnitsAndUpdateReceiptCache units

end UnitStore

structure UnconfirmCache (δ : Type) [LinearOrder δ] where
  accountsCache : SortedMap String (AccountCache δ) := .empty

namespace UnconfirmCache

def clearAccountCache (c : UnconfirmCache δ) (address : String) : UnconfirmCache δ :=
  ⟨c.accountsCache.erase address⟩

def findAndCreateAccountCache (c : UnconfirmCache δ) (address : String) (accountHeight : Nat) :
    AccountCache δ :=
  { (c.accountsCache.find? address).getD {} with accountMaxHeight := accountHeight }

def setAccountCache (c : UnconfirmCache δ) (address : String) (account : AccountCache δ) :
    UnconfirmCache δ :=
  ⟨c.accountsCache.insert address account⟩

def checkAndUpdateCache (S : UnitStore δ) (c : UnconfirmCache δ) (address : String)
    (unitHeight : Nat) : Option (UnconfirmCache δ × UpdateResult) :=
  match S.latestCommittedBlock with
  | none => some (c, .stateBehind)
  | some unit =>
    if unit.height = 0 || !(unit.connected && unit.executed) then some (c, .stateBehind)
    else if unitHeight ≠ 0 && unitHeight ≠ unit.height then some (c, .heightNotMatch)
    else
      match unit.body with
      | .full => some (c.clearAccountCache address, .notExist)
      | .nil => none
      | .light l =>
        if l.unconfirmSendtxNum = 0 then some (c.clearAccountCache address, .notExist)
        else
          let account := c.findAndCreateAccountCache address unit.height
          if account.cacheMaxHeight = unit.height then
            some (c.setAccountCache address account, .success)
          else do
            let account ← S.updateCache account unit
            some (c.setAccountCache address account, .success)

/-- The account's cache has the receipt of the send transaction. -/
def Holds (c : UnconfirmCache δ) (address : String) (txhash : δ) : Prop :=
  ∃ account, c.accountsCache.find? address = some account ∧ account.hasTxhashReceipt txhash = true

end UnconfirmCache
end
end TopChain.TxPool
