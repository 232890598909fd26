import TopChain.Cert.Receipt

/-!
# Transactions as the executor sees them

`xtransaction_t` with its two actions parsed, and `xcons_transaction_t`.
-/
namespace TopChain.Data

open TopChain.Cert

inductive AddrType where
  | userAccount | subAccount | customContract | nativeContract | blackHole | other
deriving DecidableEq, Repr

def topUnit : Nat := 1000000

def totalIssuance : Nat := 20000000000000000

def minVoteLockDays : Nat := 30

def zecRewardAddr : String := "T200024uV5yB1ZCnXe7SbViA86ufhouFjpDKNRd3X@0"

def blackHoleAddr : String := "T!000131R4UAjgF6ZBWnwZESMWx4nCnqL1GhM3nT3"

structure ChainConfig where
  minAccountDeposit : Nat := 0
  minTxDeposit : Nat := 100000
  txDepositGasExchangeRatio : Nat := 20
  usedgasDecayCycle : UInt32 := 8640
  beaconTxFee : Nat := 100000000
  minFreeGasBalance : Nat := 100000000
  freeGas : Nat := 25000
  totalGasShard : Nat := 2160000000000
  validatorGroupCount : Nat := 4
  initialTotalLockedToken : Nat := 1000000000000000
  maxGasContract : Nat := 50000000
  maxGasAccount : Nat := 1000000
  cpuGasExchangeRatio : Nat := 40
  unlockGasStakedDelayTime : Nat := 8640
  minStakeVotesNum : Nat := 1
  aliasNameMaxLen : Nat := 32
  fullunitContainOfUnitNum : Nat := 21
  voteToken : Nat → Nat → Nat
  addrType : String → AddrType
  isBeaconZone : String → Bool

namespace ChainConfig
variable (G : ChainConfig) (addr : String)

def isSysContractAddress : Bool := G.addrType addr = .nativeContract

def isUserContractAddress : Bool := G.addrType addr = .customContract

def isContractAddress : Bool := G.isSysContractAddress addr || G.isUserContractAddress addr

def isSubAccountAddress : Bool := G.addrType addr = .subAccount

def isBlackHoleAddress : Bool := G.addrType addr = .blackHole

def isBeaconContractAddress : Bool := G.isSysContractAddress addr && G.isBeaconZone addr

end ChainConfig

structure Asset where
  tokenName : String := "TOP"
  amount : UInt64
deriving DecidableEq, Repr

def Asset.isTopToken (a : Asset) : Bool := a.tokenName = "" || a.tokenName = "TOP"

/-- The parameters of `xaction_lock_account_token`: the lock ends after a duration in seconds,
or by signatures. -/
structure LockParams where
  amount : UInt64
  byTime : Bool
  duration : Nat
deriving DecidableEq, Repr

/-- The transaction types with their parsed actions; a check of the form is kept as its outcome. -/
inductive TxAction where
  | invalid
  | createContractAccount (assetOut : Asset) (tgasLimit : Nat) (actionTypes : Bool)
      (authorized : Bool)
  | runContract (assetOut : Asset)
  | transfer (assetOut assetIn : Asset)
  | setAccountKeys (key value : String)
  | lockToken (params : LockParams)
  | unlockToken (lockTranHash : String)
  | aliasName (name : String)
  | createSubAccount (assetOut assetIn : Asset) (actionTypes : Bool) (signed : Bool)
  | vote (votes : List (String × Nat))
  | abolishVote (votes : List (String × Nat))
  | pledgeTokenTgas (asset : Asset)
  | redeemTokenTgas (asset : Asset)
  | pledgeTokenDisk (asset : Asset)
  | redeemTokenDisk (asset : Asset)
  | pledgeTokenVote (voteNum : Nat) (lockDuration : Nat)
  | redeemTokenVote (voteNum : Nat)
deriving DecidableEq, Repr

structure Transaction where
  action : TxAction
  sourceAddr : String
  targetAddr : String
  deposit : UInt32
  txLen : UInt16
  lastNonce : Nat
  lastHash : Nat
  digest : String
deriving DecidableEq, Repr

def Transaction.txNonce (tx : Transaction) : Nat := tx.lastNonce + 1

inductive ExecStatus where
  | success | fail
deriving DecidableEq, Repr

structure ExecState where
  usedDisk : Nat := 0
  usedTgas : Nat := 0
  usedDeposit : Nat := 0
  beaconServiceFee : Nat := 0
  selfBurnBalance : Nat := 0
  sendTxLockTgas : Nat := 0
  recvTxUseSendTxTgas : Nat := 0
  execStatus : ExecStatus := .success
deriving DecidableEq, Repr

/-- The subtype of the output entity that a receipt proves; `create_txreceipts` makes no
others. -/
inductive ReceiptStage where
  | send | recv
deriving DecidableEq, Repr

/-- `xcons_transaction_t`: the receipt is kept as its subtype and execution state. -/
structure ConsTx where
  tx : Transaction
  receipt : Option (ReceiptStage × ExecState) := none
  execState : ExecState := {}
deriving DecidableEq, Repr

namespace ConsTx
variable (t : ConsTx)

def subtype (G : ChainConfig) : TxSubtype :=
  match t.receipt with
  | none =>
    if t.tx.sourceAddr = t.tx.targetAddr || G.isBlackHoleAddress t.tx.targetAddr then .self
    else .send
  | some (.send, _) => .recv
  | some (.recv, _) => .confirm

def lastAction : ExecState :=
  match t.receipt with
  | none => {}
  | some (_, state) => state

end ConsTx
end TopChain.Data
