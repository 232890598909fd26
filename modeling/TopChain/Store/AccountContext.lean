import TopChain.Data.Transaction
import TopChain.Store.DecayedTgas
import TopChain.Store.PropertyLog

/-!
# The account context

`xaccount_context_t`, the state in which the transactions of one unit are executed.
-/
namespace TopChain.Store

open TopChain.Lib TopChain.Data

/-- The errors of execution, from `xunit_service_error.h`, `xstore_error.h` and
`xverifier_errors.h`. -/
inductive TxError where
  | accountBalanceNotEnough | accountNotExist | transferLessThanSafeAmount
  | lockLessMinDeposit | lockTokenKeySame | unlockTokenKeyNotExist | unlockTokenTimeNotReach
  | subAccountExist | subAccountOverflow | parentAccountExist | parentAccountNotExist
  | unitHeightShouldNotZero | setKeysKeyIllegal | nativeProperty
  | balanceNotEnough | minDepositError | actionNotValid | addrTypeError | signError
  | parseTypeInvalid | contractExecNoPropertyChange
  | notEnoughPledgeTokenTgas | notEnoughPledgeTokenDisk | notEnoughDeposit | tooMuchDeposit
  | notEnoughToken | nonPositivePledgeToken | pledgeTooMuchToken
  | pledgeSourceTargetMismatch | contractNotEnoughTgas | pledgeRedeemVoteErr
  | srcDstAddrSame | txMinDepositInvalid | transferMinAmountInvalid | transferAmountOverMax
  | srcDstAmountNotSame | illegal | txNonceNotMatch
  | vm (code : Nat)
deriving DecidableEq, Repr

def aliasNameKey : String := "@3"
def lockTokenKey : String := "@4"
def lockTokenSumKey : String := "@5"
def accountKeysKey : String := "@7"
def accountVoteKey : String := "@8"
def accountTransferKey : String := "@9"
def accountDataKey : String := "@10"
def accountConsensusKey : String := "@11"
def parentAccountKey : String := "@12"
def subAccountKey : String := "@13"
def contractSubAccountKey : String := "@14"
def contractParentAccountKey : String := "@15"
def nativeTokenKey : String := "@16"
def usedTgasKey : String := "@30"
def lastTxHourKey : String := "@32"
def contractTgasLimitKey : String := "@37"
def pledgeVoteKey : String := "@45"
def expireVoteTokenKey : String := "@46"

def maxSubAccount : Nat := 256

def maxNormalContractAccount : Nat := 32

structure VoteRecord where
  voteNum : Nat
  duration : Nat
  lockTime : Nat
deriving DecidableEq, Repr

structure LockRecord where
  clock : Nat
  params : LockParams
deriving DecidableEq, Repr

inductive NativeObj where
  | number (n : Nat)
  | text (s : String)
  | texts (items : List String)
  | votes (items : List VoteRecord)
  | fields (map : SortedMap String String)
  | locks (map : SortedMap String LockRecord)
  | tokens (map : SortedMap String Nat)
deriving DecidableEq

def NativeObj.objType : NativeObj → ObjType
  | number _ | text _ => .string
  | texts _ | votes _ => .deque
  | fields _ | locks _ | tokens _ => .map

structure NativeProperty where
  objs : SortedMap String NativeObj
  modifyObjs : List String
deriving DecidableEq

namespace NativeProperty
variable (p : NativeProperty)

/-- The `native_` setters; `property_set` refuses to replace an object of another type. -/
def put? (name : String) (obj : NativeObj) : Option NativeProperty :=
  match p.objs.find? name with
  | none => some ⟨p.objs.insert name obj, p.modifyObjs.insert name⟩
  | some old =>
    if old.objType = obj.objType then
      some ⟨p.objs.insert name obj, p.modifyObjs.insert name⟩
    else none

def put (name : String) (obj : NativeObj) : NativeProperty := (p.put? name obj).getD p

theorem objs_put {p : NativeProperty} {name : String} {obj : NativeObj}
    (h : ∀ old, p.objs.find? name = some old → old.objType = obj.objType) :
    (p.put name obj).objs = p.objs.insert name obj := by
  unfold put put?
  split
  · rfl
  · rename_i old hold
    rw [if_pos (h old hold)]
    rfl

/-- The locked token sum is a string property if it is there at all. -/
def SumTyped : Prop :=
  ∀ obj, p.objs.find? lockTokenSumKey = some obj → obj.objType = .string

def number (name : String) : Nat :=
  match p.objs.find? name with
  | some (.number n) => n
  | _ => 0

def text? (name : String) : Option String :=
  match p.objs.find? name with
  | some (.text s) => some s
  | _ => none

def texts? (name : String) : Option (List String) :=
  match p.objs.find? name with
  | some (.texts items) => some items
  | _ => none

def votes : List VoteRecord :=
  match p.objs.find? pledgeVoteKey with
  | some (.votes items) => items
  | _ => []

def locks : SortedMap String LockRecord :=
  match p.objs.find? lockTokenKey with
  | some (.locks map) => map
  | _ => .empty

def tokens : SortedMap String Nat :=
  match p.objs.find? nativeTokenKey with
  | some (.tokens map) => map
  | _ => .empty

def keys : SortedMap String String :=
  match p.objs.find? accountKeysKey with
  | some (.fields map) => map
  | _ => .empty

end NativeProperty

structure Account where
  balance : Nat := 0
  lockBalance : Nat := 0
  lockTgas : Nat := 0
  tgasBalance : Nat := 0
  diskBalance : Nat := 0
  voteBalance : Nat := 0
  unvoteNum : Nat := 0
  chainHeight : Nat := 0
  sendTransNumber : Nat := 0
  sendTransHash : String := ""
  unconfirmSendtxNum : Nat := 0
  nativeNames : List String := []
deriving DecidableEq

structure Context where
  address : String
  account : Account
  native : NativeProperty
  cmd : AccountCmd
  contractTxs : List ConsTx := []
  balanceChange : Int := 0
  pledgeTgasChange : Int := 0
  pledgeDiskChange : Int := 0
  pledgeVoteChange : Int := 0
  lockBalanceChange : Int := 0
  lockTgasChange : Int := 0
  unvoteNumChange : Int := 0
  curUsedTgas : Nat := 0
  tgasLimit : Nat := 0
  timerHeight : Nat := 0
  sysTotalLockTgasToken : Nat := 0

namespace Context
variable (G : ChainConfig) (c : Context)

/-- The constructor with `set_context_para`: the native properties are shared by their pointers. -/
def new (address : String) (account : Account) (objs : SortedMap String NativeObj)
    (timerHeight sysTotalLockTgasToken : Nat) : Context :=
  { address
    account := { account with nativeNames := objs.entries.map (·.1) }
    native := ⟨objs, []⟩
    cmd := .new
    timerHeight
    sysTotalLockTgasToken }

def ignoring (r : Except TxError Context) : Context :=
  match r with
  | .ok c' => c'
  | .error _ => c

def funds : Int := c.account.balance + c.balanceChange

def setBalanceChange (change : Int) : Context :=
  { c with balanceChange := c.balanceChange + change }

def setLockBalanceChange (change : Int) : Context :=
  { c with lockBalanceChange := c.lockBalanceChange + change }

def setLockTgasChange (change : Int) : Context :=
  { c with lockTgasChange := c.lockTgasChange + change }

def setVoteBalanceChange (change : Int) : Context :=
  { c with pledgeVoteChange := c.pledgeVoteChange + change }

def setUnvoteNumChange (change : Int) : Context :=
  { c with unvoteNumChange := c.unvoteNumChange + change }

def setNative (name : String) (obj : NativeObj) : Context :=
  { c with native := c.native.put name obj }

def setNative? (name : String) (obj : NativeObj) : Except TxError Context :=
  match c.native.put? name obj with
  | some native => .ok { c with native }
  | none => .error .nativeProperty

def lockTokenSum : Nat := c.native.number lockTokenSumKey

def setLockTokenSum (sum : Nat) : Context := c.setNative lockTokenSumKey (.number sum)

def canWork : Bool := G.isSysContractAddress c.address || G.minAccountDeposit ≤ c.lockTokenSum

def topTokenTransferOut (amount gasFee serviceFee : Nat) : Except TxError Context :=
  if c.address = zecRewardAddr then .ok c
  else if amount ≠ 0 && !c.canWork G then .error .accountBalanceNotEnough
  else
    -- both sides are cast to `int64_t`, and the change takes the fee as such a word
    let deductFee := ((amount + gasFee + serviceFee : Nat) : Int).bmod (2 ^ 64)
    if c.funds.bmod (2 ^ 64) < deductFee then .error .accountBalanceNotEnough
    else .ok (c.setBalanceChange (-deductFee))

theorem topTokenTransferOut_cases {G : ChainConfig} {c c' : Context}
    {amount gasFee serviceFee : Nat}
    (h : c.topTokenTransferOut G amount gasFee serviceFee = .ok c') :
    (c.address = zecRewardAddr ∧ c' = c) ∨ ∃ fee : Int,
      fee = ((amount + gasFee + serviceFee : Nat) : Int).bmod (2 ^ 64) ∧
      fee ≤ c.funds.bmod (2 ^ 64) ∧ c' = c.setBalanceChange (-fee) := by
  unfold topTokenTransferOut at h
  split at h
  · exact .inl ⟨‹_›, (Except.ok.inj h).symm⟩
  · split at h
    · cases h
    · dsimp only at h
      split at h
      · cases h
      · exact .inr ⟨_, rfl, not_lt.mp ‹_›, (Except.ok.inj h).symm⟩

def otherTokenTransferOut (asset : Asset) : Except TxError Context :=
  match c.native.tokens.find? asset.tokenName with
  | some held =>
    if asset.amount.toNat ≤ held then
      c.setNative? nativeTokenKey
        (.tokens (c.native.tokens.insert asset.tokenName (held - asset.amount.toNat)))
    else .error .accountBalanceNotEnough
  | none => .error .accountBalanceNotEnough

def tokenTransferOut (asset : Asset) : Except TxError Context :=
  if asset.isTopToken then c.topTokenTransferOut G asset.amount.toNat 0 0
  else c.otherTokenTransferOut asset

def topTokenTransferIn (amount : Nat) : Except TxError Context :=
  if amount = 0 then .ok c
  else if G.isSysContractAddress c.address then .ok (c.setBalanceChange amount)
  else
    let lockSum := c.lockTokenSum
    if lockSum = 0 then
      if amount < 1 then .error .transferLessThanSafeAmount
      else
        let lockAmount := if amount > G.minAccountDeposit then G.minAccountDeposit else amount
        .ok ((c.setLockTokenSum lockAmount).setBalanceChange (amount - lockAmount : Nat))
    else if lockSum < G.minAccountDeposit then
      let needLock := G.minAccountDeposit - lockSum
      let lockAmount := if amount > needLock then needLock else amount
      .ok ((c.setLockTokenSum (lockAmount + lockSum)).setBalanceChange
        (amount - lockAmount : Nat))
    else .ok (c.setBalanceChange amount)

def otherTokenTransferIn (asset : Asset) : Except TxError Context :=
  if c.account.balance = 0 && c.lockTokenSum = 0 && !G.isSysContractAddress c.address then
    .error .accountNotExist
  else
    c.setNative? nativeTokenKey (.tokens (c.native.tokens.insert asset.tokenName
      ((c.native.tokens.find? asset.tokenName).getD 0 + asset.amount.toNat)))

def tokenTransferIn (asset : Asset) : Except TxError Context :=
  if asset.isTopToken then c.topTokenTransferIn G asset.amount.toNat
  else c.otherTokenTransferIn G asset

def lockToken (tranHash : String) (amount : Nat) (params : LockParams) : Except TxError Context :=
  if !c.canWork G then .error .accountBalanceNotEnough
  else if (c.funds % 2 ^ 64).toNat < amount then .error .lockLessMinDeposit
  else if (c.native.locks.find? tranHash).isSome then .error .lockTokenKeySame
  else
    .ok (((c.setBalanceChange (-amount)).setNative lockTokenKey
      (.locks (c.native.locks.insert tranHash ⟨c.timerHeight, params⟩))).setLockTokenSum
        ((c.lockTokenSum + amount) % 2 ^ 64))

def lockExpired (r : LockRecord) : Bool :=
  r.params.duration ≤ Word.wsub 64 c.timerHeight r.clock * 10 % 2 ^ 64

def releaseLock (lockSum : Nat) (lockHash : String) (amount : Nat) : Context :=
  ((c.setNative lockTokenKey (.locks (c.native.locks.erase lockHash))).setLockTokenSum
    (Word.wsub 64 lockSum amount)).setBalanceChange amount

def unlockToken (lockHash : String) : Except TxError Context :=
  if !c.canWork G then .error .accountBalanceNotEnough
  else
    match c.native.locks.find? lockHash with
    | none => .error .unlockTokenKeyNotExist
    | some r =>
      if r.params.byTime && !c.lockExpired r then .error .unlockTokenTimeNotReach
      else .ok (c.releaseLock c.lockTokenSum lockHash r.params.amount.toNat)

/-- `unlock_all_token`: every lock whose time has come, each against the sum of the locked
tokens read at the start. -/
def unlockAllToken : Except TxError Context :=
  if !c.canWork G then .error .accountBalanceNotEnough
  else
    .ok (c.native.locks.entries.foldl (fun d e =>
      if e.2.params.byTime && c.lockExpired e.2 then
        d.releaseLock c.lockTokenSum e.1 e.2.params.amount.toNat
      else d) c)

def accountNumber (name : String) : Nat :=
  if name ∈ c.account.nativeNames then c.native.number name else 0

def tokenPrice : Nat :=
  topUnit * (G.totalGasShard * G.validatorGroupCount) % 2 ^ 64 /
    ((c.sysTotalLockTgasToken + G.initialTotalLockedToken) % 2 ^ 64) % 2 ^ 32

def freeTgas : Nat :=
  let totalAsset := (c.account.balance + c.account.lockBalance + c.account.tgasBalance +
    c.account.diskBalance + c.account.voteBalance) % 2 ^ 64
  if G.minFreeGasBalance ≤ totalAsset then G.freeGas else 0

def totalTgas : Nat :=
  min ((c.account.tgasBalance * c.tokenPrice G % 2 ^ 64 / topUnit + c.freeTgas G) % 2 ^ 64)
    (if G.isUserContractAddress c.address then G.maxGasContract else G.maxGasAccount)

/-- The decay as the account computes it, from its own native properties. -/
def accountDecayedTgas : Nat :=
  (blockchainDecayedTgas (.ofNat (c.accountNumber usedTgasKey))
    (.ofNat (c.accountNumber lastTxHourKey)) (.ofNat c.timerHeight) G.usedgasDecayCycle).toNat

def availableTgas : Nat := c.totalTgas G - c.accountDecayedTgas G

def calcDecayedTgas : Nat :=
  (contextDecayedTgas (.ofNat (c.native.number usedTgasKey))
    (.ofNat (c.native.number lastTxHourKey)) (.ofNat c.timerHeight) G.usedgasDecayCycle).toNat

def setUsedTgas (num : Nat) : Context :=
  (c.setNative usedTgasKey (.number (num % 2 ^ 64))).setNative lastTxHourKey
    (.number c.timerHeight)

def incrUsedTgas (num : Nat) : Context := c.setUsedTgas (num + c.calcDecayedTgas G)

def checkUsedTgas (usage deposit : Nat) : Nat × Nat × Option TxError :=
  let available := c.availableTgas G
  if (available + deposit / G.txDepositGasExchangeRatio) % 2 ^ 64 < usage then
    (available, deposit, some .notEnoughPledgeTokenTgas)
  else if available < usage then
    (available, (usage - available) * G.txDepositGasExchangeRatio % 2 ^ 64, none)
  else (usage, 0, none)

def updateTgasSender (usage deposit : Nat) : Context × Nat × Option TxError :=
  let check := c.checkUsedTgas G usage deposit
  (if check.2.2 = none then c.incrUsedTgas G check.1 else c, check.2)

theorem updateTgasSender_of_error {G : ChainConfig} {c : Context} {usage deposit : Nat}
    {out : Context × Nat × Option TxError} {e : TxError}
    (hout : c.updateTgasSender G usage deposit = out) (h : out.2.2 = some e) : out.1 = c := by
  obtain ⟨c', used, ret⟩ := out
  simp only [updateTgasSender, Prod.mk.injEq] at hout
  obtain rfl : ret = some e := h
  show c' = c
  rw [← hout.1, hout.2]
  exact if_neg (Option.some_ne_none e)

/-- `update_tgas_contract_recv`, with the deposit used and what is left of the sender's
frozen gas. -/
def updateTgasContractRecv (senderUsedDeposit deposit frozenTgas dealUsedTgas : Nat) :
    Context × Nat × Nat × Option TxError :=
  if dealUsedTgas ≤ frozenTgas then (c, 0, frozenTgas - dealUsedTgas, none)
  else
    let deal := dealUsedTgas - frozenTgas
    let minTgas := min (c.availableTgas G) (min frozenTgas c.tgasLimit)
    if deal ≤ minTgas then
      ({ c with curUsedTgas := deal % 2 ^ 32 }.setUsedTgas (c.calcDecayedTgas G + deal), 0, 0,
        none)
    else
      let c' := { c with curUsedTgas := minTgas % 2 ^ 32 }
      let deal := deal - minTgas
      let depositTgas :=
        Word.wsub 64 (Word.wsub 64 deposit senderUsedDeposit / G.txDepositGasExchangeRatio)
          frozenTgas
      if depositTgas < deal then (c', 0, 0, some .contractNotEnoughTgas)
      else
        (c'.setUsedTgas (c.calcDecayedTgas G + minTgas), deal * G.txDepositGasExchangeRatio, 0,
          none)

/-- `calc_resource`, with the gas and the deposit used. The differences and sums of deposits
are 32-bit. -/
def calcResource (tgas deposit usedDeposit : Nat) : Context × Nat × Nat × Option TxError :=
  let usedTgas := c.calcDecayedTgas G
  let available := c.availableTgas G
  if available + Word.wsub 32 deposit usedDeposit / G.txDepositGasExchangeRatio < tgas then
    ((c.setUsedTgas (available + usedTgas)).setBalanceChange (-deposit),
      Word.wsub 64 available usedTgas, deposit, some .notEnoughPledgeTokenTgas)
  else if available < tgas then
    let usedDeposit : Nat :=
      (usedDeposit + (tgas - available) * G.txDepositGasExchangeRatio) % 2 ^ 32
    ((c.setUsedTgas (available + usedTgas)).setBalanceChange (-usedDeposit), tgas, usedDeposit,
      none)
  else
    ((c.setUsedTgas (usedTgas + tgas)).setBalanceChange (-usedDeposit), tgas, usedDeposit, none)

def setPledgeTokenTgas (num : Nat) : Except TxError Context :=
  if num = 0 then .error .nonPositivePledgeToken
  else if c.account.balance < num then .error .notEnoughToken
  else
    .ok { c with
      pledgeTgasChange := c.pledgeTgasChange + num
      account := { c.account with tgasBalance := num + c.account.tgasBalance } }

def redeemPledgeTokenTgas (num : Nat) : Except TxError Context :=
  if c.account.tgasBalance < num then .error .notEnoughPledgeTokenTgas
  else
    .ok { c with
      pledgeTgasChange := c.pledgeTgasChange - num
      account := { c.account with tgasBalance := c.account.tgasBalance - num } }

def setPledgeTokenDisk (num : Nat) : Except TxError Context :=
  if c.account.balance < num then .error .pledgeTooMuchToken
  else
    .ok { c with
      pledgeDiskChange := c.pledgeDiskChange + num
      account := { c.account with diskBalance := num + c.account.diskBalance } }

def redeemPledgeTokenDisk (num : Nat) : Except TxError Context :=
  if c.account.diskBalance < num then .error .notEnoughPledgeTokenDisk
  else
    .ok { c with
      pledgeDiskChange := c.pledgeDiskChange - num
      account := { c.account with diskBalance := c.account.diskBalance - num } }

def setVotes (items : List VoteRecord) : Context := c.setNative pledgeVoteKey (.votes items)

def mergePledgeVoteProperty : Context :=
  let expired := c.native.votes.filter fun v =>
    v.duration * 24 * 60 * 6 ≤ Word.wsub 64 c.timerHeight v.lockTime
  let voteSum : Nat := (expired.map (·.voteNum)).sum % 2 ^ 64
  let expireToken :=
    ((expired.filter (·.duration ≠ 0)).map fun v => G.voteToken v.voteNum v.duration).sum
  let c := if expired.isEmpty then c else c.setVotes (c.native.votes.diff expired)
  let c := if 0 < voteSum then c.setVotes (c.native.votes ++ [⟨voteSum, 0, 0⟩]) else c
  if 0 < expireToken then
    c.setNative expireVoteTokenKey (.number (expireToken + c.native.number expireVoteTokenKey))
  else c

/-- The loop of `insert_pledge_vote_property`. The lock time is that of the record looked at last.
-/
def mergeVote (timerHeight voteNum duration : Nat) (votes : List VoteRecord) :
    Nat → List VoteRecord → Nat × Nat × List VoteRecord
  | lockTime, [] => (voteNum, lockTime, votes)
  | _, v :: rest =>
    if v.duration = duration && Word.wsub 64 timerHeight v.lockTime < 24 * 60 * 6 then
      ((voteNum + v.voteNum) % 2 ^ 64, v.lockTime, votes.erase v)
    else mergeVote timerHeight voteNum duration votes v.lockTime rest

def insertPledgeVoteProperty (voteNum duration : Nat) : Except TxError Context :=
  if 128 ≤ c.native.votes.length then .error .pledgeRedeemVoteErr
  else
    let (voteNum, lockTime, votes) :=
      mergeVote c.timerHeight voteNum duration c.native.votes 0 c.native.votes
    c.setNative? pledgeVoteKey (.votes (votes ++
      [⟨voteNum, duration, if lockTime = 0 then c.timerHeight else lockTime⟩]))

def updatePledgeVoteProperty (voteNum duration : Nat) : Except TxError Context :=
  (c.mergePledgeVoteProperty G).insertPledgeVoteProperty voteNum duration

def redeemPledgeVoteProperty (num : Nat) : Except TxError Context :=
  match c.native.votes.find? (·.duration = 0) with
  | none => .error .pledgeRedeemVoteErr
  | some v =>
    if v.voteNum < num then .error .pledgeRedeemVoteErr
    else
      let expireToken := c.native.number expireVoteTokenKey
      let change := num * expireToken % 2 ^ 64 / v.voteNum
      let c := c.setVotes (c.native.votes.erase v)
      let c := c.setNative expireVoteTokenKey (.number (expireToken - change))
      let c :=
        if 0 < v.voteNum - num then c.setVotes (c.native.votes ++ [⟨v.voteNum - num, 0, 0⟩])
        else c
      .ok (((c.setUnvoteNumChange (-num)).setBalanceChange change).setVoteBalanceChange (-change))

def checkChild (key : String) (max : Nat) (value : String) : Except TxError Unit :=
  match c.native.texts? key with
  | none => .ok ()
  | some items =>
    if value ∈ items then .error .subAccountExist
    else if max ≤ items.length then .error .subAccountOverflow
    else .ok ()

def setChild (key : String) (value : String) : Except TxError Context :=
  c.setNative? key (.texts ((c.native.texts? key).getD [] ++ [value]))

def setParent (key : String) (amount : Nat) (value : String) : Except TxError Context :=
  if (c.native.text? key).isSome then .error .parentAccountExist
  else do
    let balance := if amount > G.minAccountDeposit then amount - G.minAccountDeposit else 0
    let c := c.setLockTokenSum G.minAccountDeposit
    -- the answer of the transfer is not looked at
    let c := c.ignoring (c.topTokenTransferIn G balance)
    c.setNative? key (.text value)

def subAccountCheck (value : String) : Except TxError Unit :=
  c.checkChild subAccountKey maxSubAccount value

def subContractSubAccountCheck (value : String) : Except TxError Unit :=
  c.checkChild contractSubAccountKey maxNormalContractAccount value

def setSubAccount (value : String) : Except TxError Context := c.setChild subAccountKey value

def setContractSubAccount (value : String) : Except TxError Context :=
  c.setChild contractSubAccountKey value

def setParentAccount (amount : Nat) (value : String) : Except TxError Context :=
  c.setParent G parentAccountKey amount value

def setContractParentAccount (amount : Nat) (value : String) : Except TxError Context :=
  c.setParent G contractParentAccountKey amount value

def accountAliasNameSet (name : String) : Except TxError Context :=
  if !c.canWork G then .error .accountBalanceNotEnough
  else if c.account.chainHeight = 0 then .error .unitHeightShouldNotZero
  else c.setNative? aliasNameKey (.text name)

def isAccountKey (key : String) : Bool :=
  key = accountVoteKey || key = accountTransferKey || key = accountDataKey ||
    key = accountConsensusKey

def accountSetKeys (key value : String) : Except TxError Context :=
  if !c.canWork G then .error .accountBalanceNotEnough
  else if !isAccountKey key then .error .setKeysKeyIllegal
  else c.setNative? accountKeysKey (.fields (c.native.keys.insert key value))

end Context
end TopChain.Store
