import TopChain.TxExecutor.Fee

/-!
# The execution of a transaction

`xtransaction_context_t` and the classes of the transaction types.
-/
namespace TopChain.TxExecutor

open TopChain.Lib TopChain.Data TopChain.Store

namespace ExecEnv
variable (X : ExecEnv)

def check (t : ConsTx) : Except TxError Unit :=
  match t.tx.action with
  | .invalid => .error .parseTypeInvalid
  | .createContractAccount out _ actionTypes authorized =>
    if !out.isTopToken || out.amount.toNat < X.config.minAccountDeposit then
      .error .minDepositError
    else if !actionTypes then .error .actionNotValid
    else if !X.config.isUserContractAddress t.tx.targetAddr then .error .addrTypeError
    else if !authorized then .error .signError
    else .ok ()
  | .transfer assetOut assetIn =>
    if t.tx.sourceAddr = t.tx.targetAddr then .error .srcDstAddrSame
    else if !X.config.isSysContractAddress t.tx.sourceAddr &&
        t.tx.deposit.toNat < X.config.minTxDeposit then .error .txMinDepositInvalid
    else if assetOut.amount = 0 then .error .transferMinAmountInvalid
    else if totalIssuance < assetOut.amount.toNat then .error .transferAmountOverMax
    else if assetOut.amount ≠ assetIn.amount then .error .srcDstAmountNotSame
    else .ok ()
  | .setAccountKeys key _ => if Context.isAccountKey key then .ok () else .error .illegal
  | .lockToken params => if params.amount = 0 then .error .illegal else .ok ()
  | .aliasName name =>
    if name.utf8ByteSize = 0 || X.config.aliasNameMaxLen < name.utf8ByteSize then
      .error .actionNotValid
    else .ok ()
  | .createSubAccount assetOut assetIn actionTypes signed =>
    if !assetOut.isTopToken || !assetIn.isTopToken ||
        assetOut.amount.toNat < X.config.minAccountDeposit ||
        assetOut.amount ≠ assetIn.amount then .error .minDepositError
    else if !actionTypes then .error .actionNotValid
    else if !X.config.isSubAccountAddress t.tx.targetAddr then .error .addrTypeError
    else if !signed then .error .signError
    else .ok ()
  | .pledgeTokenVote voteNum lockDuration =>
    if voteNum < X.config.minStakeVotesNum || lockDuration % minVoteLockDays ≠ 0 ||
        lockDuration = 0 then .error .pledgeRedeemVoteErr
    else .ok ()
  | _ => .ok ()

def parseVoteInfo (votes : List (String × Nat)) : Nat := (votes.map (·.2)).sum % 2 ^ 64

def sourceFeeExec (tx : Transaction) : TxM Unit :=
  match tx.action with
  | .invalid => pure ()
  | .createContractAccount out _ _ _ | .runContract out =>
    onlyIf (X.needUseTgasDisk tx.sourceAddr) (X.updateTgasDiskSender out.amount.toNat true)
  | .transfer out _ =>
    onlyIf (!X.config.isContractAddress tx.sourceAddr ∧ out.amount ≠ 0)
      (X.updateTgasDiskSender out.amount.toNat false)
  | .setAccountKeys _ _ | .unlockToken _ | .aliasName _ | .redeemTokenVote _ | .vote _
  | .abolishVote _ => X.updateTgasDiskSender 0 false
  | .lockToken params => X.updateTgasDiskSender params.amount.toNat false
  | .createSubAccount out _ _ _ => X.updateTgasDiskSender out.amount.toNat false
  | .pledgeTokenTgas asset | .pledgeTokenDisk asset =>
    onlyIf (!X.config.isSysContractAddress tx.sourceAddr)
      (X.updateTgasDiskSender asset.amount.toNat false)
  | .redeemTokenTgas _ | .redeemTokenDisk _ =>
    onlyIf (!X.config.isSysContractAddress tx.sourceAddr) (X.updateTgasDiskSender 0 false)
  | .pledgeTokenVote voteNum lockDuration => do
    let lockToken := X.config.voteToken voteNum lockDuration
    modify fun s => { s with lockToken }
    X.updateTgasDiskSender lockToken false

def locksDeposit (tx : Transaction) : Bool :=
  match tx.action with
  | .invalid => false
  | .createContractAccount _ _ _ _ | .runContract _ => X.needUseTgasDisk tx.sourceAddr
  | .transfer out _ => !X.config.isContractAddress tx.sourceAddr && out.amount ≠ 0
  | .pledgeTokenTgas _ | .pledgeTokenDisk _ | .redeemTokenTgas _ | .redeemTokenDisk _ =>
    !X.config.isSysContractAddress tx.sourceAddr
  | _ => true

open Hoare in
theorem triple_sourceFeeExec {P : TxRun → Prop} {Q : Unit → TxRun → Prop}
    {E : TxError → TxRun → Prop} {tx : Transaction} (hskip : ∀ s, P s → Q () s)
    (hlock : ∀ s lockToken, P s → P { s with lockToken })
    (hcharge : X.locksDeposit tx → ∀ amount isContract,
      Triple P (X.updateTgasDiskSender amount isContract) Q E) :
    Triple P (X.sourceFeeExec tx) Q E := by
  have hif : ∀ (p : Prop) [Decidable p] (amount : Nat) (isContract : Bool),
      (p → X.locksDeposit tx) →
      Triple P (onlyIf p (X.updateTgasDiskSender amount isContract)) Q E :=
    fun p _ amount isContract hp =>
      .ite (fun h => hcharge (hp h) amount isContract) fun _ => .pure hskip
  unfold sourceFeeExec
  cases haction : tx.action with
  | invalid => exact .pure hskip
  | createContractAccount | runContract | transfer | pledgeTokenTgas | pledgeTokenDisk
  | redeemTokenTgas | redeemTokenDisk =>
    exact hif _ _ _ fun h => by simpa [locksDeposit, haction] using h
  | setAccountKeys | unlockToken | aliasName | redeemTokenVote | vote | abolishVote
  | lockToken | createSubAccount =>
    exact hcharge (by simp only [locksDeposit, haction]) _ _
  | pledgeTokenVote =>
    refine .bind (Q := fun _ => P) (.modify fun s h => hlock s _ h) fun _ => ?_
    exact hcharge (by simp only [locksDeposit, haction]) _ _

def checkCreate (tx : Transaction) (amount : Nat) : TxM Unit := do
  let timerHeight := (← get).ctx.timerHeight
  match (X.newContext tx.targetAddr).setContractParentAccount X.config amount tx.sourceAddr with
  | .error e => throw e
  | .ok c =>
    let trace := (X.vm tx { c with timerHeight, sysTotalLockTgasToken := 0 }).2
    require (trace.errno = 0) (.vm trace.errno)

open Hoare in
theorem keeps_checkCreate {I : TxRun → Prop} (tx : Transaction) (amount : Nat) :
    Keeps I (X.checkCreate tx amount) := by
  apply Keeps.get_bind
  intro s
  dsimp only
  split
  · exact Keeps.throw _
  · exact keeps_require _ _

def transferOutAndLock (amount : Nat) : TxM Unit := do
  callCtx fun c => c.topTokenTransferOut X.config amount 0 0
  modifyCtx fun c => c.setLockBalanceChange amount

def sourceActionOf (tx : Transaction) : TxM Unit :=
  match tx.action with
  | .createContractAccount out _ _ _ => do
    X.transferOutAndLock out.amount.toNat
    callCtx fun c => (c.subContractSubAccountCheck tx.targetAddr).map fun _ => c
    callCtx fun c => c.setContractSubAccount tx.targetAddr
    X.checkCreate tx out.amount.toNat
  | .runContract out => onlyIf (out.amount ≠ 0) (X.transferOutAndLock out.amount.toNat)
  | .transfer out _ => do
    onlyIf (out.amount ≠ 0) (callCtx fun c => c.unlockAllToken X.config)
    callCtx fun c => c.tokenTransferOut X.config out
    onlyIf (tx.targetAddr = blackHoleAddr)
      (setState fun st => { st with selfBurnBalance := out.amount.toNat })
  | .createSubAccount out _ _ _ => do
    callCtx fun c => (c.subAccountCheck tx.targetAddr).map fun _ => c
    callCtx fun c => c.topTokenTransferOut X.config out.amount.toNat 0 0
    callCtx fun c => c.setSubAccount tx.targetAddr
  | .vote votes => do
    require (parseVoteInfo votes ≤ (← get).ctx.account.unvoteNum) .pledgeRedeemVoteErr
    modifyCtx fun c => c.setUnvoteNumChange (-parseVoteInfo votes)
  | _ => pure ()

/-- The changes that the action of a sender can make to its context. -/
structure SourceSteps (R : Context → Context → Prop) : Prop where
  refl : ∀ c, R c c
  transferOut : ∀ {c c' amount}, c.topTokenTransferOut X.config amount 0 0 = .ok c' → R c c'
  tokenTransferOut : ∀ {c c' asset}, c.tokenTransferOut X.config asset = .ok c' → R c c'
  unlockAllToken : ∀ {c c'}, c.unlockAllToken X.config = .ok c' → R c c'
  contractSubAccount : ∀ {c c' value}, c.setContractSubAccount value = .ok c' → R c c'
  subAccount : ∀ {c c' value}, c.setSubAccount value = .ok c' → R c c'
  lockBalance : ∀ c change, R c (c.setLockBalanceChange change)
  unvoteNum : ∀ c change, R c (c.setUnvoteNumChange change)

open Hoare in
theorem keeps_sourceActionOf {R : Context → Context → Prop} {I : TxRun → Prop}
    (hR : X.SourceSteps R) (hctx : ∀ s c, I s → R s.ctx c → I { s with ctx := c })
    (hburn : ∀ s selfBurnBalance, I s →
      I { s with tx := { s.tx with execState := { s.tx.execState with selfBurnBalance } } })
    (tx : Transaction) : Keeps I (X.sourceActionOf tx) := by
  have hcall : ∀ f : Context → Except TxError Context, (∀ c c', f c = .ok c' → R c c') →
      Keeps I (callCtx f) :=
    fun f hf => triple_callCtx (fun s c hs hc => hctx s c hs (hf s.ctx c hc)) fun _ _ hs _ => hs
  have hcheck : ∀ f : Context → Except TxError Unit,
      Keeps I (callCtx fun c => (f c).map fun _ => c) := by
    intro f
    refine hcall _ fun c c' h => ?_
    obtain ⟨_, -, rfl⟩ := exists_of_map_eq_ok h
    exact hR.refl c
  have hlock : ∀ amount, Keeps I (X.transferOutAndLock amount) := fun amount =>
    .bind (hcall _ fun _ _ h => hR.transferOut h) fun _ =>
      triple_modifyCtx fun s hs => hctx s _ hs (hR.lockBalance _ _)
  unfold sourceActionOf
  cases tx.action with
  | createContractAccount out =>
    refine .bind (hlock _) fun _ => .bind (hcheck _) fun _ => ?_
    exact .bind (hcall _ fun _ _ h => hR.contractSubAccount h) fun _ =>
      X.keeps_checkCreate tx _
  | runContract out => exact keeps_onlyIf (hlock _)
  | transfer out =>
    refine .bind (keeps_onlyIf (hcall _ fun _ _ h => hR.unlockAllToken h)) fun _ =>
      .bind (hcall _ fun _ _ h => hR.tokenTransferOut h) fun _ => ?_
    exact keeps_onlyIf (triple_setState fun s hs => hburn s _ hs)
  | createSubAccount out =>
    refine .bind (hcheck _) fun _ =>
      .bind (hcall _ fun _ _ h => hR.transferOut h) fun _ => ?_
    exact hcall _ fun _ _ h => hR.subAccount h
  | vote votes =>
    refine .get_bind fun s => .bind (keeps_require _ _) fun _ => ?_
    exact triple_modifyCtx fun s hs => hctx s _ hs (hR.unvoteNum _ _)
  | _ => exact .pure ()

def sourceActionExec (tx : Transaction) : TxM Unit := do
  X.sourceServiceFeeExec
  X.sourceFeeExec tx
  X.sourceActionOf tx

def targetFeeExec (tx : Transaction) (isSelf : Bool) : TxM Unit :=
  match tx.action with
  | .createContractAccount _ _ _ _ | .runContract _ => pure ()
  | _ => if isSelf then X.updateFeeRecvSelf else updateFeeRecv

def checkParent (tx : Transaction) (c : Context) : Except TxError Context :=
  if tx.sourceAddr = tx.targetAddr then .ok c
  else
    match c.native.text? contractParentAccountKey with
    | none => .error .parentAccountNotExist
    | some parent =>
      if tx.sourceAddr ≠ parent then .error .pledgeSourceTargetMismatch else .ok c

def dealTransaction (tx : Transaction) : TxM VmTrace := do
  let out := X.vm tx (← get).ctx
  modifyCtx fun _ => out.1
  pure out.2

def createContract (tx : Transaction) (out : Asset) (tgasLimit : Nat) : TxM VmTrace := do
  callCtx fun c => c.setContractParentAccount X.config out.amount.toNat tx.sourceAddr
  modifyCtx fun c => { c with tgasLimit }
  X.dealTransaction tx

def runContract (tx : Transaction) (out : Asset) : TxM VmTrace := do
  onlyIf (out.amount ≠ 0) (callCtx fun c => c.topTokenTransferIn X.config out.amount.toNat)
  modifyCtx fun c => { c with tgasLimit := c.native.number contractTgasLimitKey }
  X.dealTransaction tx

def finishContract (trace : VmTrace) (ret : Option TxError) : TxM Unit :=
  if trace.errno ≠ 0 then throw (.vm trace.errno) else answer ret

def passFee : TxM Unit := do
  let s ← get
  setState fun st => { st with
    sendTxLockTgas := s.tx.lastAction.sendTxLockTgas
    recvTxUseSendTxTgas := 0
    usedDeposit := s.tx.lastAction.usedDeposit }

def contractFee (tx : Transaction) (trace : VmTrace) (other : TxM Unit) : TxM Unit :=
  if X.needUseTgasDisk tx.targetAddr then X.updateTgasDiskAfterScExec trace else other

def pledgeToken (tx : Transaction) (amount : Nat)
    (setPledge : Context → Except TxError Context) : TxM Unit := do
  callCtx (checkParent tx)
  callCtx setPledge
  callCtx fun c => c.topTokenTransferOut X.config amount 0 0

def redeemToken (tx : Transaction) (asset : Asset)
    (redeem : Context → Except TxError Context) : TxM Unit := do
  callCtx (checkParent tx)
  callCtx redeem
  modifyCtx fun c => c.ignoring (c.tokenTransferIn X.config asset)
  callCtx fun c => c.lockToken X.config tx.digest asset.amount.toNat
    ⟨asset.amount, true, X.config.unlockGasStakedDelayTime * 10⟩

def targetActionOf (tx : Transaction) : TxM Unit :=
  match tx.action with
  | .invalid => pure ()
  | .createContractAccount out tgasLimit _ _ => do
    let trace ← X.createContract tx out tgasLimit
    let ret ← attempt (X.contractFee tx trace (pure ()))
    finishContract trace ret
  | .runContract out => do
    let trace ← X.runContract tx out
    let ret ← attempt (X.contractFee tx trace passFee)
    finishContract trace ret
  | .transfer _ assetIn => callCtx fun c => c.tokenTransferIn X.config assetIn
  | .setAccountKeys key value => callCtx fun c => c.accountSetKeys X.config key value
  | .lockToken params =>
    callCtx fun c => c.lockToken X.config tx.digest params.amount.toNat params
  | .unlockToken lockTranHash => callCtx fun c => c.unlockToken X.config lockTranHash
  | .aliasName name => callCtx fun c => c.accountAliasNameSet X.config name
  | .createSubAccount _ assetIn _ _ =>
    callCtx fun c => c.setParentAccount X.config assetIn.amount.toNat tx.sourceAddr
  | .vote _ | .abolishVote _ => do
    let trace ← X.dealTransaction tx
    finishContract trace none
  | .pledgeTokenTgas asset =>
    X.pledgeToken tx asset.amount.toNat fun c => c.setPledgeTokenTgas asset.amount.toNat
  | .pledgeTokenDisk asset =>
    X.pledgeToken tx asset.amount.toNat fun c => c.setPledgeTokenDisk asset.amount.toNat
  | .redeemTokenTgas asset =>
    X.redeemToken tx asset fun c => c.redeemPledgeTokenTgas asset.amount.toNat
  | .redeemTokenDisk asset =>
    X.redeemToken tx asset fun c => c.redeemPledgeTokenDisk asset.amount.toNat
  | .pledgeTokenVote voteNum lockDuration => do
    let lockToken := (← get).lockToken
    callCtx fun c => c.topTokenTransferOut X.config lockToken 0 0
    modifyCtx fun c => (c.setVoteBalanceChange lockToken).setUnvoteNumChange voteNum
    callCtx fun c => c.updatePledgeVoteProperty X.config voteNum lockDuration
  | .redeemTokenVote voteNum => do
    require (voteNum ≤ (← get).ctx.account.unvoteNum) .pledgeRedeemVoteErr
    modifyCtx fun c => c.mergePledgeVoteProperty X.config
    callCtx fun c => c.redeemPledgeVoteProperty voteNum

def targetActionExec (tx : Transaction) (isSelf : Bool) : TxM Unit := do
  X.targetFeeExec tx isSelf
  onlyIf (¬ (isSelf ∧ X.config.isBlackHoleAddress tx.targetAddr)) (X.targetActionOf tx)

def sourceConfirmFeeExec (tx : Transaction) : TxM Unit :=
  match tx.action with
  | .createContractAccount out _ _ _ | .runContract out =>
    onlyIf (!X.config.isSysContractAddress tx.sourceAddr)
      (X.updateContractFeeConfirm out.amount.toNat)
  | _ => X.updateFeeConfirm

def sourceConfirmActionOf (tx : Transaction) (status : ExecStatus) : TxM Unit :=
  match tx.action, status with
  | .vote votes, .fail => modifyCtx fun c => c.setUnvoteNumChange (parseVoteInfo votes)
  | .abolishVote votes, .success =>
    modifyCtx fun c => c.setUnvoteNumChange (parseVoteInfo votes)
  | _, _ => pure ()

def sourceConfirmActionExec (tx : Transaction) (status : ExecStatus) : TxM Unit := do
  X.sourceConfirmFeeExec tx
  sourceConfirmActionOf tx status

def execActions (t : ConsTx) : TxM Unit :=
  match t.subtype X.config with
  | .self => do
    X.sourceActionExec t.tx
    X.targetActionExec t.tx true
  | .send => X.sourceActionExec t.tx
  | .recv => X.targetActionExec t.tx false
  | .confirm => X.sourceConfirmActionExec t.tx t.lastAction.execStatus

def exec (t : ConsTx) : TxM Unit := do
  match X.check t with
  | .error e => throw e
  | .ok () => X.execActions t

end ExecEnv
end TopChain.TxExecutor
