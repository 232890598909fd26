import TopChain.Lib.Hoare
import TopChain.Store.AccountContext

/-!
# Transaction fees

`xtransaction_fee_t`.
-/
namespace TopChain.TxExecutor

open TopChain.Lib TopChain.Data TopChain.Store

structure VmTrace where
  errno : Nat := 0
  instructionUsage : UInt32 := 0
  tgasUsage : UInt32 := 0

structure ExecEnv where
  config : ChainConfig
  vm : Transaction → Context → Context × VmTrace
  newContext : String → Context
  hash64 : String → Nat
  propertyHash : Option Dataobj → String

/-- `m_used_deposit` and `m_service_fee` are of the fee object, `m_lock_token` of the pledge. -/
structure TxRun where
  ctx : Context
  tx : ConsTx
  usedDeposit : Nat := 0
  serviceFee : Nat := 0
  lockToken : Nat := 0

abbrev TxM := EStateM TxError TxRun

def require (p : Prop) [Decidable p] (e : TxError) : TxM Unit := if p then pure () else throw e

def onlyIf (p : Prop) [Decidable p] (m : TxM Unit) : TxM Unit := if p then m else pure ()

def callCtx (f : Context → Except TxError Context) : TxM Unit := do
  match f (← get).ctx with
  | .ok ctx => modify fun s => { s with ctx }
  | .error e => throw e

def modifyCtx (f : Context → Context) : TxM Unit := modify fun s => { s with ctx := f s.ctx }

def setState (f : ExecState → ExecState) : TxM Unit :=
  modify fun s => { s with tx := { s.tx with execState := f s.tx.execState } }

def answer : Option TxError → TxM Unit
  | none => pure ()
  | some e => throw e

def attempt (m : TxM Unit) : TxM (Option TxError) := fun s =>
  match m s with
  | .ok _ s' => .ok none s'
  | .error e s' => .ok (some e) s'

section

open Hoare

variable {P : TxRun → Prop} {Q : Unit → TxRun → Prop} {E : TxError → TxRun → Prop}

theorem triple_require {p : Prop} [Decidable p] {e : TxError} (hyes : ∀ s, P s → p → Q () s)
    (hno : ∀ s, P s → ¬ p → E e s) : Triple P (require p e) Q E :=
  .ite (fun hp => .pure fun s hs => hyes s hs hp) (fun hp => .throw fun s hs => hno s hs hp)

theorem triple_require_bind {α : Type} {p : Prop} [Decidable p] {e : TxError} {m : TxM α}
    {Q : α → TxRun → Prop} (hyes : p → Triple P m Q E) (hno : ∀ s, P s → ¬ p → E e s) :
    Triple P (require p e >>= fun _ => m) Q E := by
  refine .bind (Q := fun _ s => P s ∧ p) (triple_require (fun s hs hp => ⟨hs, hp⟩) hno) ?_
  intro _ s hs
  exact hyes hs.2 s hs.1

theorem triple_callCtx {f : Context → Except TxError Context}
    (hok : ∀ s c, P s → f s.ctx = .ok c → Q () { s with ctx := c })
    (herr : ∀ s e, P s → f s.ctx = .error e → E e s) : Triple P (callCtx f) Q E := by
  apply Triple.get_bind
  intro s hs
  cases hf : f s.ctx with
  | ok c =>
    apply Triple.modify
    rintro s' rfl
    exact hok s' c hs hf
  | error e =>
    apply Triple.throw
    rintro s' rfl
    exact herr s' e hs hf

theorem triple_modifyCtx {f : Context → Context} (h : ∀ s, P s → Q () { s with ctx := f s.ctx }) :
    Triple P (modifyCtx f) Q E :=
  .modify h

theorem triple_setState {f : ExecState → ExecState}
    (h : ∀ s, P s → Q () { s with tx := { s.tx with execState := f s.tx.execState } }) :
    Triple P (setState f) Q E :=
  .modify h

theorem triple_answer {ret : Option TxError} (hok : ∀ s, P s → ret = none → Q () s)
    (herr : ∀ s e, P s → ret = some e → E e s) : Triple P (answer ret) Q E := by
  cases ret with
  | none => exact .pure fun s hs => hok s hs rfl
  | some e => exact .throw fun s hs => herr s e hs rfl

theorem triple_attempt {m : TxM Unit} {Q : Option TxError → TxRun → Prop}
    (hm : Triple P m (fun _ => Q none) (fun e => Q (some e))) : Triple P (attempt m) Q E := by
  intro s hs
  have h := hm s hs
  unfold attempt
  cases hrun : m s with
  | ok a s' =>
    rw [hrun] at h
    exact h
  | error e s' =>
    rw [hrun] at h
    exact h

variable {I : TxRun → Prop}

theorem keeps_require (p : Prop) [Decidable p] (e : TxError) : Keeps I (require p e) :=
  triple_require (fun _ h _ => h) (fun _ h _ => h)

theorem keeps_onlyIf {p : Prop} [Decidable p] {m : TxM Unit} (hm : Keeps I m) :
    Keeps I (onlyIf p m) :=
  .ite hm (.pure ())

theorem keeps_answer (ret : Option TxError) : Keeps I (answer ret) :=
  triple_answer (fun _ h _ => h) (fun _ _ h _ => h)

theorem keeps_attempt {m : TxM Unit} (hm : Keeps I m) : Keeps I (attempt m) := triple_attempt hm

end

namespace ExecEnv
variable (X : ExecEnv)

def tgasUsage (t : ConsTx) : Nat :=
  (if t.subtype X.config = .self then 1 else 3) * t.tx.txLen.toNat

def calServiceFee (source target : String) : Nat :=
  if !X.config.isSysContractAddress source && X.config.isBeaconContractAddress target then
    X.config.beaconTxFee
  else 0

def needUseTgasDisk (source : String) : Bool := !X.config.isSysContractAddress source

def updateTgasSender : TxM Nat := do
  let s ← get
  let usage := X.tgasUsage s.tx
  let out := s.ctx.updateTgasSender X.config usage s.tx.tx.deposit.toNat
  modifyCtx fun _ => out.1
  setState fun st => { st with
    usedTgas := Word.wsub 64 usage (out.2.1 / X.config.txDepositGasExchangeRatio) % 2 ^ 32
    usedDeposit := out.2.1 % 2 ^ 32 }
  answer out.2.2
  pure out.2.1

def frozenTgas (c : Context) (deposit used : Nat) : Nat :=
  min (Word.wsub 64 deposit used / X.config.txDepositGasExchangeRatio)
    (Word.wsub 64 (c.availableTgas X.config) c.account.lockTgas)

def lockDeposit (isContract : Bool) (frozen deposit : Nat) (c : Context) : Context :=
  (((if isContract then c.setLockTgasChange frozen else c).setLockBalanceChange
    deposit).setBalanceChange (-deposit))

def updateTgasDiskSender (amount : Nat) (isContract : Bool) : TxM Unit := do
  let s ← get
  let balance := s.ctx.account.balance
  let deposit := s.tx.tx.deposit.toNat
  require (amount ≤ balance) .balanceNotEnough
  require (deposit ≤ balance - amount) .tooMuchDeposit
  require (X.config.isSysContractAddress s.tx.tx.sourceAddr ∨ X.config.minTxDeposit ≤ deposit)
    .notEnoughDeposit
  let used ← X.updateTgasSender
  let s ← get
  let frozen := X.frozenTgas s.ctx deposit used
  setState fun st => { st with usedDisk := 0 }
  modify fun s => { s with usedDeposit := used }
  setState fun st =>
    if isContract then { st with sendTxLockTgas := frozen % 2 ^ 32 } else st
  modifyCtx (lockDeposit isContract frozen deposit)

/-- The run once the outcome `out` of the gas check is booked. -/
def bookTgas (s : TxRun) (out : Context × Nat × Option TxError) : TxRun :=
  { s with
    ctx := out.1
    tx := { s.tx with execState := { s.tx.execState with
      usedTgas := Word.wsub 64 (X.tgasUsage s.tx)
        (out.2.1 / X.config.txDepositGasExchangeRatio) % 2 ^ 32
      usedDeposit := out.2.1 % 2 ^ 32 } } }

def lockRun (isContract : Bool) (deposit used : Nat) (s : TxRun) : TxRun :=
  let frozen := X.frozenTgas s.ctx deposit used
  let st := { s.tx.execState with usedDisk := 0 }
  { s with
    ctx := lockDeposit isContract frozen deposit s.ctx
    usedDeposit := used
    tx := { s.tx with
      execState := if isContract then { st with sendTxLockTgas := frozen % 2 ^ 32 } else st } }

open Hoare in
/-- Nothing fails once the gas is booked. -/
theorem triple_updateTgasDiskSender {P Q : TxRun → Prop} {E : TxError → TxRun → Prop}
    {amount : Nat} {isContract : Bool} (hrefused : ∀ s e, P s → E e s)
    (hbooked : ∀ s out, P s → amount ≤ s.ctx.account.balance →
      s.ctx.updateTgasSender X.config (X.tgasUsage s.tx) s.tx.tx.deposit.toNat = out →
      (out.2.2 = none → Q (X.lockRun isContract s.tx.tx.deposit.toNat out.2.1 (X.bookTgas s out))) ∧
      ∀ e, out.2.2 = some e → E e (X.bookTgas s out)) :
    Triple P (X.updateTgasDiskSender amount isContract) (fun _ => Q) E := by
  apply Triple.get_bind
  intro s hs
  have hno : ∀ e s', s' = s → E e s' := fun e s' h => h ▸ hrefused s e hs
  refine triple_require_bind (fun hamount => ?_) fun s' h _ => hno _ s' h
  refine triple_require_bind (fun _ => ?_) fun s' h _ => hno _ s' h
  refine triple_require_bind (fun _ => ?_) fun s' h _ => hno _ s' h
  generalize hout : s.ctx.updateTgasSender X.config (X.tgasUsage s.tx) s.tx.tx.deposit.toNat = out
  obtain ⟨hok, herr⟩ := hbooked s out hs hamount hout
  refine Triple.bind (Q := fun used s' => out.2.2 = none ∧ used = out.2.1 ∧ s' = X.bookTgas s out)
    ?_ fun used => ?_
  · apply Triple.get_bind
    rintro s rfl
    dsimp only
    rw [hout]
    refine Triple.bind (Q := fun _ s' => s' = { s with ctx := out.1 })
      (triple_modifyCtx fun s' h => h ▸ rfl) fun _ => ?_
    refine Triple.bind (Q := fun _ s' => s' = X.bookTgas s out)
      (triple_setState fun s' h => h ▸ rfl) fun _ => ?_
    refine Triple.bind (Q := fun _ s' => out.2.2 = none ∧ s' = X.bookTgas s out)
      (triple_answer (fun s' h hret => ⟨hret, h⟩) fun s' e h hret => h ▸ herr e hret) fun _ => ?_
    exact Triple.pure fun s' h => ⟨h.1, rfl, h.2⟩
  · rintro _ ⟨hret, rfl, rfl⟩
    exact hok hret

def updateTgasContractRecv (frozen dealUsedTgas : Nat) : TxM Nat := do
  let s ← get
  let senderUsed := s.tx.lastAction.usedDeposit
  let out := s.ctx.updateTgasContractRecv X.config senderUsed s.tx.tx.deposit.toNat frozen
    dealUsedTgas
  modifyCtx fun _ => out.1
  setState fun st => { st with
    usedTgas := out.1.curUsedTgas
    usedDeposit := (senderUsed + out.2.1) % 2 ^ 32 }
  answer out.2.2.2
  pure out.2.2.1

def updateTgasDiskContractRecv (frozen dealUsedTgas : Nat) : TxM Nat := do
  let s ← get
  require (X.config.minTxDeposit ≤ s.tx.tx.deposit.toNat) .notEnoughDeposit
  let frozen ← X.updateTgasContractRecv frozen dealUsedTgas
  setState fun st => { st with usedDisk := 0 }
  pure frozen

def dealUsedTgas (usage : UInt32) : Nat := (usage * 40).toNat / X.config.cpuGasExchangeRatio

def updateTgasDiskAfterScExec (trace : VmTrace) : TxM Unit := do
  let usage := trace.instructionUsage + trace.tgasUsage
  if trace.errno = 0 ∧ usage = 0 then pure ()
  else
    let s ← get
    let lockTgas := s.tx.lastAction.sendTxLockTgas
    let frozen ← X.updateTgasDiskContractRecv lockTgas (X.dealUsedTgas usage)
    setState fun st => { st with
      sendTxLockTgas := lockTgas
      recvTxUseSendTxTgas := Word.wsub 64 lockTgas frozen % 2 ^ 32 }

def sourceServiceFeeExec : TxM Unit := do
  let s ← get
  let fee := X.calServiceFee s.tx.tx.sourceAddr s.tx.tx.targetAddr
  modify fun s => { s with serviceFee := fee }
  let e ← attempt (callCtx fun c => c.topTokenTransferOut X.config 0 0 fee)
  setState fun st => { st with beaconServiceFee := fee }
  answer e

/-- The run once the service fee is noted, with the context its transfer leaves. -/
def feeRun (fee : Nat) (s : TxRun) (c : Context) : TxRun :=
  { s with
    ctx := c
    serviceFee := fee
    tx := { s.tx with execState := { s.tx.execState with beaconServiceFee := fee } } }

open Hoare in
theorem triple_sourceServiceFeeExec {P Q : TxRun → Prop} {E : TxError → TxRun → Prop}
    (hpaid : ∀ s c fee, P s → fee = X.calServiceFee s.tx.tx.sourceAddr s.tx.tx.targetAddr →
      s.ctx.topTokenTransferOut X.config 0 0 fee = .ok c → Q (feeRun fee s c))
    (hfailed : ∀ s e fee, P s → E e (feeRun fee s s.ctx)) :
    Triple P X.sourceServiceFeeExec (fun _ => Q) E := by
  apply Triple.get_bind
  intro s hs
  generalize hfee : X.calServiceFee s.tx.tx.sourceAddr s.tx.tx.targetAddr = fee
  refine Triple.bind (Q := fun _ s' => s' = { s with serviceFee := fee })
    (Triple.modify fun s' h => h ▸ rfl) fun _ => ?_
  -- the fee is noted whether or not the transfer was accepted
  refine Triple.bind (Q := fun ret s' => ∃ c, s' = { s with serviceFee := fee, ctx := c } ∧
      (ret = none → Q (feeRun fee s c)) ∧ ∀ e, ret = some e → E e (feeRun fee s c))
    (triple_attempt (triple_callCtx ?_ ?_)) fun ret => ?_
  · rintro s' c rfl hc
    exact ⟨c, rfl, fun _ => hpaid s c fee hs hfee.symm hc, nofun⟩
  · rintro s' e rfl -
    exact ⟨s.ctx, rfl, nofun, fun e' _ => hfailed s e' fee hs⟩
  · rintro _ ⟨c, rfl, hok, herr⟩
    cases ret with
    | none => exact hok rfl
    | some e => exact herr e rfl

def updateFeeRecv : TxM Unit := do
  let s ← get
  setState fun st => { st with usedDeposit := s.tx.lastAction.usedDeposit }

def unlockDeposit (deposit : Nat) (c : Context) : Context :=
  (c.setLockBalanceChange (-deposit)).setBalanceChange deposit

def updateFeeRecvSelf : TxM Unit := do
  let s ← get
  modifyCtx (unlockDeposit s.tx.tx.deposit.toNat)
  modifyCtx fun c => c.ignoring (c.topTokenTransferOut X.config 0 s.usedDeposit 0)

def updateFeeConfirm : TxM Unit := do
  let s ← get
  modifyCtx (unlockDeposit s.tx.tx.deposit.toNat)
  setState fun st => { st with usedDeposit := s.tx.lastAction.usedDeposit }
  modifyCtx fun c => c.ignoring (c.topTokenTransferOut X.config 0 s.tx.lastAction.usedDeposit 0)

/-- The end of `update_contract_fee_confirm`: the amount comes back when the call failed. -/
def settleAmount (status : ExecStatus) (amount : Nat) (c : Context) : Context :=
  match status with
  | .fail =>
    if (amount : Int).bmod (2 ^ 64) ≤ (c.account.lockBalance : Int).bmod (2 ^ 64) then
      (c.ignoring (c.topTokenTransferIn X.config amount)).setLockBalanceChange (-amount)
    else c
  | .success => c.setLockBalanceChange (-amount)

def updateContractFeeConfirm (amount : Nat) : TxM Unit := do
  let s ← get
  let last := s.tx.lastAction
  let deposit := s.tx.tx.deposit.toNat
  modifyCtx fun c => c.setLockTgasChange (-last.sendTxLockTgas)
  modifyCtx (unlockDeposit deposit)
  let s ← get
  let out := s.ctx.calcResource X.config last.recvTxUseSendTxTgas deposit last.usedDeposit
  modifyCtx fun _ => out.1
  setState fun st => { st with usedTgas := out.2.1 % 2 ^ 32, usedDeposit := out.2.2.1 }
  modifyCtx (X.settleAmount last.execStatus amount)
  answer out.2.2.2

def unlockCall (s : TxRun) : Context :=
  unlockDeposit s.tx.tx.deposit.toNat (s.ctx.setLockTgasChange (-s.tx.lastAction.sendTxLockTgas))

def settleRun (amount : Nat) (s : TxRun) (out : Context × Nat × Nat × Option TxError) : TxRun :=
  { s with
    ctx := X.settleAmount s.tx.lastAction.execStatus amount out.1
    tx := { s.tx with execState := { s.tx.execState with
      usedTgas := out.2.1 % 2 ^ 32
      usedDeposit := out.2.2.1 } } }

open Hoare in
theorem triple_updateContractFeeConfirm {P Q : TxRun → Prop} {E : TxError → TxRun → Prop}
    {amount : Nat} (h : ∀ s out, P s →
      (unlockCall s).calcResource X.config s.tx.lastAction.recvTxUseSendTxTgas
        s.tx.tx.deposit.toNat s.tx.lastAction.usedDeposit = out →
      (out.2.2.2 = none → Q (X.settleRun amount s out)) ∧
      ∀ e, out.2.2.2 = some e → E e (X.settleRun amount s out)) :
    Triple P (X.updateContractFeeConfirm amount) (fun _ => Q) E := by
  intro s hs
  obtain ⟨hok, herr⟩ := h s _ hs rfl
  exact triple_answer (P := (· = X.settleRun amount s _)) (fun s' h hret => h ▸ hok hret)
    (fun s' e h hret => h ▸ herr e hret) _ rfl

end ExecEnv
end TopChain.TxExecutor
