import TopChain.Store.Funds
import TopChain.TxExecutor.Executor

/-!
# No account is overdrawn

A deposit is compared with the committed balance and then taken from the funds.
-/
namespace TopChain.TxExecutor

open TopChain.Lib TopChain.Lib.Hoare TopChain.Data TopChain.Store TopChain.Store.Context

/-- The run is still of this transaction, and the funds have not become negative. -/
structure Sound (B : Nat) (t : ConsTx) (s : TxRun) : Prop where
  tx : s.tx.tx = t.tx
  receipt : s.tx.receipt = t.receipt
  balance : s.ctx.account.balance = B
  funds : 0 ≤ s.ctx.funds

variable {B : Nat} {t : ConsTx}

variable {c : Context}

theorem Sound.setCtx {s : TxRun} (h : Sound B t s) (hc : KeepsFunds s.ctx c) :
    Sound B t { s with ctx := c } :=
  ⟨h.tx, h.receipt, hc.balance.trans h.balance, hc.funds h.funds⟩

theorem Sound.lastAction {s : TxRun} (h : Sound B t s) : s.tx.lastAction = t.lastAction := by
  unfold ConsTx.lastAction
  rw [h.receipt]

theorem keeps_callCtx {f : Context → Except TxError Context}
    (hf : ∀ c c', f c = .ok c' → KeepsFunds c c') : Keeps (Sound B t) (callCtx f) :=
  triple_callCtx (fun s c hs hc => hs.setCtx (hf s.ctx c hc)) (fun _ _ hs _ => hs)

theorem keeps_modifyCtx {f : Context → Context} (hf : ∀ c, KeepsFunds c (f c)) :
    Keeps (Sound B t) (modifyCtx f) :=
  triple_modifyCtx fun s hs => hs.setCtx (hf s.ctx)

theorem keeps_setState (f : ExecState → ExecState) : Keeps (Sound B t) (setState f) :=
  triple_setState fun _ hs => ⟨hs.tx, hs.receipt, hs.balance, hs.funds⟩

namespace ExecEnv
variable {X : ExecEnv}

/-- Deposit and service fee are in the funds, and a receipt reports no more than the deposit. -/
structure Solvent (X : ExecEnv) (c : Context) (t : ConsTx) : Prop where
  source : X.isSource t → X.locksDeposit t.tx →
    ((t.tx.deposit.toNat + X.calServiceFee t.tx.sourceAddr t.tx.targetAddr : Nat) : Int) ≤ c.funds
  confirm : t.subtype X.config = .confirm → t.lastAction.usedDeposit ≤ t.tx.deposit.toNat

/-- A run that, if its call locks a deposit, still has this amount in the funds. -/
structure Covered (X : ExecEnv) (B : Nat) (t : ConsTx) (amount : Nat) (s : TxRun) : Prop
    extends Sound B t s where
  covered : X.locksDeposit t.tx → (amount : Int) ≤ s.ctx.funds

variable {c' : Context} {ret : Except TxError TransactionResult}

theorem funds_of_topTokenTransferOut {G : ChainConfig} {fee : Nat}
    (h : c.topTokenTransferOut G 0 0 fee = .ok c') : c.funds - fee ≤ c'.funds := by
  obtain ⟨-, rfl⟩ | ⟨word, hword, -, rfl⟩ := topTokenTransferOut_cases h
  · omega
  · have hfee : 0 + 0 + fee = fee := by omega
    have hle : word ≤ fee := by
      rw [hword, hfee]
      exact Word.bmod_le_self _ (Int.natCast_nonneg fee)
    show c.funds - fee ≤ c.account.balance + (c.balanceChange + -word)
    unfold Context.funds
    omega

theorem sourceServiceFeeExec_sound :
    Triple (X.Covered B t (t.tx.deposit.toNat + X.calServiceFee t.tx.sourceAddr t.tx.targetAddr))
      X.sourceServiceFeeExec (fun _ => X.Covered B t t.tx.deposit.toNat) (fun _ => Sound B t) := by
  refine X.triple_sourceServiceFeeExec (fun s c fee hs hfee hout => ?_)
    fun _ _ _ h => ⟨h.tx, h.receipt, h.balance, h.funds⟩
  rw [hs.tx] at hfee
  have hc := hs.setCtx (keepsFunds_topTokenTransferOut hout)
  refine ⟨⟨hc.tx, hc.receipt, hc.balance, hc.funds⟩, fun hlock => ?_⟩
  have hleft := funds_of_topTokenTransferOut hout
  have hfunds := hs.covered hlock
  show (t.tx.deposit.toNat : Int) ≤ c.funds
  omega

theorem lockDeposit_keepsFunds {isContract : Bool} {frozen deposit : Nat}
    (h : (deposit : Int) ≤ c.funds) : KeepsFunds c (lockDeposit isContract frozen deposit c) := by
  have hlock : ∀ d : Context, d.account = c.account → d.balanceChange = c.balanceChange →
      KeepsFunds c ((d.setLockBalanceChange deposit).setBalanceChange (-deposit)) := by
    intro d haccount hchange
    have hd : d.funds = c.funds := by
      unfold Context.funds
      rw [haccount, hchange]
    refine ⟨congrArg Account.balance haccount, fun hc => ?_⟩
    exact (KeepsFunds.of_sub (c := d.setLockBalanceChange deposit) (hd ▸ h)).funds (hd ▸ hc)
  cases isContract with
  | true => exact hlock _ rfl rfl
  | false => exact hlock c rfl rfl

theorem updateTgasDiskSender_sound (amount : Nat) (isContract : Bool) :
    Triple (fun s => Sound B t s ∧ (t.tx.deposit.toNat : Int) ≤ s.ctx.funds)
      (X.updateTgasDiskSender amount isContract) (fun _ s => Sound B t s)
      (fun _ s => Sound B t s) := by
  refine X.triple_updateTgasDiskSender (fun _ _ h => h.1) fun s out hs _ hout => ?_
  obtain ⟨⟨htx, hreceipt, hbalance, hfunds⟩, hdeposit⟩ := hs
  obtain ⟨native, hctx⟩ := onlyNative_updateTgasSender hout
  have hbook : Sound B t (X.bookTgas s out) ∧ (t.tx.deposit.toNat : Int) ≤ out.1.funds := by
    unfold bookTgas
    rw [hctx]
    exact ⟨⟨htx, hreceipt, hbalance, hfunds⟩, hdeposit⟩
  refine ⟨fun _ => ?_, fun _ _ => hbook.1⟩
  have hlock : KeepsFunds out.1 (lockDeposit isContract
      (X.frozenTgas out.1 t.tx.deposit.toNat out.2.1) t.tx.deposit.toNat out.1) :=
    lockDeposit_keepsFunds hbook.2
  rw [htx]
  exact ⟨htx, hreceipt, hlock.balance.trans hbook.1.balance, hlock.funds hbook.1.funds⟩

theorem sourceFeeExec_sound :
    Triple (X.Covered B t t.tx.deposit.toNat) (X.sourceFeeExec t.tx) (fun _ => Sound B t)
      (fun _ => Sound B t) := by
  refine X.triple_sourceFeeExec (fun _ h => h.toSound) (fun s _ h => ?_)
    fun hl amount isContract => ?_
  · exact ⟨⟨h.tx, h.receipt, h.balance, h.funds⟩, h.covered⟩
  · exact (updateTgasDiskSender_sound amount isContract).conseq
      (fun _ h => ⟨h.toSound, h.covered hl⟩) (fun _ _ h => h) (fun _ _ h => h)

theorem keepsFunds_sourceSteps : X.SourceSteps KeepsFunds where
  refl := .refl
  transferOut := keepsFunds_topTokenTransferOut
  tokenTransferOut := keepsFunds_tokenTransferOut
  unlockAllToken := keepsFunds_unlockAllToken
  contractSubAccount := keepsFunds_setNative?
  subAccount := keepsFunds_setNative?
  lockBalance _ _ := .of_le rfl le_rfl
  unvoteNum _ _ := .of_le rfl le_rfl

theorem sourceActionOf_sound (tx : Transaction) : Keeps (Sound B t) (X.sourceActionOf tx) :=
  X.keeps_sourceActionOf keepsFunds_sourceSteps (fun _ _ hs hc => hs.setCtx hc)
    (fun _ _ hs => ⟨hs.tx, hs.receipt, hs.balance, hs.funds⟩) tx

theorem sourceActionExec_sound :
    Triple (X.Covered B t (t.tx.deposit.toNat + X.calServiceFee t.tx.sourceAddr t.tx.targetAddr))
      (X.sourceActionExec t.tx) (fun _ => Sound B t) (fun _ => Sound B t) :=
  .bind sourceServiceFeeExec_sound fun _ =>
    .bind sourceFeeExec_sound fun _ => sourceActionOf_sound t.tx

theorem unlockDeposit_keepsFunds (deposit : Nat) (c : Context) :
    KeepsFunds c (unlockDeposit deposit c) :=
  .of_le rfl (le_add_of_nonneg_right (Int.natCast_nonneg deposit))

theorem targetFeeExec_sound (tx : Transaction) (isSelf : Bool) :
    Keeps (Sound B t) (X.targetFeeExec tx isSelf) := by
  have hfee : Keeps (Sound B t) (if isSelf then X.updateFeeRecvSelf else updateFeeRecv) := by
    apply Keeps.ite
    · refine Keeps.get_bind fun s => Keeps.bind (keeps_modifyCtx (unlockDeposit_keepsFunds _))
        fun _ => keeps_modifyCtx fun c => keepsFunds_ignoring fun _ h => ?_
      exact keepsFunds_topTokenTransferOut h
    · exact Keeps.get_bind fun s => keeps_setState _
  unfold targetFeeExec
  cases tx.action with
  | createContractAccount | runContract => exact Keeps.pure ()
  | _ => exact hfee

theorem checkParent_keepsFunds {tx : Transaction} (h : checkParent tx c = .ok c') :
    KeepsFunds c c' := by
  unfold checkParent at h
  split at h
  · cases h
    exact .refl c
  · split at h
    · cases h
    · cases (ite_error_eq_ok.mp h).2
      exact .refl c

/-- The contract engine spends no more than the account has. -/
def VmKeepsFunds (X : ExecEnv) : Prop := ∀ tx c, KeepsFunds c (X.vm tx c).1

theorem dealTransaction_sound (hvm : X.VmKeepsFunds) (tx : Transaction) :
    Keeps (Sound B t) (X.dealTransaction tx) := by
  apply Triple.get_bind
  intro s hs
  refine Triple.bind (Q := fun _ s => Sound B t s) (triple_modifyCtx ?_) fun _ => Keeps.pure _
  rintro s' rfl
  exact hs.setCtx (hvm tx s'.ctx)

theorem finishContract_sound (trace : VmTrace) (ret : Option TxError) :
    Keeps (Sound B t) (finishContract trace ret) :=
  .ite (.throw _) (keeps_answer _)

theorem updateTgasContractRecv_sound (frozen deal : Nat) :
    Keeps (Sound B t) (X.updateTgasContractRecv frozen deal) := by
  apply Triple.get_bind
  intro s hs
  dsimp only
  generalize hout : s.ctx.updateTgasContractRecv X.config s.tx.lastAction.usedDeposit
    s.tx.tx.deposit.toNat frozen deal = out
  refine Triple.bind (Q := fun _ s => Sound B t s) (triple_modifyCtx ?_) fun _ => ?_
  · rintro s' rfl
    exact hs.setCtx (keepsFunds_updateTgasContractRecv hout)
  · exact Keeps.bind (keeps_setState _) fun _ => Keeps.bind (keeps_answer _) fun _ => Keeps.pure _

theorem updateTgasDiskAfterScExec_sound (trace : VmTrace) :
    Keeps (Sound B t) (X.updateTgasDiskAfterScExec trace) := by
  refine .ite (.pure ()) (.get_bind fun s => ?_)
  refine .bind ?_ fun _ => keeps_setState _
  refine .get_bind fun s' => .bind (keeps_require _ _) fun _ => ?_
  exact .bind (updateTgasContractRecv_sound _ _) fun _ =>
    .bind (keeps_setState _) fun _ => .pure _

theorem pledgeToken_sound (tx : Transaction) (amount : Nat)
    {setPledge : Context → Except TxError Context}
    (hset : ∀ c c', setPledge c = .ok c' → KeepsFunds c c') :
    Keeps (Sound B t) (X.pledgeToken tx amount setPledge) :=
  .bind (keeps_callCtx fun _ _ h => checkParent_keepsFunds h) fun _ =>
    .bind (keeps_callCtx hset) fun _ =>
    keeps_callCtx fun _ _ h => keepsFunds_topTokenTransferOut h

theorem redeemToken_sound (tx : Transaction) (asset : Asset)
    {redeem : Context → Except TxError Context}
    (hredeem : ∀ c c', redeem c = .ok c' → KeepsFunds c c') :
    Keeps (Sound B t) (X.redeemToken tx asset redeem) := by
  refine .bind (keeps_callCtx fun _ _ h => checkParent_keepsFunds h) fun _ =>
    .bind (keeps_callCtx hredeem) fun _ => .bind (keeps_modifyCtx fun c => ?_) fun _ =>
    keeps_callCtx fun _ _ h => keepsFunds_lockToken h
  exact keepsFunds_ignoring fun _ h => keepsFunds_tokenTransferIn h

theorem targetActionOf_sound (hvm : X.VmKeepsFunds) (tx : Transaction) :
    Keeps (Sound B t) (X.targetActionOf tx) := by
  have hlimit : ∀ f : Context → Nat,
      Keeps (Sound B t) (modifyCtx fun c => { c with tgasLimit := f c }) :=
    fun f => keeps_modifyCtx fun _ => .of_le rfl le_rfl
  unfold targetActionOf
  cases tx.action with
  | invalid => exact .pure ()
  | createContractAccount out tgasLimit =>
    refine .bind ?_ fun trace => .bind (keeps_attempt ?_) fun ret =>
      finishContract_sound trace ret
    · exact .bind (keeps_callCtx fun _ _ h => keepsFunds_setParent h) fun _ =>
        .bind (hlimit fun _ => tgasLimit) fun _ => dealTransaction_sound hvm tx
    · exact .ite (updateTgasDiskAfterScExec_sound trace) (.pure _)
  | runContract out =>
    refine .bind ?_ fun trace => .bind (keeps_attempt ?_) fun ret =>
      finishContract_sound trace ret
    · exact .bind (keeps_onlyIf (keeps_callCtx fun _ _ h => keepsFunds_topTokenTransferIn h))
        fun _ => .bind (hlimit _) fun _ => dealTransaction_sound hvm tx
    · refine .ite (updateTgasDiskAfterScExec_sound trace) ?_
      exact .get_bind fun s => keeps_setState _
  | transfer out asset => exact keeps_callCtx fun _ _ h => keepsFunds_tokenTransferIn h
  | setAccountKeys key value => exact keeps_callCtx fun _ _ h => keepsFunds_accountSetKeys h
  | lockToken params => exact keeps_callCtx fun _ _ h => keepsFunds_lockToken h
  | unlockToken hash => exact keeps_callCtx fun _ _ h => keepsFunds_unlockToken h
  | aliasName name => exact keeps_callCtx fun _ _ h => keepsFunds_accountAliasNameSet h
  | createSubAccount out asset => exact keeps_callCtx fun _ _ h => keepsFunds_setParent h
  | vote votes | abolishVote votes =>
    exact .bind (dealTransaction_sound hvm tx) fun trace => finishContract_sound trace none
  | pledgeTokenTgas asset =>
    exact pledgeToken_sound _ _ fun _ _ h => keepsFunds_setPledgeTokenTgas h
  | pledgeTokenDisk asset =>
    exact pledgeToken_sound _ _ fun _ _ h => keepsFunds_setPledgeTokenDisk h
  | redeemTokenTgas asset =>
    exact redeemToken_sound _ _ fun _ _ h => keepsFunds_redeemPledgeTokenTgas h
  | redeemTokenDisk asset =>
    exact redeemToken_sound _ _ fun _ _ h => keepsFunds_redeemPledgeTokenDisk h
  | pledgeTokenVote voteNum lockDuration =>
    refine .get_bind fun s =>
      .bind (keeps_callCtx fun _ _ h => keepsFunds_topTokenTransferOut h) fun _ =>
      .bind (keeps_modifyCtx fun _ => .of_le rfl le_rfl) fun _ => ?_
    exact keeps_callCtx fun _ _ h => keepsFunds_updatePledgeVoteProperty h
  | redeemTokenVote voteNum =>
    refine .get_bind fun s => .bind (keeps_require _ _) fun _ =>
      .bind (keeps_modifyCtx fun _ => keepsFunds_mergePledgeVoteProperty) fun _ => ?_
    exact keeps_callCtx fun _ _ h => keepsFunds_redeemPledgeVoteProperty h

theorem targetActionExec_sound (hvm : X.VmKeepsFunds) (tx : Transaction) (isSelf : Bool) :
    Keeps (Sound B t) (X.targetActionExec tx isSelf) :=
  .bind (targetFeeExec_sound tx isSelf) fun _ =>
    keeps_onlyIf (targetActionOf_sound hvm tx)

theorem settleAmount_keepsFunds (status : ExecStatus) (amount : Nat) (c : Context) :
    KeepsFunds c (X.settleAmount status amount c) := by
  unfold settleAmount
  cases status with
  | success => exact .of_le rfl le_rfl
  | fail =>
    dsimp only
    split
    · refine KeepsFunds.trans (keepsFunds_ignoring fun _ h => ?_) (.of_le rfl le_rfl)
      exact keepsFunds_topTokenTransferIn h
    · exact .refl c

theorem updateContractFeeConfirm_sound (amount : Nat)
    (hused : t.lastAction.usedDeposit ≤ t.tx.deposit.toNat) :
    Keeps (Sound B t) (X.updateContractFeeConfirm amount) := by
  refine X.triple_updateContractFeeConfirm fun s out hs hout => ?_
  rw [hs.tx, hs.lastAction] at hout
  obtain ⟨-, hle, ⟨num, hctx⟩, -⟩ := calcResource_spec hout hused t.tx.deposit.toNat_lt
  have hlock : KeepsFunds s.ctx (s.ctx.setLockTgasChange (-s.tx.lastAction.sendTxLockTgas)) :=
    .of_le rfl le_rfl
  have hunlock : KeepsFunds s.ctx (unlockCall s) := hlock.trans (unlockDeposit_keepsFunds _ _)
  have hd : OnlyNative (unlockCall s) ((unlockCall s).setUsedTgas num) := onlyNative_setUsedTgas num
  have hpaid : KeepsFunds (unlockCall s) out.1 := by
    rw [hctx]
    refine hd.keepsFunds.trans (KeepsFunds.of_sub ?_)
    rw [hd.funds]
    have hfunds := hs.funds
    unfold Context.funds at hfunds
    show (out.2.2.1 : Int) ≤ s.ctx.account.balance + (s.ctx.balanceChange + s.tx.tx.deposit.toNat)
    rw [hs.tx]
    omega
  have h := hs.setCtx ((hunlock.trans hpaid).trans
    (settleAmount_keepsFunds (X := X) s.tx.lastAction.execStatus amount _))
  have hrun : Sound B t (X.settleRun amount s out) := ⟨h.tx, h.receipt, h.balance, h.funds⟩
  exact ⟨fun _ => hrun, fun _ _ => hrun⟩

theorem sourceConfirmActionExec_sound (tx : Transaction) (status : ExecStatus)
    (hused : t.lastAction.usedDeposit ≤ t.tx.deposit.toNat) :
    Keeps (Sound B t) (X.sourceConfirmActionExec tx status) := by
  have hcontract : ∀ amount : Nat, Keeps (Sound B t)
      (onlyIf (!X.config.isSysContractAddress tx.sourceAddr) (X.updateContractFeeConfirm amount)) :=
    fun amount => keeps_onlyIf (updateContractFeeConfirm_sound amount hused)
  have hconfirm : Keeps (Sound B t) X.updateFeeConfirm := by
    refine .get_bind fun s => .bind (keeps_modifyCtx (unlockDeposit_keepsFunds _))
      fun _ => .bind (keeps_setState _) fun _ => keeps_modifyCtx fun c => ?_
    exact keepsFunds_ignoring fun _ h => keepsFunds_topTokenTransferOut h
  refine .bind ?_ fun _ => ?_
  · unfold sourceConfirmFeeExec
    cases tx.action with
    | createContractAccount | runContract => exact hcontract _
    | _ => exact hconfirm
  · unfold sourceConfirmActionOf
    split
    · exact keeps_modifyCtx fun _ => .of_le rfl le_rfl
    · exact keeps_modifyCtx fun _ => .of_le rfl le_rfl
    · exact .pure ()

structure CtxSound (B : Nat) (c : Context) : Prop where
  balance : c.account.balance = B
  funds : 0 ≤ c.funds

/-- What a transaction leaves: a result reports the change that the context has booked. -/
structure Booked (B : Nat) (c : Context) (ret : Except TxError TransactionResult) : Prop
    extends CtxSound B c where
  change : ∀ result, ret = .ok result → result.balanceChange = c.balanceChange

theorem exec_sound (hvm : X.VmKeepsFunds) (hc : CtxSound B c) (hsolvent : X.Solvent c t) :
    Triple (· = ({ ctx := c, tx := t } : TxRun)) (X.exec t) (fun _ => Sound B t)
      (fun _ => Sound B t) := by
  have hstart : Sound B t { ctx := c, tx := t } := ⟨rfl, rfl, hc.balance, hc.funds⟩
  unfold exec
  cases X.check t with
  | error e => exact .throw fun _ h => h ▸ hstart
  | ok _ =>
    have hsource : X.isSource t → Triple (· = ({ ctx := c, tx := t } : TxRun))
        (X.sourceActionExec t.tx) (fun _ => Sound B t) (fun _ => Sound B t) := fun hsrc =>
      sourceActionExec_sound.conseq (by rintro _ rfl; exact ⟨hstart, hsolvent.source hsrc⟩)
        (fun _ _ h => h) (fun _ _ h => h)
    have hkeeps : ∀ {m : TxM Unit}, Keeps (Sound B t) m →
        Triple (· = ({ ctx := c, tx := t } : TxRun)) m (fun _ => Sound B t)
          (fun _ => Sound B t) := fun hm =>
      .conseq hm (by rintro _ rfl; exact hstart) (fun _ _ h => h) (fun _ _ h => h)
    show Triple _ (X.execActions t) _ _
    unfold execActions
    cases hsub : t.subtype X.config with
    | self =>
      exact .bind (hsource (by simp [isSource, hsub])) fun _ =>
        targetActionExec_sound hvm t.tx true
    | send => exact hsource (by simp [isSource, hsub])
    | recv => exact hkeeps (targetActionExec_sound hvm t.tx false)
    | confirm => exact hkeeps (sourceConfirmActionExec_sound _ _ (hsolvent.confirm hsub))

theorem execOneTx_sound (hvm : X.VmKeepsFunds) {t' : ConsTx} (hc : CtxSound B c)
    (hsolvent : X.Solvent c t) (h : X.execOneTx c t = (c', t', ret)) : Booked B c' ret := by
  have hsound := exec_sound hvm hc hsolvent { ctx := c, tx := t } rfl
  unfold execOneTx at h
  cases hexec : X.exec t { ctx := c, tx := t } with
  | error e s =>
    simp only [hexec, Prod.mk.injEq] at h hsound
    obtain ⟨rfl, -, rfl⟩ := h
    exact ⟨⟨hsound.balance, hsound.funds⟩, nofun⟩
  | ok a s =>
    simp only [hexec] at h hsound
    split at h
    · simp only [Prod.mk.injEq] at h
      obtain ⟨rfl, -, rfl⟩ := h
      exact ⟨⟨hsound.balance, hsound.funds⟩, nofun⟩
    · simp only [Prod.mk.injEq] at h
      obtain ⟨rfl, -, rfl⟩ := h
      refine ⟨⟨hsound.balance, hsound.funds⟩, fun result hresult => ?_⟩
      cases hresult
      rfl

def createdStarts (X : ExecEnv) : Nat → List ConsTx → Context → List (Context × ConsTx)
  | _, [], _ => []
  | i, t :: rest, c =>
    (c, t) :: match X.execOneTx c t with
      | (_, _, .error _) => []
      | (c, t, .ok _) =>
        createdStarts X (i + 1) rest { c with contractTxs := c.contractTxs.set i t }

def txStarts (X : ExecEnv) (c : Context) (t : ConsTx) : List (Context × ConsTx) :=
  (c, t) :: match X.execOneTx c t with
    | (_, _, .error _) => []
    | (c, _, .ok _) => X.createdStarts 0 c.contractTxs c

def batchStarts (X : ExecEnv) : Context → List ConsTx → List (Context × ConsTx)
  | _, [] => []
  | c, t :: rest =>
    X.txStarts (if X.isSource t then takeNonce t.tx c else c) t ++
      match X.execTx c t with
      | (c, _, .ok _) => batchStarts X c rest
      | (c, _, .error _) => if X.isSource t then [] else batchStarts X c rest

section
variable (hvm : X.VmKeepsFunds)
include hvm

theorem execContractTxs_sound {i : Nat} {txs : List ConsTx}
    {result : TransactionResult} (hc : CtxSound B c)
    (hresult : result.balanceChange = c.balanceChange)
    (hsolvent : ∀ p ∈ X.createdStarts i txs c, X.Solvent p.1 p.2)
    (h : X.execContractTxs i txs c result = (c', ret)) : Booked B c' ret := by
  induction txs generalizing i c result with
  | nil =>
    cases h
    refine ⟨hc, fun result' hr => ?_⟩
    cases hr
    exact hresult
  | cons u rest ih =>
    rcases hexec : X.execOneTx c u with ⟨c₁, u', ret₁⟩
    simp only [createdStarts, hexec, List.mem_cons, forall_eq_or_imp] at hsolvent
    obtain ⟨hc₁, hr₁⟩ := execOneTx_sound hvm hc hsolvent.1 hexec
    simp only [execContractTxs, hexec] at h
    cases ret₁ with
    | error e =>
      simp only [Prod.mk.injEq] at h
      obtain ⟨rfl, rfl⟩ := h
      exact ⟨⟨hc₁.balance, hc₁.funds⟩, nofun⟩
    | ok result₁ =>
      exact ih (c := { c₁ with contractTxs := c₁.contractTxs.set i u' })
        ⟨hc₁.balance, hc₁.funds⟩ (hr₁ result₁ rfl) hsolvent.2 h

theorem execWithCreated_sound {t' : ConsTx} (hc : CtxSound B c)
    (hsolvent : ∀ p ∈ X.txStarts c t, X.Solvent p.1 p.2)
    (h : X.execWithCreated c t = (c', t', ret)) : Booked B c' ret := by
  rcases hexec : X.execOneTx c t with ⟨c₁, t₁, ret₁⟩
  simp only [txStarts, hexec, List.mem_cons, forall_eq_or_imp] at hsolvent
  obtain ⟨hc₁, hr₁⟩ := execOneTx_sound hvm hc hsolvent.1 hexec
  simp only [execWithCreated, hexec] at h
  cases ret₁ with
  | error e =>
    simp only [Prod.mk.injEq] at h
    obtain ⟨rfl, -, rfl⟩ := h
    exact ⟨hc₁, fun _ hok => by cases hok⟩
  | ok result₁ =>
    simp only [Prod.mk.injEq] at h
    obtain ⟨rfl, -, rfl⟩ := h
    exact execContractTxs_sound hvm hc₁ (hr₁ result₁ rfl) hsolvent.2 rfl

theorem execTx_sound {t' : ConsTx} (hc : CtxSound B c)
    (hsolvent : ∀ p ∈ X.txStarts (if X.isSource t then takeNonce t.tx c else c) t,
      X.Solvent p.1 p.2)
    (h : X.execTx c t = (c', t', ret)) : Booked B c' ret := by
  unfold execTx at h
  split at h
  · rename_i hsrc
    rw [if_pos hsrc] at hsolvent
    split at h
    · simp only [Prod.mk.injEq] at h
      obtain ⟨rfl, -, rfl⟩ := h
      exact ⟨hc, nofun⟩
    · exact execWithCreated_sound (c := takeNonce t.tx c) hvm ⟨hc.balance, hc.funds⟩ hsolvent h
  · rename_i hsrc
    rw [if_neg hsrc] at hsolvent
    exact execWithCreated_sound hvm hc hsolvent h

theorem execBatchTxs_sound {txs : List ConsTx} {r : BatchResult}
    (hc : CtxSound B c) (hr : 0 ≤ (B : Int) + r.succTxsResult.balanceChange)
    (hsolvent : ∀ p ∈ X.batchStarts c txs, X.Solvent p.1 p.2) :
    0 ≤ (B : Int) + (X.execBatchTxs c txs r).2.2.1.succTxsResult.balanceChange := by
  induction txs generalizing c r with
  | nil => exact hr
  | cons u rest ih =>
    rcases hexec : X.execTx c u with ⟨c₁, u', ret⟩
    simp only [batchStarts, hexec, List.mem_append] at hsolvent
    obtain ⟨hc₁, hr₁⟩ := execTx_sound hvm hc (fun p hp => hsolvent p (.inl hp)) hexec
    cases ret with
    | ok result =>
      rw [execBatchTxs_of_ok hexec]
      refine ih hc₁ ?_ fun p hp => hsolvent p (.inr hp)
      have hfunds := hc₁.funds
      unfold Context.funds at hfunds
      rw [hc₁.balance, ← hr₁ result rfl] at hfunds
      exact hfunds
    | error e =>
      by_cases hsrc : X.isSource u
      · rw [execBatchTxs_of_fail hexec hsrc]
        exact hr
      · rw [execBatchTxs_of_pass hexec hsrc]
        refine ih hc₁ hr fun p hp => hsolvent p (.inr ?_)
        simpa only [if_neg hsrc] using hp

end

def applyBalanceChange (balance : Nat) (change : Int) : Nat := ((balance + change) % 2 ^ 64).toNat

/-- A batch that finds its deposits and service fees in the funds does not overdraw the account. -/
theorem batch_does_not_overdraw (X : ExecEnv) {c : Context} {txs : List ConsTx}
    (hvm : X.VmKeepsFunds) (hnew : c.balanceChange = 0)
    (hsolvent : ∀ p ∈ X.batchStarts c txs, X.Solvent p.1 p.2) {change : Int}
    (hchange : (X.execBatchTxs c txs {}).2.2.1.succTxsResult.balanceChange = change) :
    0 ≤ c.account.balance + change ∧ (c.account.balance + change < 2 ^ 64 →
      (applyBalanceChange c.account.balance change : Int) = c.account.balance + change) := by
  have hfunds : 0 ≤ c.funds := by
    unfold Context.funds
    omega
  have hpos := execBatchTxs_sound (r := {}) hvm ⟨rfl, hfunds⟩ (Int.natCast_nonneg _) hsolvent
  rw [hchange] at hpos
  refine ⟨hpos, fun hlt => ?_⟩
  unfold applyBalanceChange
  rw [Int.emod_eq_of_lt hpos hlt]
  omega

/-- Calls to `Z` cost the fee of the beacon zone. -/
def beacon : ExecEnv :=
  { plain with
    config :=
      { plain.config with
        addrType := fun address => if address = "Z" then .nativeContract else .userAccount
        isBeaconZone := fun address => address = "Z" } }

def beaconCall (deposit : UInt32) (lastNonce lastHash : Nat) : ConsTx where
  tx := ⟨.runContract ⟨"TOP", 0⟩, "A", "Z", deposit, 100, lastNonce, lastHash, "h"⟩

theorem batch_does_not_overdraw_sample :
    let change := (beacon.execBatchTxs richAccount [beaconCall 100000 0 0, beaconCall 200000 1 1]
      {}).2.2.1.succTxsResult.balanceChange
    change = -200300000 ∧ 0 ≤ (richAccount.account.balance : Int) + change := by
  have hstarts : ∀ p ∈ beacon.batchStarts richAccount
      [beaconCall 100000 0 0, beaconCall 200000 1 1],
      (beacon.isSource p.2 → beacon.locksDeposit p.2.tx →
        ((p.2.tx.deposit.toNat + beacon.calServiceFee p.2.tx.sourceAddr p.2.tx.targetAddr : Nat) :
          Int) ≤ p.1.funds) ∧ p.2.subtype beacon.config ≠ .confirm := by
    decide +kernel
  refine ⟨by decide +kernel, (batch_does_not_overdraw beacon (fun _ c => .refl c) rfl
    (fun p hp => ?_) rfl).1⟩
  obtain ⟨hsource, hconfirm⟩ := hstarts p hp
  exact ⟨hsource, fun h => absurd h hconfirm⟩

theorem service_fee_overdraws :
    (beacon.execBatchTxs richAccount [beaconCall 1000000000 0 0] {}).2.2.2 = none ∧
      (beacon.execBatchTxs richAccount [beaconCall 1000000000 0 0]
        {}).2.2.1.succTxsResult.balanceChange =
        -1100000000 ∧
      (richAccount.account.balance : Int) + -1100000000 < 0 ∧
      applyBalanceChange richAccount.account.balance (-1100000000) = 2 ^ 64 - 100000000 := by
  refine ⟨?_, ?_, ?_, ?_⟩ <;> decide +kernel

end ExecEnv
end TopChain.TxExecutor
