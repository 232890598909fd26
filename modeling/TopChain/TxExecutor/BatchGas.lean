import TopChain.Store.Funds
import TopChain.TxExecutor.Executor

/-!
# The gas that a batch is charged

What may be used is read from the account, what is used is written to the context.
-/
namespace TopChain.Store.Context

open TopChain.Lib TopChain.Data

variable {G : ChainConfig} {c c' c'' : Context}

/-- The account sees the used gas and the hour that the context writes, the hour is not ahead of the
clock, and neither the usage nor the whole gas of the account wraps in the decay's product. -/
structure GasVisible (G : ChainConfig) (c : Context) : Prop where
  used : usedTgasKey ∈ c.account.nativeNames
  hour : lastTxHourKey ∈ c.account.nativeNames
  usedTyped : ∀ obj, c.native.objs.find? usedTgasKey = some obj → obj.objType = .string
  hourTyped : ∀ obj, c.native.objs.find? lastTxHourKey = some obj → obj.objType = .string
  past : c.native.number lastTxHourKey % 2 ^ 32 ≤ c.timerHeight
  clock : c.timerHeight < 2 ^ 32
  cycle : 0 < G.usedgasDecayCycle
  usedFits : G.usedgasDecayCycle.toNat * c.native.number usedTgasKey < 2 ^ 64
  totalFits : G.usedgasDecayCycle.toNat * c.totalTgas G < 2 ^ 64

theorem lastHour_toNat (hour : Nat) :
    (UInt64.ofNat hour).toUInt32.toUInt64.toNat = hour % 2 ^ 32 := by
  rw [UInt32.toNat_toUInt64, UInt64.toNat_toUInt32, UInt64.toNat_ofNat']
  omega

theorem GasVisible.decayed_eq (h : GasVisible G c) :
    c.accountDecayedTgas G = c.calcDecayedTgas G := by
  have hused : c.accountNumber usedTgasKey = c.native.number usedTgasKey := if_pos h.used
  have hhour : c.accountNumber lastTxHourKey = c.native.number lastTxHourKey := if_pos h.hour
  have hclock : (UInt64.ofNat c.timerHeight).toNat = c.timerHeight :=
    UInt64.toNat_ofNat_of_lt (h.clock.trans (by decide))
  have hpast : (UInt64.ofNat (c.native.number lastTxHourKey)).toUInt32.toUInt64 ≤
      UInt64.ofNat c.timerHeight := by
    rw [Word.le_nat, lastHour_toNat, hclock]
    exact h.past
  have hfits : G.usedgasDecayCycle.toNat *
      (UInt64.ofNat (c.native.number usedTgasKey)).toNat < 2 ^ 64 :=
    (Nat.mul_le_mul_left _ (Nat.mod_le _ _)).trans_lt h.usedFits
  unfold accountDecayedTgas calcDecayedTgas
  rw [hused, hhour, (contextDecayedTgas_eq_iff h.cycle).mpr (.inr ?_)]
  exact hpast.lt_or_eq.imp_right fun heq => ⟨heq.symm, hfits⟩

/-- What was recorded at the present clock has not decayed. -/
theorem accountDecayedTgas_now {used : Nat} (hclock : c.timerHeight < 2 ^ 32)
    (hused : c.accountNumber usedTgasKey = used) (hfits : used < 2 ^ 64)
    (hhour : c.accountNumber lastTxHourKey = c.timerHeight) :
    c.accountDecayedTgas G = used := by
  have hle : UInt64.ofNat c.timerHeight ≤
      (UInt64.ofNat c.timerHeight).toUInt32.toUInt64 := by
    rw [Word.le_nat, lastHour_toNat, UInt64.toNat_ofNat']
    omega
  unfold accountDecayedTgas blockchainDecayedTgas
  rw [hused, hhour, if_pos hle]
  exact UInt64.toNat_ofNat_of_lt hfits

theorem number_setUsedTgas (hused : ∀ obj, c.native.objs.find? usedTgasKey = some obj →
      obj.objType = .string)
    (hhour : ∀ obj, c.native.objs.find? lastTxHourKey = some obj → obj.objType = .string)
    (num : Nat) :
    (c.setUsedTgas num).native.number usedTgasKey = num % 2 ^ 64 ∧
      (c.setUsedTgas num).native.number lastTxHourKey = c.timerHeight := by
  have hother : lastTxHourKey ≠ usedTgasKey := by decide
  have hfind : (c.setNative usedTgasKey (.number (num % 2 ^ 64))).native.objs.find?
      lastTxHourKey = c.native.objs.find? lastTxHourKey := find?_put_of_ne c.native _ hother
  constructor
  · exact (number_put_of_ne _ _ hother.symm).trans (number_put hused _).2
  · exact (number_put (fun obj hobj => hhour obj (hfind ▸ hobj)) _).2

theorem GasVisible.setUsedTgas (h : GasVisible G c) {num : Nat}
    (hnum : G.usedgasDecayCycle.toNat * num < 2 ^ 64) : GasVisible G (c.setUsedTgas num) := by
  have hother : lastTxHourKey ≠ usedTgasKey := by decide
  have hfind : (c.setNative usedTgasKey (.number (num % 2 ^ 64))).native.objs.find?
      lastTxHourKey = c.native.objs.find? lastTxHourKey := find?_put_of_ne c.native _ hother
  have hused := (number_put h.usedTyped (num % 2 ^ 64)).1
  have hhour : ∀ obj, (c.setNative usedTgasKey (.number (num % 2 ^ 64))).native.objs.find?
      lastTxHourKey = some obj → obj.objType = .string :=
    fun obj hobj => h.hourTyped obj (hfind ▸ hobj)
  obtain ⟨hnumber, hlast⟩ := number_setUsedTgas h.usedTyped h.hourTyped num
  refine ⟨h.used, h.hour, fun obj hobj => ?_, (number_put hhour _).1, ?_, h.clock, h.cycle, ?_,
    h.totalFits⟩
  · exact hused obj (find?_put_of_ne _ _ hother.symm ▸ hobj)
  · rw [hlast]
    exact Nat.mod_le _ _
  · rw [hnumber]
    exact (Nat.mul_le_mul_left _ (Nat.mod_le _ _)).trans_lt hnum

/-- A charge within what is available leaves the sum within the whole gas, or is zero. -/
theorem GasVisible.charge_le (h : GasVisible G c) {n : Nat} (hle : n ≤ c.availableTgas G) :
    n + c.calcDecayedTgas G ≤ c.totalTgas G ∨
      n = 0 ∧ c.calcDecayedTgas G ≤ c.native.number usedTgasKey := by
  have heq := h.decayed_eq
  have hused : c.calcDecayedTgas G ≤ c.native.number usedTgasKey :=
    (Word.le_nat.mp decayedShare_le).trans (Nat.mod_le _ _)
  unfold availableTgas at hle
  omega

theorem GasVisible.incrUsedTgas (h : GasVisible G c) {n : Nat} (hle : n ≤ c.availableTgas G) :
    GasVisible G (c.incrUsedTgas G n) ∧
      (c.incrUsedTgas G n).availableTgas G + n ≤ c.availableTgas G := by
  have hfits : G.usedgasDecayCycle.toNat * (n + c.calcDecayedTgas G) < 2 ^ 64 := by
    rcases h.charge_le hle with hsum | ⟨rfl, hused⟩
    · exact (Nat.mul_le_mul_left _ hsum).trans_lt h.totalFits
    · rw [Nat.zero_add]
      exact (Nat.mul_le_mul_left _ hused).trans_lt h.usedFits
  have hword : n + c.calcDecayedTgas G < 2 ^ 64 := by
    have hcycle : 0 < G.usedgasDecayCycle.toNat := UInt32.lt_iff_toNat_lt.mp h.cycle
    exact (Nat.le_mul_of_pos_left _ hcycle).trans_lt hfits
  have hnext : GasVisible G (c.incrUsedTgas G n) := h.setUsedTgas hfits
  refine ⟨hnext, ?_⟩
  obtain ⟨hused, hhour⟩ :=
    number_setUsedTgas h.usedTyped h.hourTyped (n + c.calcDecayedTgas G)
  rw [Nat.mod_eq_of_lt hword] at hused
  have hdecayed : (c.incrUsedTgas G n).accountDecayedTgas G = n + c.accountDecayedTgas G := by
    rw [h.decayed_eq]
    exact accountDecayedTgas_now h.clock ((if_pos hnext.used).trans hused) hword
      ((if_pos hnext.hour).trans hhour)
  have htotal : (c.incrUsedTgas G n).totalTgas G = c.totalTgas G := rfl
  unfold availableTgas at hle ⊢
  omega

theorem checkUsedTgas_ok {usage deposit : Nat} (hdeposit : deposit < 2 ^ 32)
    (h : (c.checkUsedTgas G usage deposit).2.2 = none) :
    (c.checkUsedTgas G usage deposit).1 ≤ c.availableTgas G ∧ (c.checkUsedTgas G usage deposit).1 +
        (c.checkUsedTgas G usage deposit).2.1 / G.txDepositGasExchangeRatio = usage := by
  have hsum := Nat.mod_le (c.availableTgas G + deposit / G.txDepositGasExchangeRatio) (2 ^ 64)
  unfold checkUsedTgas at h ⊢
  dsimp only at h ⊢
  split_ifs at h ⊢ with hover hmore
  · have hratio : 0 < G.txDepositGasExchangeRatio := by
      by_contra hzero
      rw [Nat.eq_zero_of_not_pos hzero, Nat.div_zero] at hover hsum
      omega
    have hsmall : (usage - c.availableTgas G) * G.txDepositGasExchangeRatio < 2 ^ 64 := by
      calc (usage - c.availableTgas G) * G.txDepositGasExchangeRatio
          ≤ deposit / G.txDepositGasExchangeRatio * G.txDepositGasExchangeRatio :=
            Nat.mul_le_mul_right _ (by omega)
        _ ≤ deposit := Nat.div_mul_le_self _ _
        _ < 2 ^ 64 := by omega
    refine ⟨le_rfl, ?_⟩
    dsimp only
    rw [Nat.mod_eq_of_lt hsmall, Nat.mul_div_cancel _ hratio]
    omega
  · refine ⟨not_lt.mp hmore, ?_⟩
    rw [Nat.zero_div, Nat.add_zero]

theorem checkUsedTgas_error {usage deposit : Nat} {e : TxError}
    (h : (c.checkUsedTgas G usage deposit).2.2 = some e) : e = .notEnoughPledgeTokenTgas := by
  unfold checkUsedTgas at h
  dsimp only at h
  split_ifs at h
  exact (Option.some_inj.mp h).symm

structure SameGas (c c' : Context) : Prop where
  address : c'.address = c.address
  account : c'.account = c.account
  clock : c'.timerHeight = c.timerHeight
  locked : c'.sysTotalLockTgasToken = c.sysTotalLockTgasToken
  created : c'.contractTxs = c.contractTxs
  used : c'.native.objs.find? usedTgasKey = c.native.objs.find? usedTgasKey
  hour : c'.native.objs.find? lastTxHourKey = c.native.objs.find? lastTxHourKey

theorem SameGas.refl (c : Context) : SameGas c c := ⟨rfl, rfl, rfl, rfl, rfl, rfl, rfl⟩

theorem SameGas.trans (h : SameGas c c') (h' : SameGas c' c'') : SameGas c c'' where
  address := h'.address.trans h.address
  account := h'.account.trans h.account
  clock := h'.clock.trans h.clock
  locked := h'.locked.trans h.locked
  created := h'.created.trans h.created
  used := h'.used.trans h.used
  hour := h'.hour.trans h.hour

theorem SameGas.total (h : SameGas c c') : c'.totalTgas G = c.totalTgas G := by
  unfold totalTgas tokenPrice freeTgas
  rw [h.account, h.locked, h.address]

theorem SameGas.available (h : SameGas c c') : c'.availableTgas G = c.availableTgas G := by
  have hused : c'.accountNumber usedTgasKey = c.accountNumber usedTgasKey := by
    unfold accountNumber NativeProperty.number
    rw [h.account, h.used]
  have hhour : c'.accountNumber lastTxHourKey = c.accountNumber lastTxHourKey := by
    unfold accountNumber NativeProperty.number
    rw [h.account, h.hour]
  have hdecayed : c'.accountDecayedTgas G = c.accountDecayedTgas G := by
    unfold accountDecayedTgas
    rw [hused, hhour, h.clock]
  unfold availableTgas
  rw [hdecayed, h.total]

theorem GasVisible.same (h : GasVisible G c) (hsame : SameGas c c') : GasVisible G c' where
  used := hsame.account ▸ h.used
  hour := hsame.account ▸ h.hour
  usedTyped := fun obj hobj => h.usedTyped obj (hsame.used ▸ hobj)
  hourTyped := fun obj hobj => h.hourTyped obj (hsame.hour ▸ hobj)
  past := by
    have hnumber : c'.native.number lastTxHourKey = c.native.number lastTxHourKey := by
      unfold NativeProperty.number
      rw [hsame.hour]
    rw [hnumber, hsame.clock]
    exact h.past
  clock := hsame.clock ▸ h.clock
  cycle := h.cycle
  usedFits := by
    have hnumber : c'.native.number usedTgasKey = c.native.number usedTgasKey := by
      unfold NativeProperty.number
      rw [hsame.used]
    rw [hnumber]
    exact h.usedFits
  totalFits := hsame.total ▸ h.totalFits

theorem sameGas_setBalanceChange (change : Int) : SameGas c (c.setBalanceChange change) :=
  ⟨rfl, rfl, rfl, rfl, rfl, rfl, rfl⟩

theorem sameGas_setNative {name : String} (obj : NativeObj) (hused : usedTgasKey ≠ name)
    (hhour : lastTxHourKey ≠ name) : SameGas c (c.setNative name obj) :=
  ⟨rfl, rfl, rfl, rfl, rfl, find?_put_of_ne _ _ hused, find?_put_of_ne _ _ hhour⟩

theorem sameGas_setNative? {name : String} {obj : NativeObj} (hused : usedTgasKey ≠ name)
    (hhour : lastTxHourKey ≠ name) (h : c.setNative? name obj = .ok c') : SameGas c c' := by
  rw [eq_setNative_of_ok h]
  exact sameGas_setNative obj hused hhour

theorem sameGas_topTokenTransferOut {amount gasFee serviceFee : Nat}
    (h : c.topTokenTransferOut G amount gasFee serviceFee = .ok c') : SameGas c c' := by
  obtain ⟨-, rfl⟩ | ⟨fee, -, -, rfl⟩ := topTokenTransferOut_cases h
  · exact .refl _
  · exact sameGas_setBalanceChange _

theorem sameGas_tokenTransferOut {asset : Asset} (h : c.tokenTransferOut G asset = .ok c') :
    SameGas c c' := by
  unfold tokenTransferOut otherTokenTransferOut at h
  split at h
  · exact sameGas_topTokenTransferOut h
  split at h
  · split at h
    · exact sameGas_setNative? (by decide) (by decide) h
    · cases h
  · cases h

theorem sameGas_releaseLock (lockSum : Nat) (lockHash : String) (amount : Nat) :
    SameGas c (c.releaseLock lockSum lockHash amount) :=
  ((sameGas_setNative _ (by decide) (by decide)).trans
    (sameGas_setNative _ (by decide) (by decide))).trans (sameGas_setBalanceChange _)

theorem sameGas_unlockAllToken (h : c.unlockAllToken G = .ok c') : SameGas c c' := by
  unfold unlockAllToken at h
  split at h
  · cases h
  cases h
  refine List.foldlRecOn _ _ (.refl c) fun d hd e _ => ?_
  split
  · exact hd.trans (sameGas_releaseLock _ _ _)
  · exact hd

end TopChain.Store.Context

namespace TopChain.TxExecutor

open List TopChain.Lib TopChain.Lib.Hoare TopChain.Data TopChain.Store TopChain.Store.Context

structure Spent (G : ChainConfig) (c₀ : Context) (n : Nat) (c : Context) : Prop where
  visible : GasVisible G c
  available : c.availableTgas G + n ≤ c₀.availableTgas G
  created : c.contractTxs = c₀.contractTxs

/-- What a transaction has been charged before it fails. -/
def chargedTgas (t : ConsTx) (e : TxError) : Nat :=
  if e = .notEnoughPledgeTokenTgas then 0 else t.execState.usedTgas

section
variable {G : ChainConfig} {c₀ c c' : Context} {n n' : Nat}

theorem Spent.same (h : Spent G c₀ n c) (hsame : SameGas c c') : Spent G c₀ n c' :=
  ⟨h.visible.same hsame, hsame.available ▸ h.available, hsame.created.trans h.created⟩

theorem Spent.less (h : Spent G c₀ n c) (hle : n' ≤ n) : Spent G c₀ n' c :=
  ⟨h.visible, (Nat.add_le_add_left hle _).trans h.available, h.created⟩

theorem Spent.incrUsedTgas (h : Spent G c₀ 0 c) (hle : n ≤ c.availableTgas G) :
    Spent G c₀ n (c.incrUsedTgas G n) := by
  obtain ⟨hvisible, hless⟩ := h.visible.incrUsedTgas hle
  exact ⟨hvisible, hless.trans h.available, h.created⟩

end

namespace ExecEnv
variable {X : ExecEnv} {c₀ : Context}

def Charged (X : ExecEnv) (c₀ : Context) (s : TxRun) : Prop :=
  Spent X.config c₀ s.tx.execState.usedTgas s.ctx

structure Uncharged (X : ExecEnv) (c₀ : Context) (s : TxRun) : Prop where
  usedTgas : s.tx.execState.usedTgas = 0
  spent : Spent X.config c₀ 0 s.ctx

def FailedCharged (X : ExecEnv) (c₀ : Context) (e : TxError) (s : TxRun) : Prop :=
  Spent X.config c₀ (chargedTgas s.tx e) s.ctx

theorem Charged.failed {s : TxRun} (h : X.Charged c₀ s) (e : TxError) : X.FailedCharged c₀ e s := by
  refine Spent.less h ?_
  unfold chargedTgas
  split_ifs
  · exact Nat.zero_le _
  · exact le_rfl

theorem Uncharged.charged {s : TxRun} (h : X.Uncharged c₀ s) : X.Charged c₀ s :=
  h.spent.less h.usedTgas.le

theorem triple_of_keeps {α : Type} {m : TxM α} (h : Keeps (X.Charged c₀) m) :
    Triple (X.Charged c₀) m (fun _ => X.Charged c₀) (X.FailedCharged c₀) :=
  h.conseq (fun _ h => h) (fun _ _ h => h) (fun e _ h => h.failed e)

theorem sourceServiceFeeExec_gas : Keeps (X.Uncharged c₀) X.sourceServiceFeeExec :=
  X.triple_sourceServiceFeeExec
    (fun _ _ _ h _ hout => ⟨h.usedTgas, h.spent.same (sameGas_topTokenTransferOut hout)⟩)
    fun _ _ _ h => ⟨h.usedTgas, h.spent⟩

theorem tgasUsage_lt (t : ConsTx) : X.tgasUsage t < 2 ^ 32 := by
  have hlen := t.tx.txLen.toNat_lt
  unfold tgasUsage
  split <;> omega

theorem charged_bookTgas {s : TxRun} {out : Context × Nat × Option TxError} (hs : X.Uncharged c₀ s)
    (hout : s.ctx.updateTgasSender X.config (X.tgasUsage s.tx) s.tx.tx.deposit.toNat = out)
    (hret : out.2.2 = none) : X.Charged c₀ (X.bookTgas s out) := by
  have husage := tgasUsage_lt (X := X) s.tx
  subst hout
  obtain ⟨hle, hsum⟩ := checkUsedTgas_ok s.tx.tx.deposit.toNat_lt hret
  have hspent := hs.spent.incrUsedTgas hle
  unfold Charged bookTgas Context.updateTgasSender at *
  dsimp only at hret ⊢
  rw [if_pos hret]
  generalize s.ctx.checkUsedTgas X.config (X.tgasUsage s.tx) s.tx.tx.deposit.toNat = check
    at hsum hspent ⊢
  generalize check.2.1 / X.config.txDepositGasExchangeRatio = paid at hsum ⊢
  rw [Word.wsub_of_le (by omega) (by omega)]
  have hfield : (X.tgasUsage s.tx - paid) % 2 ^ 32 = check.1 := by omega
  rw [hfield]
  exact hspent

theorem lockDeposit_gas (isContract : Bool) (frozen deposit : Nat) (c : Context) :
    SameGas c (lockDeposit isContract frozen deposit c) := by
  cases isContract with
  | true => exact ⟨rfl, rfl, rfl, rfl, rfl, rfl, rfl⟩
  | false => exact ⟨rfl, rfl, rfl, rfl, rfl, rfl, rfl⟩

theorem updateTgasDiskSender_gas (amount : Nat) (isContract : Bool) :
    Triple (X.Uncharged c₀) (X.updateTgasDiskSender amount isContract) (fun _ => X.Charged c₀)
      (X.FailedCharged c₀) := by
  refine X.triple_updateTgasDiskSender (fun _ e h => h.charged.failed e)
    fun s out hs _ hout => ⟨fun hret => ?_, fun e hret => ?_⟩
  · have h := (charged_bookTgas hs hout hret).same (lockDeposit_gas isContract
      (X.frozenTgas out.1 s.tx.tx.deposit.toNat out.2.1) s.tx.tx.deposit.toNat out.1)
    cases isContract <;> exact h
  · have hspent : Spent X.config c₀ 0 out.1 :=
      Context.updateTgasSender_of_error hout hret ▸ hs.spent
    subst hout
    obtain rfl := checkUsedTgas_error hret
    exact hspent

theorem sourceFeeExec_gas (tx : Transaction) :
    Triple (X.Uncharged c₀) (X.sourceFeeExec tx) (fun _ => X.Charged c₀) (X.FailedCharged c₀) :=
  X.triple_sourceFeeExec (fun _ h => h.charged) (fun _ _ h => ⟨h.usedTgas, h.spent⟩)
    fun _ => updateTgasDiskSender_gas

theorem sameGas_sourceSteps : X.SourceSteps SameGas where
  refl := .refl
  transferOut := sameGas_topTokenTransferOut
  tokenTransferOut := sameGas_tokenTransferOut
  unlockAllToken := sameGas_unlockAllToken
  contractSubAccount := sameGas_setNative? (by decide) (by decide)
  subAccount := sameGas_setNative? (by decide) (by decide)
  lockBalance _ _ := ⟨rfl, rfl, rfl, rfl, rfl, rfl, rfl⟩
  unvoteNum _ _ := ⟨rfl, rfl, rfl, rfl, rfl, rfl, rfl⟩

theorem sourceActionOf_gas (tx : Transaction) : Keeps (X.Charged c₀) (X.sourceActionOf tx) :=
  X.keeps_sourceActionOf sameGas_sourceSteps (fun _ _ hs hc => hs.same hc) (fun _ _ hs => hs) tx

theorem exec_gas {t : ConsTx} (hsend : t.subtype X.config = .send) :
    Triple (X.Uncharged c₀) (X.exec t) (fun _ => X.Charged c₀) (X.FailedCharged c₀) := by
  unfold exec
  cases X.check t with
  | error e => exact .throw fun _ h => h.charged.failed e
  | ok _ =>
    unfold execActions
    rw [hsend]
    refine .bind (Q := fun _ => X.Uncharged c₀) ?_ fun _ =>
      .bind (sourceFeeExec_gas t.tx) fun _ => triple_of_keeps (sourceActionOf_gas t.tx)
    exact sourceServiceFeeExec_gas.conseq (fun _ h => h) (fun _ _ h => h)
      (fun e _ h => h.charged.failed e)

def chargeOf (t : ConsTx) (ret : Except TxError TransactionResult) : Nat :=
  match ret with
  | .ok _ => t.execState.usedTgas
  | .error e => chargedTgas t e

theorem execTx_gas {c c' : Context} {t t' : ConsTx} {ret : Except TxError TransactionResult}
    (hsend : t.subtype X.config = .send) (hnew : t.execState.usedTgas = 0)
    (hvisible : GasVisible X.config c) (hcreated : c.contractTxs = [])
    (h : X.execTx c t = (c', t', ret)) :
    Spent X.config c (chargeOf t' ret) c' := by
  have hstart : Spent X.config c 0 (takeNonce t.tx c) :=
    ⟨⟨hvisible.used, hvisible.hour, hvisible.usedTyped, hvisible.hourTyped, hvisible.past,
      hvisible.clock, hvisible.cycle, hvisible.usedFits, hvisible.totalFits⟩, le_rfl, rfl⟩
  have hgas := exec_gas hsend { ctx := takeNonce t.tx c, tx := t } ⟨hnew, hstart⟩
  rcases execTx_send_cases hsend h with
    ⟨rfl, rfl, rfl⟩ | ⟨e, s, hexec, rfl, rfl, rfl⟩ | ⟨s, hexec, rfl, hrest⟩
  · refine ⟨hvisible, ?_, rfl⟩
    show _ + t'.execState.usedTgas ≤ _
    rw [hnew, Nat.add_zero]
  · rw [hexec] at hgas
    exact hgas
  · rw [hexec] at hgas
    have hspent : Spent X.config c s.tx.execState.usedTgas s.ctx := hgas
    rw [hspent.created, hcreated] at hrest
    cases hrest
    exact hspent

end ExecEnv

def BatchResult.chargedTgas (r : BatchResult) : Nat :=
  (r.execSuccTxs.map (·.execState.usedTgas)).sum +
    match r.execFailTx with
    | none => 0
    | some (t, e) => TxExecutor.chargedTgas t e

namespace ExecEnv
variable {X : ExecEnv}

/-- A send transaction that has used no gas yet. -/
structure IsNewSend (X : ExecEnv) (t : ConsTx) : Prop where
  send : t.subtype X.config = .send
  unused : t.execState.usedTgas = 0

theorem execBatchTxs_gas {c : Context} {txs : List ConsTx} {r : BatchResult}
    (hsend : ∀ t ∈ txs, X.IsNewSend t) (hvisible : GasVisible X.config c)
    (hcreated : c.contractTxs = []) (hr : r.execFailTx = none) :
    (X.execBatchTxs c txs r).2.2.1.chargedTgas ≤ r.chargedTgas + c.availableTgas X.config := by
  induction txs generalizing c r with
  | nil => exact Nat.le_add_right _ _
  | cons t rest ih =>
    have ht := hsend t mem_cons_self
    have hsource : X.isSource t := by simp [isSource, ht.send]
    rcases hexec : X.execTx c t with ⟨c₁, t', ret⟩
    have hspent := execTx_gas ht.send ht.unused hvisible hcreated hexec
    have havailable := hspent.available
    cases ret with
    | error e =>
      rw [execBatchTxs_of_fail hexec hsource]
      unfold BatchResult.chargedTgas
      dsimp only
      have hcharge : TxExecutor.chargedTgas (setStatus .fail t') e = chargeOf t' (.error e) := rfl
      omega
    | ok result =>
      rw [execBatchTxs_of_ok hexec]
      have hrest := ih (r := { r with
          succTxsResult := result
          execSuccTxs := r.execSuccTxs ++ [setStatus .success t'] })
        (fun u hu => hsend u (mem_cons_of_mem t hu)) hspent.visible
        (hspent.created.trans hcreated) hr
      have hsum : BatchResult.chargedTgas { r with
          succTxsResult := result
          execSuccTxs := r.execSuccTxs ++ [setStatus .success t'] } =
          r.chargedTgas + chargeOf t' (.ok result) := by
        unfold BatchResult.chargedTgas
        rw [hr, map_append, sum_append]
        rfl
      dsimp only
      omega

/-- A batch of send transactions is charged no more than the account has available, if the account
sees what it is charged. -/
theorem batch_gas_le_available (X : ExecEnv) (c : Context) (txs : List ConsTx)
    (hsend : ∀ t ∈ txs, X.IsNewSend t) (hcreated : c.contractTxs = [])
    (hvisible : GasVisible X.config c) :
    (X.execBatchTxs c txs {}).2.2.1.chargedTgas ≤ c.availableTgas X.config := by
  have h := execBatchTxs_gas (r := {}) hsend hvisible hcreated rfl
  have hzero : BatchResult.chargedTgas {} = 0 := rfl
  rwa [hzero, Nat.zero_add] at h

def gasUser (used hour clock : Nat) : Context :=
  .new "A" { balance := 1000000000 }
    ((SortedMap.empty.insert usedTgasKey (.number used)).insert lastTxHourKey
      (.number hour)) clock 0

def lengthyTransfer (txLen : UInt16) (lastNonce lastHash : Nat) : ConsTx where
  tx := ⟨.transfer ⟨"TOP", 1⟩ ⟨"TOP", 1⟩, "A", "B", 100000, txLen, lastNonce, lastHash, "h"⟩

def threeTransfers : List ConsTx :=
  [lengthyTransfer 4000 0 0, lengthyTransfer 4000 1 1, lengthyTransfer 1900 2 1]

theorem batch_gas_le_available_sample :
    (plain.execBatchTxs (gasUser 100 7 7) threeTransfers {}).2.2.1.execSuccTxs.map
        (fun t => (t.execState.usedTgas, t.execState.usedDeposit)) =
      [(12000, 0), (12000, 0), (900, 96000)] ∧
    (plain.execBatchTxs (gasUser 100 7 7) threeTransfers {}).2.2.1.chargedTgas ≤ 24900 := by
  have havailable : (gasUser 100 7 7).availableTgas plain.config = 24900 := by decide +kernel
  have hused : (gasUser 100 7 7).native.objs.find? usedTgasKey = some (.number 100) := by
    decide +kernel
  have hhour : (gasUser 100 7 7).native.objs.find? lastTxHourKey = some (.number 7) := by
    decide +kernel
  refine ⟨by decide +kernel, havailable ▸ batch_gas_le_available plain _ _ ?_ rfl ?_⟩
  · have hnew : ∀ t ∈ threeTransfers, t.subtype plain.config = .send ∧
        t.execState.usedTgas = 0 := by
      decide +kernel
    exact fun t ht => ⟨(hnew t ht).1, (hnew t ht).2⟩
  · refine ⟨by decide +kernel, by decide +kernel, fun obj hobj => ?_, fun obj hobj => ?_,
      by decide +kernel, by decide +kernel, by decide +kernel, by decide +kernel,
      by decide +kernel⟩
    · cases hobj
      rfl
    · cases hobj
      rfl

/-- Gas that the account does not see, an hour ahead of the clock, and a usage whose product with
the cycle wraps. -/
theorem batch_overspends_gas :
    let twice := [lengthyTransfer 8000 0 0, lengthyTransfer 8000 1 1]
    let ahead := [lengthyTransfer 1000 0 0, lengthyTransfer 7000 1 1]
    (richAccount.availableTgas plain.config,
      (plain.execBatchTxs richAccount twice {}).2.2.1.chargedTgas) = (25000, 48000) ∧
    ((gasUser 20000 100 10).availableTgas plain.config,
      (plain.execBatchTxs (gasUser 20000 100 10) ahead {}).2.2.1.chargedTgas) = (5000, 24000) ∧
    ((gasUser (2 ^ 60) 7 7).availableTgas plain.config,
      (plain.execBatchTxs (gasUser (2 ^ 60) 7 7) ahead {}).2.2.1.chargedTgas) = (0, 21000) := by
  decide +kernel

end ExecEnv
end TopChain.TxExecutor
