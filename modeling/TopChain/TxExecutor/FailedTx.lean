import TopChain.TxExecutor.Executor

/-!
# A failed transaction and the unit

When a transaction of a batch fails, the unit is made from the result taken before it, but
`make_lightunit_output` hands the whole batch to `set_input_txs`.
-/
namespace TopChain.TxExecutor

open List TopChain.Data TopChain.Store

namespace ExecEnv
variable {X : ExecEnv} {c : Context}

theorem execBatchTxs_append {c₁ : Context} {pre pre' : List ConsTx} {r₀ r : BatchResult}
    (rest : List ConsTx) (hsrc : ∀ u ∈ pre, X.isSource u)
    (hrun : X.execBatchTxs c pre r₀ = (c₁, pre', r, none)) (hok : r.execFailTx = none) :
    X.execBatchTxs c (pre ++ rest) r₀ =
      ((X.execBatchTxs c₁ rest r).1, pre' ++ (X.execBatchTxs c₁ rest r).2.1,
        (X.execBatchTxs c₁ rest r).2.2) ∧
      r₀.execSuccTxs.length + pre.length = r.execSuccTxs.length ∧ pre'.length = pre.length := by
  induction pre generalizing c r₀ pre' with
  | nil =>
    cases hrun
    exact ⟨rfl, rfl, rfl⟩
  | cons u pre ih =>
    rcases hexec : X.execTx c u with ⟨c', u', ret⟩
    cases ret with
    | error e =>
      rw [execBatchTxs_of_fail hexec (hsrc u mem_cons_self)] at hrun
      simp only [Prod.mk.injEq] at hrun
      obtain ⟨-, -, rfl, -⟩ := hrun
      cases hok
    | ok result =>
      rw [execBatchTxs_of_ok hexec] at hrun
      simp only [Prod.mk.injEq] at hrun
      obtain ⟨hc, rfl, hr⟩ := hrun
      obtain ⟨heq, hlen, hpre⟩ := ih (fun v hv => hsrc v (mem_cons_of_mem u hv))
        (Prod.ext hc (Prod.ext rfl hr))
      rw [cons_append, execBatchTxs_of_ok hexec, heq]
      refine ⟨rfl, ?_, congrArg (· + 1) hpre⟩
      simp only [length_append, length_cons, length_nil] at hlen ⊢
      omega

theorem makeLightunitOutput_of_fail {c₁ c₂ : Context} {pre pre' : List ConsTx} {t t' : ConsTx}
    {r : BatchResult} {e : TxError} (rest : List ConsTx) (hsrc : ∀ u ∈ pre, X.isSource u)
    (ht : X.isSource t) (hne : pre ≠ []) (hrun : X.execBatchTxs c pre {} = (c₁, pre', r, none))
    (hok : r.execFailTx = none) (hfail : X.execTx c₁ t = (c₂, t', .error e)) :
    X.makeLightunitOutput c pre = .ok (X.blockbody c₁ pre' r.succTxsResult) ∧
      X.makeLightunitOutput c (pre ++ t :: rest) =
        .ok (X.blockbody c₂ (pre' ++ setStatus .fail t' :: rest) r.succTxsResult) ∧
      pre'.length = pre.length := by
  obtain ⟨happ, hlen, hpre⟩ := execBatchTxs_append (t :: rest) hsrc hrun hok
  rw [execBatchTxs_of_fail hfail ht] at happ
  have hsucc : r.execSuccTxs.isEmpty = false := by
    have hpos := length_pos_of_ne_nil hne
    rw [isEmpty_eq_false_iff, ← length_pos_iff, ← hlen]
    omega
  refine ⟨?_, ?_, hpre⟩
  · rw [makeLightunitOutput, hrun]
  · rw [makeLightunitOutput, happ, hsucc]
    rfl

/-- The outputs change the account by the same amounts. -/
structure SameNumbers (a b : OutputResource) : Prop where
  balance : a.balanceChange = b.balanceChange
  pledgeTgas : a.pledgeTgasChange = b.pledgeTgasChange
  pledgeDisk : a.pledgeDiskChange = b.pledgeDiskChange
  pledgeVote : a.pledgeVoteChange = b.pledgeVoteChange
  lockBalance : a.lockBalanceChange = b.lockBalanceChange
  lockTgas : a.lockTgasChange = b.lockTgasChange
  unvoteNum : a.unvoteNumChange = b.unvoteNumChange
  propertyHash : a.propertyHash = b.propertyHash

/-- The input transactions of a unit that come from the batch and not from a contract. -/
def batchInputs (u : Lightunit) : List InputEntity := u.inputs.filter (! ·.contractCreate)

theorem batchInputs_blockbody (c : Context) (txs : List ConsTx) (result : TransactionResult) :
    batchInputs (X.blockbody c txs result) = txs.map (X.inputEntity false) := by
  have hbatch : (txs.map (X.inputEntity false)).filter (! ·.contractCreate) =
      txs.map (X.inputEntity false) := filter_eq_self.mpr fun i hi => by
    obtain ⟨t, -, rfl⟩ := mem_map.mp hi
    rfl
  have hcreated : ((sharedTxs c result).map (X.inputEntity true)).filter (! ·.contractCreate) =
      [] := filter_eq_nil_iff.mpr fun i hi => by
    obtain ⟨t, -, rfl⟩ := mem_map.mp hi
    exact Bool.false_ne_true
  rw [batchInputs, blockbody, filter_append, hbatch, hcreated, append_nil]

/-- A batch fails at `t` after `pre` have succeeded. The unit changes the account by the numbers
of `pre`, but it lists every transaction of the batch, so it is never the unit of `pre` alone. -/
theorem failed_tx_listed_in_unit (X : ExecEnv) {c c₁ c₂ : Context}
    {pre pre' rest : List ConsTx} {t t' : ConsTx} {r : BatchResult} {e : TxError}
    (hsrc : ∀ u ∈ pre, X.isSource u) (ht : X.isSource t) (hne : pre ≠ [])
    (hrun : X.execBatchTxs c pre {} = (c₁, pre', r, none)) (hok : r.execFailTx = none)
    (hfail : X.execTx c₁ t = (c₂, t', .error e)) :
    ∃ u u', X.makeLightunitOutput c pre = .ok u ∧
      X.makeLightunitOutput c (pre ++ t :: rest) = .ok u' ∧
      SameNumbers u'.resource u.resource ∧
      (batchInputs u).length = pre.length ∧
      (batchInputs u').length = (pre ++ t :: rest).length ∧ u'.inputs ≠ u.inputs := by
  obtain ⟨hpre, hbatch, hlen⟩ :=
    makeLightunitOutput_of_fail rest hsrc ht hne hrun hok hfail
  have hin : (batchInputs (X.blockbody c₁ pre' r.succTxsResult)).length = pre.length := by
    rw [batchInputs_blockbody, length_map, hlen]
  have hin' : (batchInputs (X.blockbody c₂ (pre' ++ setStatus .fail t' :: rest)
      r.succTxsResult)).length = (pre ++ t :: rest).length := by
    rw [batchInputs_blockbody, length_map, length_append, length_append, hlen]
    rfl
  refine ⟨_, _, hpre, hbatch, ⟨rfl, rfl, rfl, rfl, rfl, rfl, rfl, rfl⟩, hin, hin', fun heq => ?_⟩
  rw [batchInputs, heq] at hin'
  have hmore := hin.symm.trans hin'
  rw [length_append, length_cons] at hmore
  omega

theorem failed_tx_listed_in_unit_sample :
    ∃ u u', plain.makeLightunitOutput richAccount [bigTransfer 0 0] = .ok u ∧
      plain.makeLightunitOutput richAccount [bigTransfer 0 0, bigTransfer 1 1] = .ok u' ∧
      SameNumbers u'.resource u.resource ∧ (batchInputs u).length = 1 ∧
      (batchInputs u').length = 2 ∧ u'.inputs ≠ u.inputs :=
  @failed_tx_listed_in_unit plain richAccount _ _ [bigTransfer 0 0] _ [] (bigTransfer 1 1) _ _ _
    (by decide +kernel) (by decide +kernel) (cons_ne_nil _ _)
    (Prod.ext rfl (Prod.ext rfl (Prod.ext rfl (by decide +kernel)))) (by decide +kernel)
    (Prod.ext rfl (Prod.ext rfl
      (show _ = Except.error TxError.accountBalanceNotEnough by decide +kernel)))

theorem failed_transfer_leaves_trace :
    (plain.execBatchTxs richAccount [bigTransfer 0 0, bigTransfer 1 1]
        {}).2.2.1.execFailTx.map (·.2) = some .accountBalanceNotEnough ∧
      (plain.makeLightunitOutput richAccount [bigTransfer 0 0]).map
          (fun u => (u.inputs.length, u.resource.nativeProperty)) =
        .ok (1, [(usedTgasKey, .number 300), (lastTxHourKey, .number 0)]) ∧
      (plain.makeLightunitOutput richAccount [bigTransfer 0 0, bigTransfer 1 1]).map
          (fun u => (u.inputs.length, u.resource.nativeProperty)) =
        .ok (2, [(usedTgasKey, .number 600), (lastTxHourKey, .number 0)]) := by
  refine ⟨?_, ?_, ?_⟩ <;> decide +kernel

end ExecEnv
end TopChain.TxExecutor
