import TopChain.Store.Funds
import TopChain.TxExecutor.Executor

/-!
# Votes that an account spends

A vote is compared with the votes that the account had when the batch began.
-/
namespace TopChain.TxExecutor

open List TopChain.Lib.Hoare TopChain.Data TopChain.Store TopChain.Store.Context

structure SameVotes (c₀ c : Context) : Prop where
  unvoteNum : c.account.unvoteNum = c₀.account.unvoteNum
  change : c.unvoteNumChange = c₀.unvoteNumChange
  created : c.contractTxs = c₀.contractTxs

variable {c : Context}

theorem SameVotes.transferOut {G : ChainConfig} {c₀ c' : Context} {amount gasFee fee : Nat}
    (h : SameVotes c₀ c) (hout : c.topTokenTransferOut G amount gasFee fee = .ok c') :
    SameVotes c₀ c' := by
  obtain ⟨-, rfl⟩ | ⟨word, -, -, rfl⟩ := topTokenTransferOut_cases hout
  · exact h
  · exact ⟨h.unvoteNum, h.change, h.created⟩

theorem SameVotes.onlyNative {c₀ c' : Context} (h : SameVotes c₀ c) (hc : OnlyNative c c') :
    SameVotes c₀ c' := by
  obtain ⟨native, rfl⟩ := hc
  exact ⟨h.unvoteNum, h.change, h.created⟩

namespace ExecEnv
variable {X : ExecEnv} {c₀ : Context}

theorem sourceServiceFeeExec_votes : Keeps (fun s => SameVotes c₀ s.ctx) X.sourceServiceFeeExec :=
  X.triple_sourceServiceFeeExec (fun _ _ _ h _ hout => h.transferOut hout) fun _ _ _ h => h

theorem updateTgasDiskSender_votes (amount : Nat) (isContract : Bool) :
    Keeps (fun s => SameVotes c₀ s.ctx) (X.updateTgasDiskSender amount isContract) := by
  refine X.triple_updateTgasDiskSender (fun _ _ h => h) fun s out hs _ hout => ?_
  have hctx := hs.onlyNative (onlyNative_updateTgasSender hout)
  refine ⟨fun _ => ?_, fun _ _ => hctx⟩
  cases isContract <;> exact ⟨hctx.unvoteNum, hctx.change, hctx.created⟩

/-- What a vote leaves behind: its sum is compared with the unused votes and taken from their
change. -/
structure Voted (c₀ : Context) (votes : List (String × Nat)) (c : Context) : Prop where
  unvoteNum : c.account.unvoteNum = c₀.account.unvoteNum
  change : c.unvoteNumChange = c₀.unvoteNumChange - parseVoteInfo votes
  created : c.contractTxs = c₀.contractTxs
  enough : parseVoteInfo votes ≤ c₀.account.unvoteNum

theorem exec_vote {t : ConsTx} {votes : List (String × Nat)} (hsend : t.subtype X.config = .send)
    (hvote : t.tx.action = .vote votes) :
    Triple (fun s => SameVotes c₀ s.ctx) (X.exec t) (fun _ s => Voted c₀ votes s.ctx)
      (fun _ _ => True) := by
  have haction : X.exec t = X.sourceActionExec t.tx := by
    unfold exec check execActions
    rw [hvote, hsend]
  rw [haction]
  unfold sourceActionExec sourceFeeExec sourceActionOf
  rw [hvote]
  have hweak : ∀ {m : TxM Unit}, Keeps (fun s => SameVotes c₀ s.ctx) m →
      Triple (fun s => SameVotes c₀ s.ctx) m (fun _ s => SameVotes c₀ s.ctx) (fun _ _ => True) :=
    fun h => Triple.conseq h (fun _ h => h) (fun _ _ h => h) (fun _ _ _ => trivial)
  refine Triple.bind (hweak sourceServiceFeeExec_votes) fun _ =>
    Triple.bind (hweak (updateTgasDiskSender_votes 0 false)) fun _ => ?_
  apply Triple.get_bind
  intro s hs
  refine triple_require_bind (fun henough => triple_modifyCtx ?_) (fun _ _ _ => trivial)
  rintro s' rfl
  rw [hs.unvoteNum] at henough
  refine ⟨hs.unvoteNum, ?_, hs.created, henough⟩
  show s'.ctx.unvoteNumChange + -(parseVoteInfo votes : Int) = _
  rw [hs.change]
  omega

theorem execTx_vote {c' : Context} {t t' : ConsTx} {result : TransactionResult}
    {votes : List (String × Nat)} (hsend : t.subtype X.config = .send)
    (hvote : t.tx.action = .vote votes) (hcreated : c.contractTxs = [])
    (h : X.execTx c t = (c', t', .ok result)) :
    Voted c votes c' ∧ result.unvoteNumChange = c'.unvoteNumChange := by
  rcases execTx_send_cases hsend h with ⟨-, -, hret⟩ | ⟨e, s, -, -, -, hret⟩ | ⟨s, hexec, -, hrest⟩
  · cases hret
  · cases hret
  · have hvoted : Voted c votes s.ctx := (exec_vote hsend hvote).of_ok ⟨rfl, rfl, rfl⟩ hexec
    -- a vote runs no contract
    rw [hvoted.created.trans hcreated] at hrest
    cases hrest
    exact ⟨hvoted, rfl⟩

def votesOf (t : ConsTx) : Nat :=
  match t.tx.action with
  | .vote votes => (votes.map (·.2)).sum
  | _ => 0

def votesSpent (txs : List ConsTx) : Nat := (txs.map votesOf).sum

def wordVotes (txs : List ConsTx) : Nat := (txs.map fun t => votesOf t % 2 ^ 64).sum

/-- A send transaction that votes. -/
def IsVote (X : ExecEnv) (t : ConsTx) : Prop :=
  t.subtype X.config = .send ∧ ∃ votes, t.tx.action = .vote votes

theorem execBatchTxs_votes {txs : List ConsTx} {r : BatchResult} (hvotes : ∀ t ∈ txs, IsVote X t)
    (hcreated : c.contractTxs = []) (hr : r.succTxsResult.unvoteNumChange = c.unvoteNumChange)
    (hfail : (X.execBatchTxs c txs r).2.2.1.execFailTx = none) :
    (∀ t ∈ txs, votesOf t % 2 ^ 64 ≤ c.account.unvoteNum) ∧
      (X.execBatchTxs c txs r).2.2.1.succTxsResult.unvoteNumChange =
        c.unvoteNumChange - wordVotes txs := by
  induction txs generalizing c r with
  | nil =>
    refine ⟨fun _ h => absurd h not_mem_nil, ?_⟩
    rw [execBatchTxs, hr]
    exact (Int.sub_zero _).symm
  | cons t rest ih =>
    obtain ⟨hsend, votes, hvote⟩ := hvotes t mem_cons_self
    have hsource : X.isSource t := by simp [isSource, hsend]
    have hof : parseVoteInfo votes = votesOf t % 2 ^ 64 := by rw [votesOf, hvote, parseVoteInfo]
    rcases hexec : X.execTx c t with ⟨c₁, t', ret⟩
    cases ret with
    | error e =>
      rw [execBatchTxs_of_fail hexec hsource] at hfail
      cases hfail
    | ok result =>
      obtain ⟨hvoted, hresult⟩ := execTx_vote hsend hvote hcreated hexec
      rw [execBatchTxs_of_ok hexec] at hfail ⊢
      obtain ⟨hrest, hchange⟩ := ih (fun u hu => hvotes u (mem_cons_of_mem t hu))
        (hvoted.created.trans hcreated) hresult hfail
      have henough := hvoted.enough
      have hunvote := hvoted.unvoteNum
      have hfirst := hvoted.change
      rw [hof] at henough hfirst
      refine ⟨fun u hu => ?_, ?_⟩
      · rcases mem_cons.mp hu with rfl | hu
        · exact henough
        · exact hunvote ▸ hrest u hu
      · rw [hchange, wordVotes, wordVotes, map_cons, sum_cons]
        omega

def applyUnvoteChange (unvoteNum : Nat) (change : Int) : Nat :=
  ((unvoteNum + change) % 2 ^ 64).toNat

/-- What a batch without a failed vote has checked is each sum, as a word, against the votes at the
start. The counter that its unit leaves is the votes that remain exactly when the counts of the
batch, added up as integers, are at most the votes that there were. -/
theorem votes_spent_le_owned (X : ExecEnv) {c : Context} {txs : List ConsTx}
    (hvotes : ∀ t ∈ txs, IsVote X t) (hnew : c.unvoteNumChange = 0) (hcreated : c.contractTxs = [])
    (hword : c.account.unvoteNum < 2 ^ 64)
    (hfail : (X.execBatchTxs c txs {}).2.2.1.execFailTx = none) :
    (∀ t ∈ txs, votesOf t % 2 ^ 64 ≤ c.account.unvoteNum) ∧
    (applyUnvoteChange c.account.unvoteNum
        (X.execBatchTxs c txs {}).2.2.1.succTxsResult.unvoteNumChange + votesSpent txs =
          c.account.unvoteNum ↔ votesSpent txs ≤ c.account.unvoteNum) := by
  obtain ⟨henough, hchange⟩ := execBatchTxs_votes hvotes hcreated hnew.symm hfail
  refine ⟨henough, fun h => h ▸ Nat.le_add_left _ _, fun hle => ?_⟩
  -- no sum of the batch reaches a word, so none of them was cut
  have hexact : ∀ t ∈ txs, votesOf t < 2 ^ 64 := fun t ht =>
    ((single_le_sum (fun _ _ => Nat.zero_le _) _ (mem_map_of_mem ht)).trans hle).trans_lt hword
  have hsum : wordVotes txs = votesSpent txs :=
    congrArg List.sum (map_congr_left fun t ht => Nat.mod_eq_of_lt (hexact t ht))
  rw [hchange, hsum, hnew, applyUnvoteChange, Int.emod_eq_of_lt (by omega) (by omega)]
  omega

def voter : Context := .new "A" { balance := 1000000000, unvoteNum := 5 } .empty 0 0

def voteTx (votes : List (String × Nat)) (lastNonce lastHash : Nat) : ConsTx where
  tx := ⟨.vote votes, "A", "V", 100000, 100, lastNonce, lastHash, "h"⟩

theorem votes_spent_le_owned_sample :
    let batch := [voteTx [("x", 3), ("y", 1)] 0 0, voteTx [("x", 1)] 1 1]
    (plain.execBatchTxs voter batch {}).2.2.1.execFailTx.isNone ∧ votesSpent batch = 5 ∧
      applyUnvoteChange 5
        (plain.execBatchTxs voter batch {}).2.2.1.succTxsResult.unvoteNumChange + 5 = 5 := by
  intro batch
  have hfail : (plain.execBatchTxs voter batch {}).2.2.1.execFailTx = none :=
    Option.isNone_iff_eq_none.mp (by decide +kernel)
  have hvotes : ∀ t ∈ batch, IsVote plain t := by
    intro t ht
    rcases mem_pair.mp ht with rfl | rfl
    · exact ⟨by decide +kernel, _, rfl⟩
    · exact ⟨by decide +kernel, _, rfl⟩
  refine ⟨by rw [hfail]; rfl, rfl, ?_⟩
  exact (votes_spent_le_owned plain hvotes rfl rfl (by decide) hfail).2.mpr (by decide)

theorem batch_overspends_votes :
    let twice := [voteTx [("x", 5)] 0 0, voteTx [("x", 5)] 1 1]
    let halves := [voteTx [("x", 2 ^ 63), ("y", 2 ^ 63)] 0 0]
    (plain.execBatchTxs voter twice {}).2.2.1.execFailTx.isNone ∧ votesSpent twice = 10 ∧
    applyUnvoteChange 5 (plain.execBatchTxs voter twice {}).2.2.1.succTxsResult.unvoteNumChange =
      2 ^ 64 - 5 ∧
    (plain.execBatchTxs voter halves {}).2.2.1.execFailTx.isNone ∧ votesSpent halves = 2 ^ 64 ∧
    applyUnvoteChange 5 (plain.execBatchTxs voter halves {}).2.2.1.succTxsResult.unvoteNumChange =
      5 := by
  decide +kernel

end ExecEnv
end TopChain.TxExecutor
