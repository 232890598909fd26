import Mathlib.Data.Rat.Floor
import TopChain.Store.Blockchain
import TopChain.Store.VotePledge

/-!
# The tokens behind the votes

A pledge of votes locks tokens by the rate of its duration, rounded down.
-/
namespace TopChain.Store

open List TopChain.Lib TopChain.Lib.Hoare TopChain.Data

def expBase : ℚ := 8724152 / 8388608

def topVoteRate (duration : Nat) : ℚ :=
  if duration < 570 then
    (⌊expBase ^ (((duration / minVoteLockDays : Nat) : ℤ) - 1) * 1000000⌋ : ℚ) / 1000000
  else 2

/-- `TOP_UNIT * vote_num / get_top_vote_rate(duration)`: a product of words and its quotient. -/
def exactVoteToken (voteNum duration : Nat) : Nat :=
  ⌊((topUnit * voteNum % 2 ^ 64 : Nat) : ℚ) / topVoteRate duration⌋₊

def lockedTokens (G : ChainConfig) (votes : List VoteRecord) : Nat :=
  ((votes.filter (·.duration ≠ 0)).map fun v => G.voteToken v.voteNum v.duration).sum

section
variable {G : ChainConfig} {votes votes' : List VoteRecord} {v : VoteRecord}

theorem lockedTokens_append :
    lockedTokens G (votes ++ votes') = lockedTokens G votes + lockedTokens G votes' := by
  rw [lockedTokens, filter_append, map_append, sum_append]
  rfl

theorem lockedTokens_perm (h : votes.Perm votes') : lockedTokens G votes = lockedTokens G votes' :=
  ((h.filter _).map _).sum_nat

theorem lockedTokens_singleton :
    lockedTokens G [v] = if v.duration = 0 then 0 else G.voteToken v.voteNum v.duration := by
  unfold lockedTokens
  by_cases h : v.duration = 0
  · simp [h]
  · simp [h]

theorem lockedTokens_erase (h : v ∈ votes) :
    lockedTokens G votes = lockedTokens G [v] + lockedTokens G (votes.erase v) := by
  rw [lockedTokens_perm (perm_cons_erase h), ← lockedTokens_append]
  rfl

end

namespace Context
variable {G : ChainConfig} {c c' : Context}

structure TokensTyped (c : Context) : Prop where
  votes : c.native.VoteTyped
  expire : ∀ obj, c.native.objs.find? expireVoteTokenKey = some obj → obj.objType = .string

def expireTokens (c : Context) : Nat := c.native.number expireVoteTokenKey

def voteTokens (G : ChainConfig) (c : Context) : Nat :=
  lockedTokens G c.native.votes + c.expireTokens

theorem onlyNative_setVotes (items : List VoteRecord) : OnlyNative c (c.setVotes items) :=
  onlyNative_setNative _ _

theorem tokens_setVotes (h : TokensTyped c) (items : List VoteRecord) :
    TokensTyped (c.setVotes items) ∧ (c.setVotes items).native.votes = items ∧
      (c.setVotes items).expireTokens = c.expireTokens := by
  have hother : expireVoteTokenKey ≠ pledgeVoteKey := by decide
  have hfind : (c.setVotes items).native.objs.find? expireVoteTokenKey =
      c.native.objs.find? expireVoteTokenKey := find?_put_of_ne c.native _ hother
  obtain ⟨htyped, hvotes⟩ := votes_setVotes h.votes items
  exact ⟨⟨htyped, fun obj hobj => h.expire obj (hfind ▸ hobj)⟩, hvotes,
    number_put_of_ne c.native _ hother⟩

theorem tokens_setExpire (h : TokensTyped c) (n : Nat) :
    TokensTyped (c.setNative expireVoteTokenKey (.number n)) ∧
      (c.setNative expireVoteTokenKey (.number n)).native.votes = c.native.votes ∧
      (c.setNative expireVoteTokenKey (.number n)).expireTokens = n := by
  have hother : pledgeVoteKey ≠ expireVoteTokenKey := by decide
  obtain ⟨htyped, hvotes⟩ := votes_setNative_of_ne (.number n) h.votes hother
  obtain ⟨hexpire, hnumber⟩ := number_put h.expire n
  exact ⟨⟨htyped, hexpire⟩, hvotes, hnumber⟩

def mergeRecords (c : Context) : Context :=
  let sum := (c.expiredVotes.map (·.voteNum)).sum % 2 ^ 64
  let c := if c.expiredVotes.isEmpty then c else c.setVotes (c.native.votes.diff c.expiredVotes)
  if 0 < sum then c.setVotes (c.native.votes ++ [⟨sum, 0, 0⟩]) else c

theorem mergePledgeVoteProperty_eq : c.mergePledgeVoteProperty G =
    if 0 < lockedTokens G c.expiredVotes then
      c.mergeRecords.setNative expireVoteTokenKey
        (.number (lockedTokens G c.expiredVotes + c.mergeRecords.expireTokens))
    else c.mergeRecords := rfl

theorem tokens_mergeRecords (h : TokensTyped c) :
    TokensTyped c.mergeRecords ∧ OnlyNative c c.mergeRecords ∧
      c.mergeRecords.expireTokens = c.expireTokens := by
  have hset : ∀ {d : Context} (items : List VoteRecord), TokensTyped d ∧ OnlyNative c d ∧
      d.expireTokens = c.expireTokens → TokensTyped (d.setVotes items) ∧
        OnlyNative c (d.setVotes items) ∧ (d.setVotes items).expireTokens = c.expireTokens := by
    intro d items hd
    obtain ⟨htyped, -, hsame⟩ := tokens_setVotes hd.1 items
    exact ⟨htyped, hd.2.1.trans (onlyNative_setVotes _), hsame.trans hd.2.2⟩
  have hrefl : TokensTyped c ∧ OnlyNative c c ∧ c.expireTokens = c.expireTokens :=
    ⟨h, ⟨c.native, rfl⟩, rfl⟩
  unfold mergeRecords
  dsimp only
  split_ifs
  · exact hset _ hrefl
  · exact hset _ (hset _ hrefl)
  · exact hrefl
  · exact hset _ hrefl

theorem tokens_mergePledgeVoteProperty (h : TokensTyped c) :
    TokensTyped (c.mergePledgeVoteProperty G) ∧ OnlyNative c (c.mergePledgeVoteProperty G) ∧
      voteTokens G (c.mergePledgeVoteProperty G) = voteTokens G c := by
  obtain ⟨-, -, hvotes⟩ := votes_mergePledgeVoteProperty (G := G) h.votes
  obtain ⟨htyped, hnative, hexpire⟩ := tokens_mergeRecords h
  have hboth : TokensTyped (c.mergePledgeVoteProperty G) ∧
      OnlyNative c (c.mergePledgeVoteProperty G) ∧
      (c.mergePledgeVoteProperty G).expireTokens =
        lockedTokens G c.expiredVotes + c.expireTokens := by
    rw [mergePledgeVoteProperty_eq, ← hexpire]
    split_ifs with hpos
    · obtain ⟨htyped', -, hset⟩ := tokens_setExpire htyped
        (lockedTokens G c.expiredVotes + c.mergeRecords.expireTokens)
      exact ⟨htyped', hnative.trans (onlyNative_setNative _ _), hset⟩
    · exact ⟨htyped, hnative, by omega⟩
  refine ⟨hboth.1, hboth.2.1, ?_⟩
  have hmerged : lockedTokens G c.mergedVotes = 0 := by
    unfold mergedVotes
    split_ifs
    · exact lockedTokens_singleton
    · rfl
  unfold voteTokens
  rw [hvotes, hboth.2.2, lockedTokens_append, hmerged, ← lockedTokens_perm c.perm_expiredVotes,
    lockedTokens_append]
  omega

def NoGain (G : ChainConfig) (c : Context) (num duration : Nat) : Prop :=
  ∀ v ∈ c.native.votes, c.joins duration v →
    G.voteToken ((num + v.voteNum) % 2 ^ 64) duration ≤
      G.voteToken num duration + G.voteToken v.voteNum duration

instance instDecidableNoGain (G : ChainConfig) (c : Context) (num duration : Nat) :
    Decidable (NoGain G c num duration) :=
  inferInstanceAs (Decidable (∀ v ∈ c.native.votes, _ → _))

theorem tokens_insertPledgeVoteProperty {num duration : Nat} (h : TokensTyped c)
    (hgain : NoGain G c num duration) (hok : c.insertPledgeVoteProperty num duration = .ok c') :
    TokensTyped c' ∧ OnlyNative c c' ∧
      voteTokens G c' ≤ voteTokens G c + G.voteToken num duration := by
  rw [Context.insertPledgeVoteProperty, ite_error_eq_ok] at hok
  obtain rfl : c' = c.setVotes _ := eq_setNative_of_ok hok.2
  obtain ⟨htyped, hvotes, hexpire⟩ := tokens_setVotes h _
  refine ⟨htyped, onlyNative_setVotes _, ?_⟩
  unfold voteTokens
  rw [hvotes, hexpire]
  rcases mergeVote_cases (c := c) num duration c.native.votes 0 c.native.votes with
    ⟨v, hv, hjoin, heq⟩ | ⟨-, heq⟩
  · have hduration : v.duration = duration := by
      simp only [joins, Bool.and_eq_true, decide_eq_true_eq] at hjoin
      exact hjoin.1
    have hle := hgain v hv hjoin
    rw [heq, lockedTokens_erase hv, lockedTokens_append, lockedTokens_singleton,
      lockedTokens_singleton, hduration]
    dsimp only
    split_ifs <;> omega
  · rw [heq, lockedTokens_append, lockedTokens_singleton]
    dsimp only
    split_ifs <;> omega

structure Redeemed (G : ChainConfig) (c c' : Context) (change : Nat) : Prop where
  address : c'.address = c.address
  account : c'.account = c.account
  balance : c'.balanceChange = c.balanceChange + change
  vote : c'.pledgeVoteChange = c.pledgeVoteChange - change
  tokens : voteTokens G c' + change = voteTokens G c

theorem redeemed_of_onlyNative {d : Context} {num change : Nat} (hnative : OnlyNative c d)
    (htyped : TokensTyped d) (htokens : voteTokens G d + change = voteTokens G c) :
    TokensTyped (((d.setUnvoteNumChange (-num)).setBalanceChange change).setVoteBalanceChange
        (-change)) ∧
      Redeemed G c (((d.setUnvoteNumChange (-num)).setBalanceChange change).setVoteBalanceChange
        (-change)) change := by
  obtain ⟨native, rfl⟩ := hnative
  exact ⟨⟨htyped.votes, htyped.expire⟩, ⟨rfl, rfl, rfl, rfl, htokens⟩⟩

theorem tokens_redeemPledgeVoteProperty {num : Nat} (h : TokensTyped c)
    (hok : c.redeemPledgeVoteProperty num = .ok c') :
    TokensTyped c' ∧ ∃ change, Redeemed G c c' change := by
  unfold Context.redeemPledgeVoteProperty at hok
  split at hok
  · cases hok
  next v hfind =>
  rw [ite_error_eq_ok] at hok
  obtain ⟨hnum, hok⟩ := hok
  have hmem := mem_of_find?_eq_some hfind
  have hfree : v.duration = 0 := by simpa using List.find?_some hfind
  -- the votes redeemed are not more than those of the record
  have hle : num * c.expireTokens % 2 ^ 64 / v.voteNum ≤ c.expireTokens := by
    refine Nat.div_le_of_le_mul ((Nat.mod_le _ _).trans ?_)
    exact Nat.mul_le_mul_right _ (not_lt.mp hnum)
  obtain ⟨htyped₁, hvotes₁, -⟩ := tokens_setVotes h (c.native.votes.erase v)
  obtain ⟨htyped₂, hvotes₂, hexpire₂⟩ := tokens_setExpire htyped₁
    (c.expireTokens - num * c.expireTokens % 2 ^ 64 / v.voteNum)
  rw [hvotes₁] at hvotes₂
  have hlocked : lockedTokens G c.native.votes = lockedTokens G (c.native.votes.erase v) := by
    rw [lockedTokens_erase hmem, lockedTokens_singleton, if_pos hfree, Nat.zero_add]
  have hnative₂ : OnlyNative c ((c.setVotes (c.native.votes.erase v)).setNative expireVoteTokenKey
      (.number (c.expireTokens - num * c.expireTokens % 2 ^ 64 / v.voteNum))) :=
    (onlyNative_setNative _ _).trans (onlyNative_setNative _ _)
  dsimp only at hok
  rw [← expireTokens] at hok
  split_ifs at hok
  · -- a part of the record stays expired
    rw [hvotes₂] at hok
    obtain ⟨htyped₃, hvotes₃, hexpire₃⟩ := tokens_setVotes htyped₂
      (c.native.votes.erase v ++ [⟨v.voteNum - num, 0, 0⟩])
    cases hok
    refine (redeemed_of_onlyNative (hnative₂.trans (onlyNative_setVotes _)) htyped₃ ?_).imp_right
      fun hredeemed => ⟨_, hredeemed⟩
    unfold voteTokens
    rw [hvotes₃, hexpire₃, hexpire₂, lockedTokens_append, lockedTokens_singleton, if_pos rfl,
      hlocked]
    omega
  · cases hok
    refine (redeemed_of_onlyNative hnative₂ htyped₂ ?_).imp_right fun hredeemed => ⟨_, hredeemed⟩
    unfold voteTokens
    rw [hvotes₂, hexpire₂, hlocked]
    omega

def voteFunds (c : Context) : Int := c.account.voteBalance + c.pledgeVoteChange

def commitVotes (c : Context) : Context :=
  { c with
    account := { c.account with
      balance := addChange c.account.balance c.balanceChange
      voteBalance := addChange c.account.voteBalance c.pledgeVoteChange
      unvoteNum := addChange c.account.unvoteNum c.unvoteNumChange }
    balanceChange := 0
    pledgeVoteChange := 0
    unvoteNumChange := 0 }

/-- A pledge, a redemption, or the end of the unit that writes the changes to the account. -/
inductive VoteTx where
  | pledge (num : UInt64) (duration : UInt16)
  | redeem (num : UInt64)
  | commit

inductive TokenOut where
  | deducted (tokens : Int)
  | credited (tokens : Int)
deriving DecidableEq

def pledgeChecks (G : ChainConfig) (c : Context) (num duration : Nat) : Bool :=
  G.minStakeVotesNum ≤ num && duration % minVoteLockDays = 0 && duration ≠ 0 &&
    G.voteToken num duration ≤ c.account.balance

def applyVote (G : ChainConfig) (c : Context) : VoteTx → Context × List TokenOut
  | .pledge num duration =>
    if !pledgeChecks G c num.toNat duration.toNat then (c, [])
    else
      let lockToken := G.voteToken num.toNat duration.toNat
      match c.topTokenTransferOut G lockToken 0 0 with
      | .error _ => (c, [])
      | .ok paid =>
        let voted := (paid.setVoteBalanceChange lockToken).setUnvoteNumChange num.toNat
        let outs := [.deducted (c.balanceChange - paid.balanceChange)]
        match voted.updatePledgeVoteProperty G num.toNat duration.toNat with
        | .error _ => (voted.mergePledgeVoteProperty G, outs)
        | .ok c' => (c', outs)
  | .redeem num =>
    if c.account.unvoteNum < num.toNat then (c, [])
    else
      let merged := c.mergePledgeVoteProperty G
      match merged.redeemPledgeVoteProperty num.toNat with
      | .error _ => (merged, [])
      | .ok c' => (c', [.credited (c'.balanceChange - merged.balanceChange)])
  | .commit => (c.commitVotes, [])

def tokenStep (G : ChainConfig) (c : Context) (e : UInt64 × VoteTx) : Context × List TokenOut :=
  applyVote G { c with timerHeight := e.1.toNat } e.2

def TxNoGain (G : ChainConfig) (c : Context) : VoteTx → Prop
  | .pledge num duration => NoGain G (c.mergePledgeVoteProperty G) num.toNat duration.toNat
  | .redeem _ => True
  | .commit => True

instance instDecidableTxNoGain (G : ChainConfig) (c : Context) :
    (tx : VoteTx) → Decidable (TxNoGain G c tx)
  | .pledge _ _ => instDecidableNoGain _ _ _ _
  | .redeem _ => instDecidableTrue
  | .commit => instDecidableTrue

/-- Joining a record does not raise the tokens that the votes stand for. -/
def StepNoGain (G : ChainConfig) (c : Context) (e : UInt64 × VoteTx) : Prop :=
  TxNoGain G { c with timerHeight := e.1.toNat } e.2

instance instDecidableStepNoGain (G : ChainConfig) (c : Context) (e : UInt64 × VoteTx) :
    Decidable (StepNoGain G c e) :=
  instDecidableTxNoGain _ _ _

def deductedTokens (outs : List TokenOut) : Int :=
  (outs.map fun
    | .deducted tokens => tokens
    | .credited _ => 0).sum

def creditedTokens (outs : List TokenOut) : Int :=
  (outs.map fun
    | .deducted _ => 0
    | .credited tokens => tokens).sum

/-- The vote balance covers the tokens that can still be redeemed and those `owed`. -/
structure TokenLedger (G : ChainConfig) (total : Int) (owed : Nat) (outs : List TokenOut)
    (c : Context) : Prop where
  typed : TokensTyped c
  user : c.address ≠ zecRewardAddr
  small : c.account.balance < 2 ^ 63
  funds : 0 ≤ c.funds
  total : c.funds + c.voteFunds = total
  covered : ((voteTokens G c + owed : Nat) : Int) ≤ c.voteFunds
  moved : c.voteFunds = deductedTokens outs - creditedTokens outs

theorem addChange_eq {n : Nat} {change : Int} (hpos : 0 ≤ n + change) (hlt : n + change < 2 ^ 64) :
    (addChange n change : Int) = n + change := by
  unfold addChange
  rw [Int.emod_eq_of_lt hpos hlt]
  exact Int.toNat_of_nonneg hpos

def paidVotes (c : Context) (tokens num : Nat) : Context :=
  ((c.setBalanceChange (-tokens)).setVoteBalanceChange tokens).setUnvoteNumChange num

theorem funds_paidVotes (tokens num : Nat) : (c.paidVotes tokens num).funds = c.funds - tokens := by
  show (c.account.balance : Int) + (c.balanceChange + -tokens) = _
  unfold Context.funds
  omega

theorem voteFunds_paidVotes (tokens num : Nat) :
    (c.paidVotes tokens num).voteFunds = c.voteFunds + tokens := by
  show (c.account.voteBalance : Int) + (c.pledgeVoteChange + tokens) = _
  unfold voteFunds
  omega

theorem NoGain.paidVotes {num duration : Nat} (htyped : TokensTyped c)
    (h : NoGain G (c.mergePledgeVoteProperty G) num duration) (tokens votes : Nat) :
    NoGain G ((c.paidVotes tokens votes).mergePledgeVoteProperty G) num duration := by
  have htyped' : (c.paidVotes tokens votes).native.VoteTyped := htyped.votes
  obtain ⟨-, hclock, hvotes⟩ := votes_mergePledgeVoteProperty (G := G) htyped.votes
  obtain ⟨-, hclock', hvotes'⟩ := votes_mergePledgeVoteProperty (G := G) htyped'
  unfold NoGain joins at h ⊢
  rw [hclock', hvotes']
  rw [hclock, hvotes] at h
  exact h

namespace TokenLedger
variable {total : Int} {owed : Nat} {outs : List TokenOut}

theorem onlyNative {owed' : Nat} (h : TokenLedger G total owed outs c) (hn : OnlyNative c c')
    (ht : TokensTyped c') (hv : voteTokens G c' + owed' ≤ voteTokens G c + owed) :
    TokenLedger G total owed' outs c' := by
  obtain ⟨native, rfl⟩ := hn
  exact ⟨ht, h.user, h.small, h.funds, h.total, (Int.ofNat_le.mpr hv).trans h.covered, h.moved⟩

section
variable (h : TokenLedger G total owed outs c)
include h

theorem merge : TokenLedger G total owed outs (c.mergePledgeVoteProperty G) := by
  obtain ⟨htyped, hnative, htokens⟩ := tokens_mergePledgeVoteProperty (G := G) h.typed
  exact h.onlyNative hnative htyped (htokens ▸ le_refl _)

theorem forget : TokenLedger G total 0 outs c := h.onlyNative ⟨c.native, rfl⟩ h.typed (by omega)

theorem setClock (clock : Nat) : TokenLedger G total owed outs { c with timerHeight := clock } :=
  ⟨⟨h.typed.votes, h.typed.expire⟩, h.user, h.small, h.funds, h.total, h.covered, h.moved⟩

theorem commit (htotal : total < 2 ^ 63) : TokenLedger G total owed outs c.commitVotes := by
  have hvote : 0 ≤ c.voteFunds := (Int.natCast_nonneg _).trans h.covered
  have hsum := h.total
  have hnonneg := h.funds
  have hlt : c.funds < 2 ^ 64 := by omega
  have hlt' : c.voteFunds < 2 ^ 64 := by omega
  have hfunds : (addChange c.account.balance c.balanceChange : Int) = c.funds :=
    addChange_eq hnonneg hlt
  have hvotes : (addChange c.account.voteBalance c.pledgeVoteChange : Int) = c.voteFunds :=
    addChange_eq hvote hlt'
  have hfunds' : c.commitVotes.funds = c.funds := by
    show (addChange c.account.balance c.balanceChange : Int) + 0 = _
    rw [hfunds, add_zero]
  have hvotes' : c.commitVotes.voteFunds = c.voteFunds := by
    show (addChange c.account.voteBalance c.pledgeVoteChange : Int) + 0 = _
    rw [hvotes, add_zero]
  refine ⟨⟨h.typed.votes, h.typed.expire⟩, h.user, ?_, hfunds' ▸ h.funds, ?_, hvotes' ▸ h.covered,
    hvotes' ▸ h.moved⟩
  · show addChange c.account.balance c.balanceChange < 2 ^ 63
    omega
  · rw [hfunds', hvotes']
    exact h.total

theorem transferOut_eq {tokens : Nat} (hle : tokens ≤ c.account.balance) {paid : Context}
    (hok : c.topTokenTransferOut G tokens 0 0 = .ok paid) :
    paid = c.setBalanceChange (-tokens) ∧ (tokens : Int) ≤ c.funds := by
  obtain ⟨hzec, -⟩ | ⟨fee, hfee, hfunds, rfl⟩ := topTokenTransferOut_cases hok
  · exact absurd hzec h.user
  · obtain rfl : fee = tokens := hfee.trans (Word.bmod_of_lt (hle.trans_lt h.small))
    exact ⟨rfl, hfunds.trans (Word.bmod_le_self _ h.funds)⟩

end

theorem paidVotes {tokens : Nat} (h : TokenLedger G total 0 outs c) (num : Nat)
    (hle : (tokens : Int) ≤ c.funds) :
    TokenLedger G total tokens (outs ++ [.deducted tokens]) (c.paidVotes tokens num) := by
  have hcovered := h.covered
  have htotal := h.total
  have hmoved := h.moved
  refine ⟨⟨h.typed.votes, h.typed.expire⟩, h.user, h.small, ?_, ?_, ?_, ?_⟩
  · rw [funds_paidVotes]
    omega
  · rw [funds_paidVotes, voteFunds_paidVotes]
    omega
  · have hsame : voteTokens G (c.paidVotes tokens num) = voteTokens G c := rfl
    rw [voteFunds_paidVotes, hsame]
    omega
  · rw [voteFunds_paidVotes, hmoved]
    simp only [deductedTokens, creditedTokens, map_append, sum_append, map_cons,
      map_nil, sum_cons, sum_nil]
    omega

section
variable (h : TokenLedger G total 0 outs c)
include h

theorem pledge (num : UInt64) (duration : UInt16)
    (hgain : NoGain G (c.mergePledgeVoteProperty G) num.toNat duration.toNat) :
    TokenLedger G total 0 (outs ++ (applyVote G c (.pledge num duration)).2)
      (applyVote G c (.pledge num duration)).1 := by
  unfold applyVote
  dsimp only
  split_ifs with hchecks
  · rwa [append_nil]
  split
  · rwa [append_nil]
  next paid hpaid =>
  have hle : G.voteToken num.toNat duration.toNat ≤ c.account.balance := by
    simp only [pledgeChecks, Bool.not_eq_true', Bool.not_eq_false, Bool.and_eq_true,
      decide_eq_true_eq] at hchecks
    exact hchecks.2
  obtain ⟨rfl, hfunds⟩ := h.transferOut_eq hle hpaid
  have hout : c.balanceChange - (c.setBalanceChange
      (-(G.voteToken num.toNat duration.toNat : Int))).balanceChange =
        G.voteToken num.toNat duration.toNat := by
    show c.balanceChange - (c.balanceChange + -_) = _
    omega
  have hmerged := (h.paidVotes num.toNat hfunds).merge
  rw [hout]
  split
  · exact hmerged.forget
  next c' hok =>
  obtain ⟨htyped, hnative, hgrow⟩ :=
    tokens_insertPledgeVoteProperty hmerged.typed (hgain.paidVotes h.typed _ _) hok
  exact hmerged.onlyNative hnative htyped hgrow

theorem redeem (num : UInt64) : TokenLedger G total 0 (outs ++ (applyVote G c (.redeem num)).2)
      (applyVote G c (.redeem num)).1 := by
  unfold applyVote
  dsimp only
  split_ifs
  · rwa [append_nil]
  have hmerged := h.merge
  generalize c.mergePledgeVoteProperty G = m at hmerged
  split
  · rwa [append_nil]
  next c' hok =>
  obtain ⟨htyped, change, hr⟩ := tokens_redeemPledgeVoteProperty (G := G) hmerged.typed hok
  have hfunds : c'.funds = m.funds + change := by
    unfold Context.funds
    rw [hr.account, hr.balance]
    omega
  have hvotes : c'.voteFunds = m.voteFunds - change := by
    unfold voteFunds
    rw [hr.account, hr.vote]
    omega
  have hnonneg := hmerged.funds
  have htotal := hmerged.total
  have hcovered := hmerged.covered
  have htokens := hr.tokens
  have hmoved := hmerged.moved
  dsimp only
  refine ⟨htyped, hr.address ▸ hmerged.user, hr.account ▸ hmerged.small, ?_, ?_, ?_, ?_⟩
  · omega
  · omega
  · omega
  · rw [hvotes, hmoved, hr.balance]
    simp only [deductedTokens, creditedTokens, map_append, sum_append, map_cons,
      map_nil, sum_cons, sum_nil]
    omega

theorem step (htotal : total < 2 ^ 63) (e : UInt64 × VoteTx) (hgain : StepNoGain G c e) :
    TokenLedger G total 0 (outs ++ (tokenStep G c e).2) (tokenStep G c e).1 := by
  obtain ⟨clock, tx⟩ := e
  have hclock := h.setClock clock.toNat
  unfold tokenStep
  cases tx with
  | pledge num duration => exact hclock.pledge num duration hgain
  | redeem num => exact hclock.redeem num
  | commit =>
    rw [applyVote, append_nil]
    exact hclock.commit htotal

end
end TokenLedger

/-- An account that has neither votes nor changes of them. -/
structure NoVotes (c : Context) : Prop where
  typed : TokensTyped c
  votes : c.native.votes = []
  expire : c.expireTokens = 0
  balance : c.account.voteBalance = 0
  change : c.pledgeVoteChange = 0

theorem NoVotes.tokenLedger (h : NoVotes c) (huser : c.address ≠ zecRewardAddr)
    (hsmall : c.account.balance < 2 ^ 63) (hfunds : 0 ≤ c.funds) :
    TokenLedger G c.funds 0 [] c := by
  have htokens : voteTokens G c = 0 := by
    unfold voteTokens
    rw [h.votes, h.expire]
    rfl
  have hvotes : c.voteFunds = 0 := by
    unfold voteFunds
    rw [h.balance, h.change]
    rfl
  refine ⟨h.typed, huser, hsmall, hfunds, ?_, ?_, ?_⟩
  · rw [hvotes, add_zero]
  · rw [htokens, hvotes]
    exact le_refl 0
  · exact hvotes

/-- Where no pledge gains by joining a record, the vote balance is what pledges have deducted less
what redeems have credited, and it is never negative. -/
theorem redeems_within_pledges (G : ChainConfig) (c : Context) (hvotes : NoVotes c)
    (huser : c.address ≠ zecRewardAddr) (hsmall : c.account.balance < 2 ^ 63)
    (hfunds : 0 ≤ c.funds ∧ c.funds < 2 ^ 63) (es : List (UInt64 × VoteTx))
    (hgain : Run.Meets (tokenStep G) (StepNoGain G) c es) :
    creditedTokens (Run.run (tokenStep G) c es).2 ≤ deductedTokens (Run.run (tokenStep G) c es).2 ∧
      0 ≤ (Run.run (tokenStep G) c es).1.voteFunds ∧
      (Run.run (tokenStep G) c es).1.voteFunds =
        deductedTokens (Run.run (tokenStep G) c es).2 -
          creditedTokens (Run.run (tokenStep G) c es).2 := by
  have hstart := hvotes.tokenLedger (G := G) huser hsmall hfunds.1
  have hstep : ∀ outs d e, TokenLedger G c.funds 0 outs d → StepNoGain G d e →
      TokenLedger G c.funds 0 (outs ++ (tokenStep G d e).2) (tokenStep G d e).1 :=
    fun _ _ e h hno => h.step hfunds.2 e hno
  have hend := Run.run_hist hstep hstart es hgain
  rw [nil_append] at hend
  have hmoved := hend.moved
  have hnonneg := (Int.natCast_nonneg _).trans hend.covered
  exact ⟨by omega, hnonneg, hmoved⟩

def tokenSample : Context := .new "a" { balance := 10000000 } .empty 0 0

def tokenConfig : ChainConfig := { userConfig with voteToken := exactVoteToken }

theorem noVotes_tokenSample : NoVotes tokenSample := by
  refine ⟨⟨fun obj hobj => ?_, fun obj hobj => ?_⟩, ?_, ?_, rfl, rfl⟩
  · cases hobj
  · cases hobj
  · decide +kernel
  · decide +kernel

def partRedeemed : List (UInt64 × VoteTx) :=
  [(100, .pledge 2 60), (100, .pledge 4 90), (100, .commit), (518500, .redeem 1),
    (777700, .redeem 2)]

theorem redeems_within_pledges_sample :
    Run.Meets (tokenStep tokenConfig) (StepNoGain tokenConfig) tokenSample partRedeemed ∧
      (Run.run (tokenStep tokenConfig) tokenSample partRedeemed).2 =
        [.deducted 1923078, .deducted 3698228, .credited 961539, .credited 1863906] ∧
      0 ≤ (Run.run (tokenStep tokenConfig) tokenSample partRedeemed).1.voteFunds := by
  have hmeets : Run.Meets (tokenStep tokenConfig) (StepNoGain tokenConfig) tokenSample
      partRedeemed := by decide +kernel
  refine ⟨hmeets, by decide +kernel, ?_⟩
  exact (redeems_within_pledges tokenConfig tokenSample noVotes_tokenSample (by decide +kernel)
    (by decide +kernel) (by decide +kernel) partRedeemed hmeets).2.1

theorem joined_pledges_gain :
    let ended := Run.run (tokenStep tokenConfig) tokenSample
      [(100, .pledge 2 60), (100, .commit), (200, .pledge 2 60), (200, .commit),
        (518500, .redeem 4)]
    ended.2 = [.deducted 1923078, .deducted 1923078, .credited 3846157] ∧
      ended.1.voteFunds = -1 ∧ ended.1.commitVotes.account.voteBalance = 2 ^ 64 - 1 := by
  decide +kernel

end Context
end TopChain.Store
