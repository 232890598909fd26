import TopChain.Lib.Run
import TopChain.Store.Funds

/-!
# How long pledged votes stay locked

A record of pledged votes expires when its lock time and its duration have passed.
-/
namespace TopChain.Store

open List TopChain.Lib TopChain.Lib.Hoare TopChain.Data SortedMap

def dayTicks : Nat := 24 * 60 * 6

def VoteRecord.expiry (v : VoteRecord) : Nat :=
  if v.duration = 0 then 0 else v.lockTime + v.duration * dayTicks

def freeBy (votes : List VoteRecord) (clock : Nat) : Nat :=
  ((votes.filter (·.expiry ≤ clock)).map (·.voteNum)).sum

section
variable {votes votes' : List VoteRecord} {v : VoteRecord} {clock : Nat}

theorem freeBy_append : freeBy (votes ++ votes') clock =
    freeBy votes clock + freeBy votes' clock := by
  rw [freeBy, filter_append, map_append, sum_append]
  rfl

theorem freeBy_perm (h : votes.Perm votes') : freeBy votes clock = freeBy votes' clock :=
  ((h.filter _).map _).sum_nat

theorem freeBy_singleton : freeBy [v] clock = if v.expiry ≤ clock then v.voteNum else 0 := by
  unfold freeBy
  by_cases h : v.expiry ≤ clock
  · simp [h]
  · simp [h]

theorem freeBy_erase (h : v ∈ votes) :
    freeBy votes clock = freeBy (votes.erase v) clock +
      if v.expiry ≤ clock then v.voteNum else 0 := by
  rw [freeBy_perm (perm_cons_erase h), ← freeBy_singleton, Nat.add_comm, ← freeBy_append]
  rfl

theorem freeBy_of_forall (h : ∀ v ∈ votes, v.expiry ≤ clock) :
    freeBy votes clock = (votes.map (·.voteNum)).sum := by
  rw [freeBy, filter_eq_self.mpr fun v hv => decide_eq_true (h v hv)]

end

def NativeProperty.VoteTyped (p : NativeProperty) : Prop :=
  ∀ obj, p.objs.find? pledgeVoteKey = some obj → ∃ items, obj = .votes items

namespace Context
variable {G : ChainConfig} {c c' : Context}

section
variable (h : c.native.VoteTyped) (items : List VoteRecord)
include h items

theorem objs_setVotes :
    (c.setVotes items).native.objs = c.native.objs.insert pledgeVoteKey (.votes items) := by
  refine NativeProperty.objs_put fun old hold => ?_
  obtain ⟨items', rfl⟩ := h old hold
  rfl

theorem votes_setVotes :
    (c.setVotes items).native.VoteTyped ∧ (c.setVotes items).native.votes = items := by
  have hobjs := objs_setVotes h items
  constructor
  · intro obj hobj
    rw [hobjs, find?_insert_self] at hobj
    exact ⟨items, (Option.some_inj.mp hobj).symm⟩
  · rw [NativeProperty.votes, hobjs, find?_insert_self]

end

theorem votes_setNative_of_ne {name : String} (obj : NativeObj) (h : c.native.VoteTyped)
    (hname : pledgeVoteKey ≠ name) :
    (c.setNative name obj).native.VoteTyped ∧
      (c.setNative name obj).native.votes = c.native.votes := by
  have hfind : (c.setNative name obj).native.objs.find? pledgeVoteKey =
      c.native.objs.find? pledgeVoteKey := by
    unfold setNative NativeProperty.put NativeProperty.put?
    split
    · exact find?_insert_of_ne _ _ hname
    · split_ifs
      · exact find?_insert_of_ne _ _ hname
      · rfl
  constructor
  · intro obj' hobj
    rw [hfind] at hobj
    exact h obj' hobj
  · rw [NativeProperty.votes, hfind]
    rfl

/-- The vote records are readable, and none starts after the clock. -/
structure VotesOk (c : Context) : Prop where
  typed : c.native.VoteTyped
  clock : c.timerHeight < 2 ^ 64
  started : ∀ v ∈ c.native.votes, v.lockTime ≤ c.timerHeight

theorem VotesOk.setVotes (h : VotesOk c) {l : List VoteRecord}
    (hl : ∀ v ∈ l, v.lockTime ≤ c.timerHeight) :
    VotesOk (c.setVotes l) ∧ (c.setVotes l).timerHeight = c.timerHeight ∧
      (c.setVotes l).native.votes = l := by
  obtain ⟨htyped, hvotes⟩ := votes_setVotes h.typed l
  exact ⟨⟨htyped, h.clock, fun v hv => hl v (hvotes ▸ hv)⟩, rfl, hvotes⟩

theorem VotesOk.setNative_of_ne (h : VotesOk c) {name : String} (hname : pledgeVoteKey ≠ name)
    (obj : NativeObj) :
    VotesOk (c.setNative name obj) ∧ (c.setNative name obj).timerHeight = c.timerHeight ∧
      (c.setNative name obj).native.votes = c.native.votes := by
  obtain ⟨htyped, hvotes⟩ := votes_setNative_of_ne obj h.typed hname
  exact ⟨⟨htyped, h.clock, fun v hv => h.started v (hvotes ▸ hv)⟩, rfl, hvotes⟩

theorem expiry_le_iff {v : VoteRecord} {clock : Nat} (hv : v.lockTime ≤ clock)
    (hclock : clock < 2 ^ 64) :
    v.expiry ≤ clock ↔ v.duration * 24 * 60 * 6 ≤ Word.wsub 64 clock v.lockTime := by
  rw [Word.wsub_of_le hv hclock, VoteRecord.expiry, dayTicks]
  split_ifs with hzero
  · omega
  · omega

def expiredVotes (c : Context) : List VoteRecord :=
  c.native.votes.filter fun v => v.duration * 24 * 60 * 6 ≤ Word.wsub 64 c.timerHeight v.lockTime

theorem perm_expiredVotes (c : Context) :
    (c.expiredVotes ++ c.native.votes.diff c.expiredVotes).Perm c.native.votes :=
  subperm_append_diff_self_of_count_le fun v _ =>
    (filter_sublist (l := c.native.votes)).count_le v

def mergedVotes (c : Context) : List VoteRecord :=
  if 0 < (c.expiredVotes.map (·.voteNum)).sum % 2 ^ 64 then
    [⟨(c.expiredVotes.map (·.voteNum)).sum % 2 ^ 64, 0, 0⟩]
  else []

theorem votes_mergePledgeVoteProperty (h : c.native.VoteTyped) :
    (c.mergePledgeVoteProperty G).native.VoteTyped ∧
      (c.mergePledgeVoteProperty G).timerHeight = c.timerHeight ∧
      (c.mergePledgeVoteProperty G).native.votes =
        c.native.votes.diff c.expiredVotes ++ c.mergedVotes := by
  -- the records without the expired ones
  have hdiff : ∃ c₁ : Context, c₁ = (if c.expiredVotes.isEmpty then c else
      c.setVotes (c.native.votes.diff c.expiredVotes)) ∧ c₁.native.VoteTyped ∧
      c₁.timerHeight = c.timerHeight ∧
      c₁.native.votes = c.native.votes.diff c.expiredVotes := by
    refine ⟨_, rfl, ?_⟩
    split_ifs with hempty
    · rw [isEmpty_iff.mp hempty, diff_nil]
      exact ⟨h, rfl, rfl⟩
    · obtain ⟨htyped, hvotes⟩ := votes_setVotes h (c.native.votes.diff c.expiredVotes)
      exact ⟨htyped, rfl, hvotes⟩
  obtain ⟨c₁, hc₁, htyped₁, hclock₁, hvotes₁⟩ := hdiff
  -- and with the record that they become
  have hmerged : ∃ c₂ : Context, c₂ = (if 0 < (c.expiredVotes.map (·.voteNum)).sum % 2 ^ 64 then
      c₁.setVotes (c₁.native.votes ++ [⟨(c.expiredVotes.map (·.voteNum)).sum % 2 ^ 64, 0, 0⟩])
      else c₁) ∧ c₂.native.VoteTyped ∧ c₂.timerHeight = c.timerHeight ∧
      c₂.native.votes = c.native.votes.diff c.expiredVotes ++ c.mergedVotes := by
    refine ⟨_, rfl, ?_⟩
    unfold mergedVotes
    split_ifs
    · obtain ⟨htyped, hvotes⟩ := votes_setVotes htyped₁
        (c₁.native.votes ++ [⟨(c.expiredVotes.map (·.voteNum)).sum % 2 ^ 64, 0, 0⟩])
      exact ⟨htyped, hclock₁, by rw [hvotes, hvotes₁]⟩
    · exact ⟨htyped₁, hclock₁, by rw [hvotes₁, append_nil]⟩
  obtain ⟨c₂, hc₂, htyped₂, hclock₂, hvotes₂⟩ := hmerged
  unfold mergePledgeVoteProperty
  dsimp only
  rw [← expiredVotes, ← hc₁, ← hc₂]
  split_ifs
  · have hname : pledgeVoteKey ≠ expireVoteTokenKey := by decide
    obtain ⟨htyped, hvotes⟩ := votes_setNative_of_ne
      (.number (((c.expiredVotes.filter (·.duration ≠ 0)).map fun v =>
        G.voteToken v.voteNum v.duration).sum + c₂.native.number expireVoteTokenKey)) htyped₂ hname
    exact ⟨htyped, hclock₂, hvotes.trans hvotes₂⟩
  · exact ⟨htyped₂, hclock₂, hvotes₂⟩

theorem VotesOk.mergePledgeVoteProperty (h : VotesOk c) : VotesOk (c.mergePledgeVoteProperty G) ∧
      (c.mergePledgeVoteProperty G).timerHeight = c.timerHeight ∧
      ∀ clock, c.timerHeight ≤ clock →
        freeBy (c.mergePledgeVoteProperty G).native.votes clock ≤ freeBy c.native.votes clock := by
  obtain ⟨htyped, hclock, hvotes⟩ := votes_mergePledgeVoteProperty (G := G) h.typed
  have hmerged : ∀ v ∈ c.mergedVotes, v.lockTime = 0 := by
    intro v hv
    unfold mergedVotes at hv
    split_ifs at hv
    · rw [mem_singleton.mp hv]
    · cases hv
  refine ⟨⟨htyped, hclock ▸ h.clock, fun v hv => ?_⟩, hclock, fun clock hle => ?_⟩
  · rw [hvotes] at hv
    rw [hclock]
    rcases mem_append.mp hv with hv | hv
    · exact h.started v (diff_subset _ _ hv)
    · rw [hmerged v hv]
      exact Nat.zero_le _
  · -- the expired records were free already
    have hexpired : ∀ v ∈ c.expiredVotes, v.expiry ≤ clock := by
      intro v hv
      obtain ⟨hmem, hdue⟩ := mem_filter.mp hv
      exact ((expiry_le_iff (h.started v hmem) h.clock).mpr (of_decide_eq_true hdue)).trans hle
    have hfree : freeBy c.mergedVotes clock ≤ freeBy c.expiredVotes clock := by
      rw [freeBy_of_forall hexpired]
      unfold mergedVotes
      split_ifs
      · exact Nat.mod_le _ _
      · exact Nat.zero_le _
    rw [hvotes, freeBy_append, ← freeBy_perm c.perm_expiredVotes, freeBy_append]
    omega

def joins (c : Context) (duration : Nat) (v : VoteRecord) : Bool :=
  v.duration = duration && Word.wsub 64 c.timerHeight v.lockTime < 24 * 60 * 6

theorem mergeVote_cases (num duration : Nat) (votes : List VoteRecord) (lockTime : Nat)
    (l : List VoteRecord) :
    (∃ v ∈ l, c.joins duration v ∧ mergeVote c.timerHeight num duration votes lockTime l =
      ((num + v.voteNum) % 2 ^ 64, v.lockTime, votes.erase v)) ∨
    ((∀ v ∈ l, ¬ c.joins duration v) ∧ mergeVote c.timerHeight num duration votes lockTime l =
      (num, (l.getLast?.map (·.lockTime)).getD lockTime, votes)) := by
  induction l generalizing lockTime with
  | nil => exact .inr ⟨fun _ h => absurd h not_mem_nil, rfl⟩
  | cons v rest ih =>
    rw [mergeVote]
    by_cases hv : c.joins duration v
    · rw [if_pos (by exact hv)]
      exact .inl ⟨v, mem_cons_self, hv, rfl⟩
    · rw [if_neg (by exact hv)]
      rcases ih v.lockTime with ⟨w, hw, hjoin, heq⟩ | ⟨hnone, heq⟩
      · exact .inl ⟨w, mem_cons_of_mem v hw, hjoin, heq⟩
      · refine .inr ⟨fun w hw => ?_, ?_⟩
        · rcases mem_cons.mp hw with rfl | hw
          · exact hv
          · exact hnone w hw
        · rw [heq, getLast?_cons]
          cases rest.getLast? <;> rfl

def StartsNow (c : Context) (duration : Nat) : Prop :=
  c.native.votes.any (c.joins duration) ∨
    ∀ v ∈ c.native.votes.getLast?, v.lockTime = 0 ∨ v.lockTime = c.timerHeight

instance instDecidableStartsNow (c : Context) (duration : Nat) : Decidable (StartsNow c duration) :=
  inferInstanceAs (Decidable (_ ∨ ∀ v ∈ c.native.votes.getLast?, _))

structure Pledged (c c' : Context) (duration : Nat) (v : VoteRecord) : Prop where
  last : c'.native.votes.getLast? = some v
  own : c.native.votes.any (c.joins duration) = false → v.lockTime = c.timerHeight

theorem VotesOk.push {l : List VoteRecord} {r : VoteRecord} (h : VotesOk c)
    (hsub : l ⊆ c.native.votes) (hr : r.lockTime ≤ c.timerHeight)
    (hok : c.setNative? pledgeVoteKey (.votes (l ++ [r])) = .ok c') :
    VotesOk c' ∧ c'.timerHeight = c.timerHeight ∧ c'.native.votes = l ++ [r] := by
  have hset : c' = c.setVotes (l ++ [r]) := eq_setNative_of_ok hok
  rw [hset]
  apply h.setVotes
  intro v hv
  rcases mem_append.mp hv with hv | hv
  · exact h.started v (hsub hv)
  · rw [mem_singleton.mp hv]
    exact hr

theorem VotesOk.expiry_joined {v : VoteRecord} {num duration clock : Nat} (h : VotesOk c)
    (hv : v ∈ c.native.votes) (hjoin : c.joins duration v) (hclock : c.timerHeight ≤ clock)
    (hfree : VoteRecord.expiry ⟨num, duration,
      if v.lockTime = 0 then c.timerHeight else v.lockTime⟩ ≤
      clock) :
    v.expiry ≤ clock ∧ c.timerHeight + duration * dayTicks < clock + dayTicks := by
  have hstarted := h.started v hv
  simp only [joins, Bool.and_eq_true, decide_eq_true_eq, Word.wsub_of_le hstarted h.clock] at hjoin
  obtain ⟨rfl, hday⟩ := hjoin
  unfold VoteRecord.expiry dayTicks at *
  dsimp only at hfree
  split_ifs at hfree ⊢ with hzero hlock
  · omega
  · omega
  · omega

theorem VotesOk.insertPledgeVoteProperty {num duration : Nat} (h : VotesOk c)
    (hstart : StartsNow c duration) (hok : c.insertPledgeVoteProperty num duration = .ok c') :
    VotesOk c' ∧ c'.timerHeight = c.timerHeight ∧
      (∀ clock, c.timerHeight ≤ clock → freeBy c'.native.votes clock ≤ freeBy c.native.votes clock +
          if c.timerHeight + duration * dayTicks < clock + dayTicks then num else 0) ∧
      ∃ v, Pledged c c' duration v := by
  rw [Context.insertPledgeVoteProperty, ite_error_eq_ok] at hok
  replace hok := hok.2
  rcases mergeVote_cases (c := c) num duration c.native.votes 0 c.native.votes with
    ⟨v, hv, hjoin, heq⟩ | ⟨hnone, heq⟩
  · rw [heq] at hok
    have hlock : (if v.lockTime = 0 then c.timerHeight else v.lockTime) ≤ c.timerHeight := by
      split_ifs
      · exact le_rfl
      · exact h.started v hv
    obtain ⟨hc', hclock, hvotes⟩ := h.push erase_subset hlock hok
    refine ⟨hc', hclock, fun clock hle => ?_, _, by rw [hvotes, getLast?_concat], fun hany => ?_⟩
    · rw [hvotes, freeBy_append, freeBy_singleton, freeBy_erase hv]
      have hmod : (num + v.voteNum) % 2 ^ 64 ≤ num + v.voteNum := Nat.mod_le _ _
      by_cases hfree : VoteRecord.expiry ⟨(num + v.voteNum) % 2 ^ 64, duration,
          if v.lockTime = 0 then c.timerHeight else v.lockTime⟩ ≤ clock
      · obtain ⟨hbefore, hdue⟩ := h.expiry_joined hv hjoin hle hfree
        rw [if_pos hfree, if_pos hbefore, if_pos hdue]
        dsimp only
        omega
      · rw [if_neg hfree]
        omega
    · rw [any_eq_false] at hany
      exact absurd hjoin (hany v hv)
  · have hown : (if (c.native.votes.getLast?.map (·.lockTime)).getD 0 = 0 then c.timerHeight
        else (c.native.votes.getLast?.map (·.lockTime)).getD 0) = c.timerHeight := by
      rcases hstart with hany | hlast
      · obtain ⟨v, hv, hjoin⟩ := any_eq_true.mp hany
        exact absurd hjoin (hnone v hv)
      · cases hget : c.native.votes.getLast? with
        | none => rfl
        | some v =>
          show (if v.lockTime = 0 then c.timerHeight else v.lockTime) = c.timerHeight
          rcases hlast v hget with hzero | hnow
          · rw [if_pos hzero]
          · rw [hnow, ite_self]
    rw [heq] at hok
    dsimp only at hok
    rw [hown] at hok
    obtain ⟨hc', hclock, hvotes⟩ := h.push (fun _ hv => hv) (le_refl c.timerHeight) hok
    refine ⟨hc', hclock, fun clock hle => ?_, _, by rw [hvotes, getLast?_concat], fun _ => rfl⟩
    rw [hvotes, freeBy_append, freeBy_singleton]
    unfold VoteRecord.expiry dayTicks
    dsimp only
    split_ifs with hzero <;> omega

theorem VotesOk.redeemPledgeVoteProperty {num : Nat} (h : VotesOk c)
    (hok : c.redeemPledgeVoteProperty num = .ok c') :
    VotesOk c' ∧ c'.timerHeight = c.timerHeight ∧
      ∀ clock, freeBy c'.native.votes clock + num ≤ freeBy c.native.votes clock := by
  unfold Context.redeemPledgeVoteProperty at hok
  split at hok
  · cases hok
  · rename_i v hfind
    rw [ite_error_eq_ok] at hok
    obtain ⟨hnum, hok⟩ := hok
    have hmem := mem_of_find?_eq_some hfind
    have hfree : v.duration = 0 := by simpa using find?_some hfind
    have hname : pledgeVoteKey ≠ expireVoteTokenKey := by decide
    have hstarted : ∀ w ∈ c.native.votes.erase v, w.lockTime ≤ c.timerHeight :=
      fun w hw => h.started w (erase_subset hw)
    have hfreeBy : ∀ clock, freeBy c.native.votes clock =
        freeBy (c.native.votes.erase v) clock + v.voteNum := by
      intro clock
      rw [freeBy_erase hmem, VoteRecord.expiry, if_pos hfree, if_pos (Nat.zero_le clock)]
    dsimp only at hok
    -- the records without the one that is redeemed
    obtain ⟨hok₁, htimer₁, hvotes₁⟩ := h.setVotes hstarted
    obtain ⟨hok₂, htimer₂, hvotes₂⟩ := hok₁.setNative_of_ne hname (.number
      (c.native.number expireVoteTokenKey -
        num * c.native.number expireVoteTokenKey % 2 ^ 64 / v.voteNum))
    rw [hvotes₁] at hvotes₂
    generalize (c.setVotes (c.native.votes.erase v)).setNative expireVoteTokenKey _ = c₂ at *
    split_ifs at hok with hrest
    · -- a part of the record stays free
      have hpart : ∀ w ∈ c.native.votes.erase v ++ [⟨v.voteNum - num, 0, 0⟩],
          w.lockTime ≤ c₂.timerHeight := by
        intro w hw
        rcases mem_append.mp hw with hw | hw
        · rw [htimer₂]
          exact hstarted w hw
        · rw [mem_singleton.mp hw]
          exact Nat.zero_le _
      obtain ⟨hok₃, htimer₃, hvotes₃⟩ := hok₂.setVotes hpart
      rw [hvotes₂] at hok
      generalize c₂.setVotes _ = c₃ at *
      cases hok
      refine ⟨⟨hok₃.typed, hok₃.clock, hok₃.started⟩, htimer₃.trans htimer₂, fun clock => ?_⟩
      show freeBy c₃.native.votes clock + num ≤ _
      have hzero : VoteRecord.expiry ⟨v.voteNum - num, 0, 0⟩ ≤ clock := Nat.zero_le clock
      rw [hvotes₃, freeBy_append, freeBy_singleton, if_pos hzero, hfreeBy clock]
      dsimp only
      omega
    · cases hok
      refine ⟨⟨hok₂.typed, hok₂.clock, hok₂.started⟩, htimer₂, fun clock => ?_⟩
      show freeBy c₂.native.votes clock + num ≤ _
      rw [hvotes₂, hfreeBy clock]
      omega

inductive VoteCall where
  | pledge (num : UInt64) (duration : UInt16)
  | redeem (num : UInt64)

/-- What a call has done; a pledge comes with whether it has joined a record, and with the lock
time of its record. -/
inductive VoteOut where
  | pledged (clock num duration : Nat) (joined : Bool) (lockTime : Nat)
  | redeemed (num : Nat)
deriving DecidableEq

def voteStep (G : ChainConfig) (c : Context) (e : UInt64 × VoteCall) : Context × List VoteOut :=
  let merged := { c with timerHeight := e.1.toNat }.mergePledgeVoteProperty G
  match e.2 with
  | .pledge num duration =>
    match { c with timerHeight := e.1.toNat }.updatePledgeVoteProperty G num.toNat
        duration.toNat with
    | .ok c' =>
      (c', [.pledged e.1.toNat num.toNat duration.toNat
        (merged.native.votes.any (merged.joins duration.toNat))
        ((c'.native.votes.getLast?.map (·.lockTime)).getD 0)])
    | .error _ => (merged, [])
  | .redeem num =>
    match merged.redeemPledgeVoteProperty num.toNat with
    | .ok c' => (c', [.redeemed num.toNat])
    | .error _ => (merged, [])

/-- The clock does not go back, and a pledge that joins no record does not inherit an older lock
time. -/
def VoteInOrder (G : ChainConfig) (c : Context) (e : UInt64 × VoteCall) : Prop :=
  c.timerHeight ≤ e.1.toNat ∧
    match e.2 with
    | .pledge _ duration =>
      StartsNow ({ c with timerHeight := e.1.toNat }.mergePledgeVoteProperty G) duration.toNat
    | .redeem _ => True

instance instDecidableVoteInOrder (G : ChainConfig) (c : Context) (e : UInt64 × VoteCall) :
    Decidable (VoteInOrder G c e) :=
  match e with
  | (now, .pledge _ duration) =>
    inferInstanceAs (Decidable (c.timerHeight ≤ now.toNat ∧
      StartsNow ({ c with timerHeight := now.toNat }.mergePledgeVoteProperty G) duration.toNat))
  | (now, .redeem _) => inferInstanceAs (Decidable (c.timerHeight ≤ now.toNat ∧ True))

def redeemedVotes (outs : List VoteOut) : Nat :=
  (outs.map fun
    | .redeemed num => num
    | .pledged .. => 0).sum

def dueVotes (outs : List VoteOut) (clock : Nat) : Nat :=
  (outs.map fun
    | .redeemed _ => 0
    | .pledged start num duration _ _ =>
      if start + duration * dayTicks < clock + dayTicks then num else 0).sum

theorem redeemedVotes_append (outs outs' : List VoteOut) :
    redeemedVotes (outs ++ outs') = redeemedVotes outs + redeemedVotes outs' := by
  rw [redeemedVotes, map_append, sum_append]
  rfl

theorem dueVotes_append (outs outs' : List VoteOut) (clock : Nat) :
    dueVotes (outs ++ outs') clock = dueVotes outs clock + dueVotes outs' clock := by
  rw [dueVotes, map_append, sum_append]
  rfl

/-- What is redeemed or free by a later clock is due by then. -/
structure VoteHistory (outs : List VoteOut) (c : Context) : Prop where
  ok : VotesOk c
  bound : ∀ clock, c.timerHeight ≤ clock →
    redeemedVotes outs + freeBy c.native.votes clock ≤ dueVotes outs clock
  own : ∀ start num duration lockTime,
    VoteOut.pledged start num duration false lockTime ∈ outs → lockTime = start

theorem VoteHistory.step {outs : List VoteOut} {e : UInt64 × VoteCall} (h : VoteHistory outs c)
    (he : VoteInOrder G c e) : VoteHistory (outs ++ (voteStep G c e).2) (voteStep G c e).1 := by
  obtain ⟨now, call⟩ := e
  obtain ⟨hnow, hcall⟩ := he
  have hok : VotesOk { c with timerHeight := now.toNat } :=
    ⟨h.ok.typed, UInt64.toNat_lt now, fun v hv => (h.ok.started v hv).trans hnow⟩
  obtain ⟨hmerged, hclock, hfree⟩ := hok.mergePledgeVoteProperty (G := G)
  have hhist : VoteHistory outs
      ({ c with timerHeight := now.toNat }.mergePledgeVoteProperty G) := by
    refine ⟨hmerged, fun clock hle => ?_, h.own⟩
    rw [hclock] at hle
    have hbound := h.bound clock (hnow.trans hle)
    have hle' := hfree clock hle
    dsimp only at hle'
    omega
  unfold voteStep
  cases call with
  | pledge num duration =>
    dsimp only
    split
    · rename_i c' hpledge
      obtain ⟨hc', hclock', hadd, v, hlast, hown⟩ := hmerged.insertPledgeVoteProperty hcall hpledge
      refine ⟨hc', fun clock hle => ?_, fun start n d lockTime hmem => ?_⟩
      · rw [hclock'] at hle
        have hbound := hhist.bound clock hle
        have hle' := hadd clock hle
        rw [hclock] at hle'
        rw [redeemedVotes_append, dueVotes_append]
        simp only [redeemedVotes, dueVotes, map_cons, map_nil, sum_cons, sum_nil] at hbound hle' ⊢
        omega
      · rcases mem_append.mp hmem with hmem | hmem
        · exact h.own start n d lockTime hmem
        · obtain ⟨rfl, rfl, rfl, hjoined, rfl⟩ := VoteOut.pledged.inj (mem_singleton.mp hmem)
          rw [hlast]
          exact (hown hjoined.symm).trans hclock
    · rw [append_nil]
      exact hhist
  | redeem num =>
    dsimp only
    split
    · rename_i c' hredeem
      obtain ⟨hc', hclock', hsub⟩ := hmerged.redeemPledgeVoteProperty hredeem
      refine ⟨hc', fun clock hle => ?_, fun start n d lockTime hmem => ?_⟩
      · rw [hclock'] at hle
        have hbound := hhist.bound clock hle
        have hle' := hsub clock
        rw [redeemedVotes_append, dueVotes_append]
        simp only [redeemedVotes, dueVotes, map_cons, map_nil, sum_cons, sum_nil] at hbound hle' ⊢
        omega
      · rcases mem_append.mp hmem with hmem | hmem
        · exact h.own start n d lockTime hmem
        · cases mem_singleton.mp hmem
    · rw [append_nil]
      exact hhist

/-- What is redeemed, with what can be redeemed by a clock, does not exceed the pledges due by that
clock up to a day, and a pledge that joins no record starts its lock at its own clock. -/
theorem pledged_votes_stay_locked (G : ChainConfig) (c : Context) (hc : VotesOk c)
    (hempty : c.native.votes = []) (calls : List (UInt64 × VoteCall))
    (hcalls : Run.Meets (voteStep G) (VoteInOrder G) c calls) :
    (∀ clock, (Run.run (voteStep G) c calls).1.timerHeight ≤ clock →
      redeemedVotes (Run.run (voteStep G) c calls).2 +
          freeBy (Run.run (voteStep G) c calls).1.native.votes clock ≤
        dueVotes (Run.run (voteStep G) c calls).2 clock) ∧
    ∀ start num duration lockTime,
      VoteOut.pledged start num duration false lockTime ∈ (Run.run (voteStep G) c calls).2 →
        lockTime = start := by
  have hstart : VoteHistory [] c := by
    refine ⟨hc, fun clock _ => ?_, fun _ _ _ _ h => absurd h not_mem_nil⟩
    rw [hempty]
    exact Nat.zero_le _
  have hrun := Run.run_hist (fun _ _ _ h he => VoteHistory.step h he) hstart calls hcalls
  exact ⟨hrun.bound, hrun.own⟩

def voteSample : Context := .new "a" {} .empty 0 0

theorem votesOk_voteSample : VotesOk voteSample := by
  refine ⟨fun obj hobj => ?_, by decide +kernel, fun v hv => ?_⟩
  · cases hobj
  · cases hv

def joinedPledges : List (UInt64 × VoteCall) :=
  [(100, .pledge 5 30), (5000, .pledge 7 30), (259300, .redeem 12), (300000, .pledge 3 60)]

theorem pledged_votes_stay_locked_sample :
    Run.Meets (voteStep userConfig) (VoteInOrder userConfig) voteSample joinedPledges ∧
      redeemedVotes (Run.run (voteStep userConfig) voteSample joinedPledges).2 = 12 ∧
      12 + freeBy (Run.run (voteStep userConfig) voteSample joinedPledges).1.native.votes 300000 ≤
        dueVotes (Run.run (voteStep userConfig) voteSample joinedPledges).2 300000 := by
  have hmeets : Run.Meets (voteStep userConfig) (VoteInOrder userConfig) voteSample
      joinedPledges := by decide +kernel
  have hredeemed :
      redeemedVotes (Run.run (voteStep userConfig) voteSample joinedPledges).2 = 12 := by
    decide +kernel
  refine ⟨hmeets, hredeemed, ?_⟩
  have hbound := (pledged_votes_stay_locked userConfig voteSample votesOk_voteSample rfl
    joinedPledges hmeets).1 300000 (by decide +kernel)
  rwa [hredeemed] at hbound

theorem pledge_takes_older_lockTime :
    (Run.run (voteStep userConfig) voteSample
      [(100, .pledge 5 60), (100100, .pledge 7 30), (259300, .redeem 7)]).2 =
      [.pledged 100 5 60 false 100, .pledged 100100 7 30 false 100, .redeemed 7] ∧
    dueVotes [.pledged 100 5 60 false 100, .pledged 100100 7 30 false 100,
        .redeemed 7] 259300 = 0 :=
  by decide +kernel

end Context
end TopChain.Store
