import TopChain.Base.Address
import TopChain.Lib.Run
import TopChain.Lib.SortedMap
import Mathlib.Data.Finset.Insert
import Mathlib.Data.Prod.Lex

/-!
# The votes of a proposal (`xproposal_t`, `xBFT/src/xconsengine.cpp`)

The votes for a proposal are kept in two maps, one for validators and one for auditors.
-/
namespace TopChain.Bft

open Function List TopChain.Base TopChain.Lib SortedMap

instance instLinearOrderXvip2 : LinearOrder Xvip2 :=
  LinearOrder.lift' (fun a => toLex (a.high, a.low)) fun a b h => by
    have hpair := Prod.mk.inj (toLex.injective h)
    cases a
    cases b
    simp_all

inductive VoteGroup where
  | validator | auditor
deriving DecidableEq

structure VoteRules where
  isValidator : Xvip2 → Bool
  isAuditor : Xvip2 → Bool
  getValidatorThreshold : UInt32
  getAuditorThreshold : UInt32

structure VoteSignatures where
  verifySignature : String
  auditSignature : String

structure VotedCert where
  voterXip : Xvip2
  qcert : Option VoteSignatures
  signer : String

structure Tally where
  count : Int32
  voted : SortedMap Xvip2 String

/-- The votes of a proposal, per group, with the signers and signatures seen. -/
structure ProposalVotes where
  tally : VoteGroup → Tally
  allVotors : Finset String
  allVotedCert : Finset String

structure RecordedVote where
  group : VoteGroup
  voterXip : Xvip2
  signer : String
  signature : String
deriving DecidableEq

namespace ProposalVotes
variable (c : VoteRules) (p : ProposalVotes)

def init : ProposalVotes := ⟨fun _ => ⟨0, .empty⟩, ∅, ∅⟩

/-- A new signature stays in the set also when the address has voted before. -/
def recordVote (g : VoteGroup) (voterXip : Xvip2) (signer signature : String) :
    ProposalVotes × Bool :=
  if signature ∈ p.allVotedCert then (p, false)
  else
    let p := { p with allVotedCert := insert signature p.allVotedCert }
    let res := (p.tally g).voted.emplace voterXip signature
    if res.2 then
      ({ p with
         allVotors := insert signer p.allVotors
         tally := Function.update p.tally g ⟨(p.tally g).count + 1, res.1⟩ }, true)
    else (p, false)

def groupOf (x : Xvip2) : Option VoteGroup :=
  if c.isValidator x then some .validator
  else if c.isAuditor x then some .auditor
  else none

def signatureOf (sigs : VoteSignatures) : VoteGroup → String
  | .validator => sigs.verifySignature
  | .auditor => sigs.auditSignature

def addVotedCert (v : VotedCert) : ProposalVotes × Bool :=
  match v.qcert with
  | none => (p, false)
  | some sigs =>
    if v.voterXip.low = 0 && v.voterXip.high = 0 then (p, false)
    else if v.signer = "" then (p, false)
    else if v.signer ∈ p.allVotors then (p, false)
    else match groupOf c v.voterXip with
    | none => (p, false)
    | some g => p.recordVote g v.voterXip v.signer (signatureOf sigs g)

def isGroupFinishVote : VoteGroup → Bool
  | .validator => (p.tally .validator).count ≥ c.getValidatorThreshold.toInt32
  | .auditor => (p.tally .auditor).count ≥ c.getAuditorThreshold.toInt32

def isVoteFinish : Bool := p.isGroupFinishVote c .validator && p.isGroupFinishVote c .auditor

def recorded (v : VotedCert) : List RecordedVote :=
  match v.qcert, groupOf c v.voterXip with
  | some sigs, some g => [⟨g, v.voterXip, v.signer, signatureOf sigs g⟩]
  | _, _ => []

def step (v : VotedCert) : ProposalVotes × List RecordedVote :=
  let res := p.addVotedCert c v
  (res.1, if res.2 then recorded c v else [])

/-- Two votes of different nodes, accounts and signatures. -/
def Apart (a b : RecordedVote) : Prop :=
  a.voterXip ≠ b.voterXip ∧ a.signer ≠ b.signer ∧ a.signature ≠ b.signature

def entriesOf (g : VoteGroup) (votes : List RecordedVote) : List (Xvip2 × String) :=
  (votes.filter (·.group = g)).map fun o => (o.voterXip, o.signature)

/-- The tallies are those of the recorded votes, which are all apart. -/
structure Agrees (votes : List RecordedVote) : Prop where
  apart : votes.Pairwise Apart
  entries : ∀ g, (p.tally g).voted.entries.Perm (entriesOf g votes)
  count : ∀ g, (p.tally g).count = Int32.ofNat (p.tally g).voted.entries.length
  signers : ∀ o ∈ votes, o.signer ∈ p.allVotors
  signatures : ∀ o ∈ votes, o.signature ∈ p.allVotedCert
  groups : ∀ o ∈ votes, groupOf c o.voterXip = some o.group

variable {c p} {votes : List RecordedVote}

theorem Agrees.init : Agrees c init [] where
  apart := .nil
  entries _ := .refl _
  count _ := rfl
  signers _ h := by cases h
  signatures _ h := by cases h
  groups _ h := by cases h

variable {o : RecordedVote}

theorem Agrees.mem_voted (h : Agrees c p votes) (ho : o ∈ votes) :
    (o.voterXip, o.signature) ∈ (p.tally o.group).voted.entries := by
  refine (h.entries o.group).mem_iff.mpr (mem_map.mpr ⟨o, ?_, rfl⟩)
  exact mem_filter.mpr ⟨ho, by simp⟩

theorem Agrees.addSignature (h : Agrees c p votes) (s : String) :
    Agrees c { p with allVotedCert := insert s p.allVotedCert } votes :=
  { h with signatures := fun o ho => Finset.mem_insert_of_mem (h.signatures o ho) }

theorem entriesOf_append (g : VoteGroup) (o : RecordedVote) : entriesOf g (votes ++ [o]) =
      entriesOf g votes ++ if o.group = g then [(o.voterXip, o.signature)] else [] := by
  unfold entriesOf
  by_cases hg : o.group = g <;> simp [hg]

section
variable (h : Agrees c p votes) (hgroup : groupOf c o.voterXip = some o.group)
  (hsigner : o.signer ∉ p.allVotors)
include h hgroup hsigner

theorem Agrees.record (hsignature : o.signature ∉ p.allVotedCert)
    (hvoter : (p.tally o.group).voted.find? o.voterXip = none) :
    Agrees c
      { allVotedCert := insert o.signature p.allVotedCert
        allVotors := insert o.signer p.allVotors
        tally := Function.update p.tally o.group
          ⟨(p.tally o.group).count + 1, (p.tally o.group).voted.insert o.voterXip o.signature⟩ }
      (votes ++ [o]) := by
  have hperm : ((p.tally o.group).voted.insert o.voterXip o.signature).entries.Perm
      ((o.voterXip, o.signature) :: (p.tally o.group).voted.entries) :=
    perm_insertList fun e he hk => find?_eq_none_iff.mp hvoter e.2 (hk ▸ he)
  constructor
  · rw [pairwise_append]
    refine ⟨h.apart, pairwise_singleton _ _, fun a ha b hb => ?_⟩
    obtain rfl := mem_singleton.mp hb
    refine ⟨fun he => ?_, fun he => hsigner (he ▸ h.signers a ha),
      fun he => hsignature (he ▸ h.signatures a ha)⟩
    -- an address votes in one group only, whose map refuses it the second time
    have hsame : a.group = b.group := Option.some_inj.mp ((h.groups a ha).symm.trans (he ▸ hgroup))
    have hmem := h.mem_voted ha
    rw [hsame, he] at hmem
    exact find?_eq_none_iff.mp hvoter _ hmem
  · intro g
    dsimp only
    rw [entriesOf_append]
    by_cases hg : o.group = g
    · subst hg
      rw [update_self, if_pos rfl]
      exact (hperm.trans ((h.entries _).cons _)).trans (perm_append_singleton _ _).symm
    · rw [update_of_ne (Ne.symm hg), if_neg hg, append_nil]
      exact h.entries g
  · intro g
    dsimp only
    by_cases hg : o.group = g
    · subst hg
      rw [update_self, hperm.length_eq, length_cons, Int32.ofNat_add, h.count]
      rfl
    · rw [update_of_ne (Ne.symm hg)]
      exact h.count g
  · intro a ha
    rcases mem_append.mp ha with ha | ha
    · exact Finset.mem_insert_of_mem (h.signers a ha)
    · exact mem_singleton.mp ha ▸ Finset.mem_insert_self _ _
  · intro a ha
    rcases mem_append.mp ha with ha | ha
    · exact Finset.mem_insert_of_mem (h.signatures a ha)
    · exact mem_singleton.mp ha ▸ Finset.mem_insert_self _ _
  · intro a ha
    rcases mem_append.mp ha with ha | ha
    · exact h.groups a ha
    · exact mem_singleton.mp ha ▸ hgroup

theorem Agrees.recordVote : Agrees c (p.recordVote o.group o.voterXip o.signer o.signature).1
      (votes ++ if (p.recordVote o.group o.voterXip o.signer o.signature).2 then [o] else []) := by
  unfold ProposalVotes.recordVote
  by_cases hsig : o.signature ∈ p.allVotedCert
  · simpa [hsig] using h
  · cases hf : (p.tally o.group).voted.find? o.voterXip with
    | none => simpa [hsig, SortedMap.emplace, hf] using h.record hgroup hsigner hsig hf
    | some s => simpa [hsig, SortedMap.emplace, hf] using h.addSignature o.signature

end

theorem addVotedCert_cases (c : VoteRules) (p : ProposalVotes) (v : VotedCert) :
    p.addVotedCert c v = (p, false) ∨
    ∃ sigs g, v.qcert = some sigs ∧ groupOf c v.voterXip = some g ∧ v.signer ∉ p.allVotors ∧
      p.addVotedCert c v = p.recordVote g v.voterXip v.signer (signatureOf sigs g) := by
  unfold addVotedCert
  split
  · exact .inl rfl
  next sigs hq =>
  split_ifs with hempty hnone hold
  · exact .inl rfl
  · exact .inl rfl
  · exact .inl rfl
  · split
    · exact .inl rfl
    next g hg => exact .inr ⟨sigs, g, hq, hg, hold, rfl⟩

theorem Agrees.step (h : Agrees c p votes) (v : VotedCert) :
    Agrees c (p.step c v).1 (votes ++ (p.step c v).2) := by
  unfold ProposalVotes.step
  rcases addVotedCert_cases c p v with he | ⟨sigs, g, hq, hg, hnew, he⟩
  · simpa [he] using h
  · rw [he]
    simp only [recorded, hq, hg]
    exact h.recordVote (o := ⟨g, v.voterXip, v.signer, signatureOf sigs g⟩) hg hnew

theorem agrees_run (c : VoteRules) (vs : List VotedCert) :
    Agrees c (Run.run (ProposalVotes.step c) .init vs).1
      (Run.run (ProposalVotes.step c) .init vs).2 :=
  Run.run_hist (I := fun votes p => Agrees c p votes) (fun _ _ v h _ => h.step v) .init vs
    (Run.meets_of_forall (P := fun _ => True) fun _ _ => trivial)

theorem length_run_le (c : VoteRules) (p : ProposalVotes) (vs : List VotedCert) :
    (Run.run (ProposalVotes.step c) p vs).2.length ≤ vs.length := by
  induction vs generalizing p with
  | nil => exact le_rfl
  | cons v vs ih =>
    have hone : (p.step c v).2.length ≤ 1 := by
      unfold ProposalVotes.step recorded
      dsimp only
      split_ifs
      · split <;> simp
      · simp
    have hrest := ih (p.step c v).1
    rw [Run.run, length_append, length_cons]
    omega

def thresholdOf (c : VoteRules) : VoteGroup → UInt32
  | .validator => c.getValidatorThreshold
  | .auditor => c.getAuditorThreshold

theorem isVoteFinish_iff : p.isVoteFinish c = true ↔
    ∀ g, (thresholdOf c g).toInt32 ≤ (p.tally g).count := by
  unfold isVoteFinish isGroupFinishVote
  rw [Bool.and_eq_true, decide_eq_true_eq, decide_eq_true_eq]
  constructor
  · intro h g
    cases g with
    | validator => exact h.1
    | auditor => exact h.2
  · intro h
    exact ⟨h .validator, h .auditor⟩

theorem threshold_le_iff {t : UInt32} {n : Nat} (ht : t.toNat < 2 ^ 31) (hn : n < 2 ^ 31) :
    t.toInt32 ≤ Int32.ofNat n ↔ t.toNat ≤ n := by
  have hcast : t.toInt32 = Int32.ofNat t.toNat := by
    rw [← UInt32.toInt32_ofNat', UInt32.ofNat_toNat]
  rw [hcast]
  exact Int32.ofNat_le_iff_le ht hn

theorem Agrees.length_le (h : Agrees c p votes) (g : VoteGroup) :
    (p.tally g).voted.entries.length ≤ votes.length := by
  rw [(h.entries g).length_eq, entriesOf, length_map]
  exact length_filter_le _ _

/-- Below the sign bit, the maps hold exactly the recorded votes, all distinct, the counters are
their sizes, and a finished vote has both quorums. -/
theorem vote_finish_has_quorum (c : VoteRules) (vs : List VotedCert)
    (hthreshold : ∀ g, (thresholdOf c g).toNat < 2 ^ 31) (hcalls : vs.length < 2 ^ 31) :
    let res := Run.run (ProposalVotes.step c) .init vs
    res.2.Pairwise Apart ∧
    (∀ g, (res.1.tally g).voted.entries.Perm (entriesOf g res.2)) ∧
    (∀ g, (res.1.tally g).count.toInt = (res.1.tally g).voted.entries.length) ∧
    (res.1.isVoteFinish c = true →
      ∀ g, (thresholdOf c g).toNat ≤ (res.1.tally g).voted.entries.length) := by
  have h := agrees_run c vs
  have hsize : ∀ g, ((Run.run (ProposalVotes.step c) .init vs).1.tally g).voted.entries.length <
      2 ^ 31 := fun g =>
    ((h.length_le g).trans (length_run_le c .init vs)).trans_lt hcalls
  refine ⟨h.apart, h.entries, fun g => ?_, fun hfinish g => ?_⟩
  · rw [h.count g]
    exact Int32.toInt_ofNat_of_lt (hsize g)
  · have hg := isVoteFinish_iff.mp hfinish g
    rw [h.count g] at hg
    exact (threshold_le_iff (hthreshold g) (hsize g)).mp hg

def sampleRules (t : UInt32) : VoteRules :=
  ⟨fun x => x.low ≤ 2, fun x => x.low = 3, t, 1⟩

def sampleVotes : List VotedCert :=
  [⟨⟨1, 0⟩, some ⟨"s1", ""⟩, "a"⟩, ⟨⟨2, 0⟩, some ⟨"s1", ""⟩, "b"⟩,
   ⟨⟨2, 0⟩, some ⟨"s2", ""⟩, "b"⟩, ⟨⟨3, 0⟩, some ⟨"", "s3"⟩, "c"⟩]

theorem vote_finish_has_quorum_sample :
    let res := Run.run (ProposalVotes.step (sampleRules 2)) .init sampleVotes
    res.1.isVoteFinish (sampleRules 2) = true ∧
      2 ≤ (res.1.tally .validator).voted.entries.length := by
  have hfinish : (Run.run (ProposalVotes.step (sampleRules 2)) .init
      sampleVotes).1.isVoteFinish (sampleRules 2) = true := by decide
  refine ⟨hfinish, ?_⟩
  exact (vote_finish_has_quorum (sampleRules 2) sampleVotes
    (fun g => by cases g <;> decide) (by decide)).2.2.2 hfinish .validator

theorem vote_finish_below_threshold :
    let res := Run.run (ProposalVotes.step (sampleRules 0x80000000)) .init
      [⟨⟨3, 0⟩, some ⟨"", "s3"⟩, "c"⟩]
    res.1.isVoteFinish (sampleRules 0x80000000) = true ∧
      (res.1.tally .validator).voted.entries.length = 0 ∧
      (sampleRules 0x80000000).getValidatorThreshold.toNat = 2147483648 := by
  decide

end ProposalVotes
end TopChain.Bft
