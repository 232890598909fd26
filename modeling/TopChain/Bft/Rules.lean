import TopChain.Base.Block

/-!
# The safe rules of a consensus driver (`xBFT/src/xconsrules.cpp`)

`BftRules` is the state of `xBFTRules`.
-/
namespace TopChain.Bft

open TopChain.Base TopChain.Lib Word

structure BftRules where
  latestLockBlock : Option XvBlock
  certifiedBlocks : SortedMap UInt64 XvBlock
  proposalBlocks : SortedMap UInt64 XvBlock
  latestVotedHeight : UInt64
  latestVotedViewid : UInt64
deriving DecidableEq

namespace BftRules
variable (chk : BlockChecks) (r : BftRules)

def init : BftRules := ⟨none, .empty, .empty, 0, 0⟩

def safeCheckForBlock (b : XvBlock) : Bool :=
  match r.latestLockBlock with
  | none => false
  | some lock =>
    !(b.viewid < b.height || b.height ≤ lock.height || b.viewid ≤ lock.viewid
      || b.chainid ≠ lock.chainid || b.account ≠ lock.account)

/-- `safe_check_follow_locked_branch`: 1 on the locked branch, -1 off it, 0 too far away to tell. -/
def safeCheckFollowLockedBranch (lock b : XvBlock) : Int :=
  if b.height = lock.height - 1 then
    if b.blockHash ≠ lock.lastBlockHash then -1 else 1
  else if b.height = lock.height then
    if b.blockHash ≠ lock.blockHash then -1 else 1
  else if b.height = lock.height + 1 then
    if b.lastBlockHash ≠ lock.blockHash then -1 else 1
  else if b.height = lock.height + 2 then
    if b.level = .unit then
      if b.justifyCertHash ≠ lock.blockHash then -1 else 1
    else
      if b.justifyCertHash ≠ lock.outputRootHash then -1 else 1
  else 0

def getLatestCertBlock : Option XvBlock := r.certifiedBlocks.last?

def findCertBlock (viewid : UInt64) : Option XvBlock := r.certifiedBlocks.find? viewid

def getLatestProposalBlock : Option XvBlock := r.proposalBlocks.last?

def findProposal (viewid : UInt64) : Option XvBlock := r.proposalBlocks.find? viewid

def addProposal (b : XvBlock) : BftRules :=
  { r with
    latestVotedHeight := max r.latestVotedHeight b.height
    latestVotedViewid := max r.latestVotedViewid b.viewid
    proposalBlocks := r.proposalBlocks.insert b.viewid b }

def removeProposal (viewid : UInt64) : BftRules :=
  { r with proposalBlocks := r.proposalBlocks.erase viewid }

def filterProposals (keep : XvBlock → Bool) : BftRules :=
  { r with proposalBlocks := r.proposalBlocks.filter (fun e => keep e.2) }

/-- `add_cert_block`: a certificate off the locked branch, or a second one of a view, is
refused. -/
def addCertBlock (b : XvBlock) : BftRules × Bool :=
  let emplaced : BftRules × Bool :=
    let res := r.certifiedBlocks.emplace b.viewid b
    ({ r with certifiedBlocks := res.1 }, res.2)
  match r.latestLockBlock with
  | none => emplaced
  | some lock => if safeCheckFollowLockedBranch lock b < 0 then (r, false) else emplaced

def safeCheckForLockBlock (b : XvBlock) : Bool :=
  (r.latestLockBlock.isNone || r.safeCheckForBlock b) && chk.isDeliver b false

/-- The end of `set_lock_block`: lock, watermarks, and the recheck against the new lock. -/
def moveLock (b : XvBlock) : BftRules :=
  let moved := { r with
    latestLockBlock := some b
    latestVotedHeight := max r.latestVotedHeight b.height
    latestVotedViewid := max r.latestVotedViewid b.viewid }
  { moved with
    certifiedBlocks := r.certifiedBlocks.filter (fun e => moved.safeCheckForBlock e.2)
    proposalBlocks := r.proposalBlocks.filter (fun e => moved.safeCheckForBlock e.2) }

def setLockBlock : Option XvBlock → BftRules × Bool
  | none => (r, false)
  | some b =>
    let move : BftRules × Bool :=
      if r.safeCheckForLockBlock chk b then (r.moveLock b, true) else (r, false)
    match r.latestLockBlock with
    | none => move
    | some lock =>
      if lock = b then (r, true)
      else if lock.height = b.height ∧ lock.viewid = b.viewid ∧ b.checkBlockFlag .locked then
        ({ r with latestLockBlock := some b }, true)
      else move

def getLockBlock (stored : Option XvBlock) : BftRules :=
  match r.latestLockBlock with
  | some _ => r
  | none => (r.setLockBlock chk stored).1

def safeCheckForProposalBlock (b : XvBlock) : Bool :=
  r.safeCheckForBlock b && chk.isInputReady b false && b.flags = ∅ && b.blockHash = ""
    && chk.isValid b true

def above (b : XvBlock) : Option XvBlock → Bool
  | none => true
  | some other => !(b.viewid ≤ other.viewid || b.height ≤ other.height)

def safePrecheckForVoting (b : XvBlock) : Bool :=
  r.safeCheckForProposalBlock chk b
    && !(b.viewid ≤ r.latestVotedViewid || b.height < r.latestVotedHeight)
    && above b r.getLatestCertBlock
    && above b r.getLatestProposalBlock
    && match r.latestLockBlock with
      | none => false
      | some lock => !(safeCheckFollowLockedBranch lock b < 0)

def linkedByCert (lock b : XvBlock) : Bool :=
  r.certifiedBlocks.values.reverse.any fun c =>
    b.height = c.height + 1 && b.lastBlockHash = c.blockHash && lock.blockHash = c.lastBlockHash

def safeFinalcheckForVoting (b : XvBlock) : Bool :=
  match r.latestLockBlock with
  | none => false
  | some lock =>
    if b.height ≤ lock.height || b.viewid ≤ lock.viewid then false
    else if !above b r.getLatestCertBlock then false
    else if safeCheckFollowLockedBranch lock b > 0 then
      if b.height = lock.height + 2 then r.linkedByCert lock b else true
    else false

def safeCheckForSyncBlock (b : XvBlock) : Bool :=
  match r.latestLockBlock with
  | none => false
  | some lock =>
    !(safeCheckFollowLockedBranch lock b < 0) && chk.isInputReady b true
      && chk.isOutputReady b true && chk.isDeliver b true

section
variable {chk r} {lock b : XvBlock}

theorem safeCheckForBlock_iff (hlock : r.latestLockBlock = some lock) :
    r.safeCheckForBlock b = true ↔ b.height ≤ b.viewid ∧ lock.height < b.height ∧
      lock.viewid < b.viewid ∧ b.chainid = lock.chainid ∧ b.account = lock.account := by
  simp only [safeCheckForBlock, hlock]
  simp
  tauto

theorem safeCheckForBlock_lock (h : r.safeCheckForBlock b = true) :
    ∃ lock, r.latestLockBlock = some lock := by
  cases hl : r.latestLockBlock with
  | none => simp [safeCheckForBlock, hl] at h
  | some lock => exact ⟨lock, rfl⟩

theorem setLockBlock_cases (chk : BlockChecks) (r : BftRules) (new : Option XvBlock) :
    (r.setLockBlock chk new).1 = r ∨
    (∃ lock b, new = some b ∧ r.latestLockBlock = some lock ∧ lock.height = b.height ∧
      lock.viewid = b.viewid ∧ (r.setLockBlock chk new).1 = { r with latestLockBlock := some b }) ∨
    (∃ b, new = some b ∧ (∀ lock, r.latestLockBlock = some lock → r.safeCheckForBlock b = true) ∧
      (r.setLockBlock chk new).1 = r.moveLock b) := by
  cases new with
  | none => exact .inl rfl
  | some b =>
    cases hl : r.latestLockBlock with
    | none =>
      simp only [setLockBlock, hl]
      split
      · exact .inr (.inr ⟨b, rfl, by simp, rfl⟩)
      · exact .inl rfl
    | some lock =>
      simp only [setLockBlock, hl]
      split_ifs with h1 h2 h3
      · exact .inl rfl
      · exact .inr (.inl ⟨lock, b, rfl, rfl, h2.1, h2.2.1, rfl⟩)
      · refine .inr (.inr ⟨b, rfl, fun _ _ => ?_, rfl⟩)
        simp only [safeCheckForLockBlock, hl, Option.isNone_some, Bool.false_or,
          Bool.and_eq_true] at h3
        exact h3.1
      · exact .inl rfl

theorem safePrecheckForVoting_spec (h : r.safePrecheckForVoting chk b = true) :
    r.safeCheckForBlock b = true ∧ b.flags = ∅ ∧ b.blockHash = "" ∧
      r.latestVotedViewid < b.viewid ∧ r.latestVotedHeight ≤ b.height := by
  simp only [safePrecheckForVoting, safeCheckForProposalBlock, Bool.and_eq_true,
    decide_eq_true_eq, Bool.not_eq_true', Bool.or_eq_false_iff, decide_eq_false_iff_not,
    not_le, not_lt] at h
  obtain ⟨⟨⟨⟨⟨⟨⟨⟨hb, -⟩, hf⟩, hh⟩, -⟩, hv, hv'⟩, -⟩, -⟩, -⟩ := h
  exact ⟨hb, hf, hh, hv, hv'⟩

theorem safePrecheckForVoting_follow (hlock : r.latestLockBlock = some lock)
    (h : r.safePrecheckForVoting chk b = true) : 0 ≤ safeCheckFollowLockedBranch lock b := by
  simp only [safePrecheckForVoting, hlock, Bool.and_eq_true, Bool.not_eq_true',
    decide_eq_false_iff_not, not_lt] at h
  exact h.2

theorem follow_child (hh : b.height = lock.height + 1)
    (h : 0 ≤ safeCheckFollowLockedBranch lock b) : b.lastBlockHash = lock.blockHash := by
  have h1 : lock.height + 1 ≠ lock.height - 1 := by
    rw [Ne, eq_nat, toNat_add_one, toNat_sub_one]
    have := toNat_lt lock.height
    omega
  have h2 : lock.height + 1 ≠ lock.height := by
    rw [Ne, eq_nat, toNat_add_one]
    have := toNat_lt lock.height
    omega
  simp only [safeCheckFollowLockedBranch, hh, h1, h2, if_false, if_true] at h
  by_contra hne
  simp [hne] at h

def ExtendsLock (r : BftRules) (lock b : XvBlock) : Prop :=
  (b.height.toNat = lock.height.toNat + 1 ∧ b.lastBlockHash = lock.blockHash) ∨
  (b.height.toNat = lock.height.toNat + 2 ∧ ∃ c ∈ r.certifiedBlocks.values,
    c.height.toNat + 1 = b.height.toNat ∧ c.blockHash = b.lastBlockHash ∧
      c.lastBlockHash = lock.blockHash)

theorem linkedByCert_iff : r.linkedByCert lock b = true ↔ ∃ c ∈ r.certifiedBlocks.values,
    b.height = c.height + 1 ∧ b.lastBlockHash = c.blockHash ∧ lock.blockHash = c.lastBlockHash := by
  simp [linkedByCert, and_assoc]

theorem follow_cases (hup : lock.height < b.height) (h : 0 < safeCheckFollowLockedBranch lock b) :
    (b.height.toNat = lock.height.toNat + 1 ∧ b.lastBlockHash = lock.blockHash) ∨
    b.height = lock.height + 2 ∨ (lock.height = 0 ∧ b.height = Word.top) := by
  unfold safeCheckFollowLockedBranch at h
  split_ifs at h with h1 h2 h3 h4 h5 h6 h7 h8 h9 h10
  all_goals first
    | omega
    | skip
  · exact .inr (.inr (wrap_of_eq_pred h1 hup))
  · exact absurd (h3 ▸ hup) (lt_irrefl _)
  · exact .inl ⟨toNat_of_eq_succ h5 hup, not_not.mp h6⟩
  · exact .inr (.inl h7)
  · exact .inr (.inl h7)

theorem safeFinalcheckForVoting_spec (h : r.safeFinalcheckForVoting b = true) :
    ∃ lock, r.latestLockBlock = some lock ∧ lock.height < b.height ∧
      (r.ExtendsLock lock b ∨ (lock.height = 0 ∧ b.height = Word.top)) := by
  unfold safeFinalcheckForVoting at h
  cases hl : r.latestLockBlock with
  | none => simp [hl] at h
  | some lock =>
    simp only [hl, Bool.or_eq_true, decide_eq_true_eq] at h
    split_ifs at h with h1 h2 h3 h4
    · -- two above the lock: a certified block links them
      push Not at h1
      obtain ⟨c, hc, hch, hlast, hclast⟩ := linkedByCert_iff.mp h
      have hb := toNat_of_eq_add_two h4 h1.1
      have hc' := toNat_of_eq_succ hch h1.1
      exact ⟨lock, rfl, h1.1, .inl (.inr ⟨hb, c, hc, hc'.symm, hlast.symm, hclast.symm⟩)⟩
    · push Not at h1
      refine ⟨lock, rfl, h1.1, ?_⟩
      rcases follow_cases h1.1 h3 with hchild | htwo | htop
      · exact .inl (.inl hchild)
      · exact absurd htwo h4
      · exact .inr htop

theorem addCertBlock_spec (r : BftRules) (b : XvBlock) :
    ∃ m, (r.addCertBlock b).1 = { r with certifiedBlocks := m } ∧
      ∀ x ∈ m.values, x = b ∨ x ∈ r.certifiedBlocks.values := by
  have hemplace : ∃ m, { r with certifiedBlocks := (r.certifiedBlocks.emplace b.viewid b).1 } =
      { r with certifiedBlocks := m } ∧
      ∀ x ∈ m.values, x = b ∨ x ∈ r.certifiedBlocks.values :=
    ⟨_, rfl, fun x hx => SortedMap.mem_values_emplace hx⟩
  unfold addCertBlock
  split
  · exact hemplace
  · split_ifs
    · exact ⟨_, rfl, fun x hx => .inr hx⟩
    · exact hemplace

theorem mem_certified_moveLock {x : XvBlock}
    (h : x ∈ (r.moveLock b).certifiedBlocks.values) : x ∈ r.certifiedBlocks.values :=
  SortedMap.mem_values_filter h

theorem setLockBlock_frame (chk : BlockChecks) (r : BftRules) (new : Option XvBlock) :
    (∀ x ∈ (r.setLockBlock chk new).1.certifiedBlocks.values, x ∈ r.certifiedBlocks.values) ∧
      r.latestVotedViewid ≤ (r.setLockBlock chk new).1.latestVotedViewid ∧
      r.latestVotedHeight ≤ (r.setLockBlock chk new).1.latestVotedHeight := by
  rcases setLockBlock_cases chk r new with he | ⟨_, b, -, -, -, -, he⟩ |
    ⟨b, -, -, he⟩
  · rw [he]
    exact ⟨fun _ hx => hx, le_rfl, le_rfl⟩
  · rw [he]
    exact ⟨fun _ hx => hx, le_rfl, le_rfl⟩
  · rw [he]
    exact ⟨fun _ hx => mem_certified_moveLock hx, le_max_left _ _, le_max_left _ _⟩

end
end BftRules
end TopChain.Bft
