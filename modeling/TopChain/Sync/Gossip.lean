import TopChain.Lib.SortedMap
import Mathlib.Algebra.Ring.Int.Defs
import Mathlib.Data.List.Induction
import Mathlib.Data.String.Basic

/-!
# The budget of a gossip message (`xsync/src/xsync_gossip.cpp`)

`handle_message` takes the chains of a peer that are ahead, up to a budget of missing blocks.
-/
namespace TopChain.Sync

open List TopChain.Lib

structure GossipInfo where
  owner : String
  maxHeight : UInt64
  viewId : UInt64
deriving DecidableEq

structure GossipBehindInfo where
  localHeight : UInt64
  localViewId : UInt64
  peerHeight : UInt64
  peerViewId : UInt64

def maxPeerBehindCount : UInt32 := 10000

structure GossipScan where
  behindBlockCount : UInt32
  behindChainSet : SortedMap String GossipBehindInfo
  infoListRsp : List GossipInfo

namespace GossipScan

-- `get_height_and_view`; a chain that the node does not have is at the highest height
variable (loc : String → UInt64 × UInt64)

/-- An entry of a chain that the node has, with a view ahead of the local one. -/
def Ahead (info : GossipInfo) : Prop :=
  (loc info.owner).1 ≠ Word.top ∧ (loc info.owner).2 < info.viewId

instance instDecidableAhead (info : GossipInfo) : Decidable (Ahead loc info) :=
  inferInstanceAs (Decidable (_ ∧ _))

def step (s : GossipScan) (info : GossipInfo) : GossipScan :=
  let height := (loc info.owner).1
  let viewId := (loc info.owner).2
  if height = Word.top then s
  else if info.viewId > viewId then
    if s.behindBlockCount ≤ maxPeerBehindCount then
      { s with
        -- `insert` leaves an entry that the owner has already
        behindChainSet := (s.behindChainSet.emplace info.owner
          ⟨height, viewId, info.maxHeight, info.viewId⟩).1
        behindBlockCount := s.behindBlockCount + (info.maxHeight - height).toUInt32 }
    else s
  else if info.viewId < viewId then
    { s with infoListRsp := s.infoListRsp ++ [⟨info.owner, height, viewId⟩] }
  else s

/-- The entry is taken as one that is behind, and not ignored. -/
def Accepts (s : GossipScan) (info : GossipInfo) : Prop :=
  Ahead loc info ∧ s.behindBlockCount ≤ maxPeerBehindCount

instance instDecidableAccepts (s : GossipScan) (info : GossipInfo) :
    Decidable (Accepts loc s info) :=
  inferInstanceAs (Decidable (_ ∧ _))

def accepted (s : GossipScan) : List GossipInfo → List GossipInfo
  | [] => []
  | info :: infos =>
    (if Accepts loc s info then [info] else []) ++ accepted (step loc s info) infos

end GossipScan

def scanOrder (infoList : List GossipInfo) (random : UInt32) : List GossipInfo :=
  let size := UInt32.ofNat infoList.length
  (List.range size.toNat).filterMap fun i =>
    infoList[((random % size + UInt32.ofNat i) % size).toNat]?

namespace GossipScan

section
variable (loc : String → UInt64 × UInt64)

/-- The loop of `handle_message` over the entries in their order, with the set it is called with. -/
def scan (set : SortedMap String GossipBehindInfo) (infos : List GossipInfo) : GossipScan :=
  infos.foldl (step loc) ⟨0, set, []⟩

def handleMessage (set : SortedMap String GossipBehindInfo) (infoList : List GossipInfo)
    (random : UInt32) : GossipScan :=
  scan loc set (scanOrder infoList random)

def gap (info : GossipInfo) : ℕ := info.maxHeight.toNat - (loc info.owner).1.toNat

def gaps (infos : List GossipInfo) : ℕ := (infos.map (gap loc)).sum

/-- The sum of the height differences; a peer that is lower counts against the others. -/
def difference (infos : List GossipInfo) : ℤ :=
  (infos.map fun info => (info.maxHeight.toNat : ℤ) - (loc info.owner).1.toNat).sum

/-- The differences of the heights, modulo the counter's width, keep to the budget exactly when the
gaps do, at every entry ahead until the gaps have used up the budget. -/
def Countable (infos : List GossipInfo) : Prop :=
  ∀ before info, before ++ [info] <+: infos.filter (Ahead loc ·) →
    gaps loc before.dropLast ≤ 10000 →
    (difference loc before % 2 ^ 32 ≤ 10000 ↔ gaps loc before ≤ 10000)

/-- Every entry ahead is accepted exactly when the gaps of those accepted before keep to the
budget. -/
def BudgetExact (set : SortedMap String GossipBehindInfo) (infos : List GossipInfo) : Prop :=
  ∀ before info, before ++ [info] <+: infos → Ahead loc info →
    (Accepts loc (scan loc set before) info ↔
      gaps loc (accepted loc (scan loc set []) before) ≤ 10000)

end

variable {loc : String → UInt64 × UInt64} {set : SortedMap String GossipBehindInfo}
  {infos : List GossipInfo}

theorem step_of_ahead {info : GossipInfo} (h : Ahead loc info) (s : GossipScan) :
    (step loc s info).behindBlockCount = if s.behindBlockCount ≤ maxPeerBehindCount then
      s.behindBlockCount + (info.maxHeight - (loc info.owner).1).toUInt32
      else s.behindBlockCount := by
  unfold step
  dsimp only
  rw [if_neg h.1, if_pos (show info.viewId > (loc info.owner).2 from h.2)]
  split_ifs
  · rfl
  · rfl

theorem step_of_not_ahead {info : GossipInfo} (h : ¬ Ahead loc info) (s : GossipScan) :
    (step loc s info).behindBlockCount = s.behindBlockCount := by
  unfold step
  dsimp only
  split_ifs with hnone hview hbudget
  · rfl
  · exact absurd ⟨hnone, hview⟩ h
  · exact absurd ⟨hnone, hview⟩ h
  · rfl
  · rfl

theorem accepted_snoc (s : GossipScan) (infos : List GossipInfo) (info : GossipInfo) :
    accepted loc s (infos ++ [info]) = accepted loc s infos ++
      if Accepts loc (infos.foldl (step loc) s) info then [info] else [] := by
  induction infos generalizing s with
  | nil => exact append_nil _
  | cons x infos ih => rw [cons_append, accepted, accepted, ih, append_assoc, foldl_cons]

theorem toUInt32_difference (a b : UInt64) (c : UInt32) {d : ℤ}
    (hc : (c.toNat : ℤ) = d % 2 ^ 32) :
    ((c + (a - b).toUInt32).toNat : ℤ) = (d + (a.toNat - b.toNat)) % 2 ^ 32 := by
  have hb := b.toNat_lt
  rw [UInt32.toNat_add, UInt64.toNat_toUInt32, UInt64.toNat_sub]
  omega

/-- The counter is the sum of the differences of the accepted entries, modulo its width. -/
theorem count_scan (infos : List GossipInfo) :
    ((scan loc set infos).behindBlockCount.toNat : ℤ) =
      difference loc (accepted loc (scan loc set []) infos) % 2 ^ 32 := by
  induction infos using List.reverseRecOn with
  | nil => rfl
  | append_singleton infos info ih =>
    have hscan : scan loc set (infos ++ [info]) = step loc (scan loc set infos) info :=
      foldl_append
    rw [hscan, accepted_snoc]
    change _ = difference loc (_ ++ if Accepts loc (scan loc set infos) info then _ else _) % _
    by_cases hahead : Ahead loc info
    · rw [step_of_ahead hahead]
      by_cases hbudget : (scan loc set infos).behindBlockCount ≤ maxPeerBehindCount
      · rw [if_pos hbudget, if_pos ⟨hahead, hbudget⟩, toUInt32_difference _ _ _ ih]
        simp [difference]
      · rw [if_neg hbudget, if_neg fun h => hbudget h.2, append_nil, ih]
    · rw [step_of_not_ahead hahead, if_neg fun h => hahead h.1, append_nil, ih]

theorem accepts_iff {info : GossipInfo} (h : Ahead loc info) (infos : List GossipInfo) :
    Accepts loc (scan loc set infos) info ↔
      difference loc (accepted loc (scan loc set []) infos) % 2 ^ 32 ≤ 10000 := by
  rw [← count_scan]
  have hle : (scan loc set infos).behindBlockCount ≤ maxPeerBehindCount ↔
      (scan loc set infos).behindBlockCount.toNat ≤ 10000 := Iff.rfl
  rw [Accepts, and_iff_right h, hle]
  omega

theorem gaps_mono (loc : String → UInt64 × UInt64) {l l' : List GossipInfo} (h : l <+: l') :
    gaps loc l ≤ gaps loc l' := by
  obtain ⟨m, rfl⟩ := h
  simp [gaps]

/-- As long as the budget is exact, what is accepted is an initial part of the entries ahead: all
of them, or those up to the one that used up the budget. -/
theorem BudgetExact.accepted_prefix (h : BudgetExact loc set infos) :
    let kept := accepted loc (scan loc set []) infos
    kept <+: infos.filter (Ahead loc ·) ∧ gaps loc kept.dropLast ≤ 10000 ∧
      (kept = infos.filter (Ahead loc ·) ∨ 10000 < gaps loc kept) := by
  induction infos using List.reverseRecOn with
  | nil => exact ⟨prefix_rfl, Nat.zero_le _, .inl rfl⟩
  | append_singleton infos info ih =>
    have hbefore : BudgetExact loc set infos := fun before x hx hahead =>
      h before x (hx.trans (prefix_append infos [info])) hahead
    obtain ⟨hkept, hbudget, hall⟩ := ih hbefore
    have hsnoc : accepted loc (scan loc set []) (infos ++ [info]) =
        accepted loc (scan loc set []) infos ++
          if Accepts loc (scan loc set infos) info then [info] else [] := accepted_snoc _ _ _
    simp only [hsnoc, filter_append]
    by_cases hahead : Ahead loc info
    · have hiff := h infos info prefix_rfl hahead
      have hfilter : [info].filter (Ahead loc ·) = [info] := by simp [hahead]
      rw [hfilter]
      by_cases haccepts : Accepts loc (scan loc set infos) info
      · rw [if_pos haccepts]
        have hle := hiff.mp haccepts
        have heq := hall.resolve_right (by omega)
        rw [heq] at hle ⊢
        rw [dropLast_concat]
        exact ⟨prefix_rfl, hle, .inl rfl⟩
      · rw [if_neg haccepts, append_nil]
        refine ⟨hkept.trans (prefix_append _ _), hbudget, .inr ?_⟩
        exact Nat.lt_of_not_le fun hle => haccepts (hiff.mpr hle)
    · have hfilter : [info].filter (Ahead loc ·) = [] := by simp [hahead]
      rw [if_neg fun hacc => hahead hacc.1, hfilter, append_nil, append_nil]
      exact ⟨hkept, hbudget, hall⟩

theorem BudgetExact.of_countable (h : Countable loc infos) : BudgetExact loc set infos := by
  induction infos using List.reverseRecOn with
  | nil => exact fun before info hpre => absurd (prefix_nil.mp hpre) (by simp)
  | append_singleton infos last ih =>
    have hinfos : BudgetExact loc set infos := ih fun before info hpre =>
      h before info (hpre.trans ((prefix_append infos [last]).filter _))
    intro before info hpre hahead
    rcases prefix_concat_iff.mp hpre with heq | hpre
    · obtain ⟨rfl, hlast⟩ := append_inj' heq rfl
      cases hlast
      obtain ⟨hkept, hbudget, -⟩ := hinfos.accepted_prefix
      rw [accepts_iff hahead]
      -- an entry ahead follows the accepted ones, at the latest the present one
      obtain ⟨rest, hrest⟩ := hkept
      rcases rest with _ | ⟨next, rest⟩
      · refine h _ last ?_ hbudget
        rw [filter_append, ← hrest, append_nil]
        simp [hahead]
      · refine h _ next ?_ hbudget
        rw [filter_append, ← hrest]
        exact ⟨rest ++ [last].filter (Ahead loc ·), by simp⟩
    · exact hinfos before info hpre hahead

theorem exists_split {p : GossipInfo → Bool} {before : List GossipInfo} {info : GossipInfo}
    (h : before ++ [info] <+: infos.filter p) :
    ∃ scanned, scanned ++ [info] <+: infos ∧ scanned.filter p = before := by
  induction infos generalizing before with
  | nil => exact absurd (prefix_nil.mp h) (by simp)
  | cons x infos ih =>
    by_cases hx : p x
    · rw [filter_cons_of_pos hx] at h
      cases before with
      | nil =>
        obtain ⟨rfl, -⟩ := cons_prefix_cons.mp h
        exact ⟨[], by simp, rfl⟩
      | cons y before =>
        obtain ⟨rfl, htail⟩ := cons_prefix_cons.mp h
        obtain ⟨scanned, hprefix, hfilter⟩ := ih htail
        refine ⟨y :: scanned, cons_prefix_cons.mpr ⟨rfl, hprefix⟩, ?_⟩
        rw [filter_cons_of_pos hx, hfilter]
    · rw [filter_cons_of_neg hx] at h
      obtain ⟨scanned, hprefix, hfilter⟩ := ih h
      refine ⟨x :: scanned, cons_prefix_cons.mpr ⟨rfl, hprefix⟩, ?_⟩
      rw [filter_cons_of_neg hx, hfilter]

theorem BudgetExact.countable (h : BudgetExact loc set infos) : Countable loc infos := by
  intro before info hprefix hbudget
  have hmem : info ∈ infos.filter (Ahead loc ·) := hprefix.subset (by simp)
  have hahead : Ahead loc info := of_decide_eq_true (mem_filter.mp hmem).2
  obtain ⟨scanned, hscanned, rfl⟩ := exists_split hprefix
  have hexact : BudgetExact loc set scanned := fun xs x hx =>
    h xs x (hx.trans ((prefix_append scanned [info]).trans hscanned))
  obtain ⟨hkept, -, hall⟩ := hexact.accepted_prefix
  have heq : accepted loc (scan loc set []) scanned = scanned.filter (Ahead loc ·) := by
    -- a proper initial part has no more than what lies before the last entry, within the budget
    by_contra hne
    have hover := hall.resolve_left hne
    obtain ⟨rest, hrest⟩ := hkept
    have hrest_ne : rest ≠ [] := fun hnil => hne (by rw [← hrest, hnil, append_nil])
    rw [← hrest, dropLast_append_of_ne_nil hrest_ne] at hbudget
    have hle := gaps_mono loc (prefix_append
      (accepted loc (scan loc set []) scanned) rest.dropLast)
    omega
  rw [← heq, ← accepts_iff hahead]
  exact h scanned info hscanned hahead

def localSample : String → UInt64 × UInt64
  | "a" => (10, 5)
  | _ => (1, 1)

end GossipScan
end TopChain.Sync
