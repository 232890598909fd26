import TopChain.Base.Block
import TopChain.Lib.Run

/-!
# The range a downloader asks for (`xsync/src/xsync_range_mgr.cpp`, `xaccount.cpp`)

A chain downloader keeps the height to catch up with, and a counter of tries that limits the
requests for it.
-/
namespace TopChain.Sync

open TopChain.Base TopChain.Lib

structure SyncRange where
  behindHeight : UInt64 := 0
  behindHash : String := ""
  successorHeight : UInt64 := 0
  successorViewId : UInt64 := 0
  behindTryCount : UInt8 := 0
  behindTrySyncTime : Int := 0
  behindUpdateTime : Int := 0

def caughtUp (current successor : XvBlock) : Bool :=
  current.height + 1 > successor.height ||
    (current.height + 1 = successor.height && current.blockHash = successor.lastBlockHash)

namespace SyncRange
variable (r : SyncRange)

def takes (now : Int) (successor : XvBlock) : Bool :=
  if successor.height > r.successorHeight then true
  else if successor.height = r.successorHeight then
    if successor.viewid > r.successorViewId then true
    else if successor.viewid = r.successorViewId then !(now - r.behindUpdateTime < 60000)
    else false
  else true

def setBehindInfo (now : Int) (current successor : XvBlock) : Option SyncRange :=
  if successor.height = 0 || successor.height = 1 then none
  else if caughtUp current successor then none
  else if !r.takes now successor then none
  else some { r with
    behindHeight := successor.height - 1
    behindHash := successor.lastBlockHash
    successorHeight := successor.height
    successorViewId := successor.viewid
    behindTryCount := 0
    behindUpdateTime := now }

def clearBehindInfo : SyncRange := { r with behindHeight := 0, behindTryCount := 0 }

def updateProgress (current : XvBlock) (headForked : Bool) : SyncRange :=
  if headForked then { r with behindTryCount := 0 }
  else if r.behindHeight ≤ current.height then
    { r with behindTryCount := 0, behindHeight := 0 }
  else { r with behindTryCount := 0 }

def getNextBehind (now : Int) (current : XvBlock) (countLimit : UInt32) :
    SyncRange × Option (UInt64 × UInt32) :=
  if r.behindHeight = 0 then (r, none)
  else if r.behindTryCount ≥ 1 then ({ r with behindTryCount := 0, behindHeight := 0 }, none)
  else if current.height > r.behindHeight then (r, none)
  else if current.height = r.behindHeight && current.blockHash = r.behindHash then (r, none)
  else
    let startHeight := current.height + 1
    let count := (r.behindHeight - startHeight + 1).toUInt32
    ({ r with behindTryCount := r.behindTryCount + 1, behindTrySyncTime := now },
      some (startHeight, if count > countLimit then countLimit else count))

end SyncRange

structure ChainDownloader where
  range : SyncRange := {}
  request : Option (UInt64 × UInt32) := none

/-- A chain found behind, a response, or the timer. -/
inductive DownloaderEvent where
  | behind (now : Int) (current successor : XvBlock) (dependOk : Bool)
  | response (now : Int) (current : XvBlock) (empty authOk cleared headForked : Bool)
  | timer

/-- The counter was raised for a target height, with the range that was left and whether a
request was made for it. -/
structure Tried where
  current : UInt64
  target : UInt64
  start : UInt64
  count : UInt32
  created : Bool

def batchSize : UInt32 := 20

namespace ChainDownloader

def handleNext (d : ChainDownloader) (now : Int) (current : XvBlock) :
    ChainDownloader × List Tried :=
  match d.range.getNextBehind now current batchSize with
  | (range, none) => ({ d with range := range }, [])
  | (range, some (start, count)) =>
    (⟨range, if count > 0 then some (start, count) else d.request⟩,
      [⟨current.height, d.range.behindHeight, start, count, count > 0⟩])

def step (d : ChainDownloader) : DownloaderEvent → ChainDownloader × List Tried
  | .behind now current successor dependOk =>
    if successor.height = 0 || successor.height = 1 || !dependOk then (d, [])
    else match d.range.setBehindInfo now current successor with
    | none => (d, [])
    | some range =>
      -- a request that is younger than two seconds stays
      if d.range.behindTryCount = 0 || now - d.range.behindTrySyncTime > 2000 then
        handleNext ⟨range, none⟩ now current
      else ({ d with range := range }, [])
  | .response now current empty authOk cleared headForked =>
    if d.request.isNone || empty then (d, [])
    else if !authOk then ({ d with range := d.range.clearBehindInfo }, [])
    else
      let range := if cleared then d.range.clearBehindInfo else d.range
      handleNext ⟨range.updateProgress current headForked, none⟩ now current
  | .timer => (d, [])

/-- The target is this block, or there is a block between the two to ask for. -/
def Reaches (target : UInt64) (hash : String) (current : XvBlock) : Prop :=
  current.height ≤ target → (current.height = target ∧ current.blockHash = hash) ∨
    (target - current.height).toUInt32 ≠ 0

/-- The event leaves something to ask for. -/
def Asks (d : ChainDownloader) : DownloaderEvent → Prop
  | .behind _ current successor _ =>
    Reaches (successor.height - 1) successor.lastBlockHash current
  | .response _ current _ _ _ _ => Reaches d.range.behindHeight d.range.behindHash current
  | .timer => True

/-- The request is for blocks right above the current one, up to the target. -/
def Real (t : Tried) : Prop :=
  t.start.toNat = t.current.toNat + 1 ∧ 0 < t.count ∧ t.count ≤ batchSize ∧
    t.start.toNat + t.count.toNat ≤ t.target.toNat + 1 ∧ t.created = true

variable {d : ChainDownloader} {now : Int} {current : XvBlock}

theorem real_of_getNextBehind {r r' : SyncRange} {start : UInt64} {count : UInt32}
    (hreach : Reaches r.behindHeight r.behindHash current)
    (h : r.getNextBehind now current batchSize = (r', some (start, count))) :
    Real ⟨current.height, r.behindHeight, start, count, count > 0⟩ := by
  unfold SyncRange.getNextBehind at h
  split_ifs at h with hzero htries habove hsame <;> obtain ⟨-, h⟩ := Prod.mk.inj h
  · cases h
  · cases h
  · cases h
  · cases h
  obtain ⟨rfl, rfl⟩ := Prod.mk.inj (Option.some.inj h)
  have hle : current.height ≤ r.behindHeight := le_of_not_gt habove
  have hlen : r.behindHeight - (current.height + 1) + 1 = r.behindHeight - current.height := by
    grind
  have hword : (r.behindHeight - current.height).toUInt32 ≠ 0 := by
    refine (hreach hle).resolve_left fun hat => hsame ?_
    simp [hat.1, hat.2]
  have hnat : (r.behindHeight - current.height).toUInt32.toNat ≤
      r.behindHeight.toNat - current.height.toNat := by
    rw [UInt64.toNat_toUInt32, UInt64.toNat_sub_of_le _ _ hle]
    exact Nat.mod_le _ _
  have hlt := r.behindHeight.toNat_lt
  have hpos : 0 < (r.behindHeight - current.height).toUInt32.toNat :=
    Nat.pos_of_ne_zero fun h => hword (UInt32.toNat_inj.mp h)
  have hstart : (current.height + 1).toNat = current.height.toNat + 1 := by
    rw [UInt64.toNat_add, UInt64.toNat_one, Nat.mod_eq_of_lt (by omega)]
  -- the count is the word, or the limit below it
  have hcount : ∀ c : UInt32, 0 < c.toNat → c ≤ batchSize →
      c.toNat ≤ (r.behindHeight - current.height).toUInt32.toNat →
      Real ⟨current.height, r.behindHeight, current.height + 1, c, c > 0⟩ := by
    intro c hc hlimit hle'
    have hc' : 0 < c := UInt32.lt_iff_toNat_lt.mpr hc
    refine ⟨hstart, hc', hlimit, ?_, decide_eq_true hc'⟩
    dsimp only
    omega
  rw [hlen]
  split_ifs with hlimit
  · exact hcount _ (by decide) (by decide) (UInt32.lt_iff_toNat_lt.mp hlimit).le
  · exact hcount _ hpos (UInt32.not_lt.mp hlimit) le_rfl

theorem real_of_handleNext (hreach : Reaches d.range.behindHeight d.range.behindHash current) :
    ∀ t ∈ (d.handleNext now current).2, Real t := by
  unfold handleNext
  split
  · simp
  next range start count h =>
    intro t ht
    obtain rfl := List.mem_singleton.mp ht
    exact real_of_getNextBehind hreach h

theorem reaches_updateProgress {r : SyncRange} (headForked : Bool)
    (hreach : Reaches r.behindHeight r.behindHash current) :
    (r.updateProgress current headForked).behindHeight = 0 ∨
      Reaches (r.updateProgress current headForked).behindHeight
        (r.updateProgress current headForked).behindHash current := by
  unfold SyncRange.updateProgress
  split_ifs
  · exact .inr hreach
  · exact .inl rfl
  · exact .inr hreach

theorem handleNext_zero (h : d.range.behindHeight = 0) : (d.handleNext now current).2 = [] := by
  simp [handleNext, SyncRange.getNextBehind, h]

theorem real_of_step {e : DownloaderEvent} (he : d.Asks e) : ∀ t ∈ (d.step e).2, Real t := by
  cases e with
  | timer => simp [step]
  | behind now current successor dependOk =>
    simp only [step]
    split
    · simp
    split
    · simp
    next range hset =>
    split
    · unfold SyncRange.setBehindInfo at hset
      split_ifs at hset
      obtain rfl := Option.some.inj hset
      exact real_of_handleNext he
    · simp
  | response now current empty authOk cleared headForked =>
    simp only [step]
    split_ifs with hnone hauth hcleared
    · simp
    · simp
    · rw [handleNext_zero]
      · simp
      · unfold SyncRange.updateProgress SyncRange.clearBehindInfo
        split_ifs <;> rfl
    · rcases reaches_updateProgress headForked he with hzero | hreach
      · rw [handleNext_zero hzero]
        simp
      · exact real_of_handleNext hreach

/-- When no event asks for an empty range, each raise of the counter comes with a request for a
range after the current block, up to the target and of at most a batch. -/
theorem counted_tries_real (events : List DownloaderEvent)
    (hm : Run.Meets step Asks {} events) : ∀ t ∈ (Run.run step {} events).2, Real t :=
  (Run.run_inv (I := fun _ => True) (fun _ _ _ he => ⟨trivial, real_of_step he⟩) trivial events
    hm).2

def tip (height : UInt64) (hash last : String) : XvBlock :=
  { (default : XvBlock) with height := height, blockHash := hash, lastBlockHash := last }

theorem counted_tries_real_sample :
    (Run.run step {} [.behind 0 (tip 3 "C" "B") (tip 9 "I" "H") true]).2 ≠ [] ∧
      ∀ t ∈ (Run.run step {} [.behind 0 (tip 3 "C" "B") (tip 9 "I" "H") true]).2, Real t :=
  ⟨by decide, counted_tries_real _ ⟨fun _ => .inr (by decide), trivial⟩⟩

theorem fork_counts_empty_try :
    (Run.run step {} [.behind 0 (tip 3 "C" "B") (tip 4 "D" "X") true]).2.map
        (fun t => (t.start, t.count, t.created)) = [(4, 0, false)] ∧
      (Run.run step {} [.behind 0 (tip 3 "C" "B")
        (tip 4 "D" "X") true]).1.range.behindTryCount = 1 ∧
      (Run.run step {} [.behind 0 (tip 3 "C" "B") (tip 4 "D" "X") true]).1.request = none := by
  decide

end ChainDownloader
end TopChain.Sync
