import TopChain.Bft.VoteCount
import Mathlib.Data.Finset.Max

/-!
# The votes of the timer (`xvote_cache_t`, `xBFT/src/xtimercertview.cpp`)

Votes for clock values are cached in two maps, one by clock and one by voter.
-/
namespace TopChain.Bft

open Finset Option TopChain.Base TopChain.Lib SortedMap

def clockTimeInterval : Int := 20000

def elasticRange : UInt64 := 2

structure VipVotes where
  createTm : Int
  validators : SortedMap Xvip2 String

abbrev VoterClocks := SortedMap Xvip2 (Finset UInt64)

structure VoteCache where
  clockVotes : SortedMap UInt64 VipVotes
  clocks : VoterClocks

namespace VoteCache

def empty : VoteCache := ⟨.empty, .empty⟩

def check (c : VoteCache) (xip : Xvip2) (clock : UInt64) : Bool :=
  match c.clocks.find? xip with
  | none => true
  | some set =>
    if h : set.Nonempty then
      set.max' h < clock ∧ clock ≤ set.max' h + elasticRange
    else true

def addClock (clocks : VoterClocks) (xip : Xvip2) (clock : UInt64) : VoterClocks :=
  match clocks.find? xip with
  | none => clocks.insert xip {clock}
  | some set => clocks.insert xip (insert clock set)

def addVoter (votes : SortedMap UInt64 VipVotes) (xip : Xvip2) (clock : UInt64)
    (qcertBin : String) (now : Int) : SortedMap UInt64 VipVotes :=
  match votes.find? clock with
  | none => votes.insert clock ⟨now, SortedMap.empty.insert xip qcertBin⟩
  | some v => votes.insert clock { v with validators := v.validators.insert xip qcertBin }

def addQcert (c : VoteCache) (xip : Xvip2) (clock : UInt64) (qcertBin : String) (now : Int) :
    VoteCache × Bool :=
  if c.check xip clock then
    (⟨addVoter c.clockVotes xip clock qcertBin now, addClock c.clocks xip clock⟩, true)
  else (c, false)

def getClockVotes (c : VoteCache) (clock : UInt64) : Option (SortedMap Xvip2 String) :=
  (c.clockVotes.find? clock).map (·.validators)

def expired (now : Int) (v : VipVotes) : Bool := ¬ now - v.createTm < clockTimeInterval

def eraseClock (clock : UInt64) (clocks : VoterClocks) (xip : Xvip2) : Option VoterClocks :=
  match clocks.find? xip with
  | none => none
  | some set =>
    if set = ∅ then none
    else if set.erase clock = ∅ then some (clocks.erase xip)
    else some (clocks.insert xip (set.erase clock))

def clearClock (now : Int) (c : VoteCache) (e : UInt64 × VipVotes) : Option VoteCache :=
  if expired now e.2 then do
    let clocks ← (e.2.validators.entries.map (·.1)).foldlM (eraseClock e.1) c.clocks
    some ⟨c.clockVotes.erase e.1, clocks⟩
  else some c

def clearTimeoutClock (c : VoteCache) (now : Int) : Option VoteCache :=
  c.clockVotes.entries.foldlM (clearClock now) c

inductive Call where
  | addQcert (xip : Xvip2) (clock : UInt64) (qcertBin : String) (now : Int)
  | clearTimeoutClock (now : Int)
  | clear

/-- A call with the asserts it runs into. `add_vote` looks the clock up after a vote that was
accepted. -/
def call (c : VoteCache) : Call → Option VoteCache
  | .addQcert xip clock qcertBin now => do
    let (c', accepted) := c.addQcert xip clock qcertBin now
    if accepted then
      let _ ← c'.getClockVotes clock
    return c'
  | .clearTimeoutClock now => c.clearTimeoutClock now
  | .clear => some empty

def after (calls : List Call) : Option VoteCache := calls.foldlM call empty

def clocksOf (clocks : VoterClocks) (xip : Xvip2) : Finset UInt64 := (clocks.find? xip).getD ∅

def votedFor (votes : SortedMap UInt64 VipVotes) (clock : UInt64) (xip : Xvip2) : Prop :=
  ∃ v, votes.find? clock = some v ∧ (v.validators.find? xip).isSome

/-- The two maps of the cache say the same, and no voter is there without a clock. -/
structure Consistent (c : VoteCache) : Prop where
  mirror : ∀ xip clock, clock ∈ clocksOf c.clocks xip ↔ votedFor c.clockVotes clock xip
  nonempty : ∀ xip set, c.clocks.find? xip = some set → set ≠ ∅

theorem consistent_empty : Consistent empty where
  mirror xip clock := by simp [empty, clocksOf, votedFor]
  nonempty xip set h := by simp [empty] at h

theorem clocksOf_insert (m : VoterClocks) (xip x : Xvip2) (set : Finset UInt64) :
    clocksOf (m.insert xip set) x = if x = xip then set else clocksOf m x := by
  unfold clocksOf
  split
  case isTrue h => rw [h, find?_insert_self, getD_some]
  case isFalse h => rw [find?_insert_of_ne m set h]

theorem clocksOf_erase (m : VoterClocks) (xip x : Xvip2) :
    clocksOf (m.erase xip) x = if x = xip then ∅ else clocksOf m x := by
  unfold clocksOf
  split
  case isTrue h => rw [h, find?_erase_self, getD_none]
  case isFalse h => rw [find?_erase_of_ne m h]

variable {m : VoterClocks} {clock : UInt64} {c : VoteCache} {t : VoterTrack}

theorem clocksOf_of_find? {xip : Xvip2} {set : Finset UInt64} (h : m.find? xip = some set) :
    clocksOf m xip = set := by
  rw [clocksOf, h, getD_some]

theorem addClock_eq (m : VoterClocks) (xip : Xvip2) (clock : UInt64) :
    addClock m xip clock = m.insert xip (insert clock (clocksOf m xip)) := by
  unfold addClock clocksOf
  cases m.find? xip with
  | none => rfl
  | some set => rfl

theorem clocksOf_addClock (m : VoterClocks) (xip x : Xvip2) (clock : UInt64) :
    clocksOf (addClock m xip clock) x =
      if x = xip then insert clock (clocksOf m x) else clocksOf m x := by
  rw [addClock_eq, clocksOf_insert]
  split
  case isTrue hx => rw [hx]
  case isFalse => rfl

theorem insert_nonempty {xip : Xvip2} {new : Finset UInt64} (hnew : new ≠ ∅)
    (hm : ∀ x set, m.find? x = some set → set ≠ ∅) :
    ∀ x set, (m.insert xip new).find? x = some set → set ≠ ∅ := by
  intro x set h
  by_cases hx : x = xip
  · rw [hx, find?_insert_self, Option.some.injEq] at h
    exact h ▸ hnew
  · exact hm x set (by rwa [find?_insert_of_ne m _ hx] at h)

theorem votedFor_addVoter (m : SortedMap UInt64 VipVotes) (xip x : Xvip2) (clock k : UInt64)
    (qcertBin : String) (now : Int) :
    votedFor (addVoter m xip clock qcertBin now) k x ↔ x = xip ∧ k = clock ∨ votedFor m k x := by
  unfold addVoter votedFor
  by_cases hk : k = clock
  · subst hk
    cases h : m.find? k with
    | none =>
      by_cases hx : x = xip
      · simp [hx]
      · simp [hx, find?_insert_of_ne _ _ hx]
    | some v =>
      by_cases hx : x = xip
      · simp [hx]
      · simp [hx, find?_insert_of_ne _ _ hx]
  · cases h : m.find? clock with
    | none => simp [hk, find?_insert_of_ne _ _ hk]
    | some v => simp [hk, find?_insert_of_ne _ _ hk]

theorem Consistent.add (h : Consistent c) (xip : Xvip2) (clock : UInt64) (qcertBin : String)
    (now : Int) :
    Consistent ⟨addVoter c.clockVotes xip clock qcertBin now, addClock c.clocks xip clock⟩ where
  mirror x k := by
    rw [votedFor_addVoter, clocksOf_addClock, ← h.mirror]
    by_cases hx : x = xip
    · simp [hx]
    · simp [hx]
  nonempty := by
    rw [addClock_eq]
    exact insert_nonempty (insert_ne_empty clock _) h.nonempty

theorem getClockVotes_add (c : VoteCache) (xip : Xvip2) (clock : UInt64) (qcertBin : String)
    (now : Int) (clocks : VoterClocks) :
    (getClockVotes ⟨addVoter c.clockVotes xip clock qcertBin now, clocks⟩ clock).isSome := by
  obtain ⟨v, hv, -⟩ :=
    (votedFor_addVoter c.clockVotes xip xip clock clock qcertBin now).mpr (.inl ⟨rfl, rfl⟩)
  simp [getClockVotes, hv]

theorem eraseClock_of_mem {xip : Xvip2} (hm : ∀ x set, m.find? x = some set → set ≠ ∅)
    (h : clock ∈ clocksOf m xip) :
    ∃ m', eraseClock clock m xip = some m' ∧ (∀ x set, m'.find? x = some set → set ≠ ∅) ∧
      ∀ x, clocksOf m' x = if x = xip then (clocksOf m x).erase clock else clocksOf m x := by
  cases hf : m.find? xip with
  | none => simp [clocksOf, hf] at h
  | some set =>
    have hset := clocksOf_of_find? hf
    by_cases he : set.erase clock = ∅
    · refine ⟨m.erase xip, by simp [eraseClock, hf, he, hm xip set hf], ?_, ?_⟩
      · intro x s hs
        by_cases hx : x = xip
        · simp [hx] at hs
        · exact hm x s (by rwa [find?_erase_of_ne m hx] at hs)
      · intro x
        rw [clocksOf_erase]
        split
        case isTrue hx => rw [hx, hset, he]
        case isFalse => rfl
    · refine ⟨m.insert xip (set.erase clock), by simp [eraseClock, hf, he, hm xip set hf],
        insert_nonempty he hm, fun x => ?_⟩
      rw [clocksOf_insert]
      split
      case isTrue hx => rw [hx, hset]
      case isFalse => rfl

theorem foldlM_eraseClock {voters : List Xvip2} (hd : voters.Nodup)
    (hm : ∀ x set, m.find? x = some set → set ≠ ∅) (h : ∀ x ∈ voters, clock ∈ clocksOf m x) :
    ∃ m', voters.foldlM (eraseClock clock) m = some m' ∧
      (∀ x set, m'.find? x = some set → set ≠ ∅) ∧
      ∀ x, clocksOf m' x = if x ∈ voters then (clocksOf m x).erase clock else clocksOf m x := by
  induction voters generalizing m with
  | nil => exact ⟨m, rfl, hm, fun x => by simp⟩
  | cons xip rest ih =>
    obtain ⟨hnot, hd⟩ := List.nodup_cons.mp hd
    obtain ⟨m', he, hm', hclocks⟩ := eraseClock_of_mem hm (h xip List.mem_cons_self)
    have hrest : ∀ x ∈ rest, clock ∈ clocksOf m' x := by
      intro x hx
      have hne : x ≠ xip := fun hxe => hnot (hxe ▸ hx)
      rw [hclocks, if_neg hne]
      exact h x (List.mem_cons_of_mem xip hx)
    obtain ⟨m'', hfold, hm'', hclocks'⟩ := ih hd hm' hrest
    refine ⟨m'', by rw [List.foldlM_cons, he]; exact hfold, hm'', fun x => ?_⟩
    rw [hclocks', hclocks]
    by_cases hx : x = xip
    · simp [hx, hnot]
    · simp [hx]

theorem Consistent.clearClock (h : Consistent c) (now : Int) {v : VipVotes}
    (hv : c.clockVotes.find? clock = some v) :
    ∃ c', clearClock now c (clock, v) = some c' ∧ Consistent c' ∧
      c'.clockVotes = if expired now v then c.clockVotes.erase clock else c.clockVotes := by
  by_cases he : expired now v
  · have hvoters : ∀ x, x ∈ v.validators.entries.map (·.1) ↔ clock ∈ clocksOf c.clocks x := by
      intro x
      rw [h.mirror, mem_keys]
      simp [votedFor, hv]
    have hnodup : (v.validators.entries.map (·.1)).Nodup :=
      (List.pairwise_map.mpr (v.validators.sorted.imp fun hlt => hlt.ne))
    obtain ⟨m, hfold, hne, hclocks⟩ :=
      foldlM_eraseClock hnodup h.nonempty fun x hx => (hvoters x).mp hx
    refine ⟨⟨c.clockVotes.erase clock, m⟩, ?_, ⟨?_, hne⟩, by simp [he]⟩
    · simp only [VoteCache.clearClock, he, if_true, hfold]
      rfl
    · intro x k
      simp only [hclocks, hvoters]
      by_cases hk : k = clock
      · subst hk
        simp only [votedFor, find?_erase_self]
        split <;> simp [*]
      · simp only [votedFor, find?_erase_of_ne _ hk]
        rw [← votedFor, ← h.mirror]
        split <;> simp [hk]
  · exact ⟨c, by simp [VoteCache.clearClock, he], h, by simp [he]⟩

theorem Consistent.foldlM_clearClock (now : Int) {l : List (UInt64 × VipVotes)}
    (hl : l.Pairwise fun e e' => e.1 < e'.1) (h : Consistent c)
    (hmem : ∀ e ∈ l, c.clockVotes.find? e.1 = some e.2) :
    ∃ c', l.foldlM (VoteCache.clearClock now) c = some c' ∧ Consistent c' ∧
      ∀ k v, c'.clockVotes.find? k = some v ↔
        c.clockVotes.find? k = some v ∧ ¬ ((k, v) ∈ l ∧ expired now v) := by
  induction l generalizing c with
  | nil => exact ⟨c, rfl, h, by simp⟩
  | cons e rest ih =>
    obtain ⟨hlt, hl⟩ := List.pairwise_cons.mp hl
    have hv : c.clockVotes.find? e.1 = some e.2 := hmem e List.mem_cons_self
    obtain ⟨c₁, hc₁, h₁, hvotes⟩ := h.clearClock now hv
    have hfind : ∀ k, k ≠ e.1 → c₁.clockVotes.find? k = c.clockVotes.find? k := by
      intro k hk
      rw [hvotes]
      split
      · exact find?_erase_of_ne _ hk
      · rfl
    have hmem₁ : ∀ e' ∈ rest, c₁.clockVotes.find? e'.1 = some e'.2 := by
      intro e' he'
      rw [hfind e'.1 (hlt e' he').ne']
      exact hmem e' (List.mem_cons_of_mem e he')
    obtain ⟨c₂, hc₂, h₂, hall⟩ := ih hl h₁ hmem₁
    refine ⟨c₂, by rw [List.foldlM_cons, hc₁]; exact hc₂, h₂, fun k v => ?_⟩
    rw [hall]
    by_cases hk : k = e.1
    · subst hk
      have hnot : ∀ w, (e.1, w) ∉ rest := fun w hw => (hlt _ hw).ne rfl
      by_cases he : expired now e.2
      · rw [hvotes, if_pos he, find?_erase_self, hv]
        constructor
        · rintro ⟨hf, -⟩
          cases hf
        · rintro ⟨hf, hne⟩
          cases hf
          exact absurd ⟨List.mem_cons_self, he⟩ hne
      · rw [hvotes, if_neg he, hv]
        constructor
        · rintro ⟨hf, -⟩
          cases hf
          exact ⟨rfl, fun hexp => he hexp.2⟩
        · rintro ⟨hf, -⟩
          exact ⟨hf, fun hexp => hnot v hexp.1⟩
    · rw [hfind k hk]
      have hcons : (k, v) ∈ e :: rest ↔ (k, v) ∈ rest := by
        rw [List.mem_cons, or_iff_right]
        intro heq
        exact hk (congrArg Prod.fst heq)
      rw [hcons]

theorem Consistent.clearTimeoutClock (h : Consistent c) (now : Int) :
    ∃ c', c.clearTimeoutClock now = some c' ∧ Consistent c' ∧
      ∀ k v, c'.clockVotes.find? k = some v ↔ c.clockVotes.find? k = some v ∧ ¬ expired now v := by
  obtain ⟨c', hc', h', hall⟩ := h.foldlM_clearClock now c.clockVotes.sorted
    fun e he => find?_eq_some_iff.mpr he
  refine ⟨c', hc', h', fun k v => (hall k v).trans ?_⟩
  rw [← find?_eq_some_iff]
  constructor
  · rintro ⟨hf, hnot⟩
    exact ⟨hf, fun he => hnot ⟨hf, he⟩⟩
  · rintro ⟨hf, hnot⟩
    exact ⟨hf, fun he => hnot he.2⟩

theorem Consistent.call (h : Consistent c) (e : Call) :
    ∃ c', c.call e = some c' ∧ Consistent c' := by
  cases e with
  | addQcert xip clock qcertBin now =>
    by_cases hcheck : c.check xip clock
    · have hsome := getClockVotes_add c xip clock qcertBin now (addClock c.clocks xip clock)
      obtain ⟨votes, hvotes⟩ := isSome_iff_exists.mp hsome
      exact ⟨_, by simp [VoteCache.call, addQcert, hcheck, hvotes], h.add xip clock qcertBin now⟩
    · exact ⟨c, by simp [VoteCache.call, addQcert, hcheck], h⟩
  | clearTimeoutClock now =>
    obtain ⟨c', hc', h', -⟩ := h.clearTimeoutClock now
    exact ⟨c', hc', h'⟩
  | clear => exact ⟨empty, rfl, consistent_empty⟩

theorem Consistent.foldlM_call (h : Consistent c) (calls : List Call) :
    ∃ c', calls.foldlM VoteCache.call c = some c' ∧ Consistent c' := by
  induction calls generalizing c with
  | nil => exact ⟨c, rfl, h⟩
  | cons e calls ih =>
    obtain ⟨c₁, hc₁, h₁⟩ := h.call e
    obtain ⟨c₂, hc₂, h₂⟩ := ih h₁
    exact ⟨c₂, by rw [List.foldlM_cons, hc₁]; exact hc₂, h₂⟩

/-- Every sequence of calls runs through without a failed assert and leaves two maps that
record the same votes, with no voter without a clock. -/
theorem vote_maps_mirror (calls : List Call) :
    ∃ c, after calls = some c ∧
      (∀ xip clock, (∃ set, c.clocks.find? xip = some set ∧ clock ∈ set) ↔
        ∃ votes, c.getClockVotes clock = some votes ∧ (votes.find? xip).isSome) ∧
      ∀ xip set, c.clocks.find? xip = some set → set ≠ ∅ := by
  obtain ⟨c, hc, h⟩ := consistent_empty.foldlM_call calls
  refine ⟨c, hc, fun xip clock => ?_, h.nonempty⟩
  have hmem : clock ∈ clocksOf c.clocks xip ↔
      ∃ set, c.clocks.find? xip = some set ∧ clock ∈ set := by
    cases hf : c.clocks.find? xip <;> simp [clocksOf, hf]
  rw [← hmem, h.mirror]
  simp [votedFor, getClockVotes]

/-- The cache, and the clocks accepted from a voter since it last had none in the cache. -/
structure VoterTrack where
  cache : VoteCache
  accepted : List UInt64

def newlyAccepted (c : VoteCache) (voter : Xvip2) : Call → List UInt64
  | .addQcert xip clock _ _ => if xip = voter ∧ c.check xip clock then [clock] else []
  | .clearTimeoutClock _ => []
  | .clear => []

/-- One call. A vote accepted while the voter has clocks in the cache is put out, with what was
accepted before. -/
def track (voter : Xvip2) (t : VoterTrack) (e : Call) : VoterTrack × List (UInt64 × List UInt64) :=
  match t.cache.call e with
  | none => (t, [])
  | some c =>
    let new := newlyAccepted t.cache voter e
    (⟨c, if clocksOf c.clocks voter = ∅ then [] else new ++ t.accepted⟩,
      if clocksOf t.cache.clocks voter = ∅ then [] else new.map fun clock => (clock, t.accepted))

def untracked : VoterTrack := ⟨empty, []⟩

/-- Of the clocks of one voter a later one does not expire before an earlier one. -/
def ExpiresInOrder (voter : Xvip2) (t : VoterTrack) : Call → Prop
  | .addQcert _ _ _ _ => True
  | .clearTimeoutClock now =>
    ∀ k ∈ clocksOf t.cache.clocks voter, ∀ k' ∈ clocksOf t.cache.clocks voter, k < k' →
      (t.cache.clockVotes.find? k').any (expired now) →
        (t.cache.clockVotes.find? k).any (expired now)
  | .clear => True

instance instDecidableExpiresInOrder (voter : Xvip2) (t : VoterTrack) (e : Call) :
    Decidable (ExpiresInOrder voter t e) :=
  match e with
  | .addQcert _ _ _ _ => .isTrue trivial
  -- over the clocks of the voter, not over all clocks
  | .clearTimeoutClock _ => @Finset.decidableDforallFinset _ _ _ fun _ _ =>
      @Finset.decidableDforallFinset _ _ _ fun _ _ => inferInstance
  | .clear => .isTrue trivial

structure Forward (voter : Xvip2) (t : VoterTrack) : Prop where
  consistent : Consistent t.cache
  below : ∀ j ∈ t.accepted, ∃ k ∈ clocksOf t.cache.clocks voter, j ≤ k

theorem lt_of_check {xip : Xvip2} {k : UInt64} (h : c.check xip clock)
    (hk : k ∈ clocksOf c.clocks xip) : k < clock := by
  cases hf : c.clocks.find? xip with
  | none => simp [clocksOf, hf] at hk
  | some set =>
    rw [clocksOf_of_find? hf] at hk
    have hne : set.Nonempty := ⟨k, hk⟩
    simp only [check, hf, hne, dif_pos, decide_eq_true_eq] at h
    exact (set.le_max' k hk).trans_lt h.1

theorem mem_clocksOf_clearTimeoutClock {c' : VoteCache} {now : Int} (h : Consistent c)
    (h' : Consistent c')
    (hvotes : ∀ k v, c'.clockVotes.find? k = some v ↔
      c.clockVotes.find? k = some v ∧ ¬ expired now v)
    (voter : Xvip2) (k : UInt64) :
    k ∈ clocksOf c'.clocks voter ↔
      k ∈ clocksOf c.clocks voter ∧ ¬ (c.clockVotes.find? k).any (expired now) := by
  rw [h.mirror, h'.mirror]
  constructor
  · rintro ⟨v, hv, hvoter⟩
    obtain ⟨hf, hexp⟩ := (hvotes k v).mp hv
    exact ⟨⟨v, hf, hvoter⟩, by simpa [hf] using hexp⟩
  · rintro ⟨⟨v, hf, hvoter⟩, hexp⟩
    exact ⟨v, (hvotes k v).mpr ⟨hf, by simpa [hf] using hexp⟩, hvoter⟩

section
variable {voter : Xvip2} (h : Forward voter t)
include h

theorem Forward.expire {now : Int}
    (hord : ExpiresInOrder voter t (.clearTimeoutClock now)) {c' : VoteCache} (h' : Consistent c')
    (hvotes : ∀ k v, c'.clockVotes.find? k = some v ↔
      t.cache.clockVotes.find? k = some v ∧ ¬ expired now v)
    (hne : clocksOf c'.clocks voter ≠ ∅) :
    ∀ j ∈ t.accepted, ∃ k ∈ clocksOf c'.clocks voter, j ≤ k := by
  have hmem := mem_clocksOf_clearTimeoutClock h.consistent h' hvotes voter
  intro j hj
  obtain ⟨k, hk, hjk⟩ := h.below j hj
  by_cases hexp : (t.cache.clockVotes.find? k).any (expired now)
  · obtain ⟨k₀, hk₀⟩ := nonempty_iff_ne_empty.mpr hne
    obtain ⟨hold, hkeep⟩ := (hmem k₀).mp hk₀
    refine ⟨k₀, hk₀, hjk.trans ?_⟩
    by_contra hlt
    exact hkeep (hord k₀ hold k hk (not_le.mp hlt) hexp)
  · exact ⟨k, (hmem k).mpr ⟨hk, hexp⟩, hjk⟩

theorem Forward.addQcert (xip : Xvip2) (clock : UInt64) :
    ∀ j ∈ (if xip = voter then [clock] else []) ++ t.accepted,
      ∃ k ∈ clocksOf (addClock t.cache.clocks xip clock) voter, j ≤ k := by
  intro j hj
  rw [clocksOf_addClock]
  rcases List.mem_append.mp hj with hnew | hold
  · by_cases hx : xip = voter
    · rw [if_pos hx, List.mem_singleton] at hnew
      rw [if_pos hx.symm]
      exact ⟨clock, mem_insert_self clock _, hnew.le⟩
    · simp [hx] at hnew
  · obtain ⟨k, hk, hjk⟩ := h.below j hold
    refine ⟨k, ?_, hjk⟩
    split
    · exact mem_insert_of_mem hk
    · exact hk

theorem Forward.track (e : Call)
    (hord : ExpiresInOrder voter t e) : Forward voter (track voter t e).1 := by
  obtain ⟨c, hc, hcons⟩ := h.consistent.call e
  rw [VoteCache.track, hc]
  refine ⟨hcons, ?_⟩
  dsimp only
  split
  case isTrue => simp
  case isFalse hne =>
    cases e with
    | addQcert xip clock qcertBin now =>
      by_cases hcheck : t.cache.check xip clock
      · have hsome := getClockVotes_add t.cache xip clock qcertBin now
          (addClock t.cache.clocks xip clock)
        obtain ⟨votes, hvotes⟩ := isSome_iff_exists.mp hsome
        simp only [VoteCache.call, VoteCache.addQcert, hcheck, if_true, hvotes] at hc
        cases hc
        simpa [newlyAccepted, hcheck] using h.addQcert xip clock
      · simp only [VoteCache.call, VoteCache.addQcert, hcheck] at hc
        cases hc
        simpa [newlyAccepted, hcheck] using h.below
    | clearTimeoutClock now =>
      obtain ⟨c', hc', h', hvotes⟩ := h.consistent.clearTimeoutClock now
      have heq : c' = c := mem_unique hc' hc
      subst heq
      exact h.expire hord h' hvotes hne
    | clear =>
      cases hc
      simp [empty, clocksOf] at hne

theorem Forward.accepted_lt (e : Call) :
    ∀ o ∈ (VoteCache.track voter t e).2, ∀ j ∈ o.2, j < o.1 := by
  obtain ⟨c, hc, -⟩ := h.consistent.call e
  rw [VoteCache.track, hc]
  intro o ho j hj
  dsimp only at ho
  split at ho
  case isTrue => simp at ho
  case isFalse =>
    obtain ⟨clock, hclock, rfl⟩ := List.mem_map.mp ho
    cases e with
    | addQcert xip clock' qcertBin now =>
      simp only [newlyAccepted] at hclock
      split at hclock
      case isTrue hacc =>
        obtain ⟨rfl, hcheck⟩ := hacc
        rw [List.mem_singleton] at hclock
        subst hclock
        obtain ⟨k, hk, hjk⟩ := h.below j hj
        exact hjk.trans_lt (lt_of_check hcheck hk)
      case isFalse => simp at hclock
    | clearTimeoutClock now => simp [newlyAccepted] at hclock
    | clear => simp [newlyAccepted] at hclock

end

/-- While no expiry takes a clock of the voter and leaves a smaller one, a vote accepted beside a
cached clock is above all accepted since there was none. -/
theorem accepted_votes_move_forward (voter : Xvip2) (calls : List Call)
    (hord : Run.Meets (track voter) (ExpiresInOrder voter) untracked calls) :
    ∀ o ∈ (Run.run (track voter) untracked calls).2, ∀ j ∈ o.2, j < o.1 := by
  have hstart : Forward voter untracked := ⟨consistent_empty, by simp [untracked]⟩
  exact (Run.run_inv (fun t e h hcond => ⟨h.track e hcond, h.accepted_lt e⟩) hstart calls hord).2

def firstVoter : Xvip2 := ⟨1, 0⟩

def voterRun : List Call :=
  [.addQcert firstVoter 5 "a" 0, .addQcert firstVoter 6 "b" 100, .clearTimeoutClock 20050,
    .addQcert firstVoter 7 "c" 20060]

theorem voterRun_moves_forward :
    Run.Meets (track firstVoter) (ExpiresInOrder firstVoter) untracked voterRun ∧
      (Run.run (track firstVoter) untracked voterRun).2 = [(6, [5]), (7, [6, 5])] ∧
      ∀ o ∈ (Run.run (track firstVoter) untracked voterRun).2, ∀ j ∈ o.2, j < o.1 :=
  ⟨by decide +kernel, by decide +kernel,
    accepted_votes_move_forward firstVoter voterRun (by decide +kernel)⟩

def earlyClockRun : List Call :=
  [.addQcert ⟨2, 0⟩ 6 "x" 0, .addQcert firstVoter 5 "a" 100, .addQcert firstVoter 6 "b" 200,
    .clearTimeoutClock 20050, .addQcert firstVoter 6 "c" 20060]

theorem clock_accepted_twice :
    (6, [6, 5]) ∈ (Run.run (track firstVoter) untracked earlyClockRun).2 := by
  decide +kernel

end VoteCache
end TopChain.Bft
