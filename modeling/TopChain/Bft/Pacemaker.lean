import TopChain.Lib.Run
import TopChain.Lib.Word
import Mathlib.Data.List.Chain

/-!
# The clock-certificate pacemaker (`xBFT/src/xpacemaker.cpp`)

`xclockcert_view` recomputes its view id from the latest clock and block certificates.
-/
namespace TopChain.Bft

open Option List TopChain.Lib Word

structure ViewCert where
  clock : UInt64
  viewid : UInt64
  isDeliver : Bool := true
deriving DecidableEq

/-- The pacemaker: its view and the two certificates that it is computed from. -/
structure ClockcertView where
  latestViewId : UInt64 := 0
  latestClockCert : Option ViewCert := none
  latestVblockCert : Option ViewCert := none
deriving DecidableEq

namespace ClockcertView
variable (v : ClockcertView)

def newViewId (vblock clock : ViewCert) : UInt64 :=
  if clock.clock > vblock.clock then vblock.viewid + 1 + (clock.clock - vblock.clock) / 3
  else vblock.viewid + 1

def updateView : ClockcertView :=
  match v.latestVblockCert, v.latestClockCert with
  | some vblock, some clock =>
    if newViewId vblock clock > v.latestViewId then
      { v with latestViewId := newViewId vblock clock }
    else v
  | _, _ => v

def newerClock (cert : ViewCert) : Bool :=
  match v.latestClockCert with
  | some latest => !(latest.clock ≥ cert.clock || latest.viewid ≥ cert.viewid)
  | none => true

def updateClockCert (cert : ViewCert) : ClockcertView :=
  if v.newerClock cert && cert.isDeliver then { v with latestClockCert := some cert }.updateView
  else v

def updateClockBlock (cert : ViewCert) (checked : Bool) : ClockcertView :=
  if !v.newerClock cert then v
  else if !checked then v
  else v.updateClockCert cert

def newerVblock (cert : ViewCert) : Bool :=
  match v.latestVblockCert with
  | some latest => !(latest.viewid ≥ cert.viewid)
  | none => true

def updateVblockCert (cert : ViewCert) : ClockcertView :=
  if v.newerVblock cert && cert.isDeliver then { v with latestVblockCert := some cert }.updateView
  else v

def initVblock (stored : Option ViewCert) : ClockcertView :=
  if v.latestClockCert.isNone || v.latestVblockCert.isNone then
    match v.latestVblockCert, stored with
    | none, some cert =>
      if cert.isDeliver then { v with latestVblockCert := some cert }.updateView else v.updateView
    | _, _ => v.updateView
  else v

def updateVblock (cert : ViewCert) (stored : Option ViewCert) : ClockcertView :=
  let v := v.initVblock stored
  if !v.newerVblock cert then v
  else if !cert.isDeliver then v
  else v.updateVblockCert cert

def forceInit (stored : Option ViewCert) : ClockcertView :=
  if v.latestViewId = 0 then v.initVblock stored else v

end ClockcertView

/-- A certificate or block that reaches the pacemaker, with what the store has then. -/
inductive Delivery where
  | clockBlock (cert : ViewCert) (checked : Bool)
  | clockCert (cert : ViewCert)
  | vblock (cert : ViewCert) (stored : Option ViewCert)
  | vblockCert (cert : ViewCert)
  | initVblock (stored : Option ViewCert)
  | getLatestViewid (stored : Option ViewCert)

inductive Learned where
  | clock (cert : ViewCert)
  | vblock (cert : ViewCert)
deriving DecidableEq

namespace ClockcertView

def learnStored (v : ClockcertView) (stored : Option ViewCert) : List Learned :=
  match v.latestVblockCert, stored with
  | none, some cert => if cert.isDeliver then [.vblock cert] else []
  | _, _ => []

def step (v : ClockcertView) : Delivery → ClockcertView × List Learned
  | .clockBlock cert checked =>
    (v.updateClockBlock cert checked, if checked && cert.isDeliver then [.clock cert] else [])
  | .clockCert cert => (v.updateClockCert cert, if cert.isDeliver then [.clock cert] else [])
  | .vblock cert stored =>
    (v.updateVblock cert stored,
      v.learnStored stored ++ if cert.isDeliver then [.vblock cert] else [])
  | .vblockCert cert => (v.updateVblockCert cert, if cert.isDeliver then [.vblock cert] else [])
  | .initVblock stored => (v.initVblock stored, v.learnStored stored)
  | .getLatestViewid stored =>
    (v.forceInit stored, if v.latestViewId = 0 then v.learnStored stored else [])

end ClockcertView

def viewOf (vblock clock : ViewCert) : Nat :=
  vblock.viewid.toNat + 1 + (clock.clock.toNat - vblock.clock.toNat) / 3

/-- The view of `n` is at or above the one that `p` gives at the clock of `n`. -/
def Follows (p n : ViewCert) : Prop :=
  p.viewid.toNat + 1 + (n.clock.toNat - p.clock.toNat) / 3 ≤ n.viewid.toNat

instance instDecidableFollows (p n : ViewCert) : Decidable (Follows p n) :=
  inferInstanceAs (Decidable (_ ≤ _))

instance instTransFollows : Trans Follows Follows Follows where
  trans := by
    intro a b c hab hbc
    unfold Follows at *
    omega

/-- The certificates of one chain and of the clock, as leaders make them. -/
structure CertSet (chain clocks : List ViewCert) : Prop where
  linked : chain.IsChain Follows
  increasing : ∀ a ∈ clocks, ∀ b ∈ clocks, a.clock < b.clock → a.viewid < b.viewid
  fits : ∀ vblock ∈ chain, ∀ clock ∈ clocks, viewOf vblock clock < 2 ^ 64

/-- What is delivered is from these certificates. -/
def Delivery.From (chain clocks : List ViewCert) : Delivery → Prop
  | .clockBlock cert _ | .clockCert cert => cert ∈ clocks
  | .vblock cert stored => cert ∈ chain ∧ ∀ c ∈ stored, c ∈ chain
  | .vblockCert cert => cert ∈ chain
  | .initVblock stored | .getLatestViewid stored => ∀ c ∈ stored, c ∈ chain

instance instDecidableFrom (chain clocks : List ViewCert) (e : Delivery) :
    Decidable (e.From chain clocks) :=
  match e with
  | .clockBlock cert _ | .clockCert cert => inferInstanceAs (Decidable (cert ∈ clocks))
  | .vblock cert stored => inferInstanceAs (Decidable (cert ∈ chain ∧ ∀ c ∈ stored, c ∈ chain))
  | .vblockCert cert => inferInstanceAs (Decidable (cert ∈ chain))
  | .initVblock stored | .getLatestViewid stored =>
    inferInstanceAs (Decidable (∀ c ∈ stored, c ∈ chain))

section
variable {chain clocks : List ViewCert} {p n clock clock' : ViewCert}

section
variable (h : CertSet chain clocks) (hp : p ∈ chain) (hn : n ∈ chain)
include h hp hn

theorem CertSet.comparable (hne : p ≠ n) : Follows p n ∨ Follows n p := by
  have hsymm : chain.Pairwise fun a b => Follows a b ∨ Follows b a := h.linked.pairwise.imp .inl
  have : Std.Symm fun a b => Follows a b ∨ Follows b a := ⟨fun _ _ h => h.symm⟩
  exact hsymm.forall hp hn hne

theorem CertSet.follows (hlt : p.viewid < n.viewid) : Follows p n := by
  have hne : p ≠ n := by
    rintro rfl
    exact lt_irrefl _ hlt
  rw [lt_nat] at hlt
  rcases h.comparable hp hn hne with hor | hor
  · exact hor
  · unfold Follows at hor
    omega

end

theorem viewOf_le_of_follows (h : Follows p n) : viewOf p clock ≤ viewOf n clock := by
  unfold Follows at h
  unfold viewOf
  omega

theorem viewOf_le_of_clock (h : clock.clock ≤ clock'.clock) : viewOf n clock ≤ viewOf n clock' := by
  rw [le_nat] at h
  unfold viewOf
  omega

theorem CertSet.newViewId_toNat (h : CertSet chain clocks) (hn : n ∈ chain) (hc : clock ∈ clocks) :
    (ClockcertView.newViewId n clock).toNat = viewOf n clock := by
  have hfits := h.fits n hn clock hc
  unfold viewOf at hfits ⊢
  unfold ClockcertView.newViewId
  split_ifs with hlt
  · rw [UInt64.toNat_add, toNat_add_one, UInt64.toNat_div, UInt64.toNat_sub_of_le _ _
      (le_nat.mpr hlt.le)]
    have hthree : (3 : UInt64).toNat = 3 := rfl
    rw [hthree]
    omega
  · rw [gt_iff_lt, lt_nat] at hlt
    rw [toNat_add_one]
    omega

end

def Learned.clock? : Learned → Option ViewCert
  | .clock cert => some cert
  | .vblock _ => none

def Learned.vblock? : Learned → Option ViewCert
  | .clock _ => none
  | .vblock cert => some cert

def clocksOf (outs : List Learned) : List ViewCert := outs.filterMap Learned.clock?

def vblocksOf (outs : List Learned) : List ViewCert := outs.filterMap Learned.vblock?

theorem mem_clocksOf {outs : List Learned} {c : ViewCert} :
    c ∈ clocksOf outs ↔ .clock c ∈ outs := by
  unfold clocksOf
  rw [mem_filterMap]
  constructor
  · rintro ⟨o, ho, heq⟩
    cases o with
    | clock cert => cases heq; exact ho
    | vblock cert => cases heq
  · exact fun h => ⟨.clock c, h, rfl⟩

variable {n : ViewCert}

theorem mem_vblocksOf {outs : List Learned} : n ∈ vblocksOf outs ↔ .vblock n ∈ outs := by
  unfold vblocksOf
  rw [mem_filterMap]
  constructor
  · rintro ⟨o, ho, heq⟩
    cases o with
    | clock cert => cases heq
    | vblock cert => cases heq; exact ho
  · exact fun h => ⟨.vblock n, h, rfl⟩

def IsLatest (key : ViewCert → UInt64) (known : List ViewCert) : Option ViewCert → Prop
  | none => known = []
  | some c => c ∈ known ∧ ∀ c' ∈ known, key c' ≤ key c

section
variable {key : ViewCert → UInt64} {known : List ViewCert} {o : Option ViewCert} {c l : ViewCert}

theorem IsLatest.set (h : IsLatest key known o) (hnew : ∀ l ∈ o, key l ≤ key c) :
    IsLatest key (known ++ [c]) (some c) := by
  refine ⟨mem_append_right _ (mem_singleton_self c), fun c' hc' => ?_⟩
  rcases mem_append.mp hc' with hc' | hc'
  · cases o with
    | none =>
      have hnil : known = [] := h
      rw [hnil] at hc'
      cases hc'
    | some l => exact (h.2 c' hc').trans (hnew l rfl)
  · rw [mem_singleton.mp hc']

theorem IsLatest.keep (h : IsLatest key known (some l)) (hle : key c ≤ key l) :
    IsLatest key (known ++ [c]) (some l) := by
  refine ⟨mem_append_left _ h.1, fun c' hc' => ?_⟩
  rcases mem_append.mp hc' with hc' | hc'
  · exact h.2 c' hc'
  · rw [mem_singleton.mp hc']
    exact hle

theorem IsLatest.exists_of_ne_nil (h : IsLatest key known o) (hne : known ≠ []) :
    ∃ l, o = some l ∧ l ∈ known ∧ ∀ c ∈ known, key c ≤ key l := by
  cases o with
  | none => exact absurd h hne
  | some l => exact ⟨l, rfl, h.1, h.2⟩

theorem IsLatest.eq_none (h : IsLatest key [] o) : o = none := by
  cases o with
  | none => rfl
  | some l => exact absurd h.1 not_mem_nil

end

def viewNow : Option ViewCert → Option ViewCert → Nat
  | some vblock, some clock => viewOf vblock clock
  | _, _ => 0

theorem viewNow_le_of_clock {vblock old : Option ViewCert} {c : ViewCert}
    (h : ∀ l ∈ old, l.clock ≤ c.clock) : viewNow vblock old ≤ viewNow vblock (some c) := by
  unfold viewNow
  split
  · rename_i l
    exact viewOf_le_of_clock (h l rfl)
  · exact Nat.zero_le _

theorem viewNow_le_of_vblock {clock old : Option ViewCert} (h : ∀ p ∈ old, Follows p n) :
    viewNow old clock ≤ viewNow (some n) clock := by
  unfold viewNow
  split
  · rename_i p c
    exact viewOf_le_of_follows (h p rfl)
  · exact Nat.zero_le _

structure Latest (chain clocks : List ViewCert) (outs : List Learned) (v : ClockcertView) :
    Prop where
  clocksIn : ∀ c ∈ clocksOf outs, c ∈ clocks
  vblocksIn : ∀ n ∈ vblocksOf outs, n ∈ chain
  clock : IsLatest (·.clock) (clocksOf outs) v.latestClockCert
  vblock : IsLatest (·.viewid) (vblocksOf outs) v.latestVblockCert
  view : v.latestViewId.toNat = viewNow v.latestVblockCert v.latestClockCert

namespace ClockcertView
variable {chain clocks : List ViewCert} {outs : List Learned} {v : ClockcertView}
  {cert : ViewCert} {stored : Option ViewCert}

theorem updateView_certs (v : ClockcertView) : v.updateView.latestVblockCert = v.latestVblockCert ∧
      v.updateView.latestClockCert = v.latestClockCert := by
  unfold updateView
  split
  · split_ifs <;> exact ⟨rfl, rfl⟩
  · exact ⟨rfl, rfl⟩

theorem updateView_toNat (h : CertSet chain clocks) (hn : ∀ n ∈ v.latestVblockCert, n ∈ chain)
    (hc : ∀ c ∈ v.latestClockCert, c ∈ clocks)
    (hle : v.latestViewId.toNat ≤ viewNow v.latestVblockCert v.latestClockCert) :
    v.updateView.latestViewId.toNat = viewNow v.latestVblockCert v.latestClockCert := by
  unfold updateView
  split
  · rename_i n c hvblock hclock
    have hnew := h.newViewId_toNat (hn n hvblock) (hc c hclock)
    rw [hvblock, hclock] at hle ⊢
    split_ifs with hgt
    · exact hnew
    · rw [gt_iff_lt, lt_nat, hnew] at hgt
      have hge : viewOf n c ≤ v.latestViewId.toNat := not_lt.mp hgt
      exact le_antisymm hle hge
  · rename_i hnone
    have hzero : viewNow v.latestVblockCert v.latestClockCert = 0 := by
      unfold viewNow
      split
      · rename_i n c hvblock hclock
        exact absurd hclock (hnone n c hvblock)
      · rfl
    omega

theorem newerClock_iff : v.newerClock cert ↔
    ∀ l ∈ v.latestClockCert, l.clock < cert.clock ∧ l.viewid < cert.viewid := by
  unfold newerClock
  cases v.latestClockCert with
  | none => exact ⟨fun _ => nofun, fun _ => rfl⟩
  | some l => simp

theorem newerVblock_iff : v.newerVblock cert ↔
    ∀ p ∈ v.latestVblockCert, p.viewid < cert.viewid := by
  unfold newerVblock
  cases v.latestVblockCert with
  | none => exact ⟨fun _ => nofun, fun _ => rfl⟩
  | some l => simp

theorem updateClockBlock_eq (v : ClockcertView) (cert : ViewCert) (checked : Bool) :
    v.updateClockBlock cert checked = if checked then v.updateClockCert cert else v := by
  unfold updateClockBlock updateClockCert
  cases v.newerClock cert <;> cases checked <;> rfl

theorem updateVblock_eq (v : ClockcertView) (cert : ViewCert) (stored : Option ViewCert) :
    v.updateVblock cert stored = (v.initVblock stored).updateVblockCert cert := by
  unfold updateVblock updateVblockCert
  dsimp only
  cases (v.initVblock stored).newerVblock cert <;> cases cert.isDeliver <;> rfl

end ClockcertView

section

open ClockcertView

variable {chain clocks : List ViewCert} {outs : List Learned} {v : ClockcertView}
  {cert : ViewCert} {stored : Option ViewCert}

theorem Latest.update {outs' : List Learned} {v' : ClockcertView} (hset : CertSet chain clocks)
    (hclocksIn : ∀ c ∈ clocksOf outs', c ∈ clocks) (hvblocksIn : ∀ n ∈ vblocksOf outs', n ∈ chain)
    (hclock : IsLatest (·.clock) (clocksOf outs') v'.latestClockCert)
    (hvblock : IsLatest (·.viewid) (vblocksOf outs') v'.latestVblockCert)
    (hle : v'.latestViewId.toNat ≤ viewNow v'.latestVblockCert v'.latestClockCert) :
    Latest chain clocks outs' v'.updateView := by
  obtain ⟨hcertV, hcertC⟩ := v'.updateView_certs
  have hview := updateView_toNat hset (v := v') (fun n hn => by
      rw [hn] at hvblock
      exact hvblocksIn n hvblock.1)
    (fun c hc => by
      rw [hc] at hclock
      exact hclocksIn c hclock.1) hle
  refine ⟨hclocksIn, hvblocksIn, ?_, ?_, ?_⟩
  · rwa [hcertC]
  · rwa [hcertV]
  · rw [hview, hcertV, hcertC]

section
variable (h : Latest chain clocks outs v) (hset : CertSet chain clocks)
include h hset

theorem Latest.updateClockCert (hcert : cert ∈ clocks) :
    Latest chain clocks (outs ++ if cert.isDeliver then [.clock cert] else [])
      (v.updateClockCert cert) := by
  have hclocks : clocksOf (outs ++ [.clock cert]) = clocksOf outs ++ [cert] := by
    rw [clocksOf, filterMap_append]
    rfl
  have hvblocks : vblocksOf (outs ++ [.clock cert]) = vblocksOf outs := by
    rw [vblocksOf, filterMap_append]
    exact append_nil _
  have hclocksIn : ∀ c ∈ clocksOf (outs ++ [.clock cert]), c ∈ clocks := by
    rw [hclocks, forall_mem_append, forall_mem_singleton]
    exact ⟨h.clocksIn, hcert⟩
  have hclock := h.clock
  unfold ClockcertView.updateClockCert
  cases cert.isDeliver with
  | false =>
    simpa using h
  | true =>
    rw [Bool.and_true, if_pos rfl]
    split_ifs with hnewer
    · rw [newerClock_iff] at hnewer
      refine Latest.update hset hclocksIn (hvblocks ▸ h.vblocksIn) ?_ (hvblocks ▸ h.vblock) ?_
      · rw [hclocks]
        exact hclock.set fun l hl => (hnewer l hl).1.le
      · exact h.view.le.trans (viewNow_le_of_clock fun l hl => (hnewer l hl).1.le)
    · -- a certificate whose clock is newer has a newer view id as well
      rw [newerClock_iff] at hnewer
      push Not at hnewer
      obtain ⟨l, hlatest, hold⟩ := hnewer
      rw [mem_def.mp hlatest] at hclock
      refine ⟨hclocksIn, hvblocks ▸ h.vblocksIn, ?_, hvblocks ▸ h.vblock, h.view⟩
      rw [hclocks, mem_def.mp hlatest]
      refine IsLatest.keep hclock ?_
      by_contra hlt
      have hlt' := not_le.mp hlt
      have hviewid := hset.increasing l (h.clocksIn l hclock.1) cert hcert hlt'
      exact absurd (hold hlt') (not_le.mpr hviewid)

theorem Latest.updateVblockCert (hcert : cert ∈ chain) :
    Latest chain clocks (outs ++ if cert.isDeliver then [.vblock cert] else [])
      (v.updateVblockCert cert) := by
  have hvblocks : vblocksOf (outs ++ [.vblock cert]) = vblocksOf outs ++ [cert] := by
    rw [vblocksOf, filterMap_append]
    rfl
  have hclocks : clocksOf (outs ++ [.vblock cert]) = clocksOf outs := by
    rw [clocksOf, filterMap_append]
    exact append_nil _
  have hvblocksIn : ∀ n ∈ vblocksOf (outs ++ [.vblock cert]), n ∈ chain := by
    rw [hvblocks, forall_mem_append, forall_mem_singleton]
    exact ⟨h.vblocksIn, hcert⟩
  have hvblock := h.vblock
  unfold ClockcertView.updateVblockCert
  cases cert.isDeliver with
  | false =>
    simpa using h
  | true =>
    rw [Bool.and_true, if_pos rfl]
    split_ifs with hnewer
    · rw [newerVblock_iff] at hnewer
      refine Latest.update hset (hclocks ▸ h.clocksIn) hvblocksIn (hclocks ▸ h.clock) ?_ ?_
      · rw [hvblocks]
        exact hvblock.set fun p hp => (hnewer p hp).le
      · refine h.view.le.trans (viewNow_le_of_vblock fun p hp => ?_)
        rw [mem_def.mp hp] at hvblock
        exact hset.follows (h.vblocksIn p hvblock.1) hcert (hnewer p hp)
    · rw [newerVblock_iff] at hnewer
      push Not at hnewer
      obtain ⟨p, hlatest, hold⟩ := hnewer
      rw [mem_def.mp hlatest] at hvblock
      refine ⟨hclocks ▸ h.clocksIn, hvblocksIn, hclocks ▸ h.clock, ?_, h.view⟩
      rw [hvblocks, mem_def.mp hlatest]
      exact IsLatest.keep hvblock hold

theorem Latest.initVblock (hstored : ∀ c ∈ stored, c ∈ chain) :
    Latest chain clocks (outs ++ v.learnStored stored) (v.initVblock stored) := by
  have hsame : Latest chain clocks (outs ++ []) v.updateView := by
    rw [append_nil]
    exact Latest.update hset h.clocksIn h.vblocksIn h.clock h.vblock h.view.le
  unfold ClockcertView.initVblock learnStored
  cases hvblock : v.latestVblockCert with
  | some n =>
    split_ifs
    · exact hsame
    · rwa [append_nil]
  | none =>
    rw [isNone_none, Bool.or_true, if_pos rfl]
    cases stored with
    | none => exact hsame
    | some cert =>
      have hlearn := h.updateVblockCert hset (hstored cert rfl)
      unfold ClockcertView.updateVblockCert newerVblock at hlearn
      rw [hvblock] at hlearn
      dsimp only at hlearn ⊢
      rw [Bool.true_and] at hlearn
      split_ifs at hlearn ⊢
      · exact hlearn
      · exact hsame

end

theorem Latest.step {e : Delivery} (h : Latest chain clocks outs v) (hset : CertSet chain clocks)
    (he : e.From chain clocks) : Latest chain clocks (outs ++ (v.step e).2) (v.step e).1 := by
  have hskip : Latest chain clocks (outs ++ []) v := by rwa [append_nil]
  cases e with
  | clockBlock cert checked =>
    show Latest chain clocks (outs ++ if checked && cert.isDeliver then [.clock cert] else [])
      (v.updateClockBlock cert checked)
    rw [updateClockBlock_eq]
    cases checked with
    | false => exact hskip
    | true => exact h.updateClockCert hset he
  | clockCert cert => exact h.updateClockCert hset he
  | vblock cert stored =>
    show Latest chain clocks
      (outs ++ (v.learnStored stored ++ if cert.isDeliver then [.vblock cert] else []))
      (v.updateVblock cert stored)
    rw [updateVblock_eq, ← append_assoc]
    exact (h.initVblock hset he.2).updateVblockCert hset he.1
  | vblockCert cert => exact h.updateVblockCert hset he
  | initVblock stored => exact h.initVblock hset he
  | getLatestViewid stored =>
    show Latest chain clocks (outs ++ if v.latestViewId = 0 then v.learnStored stored else [])
      (v.forceInit stored)
    unfold forceInit
    split_ifs
    · exact h.initVblock hset he
    · exact hskip

theorem CertSet.eq_of_latest {n' : ViewCert} (h : CertSet chain clocks) (hn : n ∈ chain)
    (hn' : n' ∈ chain) (hle : n.viewid ≤ n'.viewid) (hge : n'.viewid ≤ n.viewid) : n = n' := by
  by_contra hne
  have heq := le_antisymm hle hge
  rcases h.comparable hn hn' hne with hfollows | hfollows
  all_goals
    unfold Follows at hfollows
    rw [heq] at hfollows
    omega

theorem Latest.view_eq {c : ViewCert} (h : Latest chain clocks outs v)
    (hset : CertSet chain clocks) (hn : n ∈ vblocksOf outs)
    (hnmax : ∀ n' ∈ vblocksOf outs, n'.viewid ≤ n.viewid) (hc : c ∈ clocksOf outs)
    (hcmax : ∀ c' ∈ clocksOf outs, c'.clock ≤ c.clock) :
    v.latestViewId.toNat = viewOf n c := by
  obtain ⟨n', hv, hn', hnmax'⟩ := h.vblock.exists_of_ne_nil (ne_nil_of_mem hn)
  obtain ⟨c', hl, hc', hcmax'⟩ := h.clock.exists_of_ne_nil (ne_nil_of_mem hc)
  have heq : n' = n := hset.eq_of_latest (h.vblocksIn n' hn') (h.vblocksIn n hn)
    (hnmax n' hn') (hnmax' n hn)
  have hsame : c'.clock = c.clock := le_antisymm (hcmax c' hc') (hcmax' c hc)
  rw [h.view, hv, hl, heq]
  show viewOf n c' = viewOf n c
  rw [viewOf, viewOf, hsame]

theorem Latest.viewid_lt (h : Latest chain clocks outs v) (hn : n ∈ vblocksOf outs)
    (hclock : clocksOf outs ≠ []) : n.viewid < v.latestViewId := by
  obtain ⟨n', hv, -, hmax⟩ := h.vblock.exists_of_ne_nil (ne_nil_of_mem hn)
  obtain ⟨c, hl, -⟩ := h.clock.exists_of_ne_nil hclock
  have hle := hmax n hn
  rw [le_nat] at hle
  rw [lt_nat, h.view, hv, hl]
  show n.viewid.toNat < viewOf n' c
  unfold viewOf
  omega

theorem Latest.view_zero (h : Latest chain clocks outs v)
    (hnil : vblocksOf outs = [] ∨ clocksOf outs = []) : v.latestViewId.toNat = 0 := by
  have hclock := h.clock
  have hvblock := h.vblock
  rw [h.view]
  rcases hnil with hnil | hnil
  · rw [hnil] at hvblock
    rw [hvblock.eq_none]
    rfl
  · rw [hnil] at hclock
    rw [hclock.eq_none]
    cases v.latestVblockCert <;> rfl

theorem Latest.view_unique {outs' : List Learned} {v' : ClockcertView}
    (h : Latest chain clocks outs v) (h' : Latest chain clocks outs' v')
    (hset : CertSet chain clocks) (hclocks : ∀ c, c ∈ clocksOf outs ↔ c ∈ clocksOf outs')
    (hvblocks : ∀ n, n ∈ vblocksOf outs ↔ n ∈ vblocksOf outs') :
    v.latestViewId = v'.latestViewId := by
  rw [eq_nat]
  by_cases hnil : vblocksOf outs = [] ∨ clocksOf outs = []
  · have hnil' : vblocksOf outs' = [] ∨ clocksOf outs' = [] := by
      simpa only [eq_nil_iff_forall_not_mem, hvblocks, hclocks] using hnil
    rw [h.view_zero hnil, h'.view_zero hnil']
  · obtain ⟨hv, hl⟩ := not_or.mp hnil
    obtain ⟨n, -, hn, hnmax⟩ := h.vblock.exists_of_ne_nil hv
    obtain ⟨c, -, hc, hcmax⟩ := h.clock.exists_of_ne_nil hl
    rw [h.view_eq hset hn hnmax hc hcmax, h'.view_eq hset ((hvblocks n).mp hn)
      (fun n' hn' => hnmax n' ((hvblocks n').mpr hn')) ((hclocks c).mp hc)
      fun c' hc' => hcmax c' ((hclocks c').mpr hc')]

theorem le_updateView (v : ClockcertView) : v.latestViewId ≤ v.updateView.latestViewId := by
  unfold updateView
  split
  · split_ifs with hgt
    · exact (gt_iff_lt.mp hgt).le
    · exact le_rfl
  · exact le_rfl

theorem le_updateClockCert (v : ClockcertView) (cert : ViewCert) :
    v.latestViewId ≤ (v.updateClockCert cert).latestViewId := by
  unfold updateClockCert
  split_ifs
  · exact le_updateView { v with latestClockCert := some cert }
  · exact le_rfl

theorem le_updateVblockCert (v : ClockcertView) (cert : ViewCert) :
    v.latestViewId ≤ (v.updateVblockCert cert).latestViewId := by
  unfold updateVblockCert
  split_ifs
  · exact le_updateView { v with latestVblockCert := some cert }
  · exact le_rfl

theorem le_initVblock (v : ClockcertView) (stored : Option ViewCert) :
    v.latestViewId ≤ (v.initVblock stored).latestViewId := by
  unfold ClockcertView.initVblock
  split_ifs
  · split
    · rename_i cert hnone
      split_ifs
      · exact le_updateView { v with latestVblockCert := some cert }
      · exact le_updateView v
    · exact le_updateView v
  · exact le_rfl

theorem le_step (v : ClockcertView) (e : Delivery) :
    v.latestViewId ≤ (v.step e).1.latestViewId := by
  cases e with
  | clockBlock cert checked =>
    show v.latestViewId ≤ (v.updateClockBlock cert checked).latestViewId
    rw [updateClockBlock_eq]
    split_ifs
    · exact le_updateClockCert v cert
    · exact le_rfl
  | clockCert cert => exact le_updateClockCert v cert
  | vblock cert stored =>
    show v.latestViewId ≤ (v.updateVblock cert stored).latestViewId
    rw [updateVblock_eq]
    exact (le_initVblock v stored).trans (le_updateVblockCert _ cert)
  | vblockCert cert => exact le_updateVblockCert v cert
  | initVblock stored => exact le_initVblock v stored
  | getLatestViewid stored =>
    show v.latestViewId ≤ (v.forceInit stored).latestViewId
    unfold forceInit
    split_ifs
    · exact le_initVblock v stored
    · exact le_rfl

theorem le_run (v : ClockcertView) (es : List Delivery) :
    v.latestViewId ≤ (Run.run step v es).1.latestViewId := by
  induction es generalizing v with
  | nil => exact le_rfl
  | cons e es ih => exact (le_step v e).trans (ih (v.step e).1)

theorem latest_run (hset : CertSet chain clocks) (es : List Delivery)
    (hes : ∀ e ∈ es, e.From chain clocks) :
    Latest chain clocks (Run.run step {} es).2 (Run.run step {} es).1 := by
  have hmeets : Run.Meets step (fun _ e => e.From chain clocks) {} es := Run.meets_of_forall hes
  have hstart : Latest chain clocks [] {} :=
    ⟨fun _ h => absurd h not_mem_nil, fun _ h => absurd h not_mem_nil, rfl, rfl, rfl⟩
  exact Run.run_hist (fun _ _ _ h he => Latest.step h hset he) hstart es hmeets

end

/-- Two nodes that learn the same certificates, in whatever order, end in the same view. The view id
is 0 until both kinds are known and never goes back, and once a clock is known it exceeds those of
the known blocks. -/
theorem same_certificates_same_view {chain clocks : List ViewCert} (hset : CertSet chain clocks)
    (es es' : List Delivery) (hes : ∀ e ∈ es, e.From chain clocks)
    (hes' : ∀ e ∈ es', e.From chain clocks)
    (hsame : ∀ o, o ∈ (Run.run ClockcertView.step {} es).2 ↔
      o ∈ (Run.run ClockcertView.step {} es').2) :
    let view := (Run.run ClockcertView.step {} es).1.latestViewId
    let learned := (Run.run ClockcertView.step {} es).2
    view = (Run.run ClockcertView.step {} es').1.latestViewId ∧
    (∀ n ∈ vblocksOf learned, (∀ n' ∈ vblocksOf learned, n'.viewid ≤ n.viewid) →
      ∀ c ∈ clocksOf learned, (∀ c' ∈ clocksOf learned, c'.clock ≤ c.clock) →
      view.toNat = n.viewid.toNat + 1 + (c.clock.toNat - n.clock.toNat) / 3) ∧
    (vblocksOf learned = [] ∨ clocksOf learned = [] → view = 0) ∧
    (∀ pre post, es = pre ++ post →
      (Run.run ClockcertView.step {} pre).1.latestViewId ≤ view) ∧
    ∀ n ∈ vblocksOf learned, clocksOf learned ≠ [] → n.viewid < view := by
  intro view learned
  have h : Latest chain clocks learned _ := latest_run hset es hes
  have h' := latest_run hset es' hes'
  refine ⟨?same, ?latest, ?zero, ?never, ?exceeds⟩
  case same =>
    refine h.view_unique h' hset (fun c => ?_) fun n => ?_
    · rw [mem_clocksOf, mem_clocksOf, hsame]
    · rw [mem_vblocksOf, mem_vblocksOf, hsame]
  case latest =>
    intro n hn hnmax c hc hcmax
    exact h.view_eq hset hn hnmax hc hcmax
  case zero =>
    intro hnil
    rw [eq_nat]
    exact h.view_zero hnil
  case never =>
    rintro pre post rfl
    show _ ≤ (Run.run ClockcertView.step {} (pre ++ post)).1.latestViewId
    rw [Run.run_append]
    exact le_run _ post
  case exceeds =>
    intro n hn hclock
    exact h.viewid_lt hn hclock

theorem same_certificates_same_view_sample :
    (Run.run ClockcertView.step {}
      [.clockCert ⟨10, 1, true⟩, .vblockCert ⟨3, 5, true⟩, .clockCert ⟨20, 2, true⟩,
        .vblock ⟨12, 9, true⟩ none]).1.latestViewId =
    (Run.run ClockcertView.step {}
      [.vblockCert ⟨12, 9, true⟩, .clockBlock ⟨20, 2, true⟩ true, .vblockCert ⟨3, 5, true⟩,
        .clockCert ⟨10, 1, true⟩, .getLatestViewid none]).1.latestViewId := by
  have hset : CertSet [⟨3, 5, true⟩, ⟨12, 9, true⟩] [⟨10, 1, true⟩, ⟨20, 2, true⟩] :=
    ⟨by decide, by decide, by decide⟩
  refine (same_certificates_same_view hset _ _ (by decide) (by decide) fun o => ⟨?_, ?_⟩).1
  · revert o
    decide
  · revert o
    decide

theorem view_id_depends_on_order :
    (Run.run ClockcertView.step {} [.vblockCert ⟨0, 5, true⟩]).1.latestViewId = 0 ∧
    (Run.run ClockcertView.step {}
      [.vblockCert ⟨0, 5, true⟩, .clockCert ⟨10, 2, true⟩, .clockCert ⟨20, 1, true⟩]).1.latestViewId
      = 9 ∧
    (Run.run ClockcertView.step {}
      [.vblockCert ⟨0, 5, true⟩, .clockCert ⟨20, 1, true⟩, .clockCert ⟨10, 2, true⟩]).1.latestViewId
      = 12 := by
  decide

end TopChain.Bft
