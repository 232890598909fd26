import TopChain.TxPool.UnconfirmCache
import TopChain.Lib.Run
import Mathlib.Tactic.IntervalCases

/-!
# The cache of unconfirmed sends against the chain

The units of an account, by height, say which transactions are sent and which are confirmed.
-/
namespace TopChain.TxPool

open List TopChain.Lib SortedMap AccountCache

variable {δ : Type}

section
variable (chain : Nat → UnitBody δ)

def UnitBody.sends : UnitBody δ → List δ
  | .light l => l.sends
  | _ => []

def UnitBody.confirms : UnitBody δ → List δ
  | .light l => l.confirms
  | _ => []

/-- Sent at or below the height and not confirmed by then. -/
def Unconfirmed (h : Nat) (d : δ) : Prop :=
  (∃ j ≤ h, d ∈ (chain j).sends) ∧ ∀ k ≤ h, d ∉ (chain k).confirms

/-- All sends below the height are confirmed by then. -/
def PrevConfirmed (h : Nat) : Prop :=
  ∀ j < h, ∀ d ∈ (chain j).sends, ∃ k ≤ h, d ∈ (chain k).confirms

/-- A transaction is not confirmed before it is sent. -/
structure OrderedUnits (top : Nat) : Prop where
  genesis : (chain 0).sends = []
  order : ∀ j ≤ top, ∀ k ≤ top, ∀ d ∈ (chain j).sends, d ∈ (chain k).confirms → j ≤ k

/-- The flags are right, and a full unit is made when all sends are confirmed. -/
structure CommittedUnits (top : Nat) : Prop extends OrderedUnits chain top where
  not_nil : ∀ h, 1 ≤ h → h ≤ top → chain h ≠ .nil
  flag : ∀ h l, 1 ≤ h → h ≤ top → chain h = .light l →
    (l.prevSendtxConfirmed = true ↔ PrevConfirmed chain h)
  full : ∀ h, h + 1 ≤ top → chain (h + 1) = .full → ∀ d, ¬ Unconfirmed chain h d

/-- A light unit that counts no unconfirmed send has none. -/
def NumberExact (top : Nat) : Prop :=
  ∀ h l, 1 ≤ h → h ≤ top → chain h = .light l → l.unconfirmSendtxNum = 0 →
    ∀ d, ¬ Unconfirmed chain h d

end

variable {chain : Nat → UnitBody δ} {top : Nat}

theorem OrderedUnits.not_unconfirmed_zero (hc : OrderedUnits chain top) (d : δ) :
    ¬ Unconfirmed chain 0 d := by
  rintro ⟨⟨j, hj, hd⟩, -⟩
  obtain rfl : j = 0 := by omega
  rw [hc.genesis] at hd
  cases hd

variable {h : Nat} {l : LightUnit δ} {u : AccountUnit δ}

theorem OrderedUnits.unconfirmed_succ (hc : OrderedUnits chain top) (htop : h + 1 ≤ top) (d : δ) :
    Unconfirmed chain (h + 1) d ↔
      (Unconfirmed chain h d ∨ d ∈ (chain (h + 1)).sends) ∧ d ∉ (chain (h + 1)).confirms := by
  constructor
  · rintro ⟨⟨j, hj, hd⟩, hno⟩
    refine ⟨?_, hno (h + 1) le_rfl⟩
    rcases Nat.lt_or_ge h j with hlt | hle
    · obtain rfl : j = h + 1 := by omega
      exact .inr hd
    · exact .inl ⟨⟨j, hle, hd⟩, fun k hk => hno k (by omega)⟩
  · rintro ⟨hpend | hd, hno⟩
    · obtain ⟨⟨j, hj, hd⟩, hnone⟩ := hpend
      refine ⟨⟨j, by omega, hd⟩, fun k hk => ?_⟩
      rcases Nat.lt_or_ge h k with hlt | hle
      · obtain rfl : k = h + 1 := by omega
        exact hno
      · exact hnone k hle
    · refine ⟨⟨h + 1, le_rfl, hd⟩, fun k hk hconf => ?_⟩
      -- a confirm of the new send is not below it
      have hle := hc.order (h + 1) htop k (by omega) d hd hconf
      obtain rfl : k = h + 1 := by omega
      exact hno hconf

theorem prevConfirmed_iff :
    PrevConfirmed chain (h + 1) ↔ ∀ d, Unconfirmed chain h d → d ∈ (chain (h + 1)).confirms := by
  constructor
  · rintro hprev d ⟨⟨j, hj, hsent⟩, hno⟩
    obtain ⟨k, hk, hconf⟩ := hprev j (by omega) d hsent
    rcases Nat.lt_or_ge h k with hlt | hle
    · obtain rfl : k = h + 1 := by omega
      exact hconf
    · exact absurd hconf (hno k hle)
  · intro hall j hj d hsent
    by_contra hnone
    push Not at hnone
    exact hnone (h + 1) le_rfl (hall d ⟨⟨j, by omega, hsent⟩, fun k hk => hnone k (by omega)⟩)

section
variable (hc : CommittedUnits chain top) (hpos : 1 ≤ h)
include hc hpos

theorem CommittedUnits.not_unconfirmed_full
    (htop : h ≤ top) (hfull : chain h = .full) (d : δ) : ¬ Unconfirmed chain h d := by
  obtain ⟨k, rfl⟩ := Nat.exists_eq_add_of_le' hpos
  intro hd
  rw [hc.unconfirmed_succ htop, hfull] at hd
  rcases hd.1 with hd | hd
  · exact hc.full k htop hfull d hd
  · cases hd

theorem CommittedUnits.light_below
    (htop : h + 1 ≤ top) (hnot : ¬ PrevConfirmed chain (h + 1)) : ∃ l, chain h = .light l := by
  cases hbody : chain h with
  | light l => exact ⟨l, rfl⟩
  | nil => exact absurd hbody (hc.not_nil h hpos (by omega))
  | full =>
    have hnone := hc.not_unconfirmed_full hpos (by omega) hbody
    exact absurd (prevConfirmed_iff.mpr fun d hd => absurd hd (hnone d)) hnot

end

section
variable [DecidableEq δ] (chain)

def accountNum : Nat → UInt16
  | 0 => 0
  | h + 1 =>
    match chain (h + 1) with
    | .light l => l.unconfirmSendtxNum
    | _ => accountNum h

def pending : Nat → List δ
  | 0 => []
  | h + 1 => (pending h ++ (chain (h + 1)).sends).filter (· ∉ (chain (h + 1)).confirms)

/-- Units are made one on the other, and transactions sent once and confirmed once. -/
structure MadeUnits (top : Nat) : Prop where
  made : ∀ h l, h + 1 ≤ top → chain (h + 1) = .light l → l = .make (accountNum chain h) l.txs
  fresh : ∀ h, h + 1 ≤ top → (pending chain h ++ (chain (h + 1)).sends).Nodup
  confirmed : ∀ h, h + 1 ≤ top → (chain (h + 1)).confirms.Nodup ∧
    ∀ d ∈ (chain (h + 1)).confirms, d ∈ pending chain h

variable {chain}

theorem OrderedUnits.mem_pending (hc : OrderedUnits chain top) (htop : h ≤ top) (d : δ) :
    d ∈ pending chain h ↔ Unconfirmed chain h d := by
  induction h with
  | zero => simp [pending, hc.not_unconfirmed_zero d]
  | succ h ih =>
    rw [hc.unconfirmed_succ htop, ← ih (by omega), pending, mem_filter, mem_append,
      decide_eq_true_iff]

theorem length_filter_notMem {l m : List δ} (hl : l.Nodup) (hm : m.Nodup)
    (hsub : ∀ d ∈ m, d ∈ l) : (l.filter (· ∉ m)).length + m.length = l.length := by
  have hperm : (l.filter (· ∈ m)).Perm m := by
    refine (perm_ext_iff_of_nodup (hl.filter _) hm).mpr fun d => ?_
    simpa using hsub d
  have hsplit := length_eq_length_filter_add (l := l) (decide <| · ∈ m)
  simp only [← decide_not] at hsplit
  rw [hsplit, hperm.length_eq, Nat.add_comm]

section
variable (hm : MadeUnits chain top)
include hm

theorem MadeUnits.length_pending (htop : h + 1 ≤ top) :
    (pending chain (h + 1)).length + (chain (h + 1)).confirms.length =
      (pending chain h).length + (chain (h + 1)).sends.length := by
  obtain ⟨hnodup, hsub⟩ := hm.confirmed h htop
  have hlen := length_filter_notMem (hm.fresh h htop) hnodup
    fun d hd => mem_append_left _ (hsub d hd)
  rw [length_append] at hlen
  exact hlen

theorem MadeUnits.confirms_le (htop : h + 1 ≤ top) :
    (chain (h + 1)).confirms.length ≤ (pending chain h).length :=
  ((hm.confirmed h htop).1.subperm (hm.confirmed h htop).2).length_le

theorem MadeUnits.accountNum_eq (htop : h ≤ top) :
    accountNum chain h = UInt16.ofNat (pending chain h).length := by
  induction h with
  | zero => rfl
  | succ h ih =>
    have hlen := hm.length_pending htop
    have hle := hm.confirms_le htop
    rw [accountNum]
    cases hbody : chain (h + 1) with
    | light l =>
      rw [hbody] at hlen hle
      simp only [UnitBody.confirms, UnitBody.sends] at hlen hle
      have hsum : (pending chain (h + 1)).length =
          (pending chain h).length - l.confirms.length + l.sends.length := by omega
      rw [hsum, UInt16.ofNat_add, UInt16.ofNat_sub hle, ← ih (by omega), hm.made h l htop hbody]
      rfl
    | nil =>
      rw [hbody] at hlen
      exact (ih (by omega)).trans (congrArg UInt16.ofNat hlen.symm)
    | full =>
      rw [hbody] at hlen
      exact (ih (by omega)).trans (congrArg UInt16.ofNat hlen.symm)

end

theorem ofNat_eq_zero {n : Nat} (hn : n < 65536) : UInt16.ofNat n = 0 ↔ n = 0 := by
  rw [UInt16.ofNat_eq_iff_mod_eq_toNat, UInt16.toNat_zero]
  omega

section
variable (hc : OrderedUnits chain top) (hm : MadeUnits chain top)
  (hfew : ∀ h ≤ top, (pending chain h).length < 65536)
include hc hm hfew

theorem MadeUnits.numberExact : NumberExact chain top := by
  intro h l hpos htop hl hzero d hd
  have hnum := hm.accountNum_eq htop
  obtain ⟨k, rfl⟩ := Nat.exists_eq_add_of_le' hpos
  rw [accountNum, hl] at hnum
  have hnil := (ofNat_eq_zero (hfew _ htop)).mp (hnum.symm.trans hzero)
  rw [← hc.mem_pending htop, length_eq_zero_iff.mp hnil] at hd
  cases hd

theorem MadeUnits.flag_iff (hpos : 1 ≤ h) (htop : h ≤ top) (hl : chain h = .light l) :
    l.prevSendtxConfirmed = true ↔ PrevConfirmed chain h := by
  obtain ⟨h, rfl⟩ := Nat.exists_eq_add_of_le' hpos
  obtain ⟨hnodup, hsub⟩ := hm.confirmed h htop
  have hlen := length_filter_notMem (hm.fresh h htop).of_append_left hnodup hsub
  have hle := hm.confirms_le htop
  have hlt := hfew h (by omega)
  have hflag : l.prevSendtxConfirmed = true ↔
      UInt16.ofNat ((pending chain h).length - (chain (h + 1)).confirms.length) = 0 := by
    rw [UInt16.ofNat_sub hle, ← hm.accountNum_eq (by omega), hl, hm.made h l htop hl]
    exact decide_eq_true_iff
  rw [hflag, ofNat_eq_zero (by omega), prevConfirmed_iff]
  simp only [← hc.mem_pending (by omega : h ≤ top)]
  have hnil : (pending chain h).length - (chain (h + 1)).confirms.length = 0 ↔
      (pending chain h).filter (· ∉ (chain (h + 1)).confirms) = [] := by
    rw [← length_eq_zero_iff]
    omega
  rw [hnil, filter_eq_nil_iff]
  simp

end
end

theorem mapM_createTxreceipt (hu : u.extended = true) (txs : List (UnitTx δ)) :
    txs.mapM u.createTxreceipt = some (txs.map fun tx => ⟨tx.digest, u.height⟩) := by
  induction txs with
  | nil => rfl
  | cons tx txs ih => simp [ih, AccountUnit.createTxreceipt, hu]

section
variable [LinearOrder δ]

namespace AccountCache

def Exact (chain : Nat → UnitBody δ) (h : Nat) (c : AccountCache δ) : Prop :=
  ∀ d, c.hasTxhashReceipt d = true ↔ Unconfirmed chain h d

theorem hasTxhashReceipt_push (c : AccountCache δ) (r : SendReceipt δ) (d : δ) :
    (c.pushReceipt r).hasTxhashReceipt d = true ↔ c.hasTxhashReceipt d = true ∨ d = r.digest := by
  unfold hasTxhashReceipt pushReceipt SortedMap.emplace
  by_cases hd : d = r.digest
  · subst hd
    cases hfind : c.receipts.find? r.digest with
    | none => simp
    | some v => simp [hfind]
  · cases hfind : c.receipts.find? r.digest with
    | none => simp [find?_insert_of_ne _ _ hd, hd]
    | some v => simp [hd]

theorem hasTxhashReceipt_pop (c : AccountCache δ) (txhash d : δ) :
    (c.popReceipt txhash).hasTxhashReceipt d = true ↔ c.hasTxhashReceipt d = true ∧ d ≠ txhash := by
  unfold hasTxhashReceipt popReceipt
  rw [find?_erase]
  by_cases hd : d = txhash <;> simp [hd]

theorem hasTxhashReceipt_foldl_push (rs : List (SendReceipt δ)) (c : AccountCache δ) (d : δ) :
    (rs.foldl pushReceipt c).hasTxhashReceipt d = true ↔
      c.hasTxhashReceipt d = true ∨ d ∈ rs.map (·.digest) := by
  induction rs generalizing c with
  | nil => simp
  | cons r rs ih => rw [foldl_cons, ih, hasTxhashReceipt_push, map_cons, mem_cons, or_assoc]

theorem hasTxhashReceipt_foldl_pop (ds : List δ) (c : AccountCache δ) (d : δ) :
    (ds.foldl popReceipt c).hasTxhashReceipt d = true ↔ c.hasTxhashReceipt d = true ∧ d ∉ ds := by
  induction ds generalizing c with
  | nil => simp
  | cons e ds ih => rw [foldl_cons, ih, hasTxhashReceipt_pop, mem_cons, not_or, and_assoc]

end AccountCache

theorem updateByUnit_light (hbody : u.body = .light l) (hext : u.extended = true)
    (c : AccountCache δ) :
    ∃ c', AccountCache.updateByUnit u c = some c' ∧ c'.cacheMaxHeight = u.height ∧
      ∀ d, c'.hasTxhashReceipt d = true ↔
        (c.hasTxhashReceipt d = true ∨ d ∈ l.sends) ∧ d ∉ l.confirms := by
  have hcreate : u.createSendTxreceipts l.txs = some _ := mapM_createTxreceipt hext _
  refine ⟨{ l.confirms.foldl popReceipt (((l.txs.filter (·.subtype = .send)).map
      fun tx => ⟨tx.digest, u.height⟩).foldl pushReceipt c) with
      cacheMaxHeight := u.height }, ?_, rfl, fun d => ?_⟩
  · simp [updateByUnit, hbody, hcreate]
  · have hsends : d ∈ l.sends ↔ d ∈ ((l.txs.filter (·.subtype = .send)).map
        fun tx => (⟨tx.digest, u.height⟩ : SendReceipt δ)).map (·.digest) := by
      rw [map_map]
      rfl
    rw [hsends, ← hasTxhashReceipt_foldl_push, ← hasTxhashReceipt_foldl_pop]
    rfl

variable {c : AccountCache δ}

/-- Only what the cache holds of sends that the unit does not confirm has to be right. -/
theorem updateByUnit_next (hc : CommittedUnits chain top) (htop : h + 1 ≤ top)
    (hh : u.height = h + 1) (hbody : u.body = chain (h + 1)) (hext : u.extended = true)
    (hl : chain (h + 1) = .light l)
    (hexact : ∀ d ∉ (chain (h + 1)).confirms,
      (c.hasTxhashReceipt d = true ↔ Unconfirmed chain h d)) :
    ∃ c', AccountCache.updateByUnit u c = some c' ∧ c'.cacheMaxHeight = h + 1 ∧
      c'.Exact chain (h + 1) := by
  obtain ⟨c', hrun, hmax, hhas⟩ := updateByUnit_light (hbody.trans hl) hext c
  refine ⟨c', hrun, hmax.trans hh, fun d => ?_⟩
  rw [hl] at hexact
  rw [hhas, hc.unconfirmed_succ htop, hl]
  exact and_congr_left fun hd => or_congr_left (hexact d hd)

/-- What the store answers is the committed chain of units, up to `top`. -/
structure UnitStore.Agrees (chain : Nat → UnitBody δ) (top : Nat) (S : UnitStore δ) : Prop where
  latest : ∀ u, S.latestCommittedBlock = some u → 1 ≤ u.height →
    u.height ≤ top ∧ u.body = chain u.height ∧ u.extended = true
  loaded : ∀ u, S.latestCommittedBlock = some u → ∀ h, 1 ≤ h → h < u.height →
    ∃ b, S.loadBlockObject h = some b ∧ b.height = h ∧ b.body = chain h ∧ b.extended = true

section
variable (hc : CommittedUnits chain top) {S : UnitStore δ}
include hc

theorem traverse_spec {m : Nat} (h : Nat)
    (u : AccountUnit δ) (hh : u.height = h) (hbody : u.body = chain h)
    (hext : u.extended = true) (hlt : m < h) (htop : h ≤ top) (hlight : ∃ l, chain h = .light l)
    (hload : ∀ k, 1 ≤ k → k < h →
      ∃ b, S.loadBlockObject k = some b ∧ b.height = k ∧ b.body = chain k ∧ b.extended = true) :
    ∃ units b, S.traverseAndGetUnconfirmUnits m h u = some units ∧ units.getLast? = some b ∧
      m < b.height ∧ ∀ c : AccountCache δ, (b.height = m + 1 → c.Exact chain m) →
        (b.height ≠ m + 1 → ∀ d, ¬ c.hasTxhashReceipt d = true) →
        ∃ c', units.foldrM AccountCache.updateByUnit c = some c' ∧ c'.cacheMaxHeight = h ∧
          c'.Exact chain h := by
  induction h generalizing u with
  | zero => omega
  | succ h ih =>
    obtain ⟨l, hl⟩ := hlight
    have hflag := hc.flag (h + 1) l (by omega) htop hl
    by_cases hstop : l.prevSendtxConfirmed = true ∨ h = m
    · refine ⟨[u], u, ?_, rfl, by omega, fun c hnext hgap => ?_⟩
      · rw [UnitStore.traverseAndGetUnconfirmUnits]
        simp only [hbody, hl, hh]
        rw [if_pos]
        simp only [Bool.or_eq_true, decide_eq_true_eq]
        exact hstop.imp id fun hm => by omega
      · simp only [foldrM_cons, foldrM_nil, pure_bind]
        by_cases hm : h = m
        · subst hm
          exact updateByUnit_next hc htop hh hbody hext hl fun d _ => hnext hh d
        · have hprev := prevConfirmed_iff.mp (hflag.mp (hstop.resolve_right hm))
          exact updateByUnit_next hc htop hh hbody hext hl fun d hd =>
            iff_of_false (hgap (by omega) d) (hd ∘ hprev d)
    · obtain ⟨hunflagged, hne⟩ := not_or.mp hstop
      have hpos : 1 ≤ h := by omega
      have hbelow := hc.light_below hpos htop (fun hprev => hunflagged (hflag.mpr hprev))
      obtain ⟨prev, hprev, hph, hpb, hpe⟩ := hload h hpos (by omega)
      obtain ⟨units, b, hwalk, hlast, hmb, hreplay⟩ := ih prev hph hpb hpe (by omega) (by omega)
        hbelow (fun k h1 h2 => hload k h1 (by omega))
      refine ⟨u :: units, b, ?_, ?_, hmb, fun c hnext hgap => ?_⟩
      · rw [UnitStore.traverseAndGetUnconfirmUnits]
        simp only [hbody, hl, hh]
        rw [if_neg]
        · simp [hprev, hwalk]
        · simp only [Bool.or_eq_true, decide_eq_true_eq]
          rintro (hset | hle)
          · exact hunflagged hset
          · omega
      · rw [List.getLast?_cons, hlast]
        rfl
      · obtain ⟨c', hrun, -, hexact⟩ := hreplay c hnext hgap
        rw [foldrM_cons, hrun]
        exact updateByUnit_next hc htop hh hbody hext hl fun d _ => hexact d

theorem updateCache_spec (hS : S.Agrees chain top) (hu : S.latestCommittedBlock = some u)
    (hlight : ∃ l, chain u.height = .light l) (hexact : c.Exact chain c.cacheMaxHeight)
    (hlt : c.cacheMaxHeight < u.height) :
    ∃ c', S.updateCache c u = some c' ∧ c'.cacheMaxHeight = u.height ∧ c'.Exact chain u.height := by
  obtain ⟨htop, hbody, hext⟩ := hS.latest u hu (by omega)
  obtain ⟨units, b, hwalk, hlast, hmb, hreplay⟩ := traverse_spec hc (S := S) u.height u rfl hbody
    hext hlt htop hlight (fun k h1 h2 => hS.loaded u hu k h1 h2)
  unfold UnitStore.updateCache traverseUnitsAndUpdateReceiptCache
  rw [hwalk]
  simp only [Option.bind_eq_bind, Option.bind_some, hlast]
  split_ifs with hgap
  · refine hreplay _ (fun hb => ?_) (fun _ d hd => ?_)
    · simp only [Bool.and_eq_true, decide_eq_true_eq] at hgap
      omega
    · cases hd
  · refine hreplay c (fun _ => hexact) (fun hb d hd => ?_)
    -- a gap is left over only by a cache that has seen nothing
    have hzero : c.cacheMaxHeight = 0 := by
      simp only [Bool.and_eq_true, decide_eq_true_eq, not_and, not_lt] at hgap
      by_contra hne
      have := hgap hne
      omega
    rw [hexact d, hzero] at hd
    exact hc.not_unconfirmed_zero d hd

end

def UpdateResult.observes : UpdateResult → Bool
  | .success => true
  | .notExist => true
  | _ => false

namespace UnconfirmCache

/-- What is held of an account is what is unconfirmed at a height, and a cache that exists has
come to that height. -/
structure ExactAt (chain : Nat → UnitBody δ) (h : Nat) (c : UnconfirmCache δ)
    (address : String) : Prop where
  holds : ∀ d, c.Holds address d ↔ Unconfirmed chain h d
  height : ∀ account, c.accountsCache.find? address = some account → account.cacheMaxHeight = h

section
variable {c : UnconfirmCache δ} {address : String} {account : AccountCache δ}

theorem exactAt_of_none (hfind : c.accountsCache.find? address = none)
    (hnone : ∀ d, ¬ Unconfirmed chain h d) : c.ExactAt chain h address where
  holds d := by simp [Holds, hfind, hnone d]
  height account hacc := by
    rw [hfind] at hacc
    cases hacc

theorem holds_of_find (hfind : c.accountsCache.find? address = some account) (d : δ) :
    c.Holds address d ↔ account.hasTxhashReceipt d = true := by
  simp [Holds, hfind]

theorem exactAt_setAccountCache (hexact : account.Exact chain h)
    (hmax : account.cacheMaxHeight = h) :
    (c.setAccountCache address account).ExactAt chain h address := by
  have hfind : (c.setAccountCache address account).accountsCache.find? address = some account :=
    find?_insert_self _ _ _
  refine ⟨fun d => (holds_of_find hfind d).trans (hexact d), fun account' hacc => ?_⟩
  rw [hfind] at hacc
  obtain rfl := Option.some.inj hacc
  exact hmax

theorem findAndCreateAccountCache_exact (hc : CommittedUnits chain top)
    (hcache : c.ExactAt chain h address) (accountHeight : Nat) :
    (c.findAndCreateAccountCache address accountHeight).Exact chain
      (c.findAndCreateAccountCache address accountHeight).cacheMaxHeight ∧
    (c.findAndCreateAccountCache address accountHeight).cacheMaxHeight ≤ h := by
  unfold findAndCreateAccountCache
  cases hfind : c.accountsCache.find? address with
  | none =>
    refine ⟨fun d => ⟨fun hd => ?_, fun hd => absurd hd (hc.not_unconfirmed_zero d)⟩, Nat.zero_le h⟩
    cases hd
  | some account =>
    have hmax := hcache.height account hfind
    refine ⟨fun d => ?_, hmax.le⟩
    show account.hasTxhashReceipt d = true ↔ Unconfirmed chain account.cacheMaxHeight d
    rw [hmax, ← hcache.holds d, holds_of_find hfind]

end

/-- A call does nothing, or brings the account up to the latest committed unit. -/
structure Checked (chain : Nat → UnitBody δ) (S : UnitStore δ) (address : String)
    (c c' : UnconfirmCache δ) (r : UpdateResult) : Prop where
  idle : r.observes = false → c' = c
  exactAt : r.observes = true → ∃ u, S.latestCommittedBlock = some u ∧
    c'.ExactAt chain u.height address
  frame : ∀ a ≠ address, c'.accountsCache.find? a = c.accountsCache.find? a

section
variable {S : UnitStore δ} {c : UnconfirmCache δ} {address : String} {u : AccountUnit δ}

theorem checked_idle {r : UpdateResult} (hr : r.observes = false) : Checked chain S address c c r :=
  ⟨fun _ => rfl, fun h => absurd h (by rw [hr]; decide), fun _ _ => rfl⟩

theorem checked_clear (hu : S.latestCommittedBlock = some u)
    (hnone : ∀ d, ¬ Unconfirmed chain u.height d) :
    Checked chain S address c (c.clearAccountCache address) .notExist :=
  ⟨fun h => absurd h (by decide), fun _ => ⟨u, hu, exactAt_of_none (find?_erase_self _ _) hnone⟩,
    fun _ ha => find?_erase_of_ne _ ha⟩

theorem checked_set (hu : S.latestCommittedBlock = some u) {account : AccountCache δ}
    (hexact : account.Exact chain u.height) (hmax : account.cacheMaxHeight = u.height) :
    Checked chain S address c (c.setAccountCache address account) .success :=
  ⟨fun h => absurd h (by decide), fun _ => ⟨u, hu, exactAt_setAccountCache hexact hmax⟩,
    fun _ ha => find?_insert_of_ne _ _ ha⟩

theorem checkAndUpdateCache_spec (hc : CommittedUnits chain top) (hnum : NumberExact chain top)
    (hS : S.Agrees chain top) (hcache : c.ExactAt chain h address)
    (hle : ∀ u, S.latestCommittedBlock = some u → h ≤ u.height) (unitHeight : Nat) :
    ∃ c' r, c.checkAndUpdateCache S address unitHeight = some (c', r) ∧
      Checked chain S address c c' r := by
  unfold checkAndUpdateCache
  cases hu : S.latestCommittedBlock with
  | none => exact ⟨c, _, rfl, checked_idle rfl⟩
  | some u =>
    dsimp only
    split
    · exact ⟨c, _, rfl, checked_idle rfl⟩
    next hbehind =>
      have hpos : 1 ≤ u.height := by
        simp only [Bool.or_eq_true, decide_eq_true_eq, not_or] at hbehind
        omega
      obtain ⟨htop, hbody, -⟩ := hS.latest u hu hpos
      obtain ⟨hexact, hmax⟩ := findAndCreateAccountCache_exact hc hcache u.height
      split
      · exact ⟨c, _, rfl, checked_idle rfl⟩
      · rw [hbody]
        cases hl : chain u.height with
        | nil => exact absurd hl (hc.not_nil u.height hpos htop)
        | full => exact ⟨_, _, rfl, checked_clear hu (hc.not_unconfirmed_full hpos htop hl)⟩
        | light l =>
          dsimp only
          split_ifs with hzero hsame
          · exact ⟨_, _, rfl, checked_clear hu (hnum u.height l hpos htop hl hzero)⟩
          · rw [hsame] at hexact
            exact ⟨_, _, rfl, checked_set hu hexact hsame⟩
          · have hlt := lt_of_le_of_ne (hmax.trans (hle u hu)) hsame
            obtain ⟨account, hrun, hmax', hexact'⟩ := updateCache_spec hc hS hu ⟨l, hl⟩ hexact hlt
            rw [hrun]
            exact ⟨_, _, rfl, checked_set hu hexact' hmax'⟩

end
end UnconfirmCache

/-- The cache with the height at which each account was last seen. -/
structure UnconfirmNode (δ : Type) [LinearOrder δ] where
  cache : UnconfirmCache δ := {}
  observed : String → Nat := fun _ => 0

inductive UnconfirmEvent (δ : Type) where
  | check (store : UnitStore δ) (address : String) (unitHeight : Nat)
  | clear

def UnitStore.latestHeight (S : UnitStore δ) : Nat :=
  (S.latestCommittedBlock.map (·.height)).getD 0

def UnconfirmNode.step (n : UnconfirmNode δ) :
    UnconfirmEvent δ → UnconfirmNode δ × List (Option UpdateResult)
  | .check S address unitHeight =>
    match n.cache.checkAndUpdateCache S address unitHeight with
    | none => (n, [none])
    | some (cache, r) =>
      ({ cache
         observed := if r.observes then Function.update n.observed address S.latestHeight
          else n.observed }, [some r])
  | .clear => ({}, [])

/-- The store is of the committed chains and has not lost blocks that were seen before. -/
def UnconfirmEvent.Agrees (chains : String → Nat → UnitBody δ) (tops : String → Nat)
    (n : UnconfirmNode δ) : UnconfirmEvent δ → Prop
  | .check S address _ => S.Agrees (chains address) (tops address) ∧
    n.observed address ≤ S.latestHeight
  | .clear => True

theorem exactAt_empty (hc : CommittedUnits chain top) (address : String) :
    ({} : UnconfirmCache δ).ExactAt chain 0 address :=
  UnconfirmCache.exactAt_of_none rfl hc.not_unconfirmed_zero

theorem UnconfirmCache.ExactAt.congr {c c' : UnconfirmCache δ} {address : String}
    (hcache : c.ExactAt chain h address)
    (hfind : c'.accountsCache.find? address = c.accountsCache.find? address) :
    c'.ExactAt chain h address := by
  refine ⟨fun d => ?_, fun account hacc => hcache.height account (hfind ▸ hacc)⟩
  rw [← hcache.holds d]
  unfold UnconfirmCache.Holds
  rw [hfind]

section
variable {chains : String → Nat → UnitBody δ} {tops : String → Nat}

theorem step_exactAt (hc : ∀ a, CommittedUnits (chains a) (tops a))
    (hnum : ∀ a, NumberExact (chains a) (tops a)) (n : UnconfirmNode δ) (e : UnconfirmEvent δ)
    (hn : ∀ a, n.cache.ExactAt (chains a) (n.observed a) a) (he : e.Agrees chains tops n) :
    (∀ a, (n.step e).1.cache.ExactAt (chains a) ((n.step e).1.observed a) a) ∧
      ∀ o ∈ (n.step e).2, o ≠ none := by
  cases e with
  | clear => exact ⟨fun a => exactAt_empty (hc a) a, fun o ho => by cases ho⟩
  | check S address unitHeight =>
    obtain ⟨hS, hle⟩ := he
    obtain ⟨c', r, hrun, hchecked⟩ := UnconfirmCache.checkAndUpdateCache_spec (hc address)
      (hnum address) hS (hn address) (fun u hu => by simpa [UnitStore.latestHeight, hu] using hle)
      unitHeight
    have hstep : n.step (.check S address unitHeight) =
        ({ cache := c'
           observed := if r.observes then Function.update n.observed address S.latestHeight
            else n.observed }, [some r]) := by
      rw [UnconfirmNode.step, hrun]
    rw [hstep]
    refine ⟨fun a => ?_, fun o ho => by simp_all⟩
    cases hr : r.observes with
    | false =>
      rw [hchecked.idle hr]
      exact hn a
    | true =>
      obtain ⟨u, hu, hexact⟩ := hchecked.exactAt hr
      by_cases ha : a = address
      · subst ha
        simpa [UnitStore.latestHeight, hu] using hexact
      · simpa [ha] using (hn a).congr (hchecked.frame a ha)

end

/-- What is held of an account are its unconfirmed sends at the height it was last brought up to, as
long as no account goes back to an older unit. An update of an empty cache there holds the same. -/
theorem unconfirm_cache_is_recomputed (chains : String → Nat → UnitBody δ)
    (tops : String → Nat) (hc : ∀ a, CommittedUnits (chains a) (tops a))
    (hnum : ∀ a, NumberExact (chains a) (tops a)) (es : List (UnconfirmEvent δ))
    (hes : Run.Meets UnconfirmNode.step (UnconfirmEvent.Agrees chains tops) {} es)
    (address : String) :
    let n := (Run.run UnconfirmNode.step {} es).1
    (∀ o ∈ (Run.run UnconfirmNode.step {} es).2, o ≠ none) ∧
    (∀ d, n.cache.Holds address d ↔ Unconfirmed (chains address) (n.observed address) d) ∧
    ∀ S : UnitStore δ, S.Agrees (chains address) (tops address) →
      S.latestHeight = n.observed address →
      ∃ c r, ({} : UnconfirmCache δ).checkAndUpdateCache S address 0 = some (c, r) ∧
        (r.observes = true → ∀ d, c.Holds address d ↔ n.cache.Holds address d) := by
  intro n
  obtain ⟨hexact, hout⟩ := Run.run_inv
    (I := fun n : UnconfirmNode δ => ∀ a, n.cache.ExactAt (chains a) (n.observed a) a)
    (P := fun o => o ≠ none) (step_exactAt hc hnum) (fun a => exactAt_empty (hc a) a) es hes
  refine ⟨hout, (hexact address).holds, fun S hS hlatest => ?_⟩
  obtain ⟨c, r, hrun, hchecked⟩ := UnconfirmCache.checkAndUpdateCache_spec (hc address)
    (hnum address) hS (exactAt_empty (hc address) address) (fun _ _ => Nat.zero_le _) 0
  refine ⟨c, r, hrun, fun hr d => ?_⟩
  obtain ⟨u, hu, hat⟩ := hchecked.exactAt hr
  have hheight : u.height = n.observed address := by
    rw [← hlatest, UnitStore.latestHeight, hu]
    rfl
  rw [hat.holds d, (hexact address).holds d, hheight]

end

def sampleUnits : Nat → UnitBody Nat
  | 1 => .light (.make 0 [⟨.send, 7⟩])
  | 2 => .light (.make 1 [⟨.confirm, 7⟩, ⟨.send, 8⟩])
  | 3 => .light (.make 1 [⟨.confirm, 8⟩])
  | 4 => .full
  | 5 => .light (.make 0 [⟨.send, 9⟩])
  | _ => .nil

theorem sampleUnits_ordered : OrderedUnits sampleUnits 5 := ⟨rfl, by decide⟩

theorem sampleUnits_made : MadeUnits sampleUnits 5 where
  made h l htop hl := by
    have hlt : h < 5 := htop
    interval_cases h <;> cases hl <;> rfl
  fresh h htop := by
    have hlt : h < 5 := htop
    interval_cases h <;> decide
  confirmed h htop := by
    have hlt : h < 5 := htop
    interval_cases h <;> decide

theorem sampleUnits_few : ∀ h ≤ 5, (pending sampleUnits h).length < 65536 := by decide

theorem sampleUnits_committed : CommittedUnits sampleUnits 5 where
  toOrderedUnits := sampleUnits_ordered
  not_nil h hpos htop := by interval_cases h <;> intro hnil <;> cases hnil
  flag h l hpos htop hl :=
    sampleUnits_made.flag_iff sampleUnits_ordered sampleUnits_few hpos htop hl
  full h htop hfull d hd := by
    rw [← sampleUnits_ordered.mem_pending (by omega)] at hd
    have hlt : h < 5 := htop
    interval_cases h <;> cases hfull
    cases hd

def storeUpTo (chain : Nat → UnitBody Nat) (h : Nat) : UnitStore Nat where
  latestCommittedBlock := some ⟨h, true, true, true, chain h⟩
  loadBlockObject k := some ⟨k, true, true, true, chain k⟩

theorem storeUpTo_agrees (chain : Nat → UnitBody Nat) {top : Nat} (htop : h ≤ top) :
    (storeUpTo chain h).Agrees chain top where
  latest u hu _ := by
    obtain rfl := Option.some.inj hu
    exact ⟨htop, rfl, rfl⟩
  loaded _ _ k _ _ := ⟨⟨k, true, true, true, chain k⟩, rfl, rfl, rfl, rfl⟩

theorem unconfirm_cache_is_recomputed_sample :
    let n := (Run.run UnconfirmNode.step {} [.check (storeUpTo sampleUnits 2) "account" 0,
      .check (storeUpTo sampleUnits 5) "account" 5]).1
    n.observed "account" = 5 ∧
    ∀ d, n.cache.Holds "account" d ↔ Unconfirmed sampleUnits (n.observed "account") d :=
  ⟨by decide, (unconfirm_cache_is_recomputed (fun _ => sampleUnits) (fun _ => 5)
    (fun _ => sampleUnits_committed)
    (fun _ => sampleUnits_made.numberExact sampleUnits_ordered sampleUnits_few)
    [.check (storeUpTo sampleUnits 2) "account" 0, .check (storeUpTo sampleUnits 5) "account" 5]
    ⟨⟨storeUpTo_agrees sampleUnits (by decide), by decide⟩,
      ⟨storeUpTo_agrees sampleUnits (by decide), by decide⟩, trivial⟩ "account").2.1⟩

def sendUnits : Nat → UnitBody Nat
  | 0 => .nil
  | h + 1 => .light (.make (UInt16.ofNat h) [⟨.send, h + 1⟩])

theorem sendUnits_confirms (h : Nat) : (sendUnits h).confirms = [] := by
  cases h <;> rfl

theorem sendUnits_accountNum (h : Nat) : accountNum sendUnits h = UInt16.ofNat h := by
  cases h with
  | zero => rfl
  | succ h =>
    rw [UInt16.ofNat_add, ← UInt16.sub_zero (UInt16.ofNat h)]
    rfl

theorem sendUnits_succ (h : Nat) :
    sendUnits (h + 1) = .light (.make (accountNum sendUnits h) [⟨.send, h + 1⟩]) := by
  rw [sendUnits_accountNum]
  rfl

theorem sendUnits_unconfirmed : Unconfirmed sendUnits 65536 1 := by
  refine ⟨⟨1, by decide, mem_cons_self⟩, fun k _ hconf => ?_⟩
  rw [sendUnits_confirms] at hconf
  cases hconf

theorem sendUnits_prevConfirmed (h : Nat) : PrevConfirmed sendUnits (h + 1) ↔ h = 0 := by
  constructor
  · intro hprev
    by_contra hne
    obtain ⟨k, -, hconf⟩ := hprev 1 (by omega) 1 mem_cons_self
    rw [sendUnits_confirms] at hconf
    cases hconf
  · rintro rfl j hj d hd
    obtain rfl : j = 0 := by omega
    cases hd

theorem sendUnits_ordered (top : Nat) : OrderedUnits sendUnits top where
  genesis := rfl
  order j _ k _ d _ hconf := by
    rw [sendUnits_confirms] at hconf
    cases hconf

theorem sendUnits_committed : CommittedUnits sendUnits 65536 where
  toOrderedUnits := sendUnits_ordered 65536
  not_nil h hpos _ := by
    obtain ⟨h, rfl⟩ := Nat.exists_eq_add_of_le' hpos
    exact fun hnil => by cases hnil
  flag h l hpos htop hl := by
    obtain ⟨h, rfl⟩ := Nat.exists_eq_add_of_le' hpos
    cases hl
    rw [sendUnits_prevConfirmed, ← ofNat_eq_zero (by omega : h < 65536)]
    exact decide_eq_true_iff.trans (by simp [LightUnit.ofSubtype])
  full h _ hfull := by cases hfull

theorem unconfirmed_sends_dropped :
    let n := (Run.run UnconfirmNode.step {} [.check (storeUpTo sendUnits 65536) "account" 0]).1
    CommittedUnits sendUnits 65536 ∧
    (∀ h, sendUnits (h + 1) = .light (.make (accountNum sendUnits h) [⟨.send, h + 1⟩])) ∧
    Run.Meets UnconfirmNode.step (UnconfirmEvent.Agrees (fun _ => sendUnits) fun _ => 65536) {}
      [.check (storeUpTo sendUnits 65536) "account" 0] ∧
    n.observed "account" = 65536 ∧ Unconfirmed sendUnits 65536 1 ∧
    ¬ n.cache.Holds "account" 1 := by
  intro n
  have hn : n = { cache := ({} : UnconfirmCache Nat).clearAccountCache "account"
                  observed := Function.update (fun _ => 0) "account" 65536 } := by
    show (UnconfirmNode.step {} (.check (storeUpTo sendUnits 65536) "account" 0)).1 = _
    rfl
  refine ⟨sendUnits_committed, sendUnits_succ,
    ⟨⟨storeUpTo_agrees sendUnits le_rfl, Nat.zero_le _⟩, trivial⟩, ?_, sendUnits_unconfirmed, ?_⟩
  · rfl
  · rintro ⟨account, hacc, -⟩
    cases hacc

section
variable [DecidableEq δ] (chain)

def sentUpTo : Nat → Nat
  | 0 => 0
  | h + 1 => sentUpTo h + (chain (h + 1)).sends.length

def confirmedUpTo : Nat → Nat
  | 0 => 0
  | h + 1 => confirmedUpTo h + (chain (h + 1)).confirms.length

/-- `can_make_full_unit`, with the number that the account state has. -/
def canMakeFullUnit (fullUnitCount currentHeight fullunitHeight : Nat)
    (accountNum : UInt16) : Bool :=
  fullUnitCount ≤ currentHeight - fullunitHeight && accountNum = 0

variable {chain}

theorem MadeUnits.pending_add_confirmed (hm : MadeUnits chain top) (htop : h ≤ top) :
    (pending chain h).length + confirmedUpTo chain h = sentUpTo chain h := by
  induction h with
  | zero => rfl
  | succ h ih =>
    have hlen := hm.length_pending htop
    have hbefore := ih (by omega)
    simp only [confirmedUpTo, sentUpTo]
    omega

/-- While fewer than 2^16 sends are unconfirmed, the number of a light unit is exact, its flag says
whether all sent before is confirmed, and a full unit is made only when nothing is pending. -/
theorem unconfirm_counters_exact (hc : OrderedUnits chain top) (hm : MadeUnits chain top)
    (hfew : ∀ h ≤ top, sentUpTo chain h < confirmedUpTo chain h + 65536) (htop : h + 1 ≤ top) :
    (∀ l, chain (h + 1) = .light l →
      l.unconfirmSendtxNum.toNat + confirmedUpTo chain (h + 1) = sentUpTo chain (h + 1) ∧
      (l.prevSendtxConfirmed = true ↔ PrevConfirmed chain (h + 1))) ∧
    ∀ fullUnitCount fullunitHeight,
      canMakeFullUnit fullUnitCount (h + 1) fullunitHeight (accountNum chain h) = true →
        ∀ d, ¬ Unconfirmed chain h d := by
  have hpending : ∀ k ≤ top, (pending chain k).length < 65536 := by
    intro k hk
    have hsum := hm.pending_add_confirmed hk
    have hlt := hfew k hk
    omega
  constructor
  · intro l hl
    refine ⟨?_, hm.flag_iff hc hpending (by omega) htop hl⟩
    have hnum := hm.accountNum_eq htop
    rw [accountNum, hl] at hnum
    dsimp only at hnum
    rw [hnum, UInt16.toNat_ofNat', Nat.mod_eq_of_lt (hpending _ htop)]
    exact hm.pending_add_confirmed htop
  · intro fullUnitCount fullunitHeight hfull d hd
    have hzero : accountNum chain h = 0 := of_decide_eq_true (Bool.and_eq_true_iff.mp hfull).2
    rw [hm.accountNum_eq (by omega), ofNat_eq_zero (hpending h (by omega))] at hzero
    rw [← hc.mem_pending (by omega), length_eq_zero_iff.mp hzero] at hd
    cases hd

theorem unconfirm_counters_exact_sample : sentUpTo sampleUnits 3 = 2 ∧
    canMakeFullUnit 4 4 0 (accountNum sampleUnits 3) = true ∧ ∀ d, ¬ Unconfirmed sampleUnits 3 d :=
  ⟨rfl, rfl, (unconfirm_counters_exact sampleUnits_ordered sampleUnits_made (by decide)
    (by decide)).2 4 0 rfl⟩

theorem sendUnits_pending (h : Nat) : pending sendUnits h = List.range' 1 h := by
  induction h with
  | zero => rfl
  | succ h ih =>
    rw [pending, ih, sendUnits_confirms, range'_concat, Nat.one_mul, Nat.add_comm 1 h]
    simp [UnitBody.sends, sendUnits, LightUnit.sends, LightUnit.make, LightUnit.ofSubtype]

theorem sendUnits_made (top : Nat) : MadeUnits sendUnits top where
  made h l _ hl := by
    rw [sendUnits_succ] at hl
    cases hl
    rfl
  fresh h _ := by
    have hnext : pending sendUnits h ++ (sendUnits (h + 1)).sends = List.range' 1 (h + 1) := by
      rw [sendUnits_pending, range'_concat, Nat.one_mul, Nat.add_comm 1 h]
      rfl
    rw [hnext]
    exact nodup_range'
  confirmed h _ := by
    rw [sendUnits_confirms]
    exact ⟨nodup_nil, nofun⟩

theorem full_unit_with_pending_sends :
    OrderedUnits sendUnits 65537 ∧ MadeUnits sendUnits 65537 ∧
    (∃ l, sendUnits 65536 = .light l ∧ l.unconfirmSendtxNum = 0) ∧
    (∃ l, sendUnits 65537 = .light l ∧ l.prevSendtxConfirmed = true) ∧
    ¬ PrevConfirmed sendUnits 65537 ∧ Unconfirmed sendUnits 65536 1 ∧
    canMakeFullUnit 20 65537 0 (accountNum sendUnits 65536) = true := by
  refine ⟨sendUnits_ordered _, sendUnits_made _, ⟨_, rfl, rfl⟩, ⟨_, rfl, rfl⟩, ?_,
    sendUnits_unconfirmed, ?_⟩
  · rw [sendUnits_prevConfirmed]
    decide
  · rw [sendUnits_accountNum]
    rfl

end
end TopChain.TxPool
