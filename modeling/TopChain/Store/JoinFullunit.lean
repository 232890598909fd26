import TopChain.Lib.Loop
import TopChain.Store.ExecuteBlock

/-!
# Joining at a full unit

A node may jump to a full unit from any height below.
-/
namespace TopChain.Store

open Option TopChain.Lib TopChain.TxExecutor SortedMap Blockchain Xstore Xblock

/-- The same account up to the lowest executed height, and the same value of every property. -/
structure Xstore.Agree (s t : Xstore) : Prop where
  account : ∃ acc acc', s.account = some acc ∧ t.account = some acc' ∧ acc.SameState acc'
  property : ∀ name, s.property name = t.property name

namespace AccountChain

section
variable (H : PropertyHasher) (C : AccountChain)

def replay : Nat → Option Xstore
  | 0 => Xstore.execute H {} (C.block 0)
  | n + 1 => (replay n).bind fun s => s.execute H (C.block (n + 1))

/-- Every full unit up to a height is what `make_fullunit_output` gives in the state after its
predecessor. -/
def FullunitsMade (height : Nat) : Prop :=
  ∀ n ≤ height, ∀ unit, (C.block n).body = .fullunit unit →
    ∃ m s, n = m + 1 ∧ C.replay H m = some s ∧ s.makeFullunitOutput H = some unit

def HasHash (n : Nat) (name : String) : Prop :=
  ((C.accountAt n).accountState.propertyHash.find? name).isSome

end

variable {H : PropertyHasher} {C : AccountChain} {s s' t t' : Xstore} {n m : Nat}

theorem runTo_of_replay (h : C.replay H n = some s) : C.RunTo H 0 n s := by
  induction n generalizing s with
  | zero => exact .start (.inl rfl) h
  | succ n ih =>
    obtain ⟨s₀, hs₀, hs⟩ := bind_eq_some_iff.mp h
    exact .next (ih hs₀) hs

/-- The objects that an executed log writes, with the hashes that the unit has for them. -/
structure Written (H : PropertyHasher) (unit : Lightunit) (c : AccountCmd)
    (pairs : List (String × Dataobj)) : Prop where
  mem : ∀ name obj, (name, obj) ∈ pairs ↔ c.cloneObjs.find? name = some (some obj)
  notNull : ∀ name, c.cloneObjs.find? name ≠ some none
  length : c.cloneObjs.entries.length = unit.resource.propertyHash.entries.length
  hash : ∀ name obj, c.cloneObjs.find? name = some (some obj) →
    H.hash obj = (unit.resource.propertyHash.find? name).getD ""

variable {acc : Blockchain} {unit : Lightunit} {pairs : List (String × Dataobj)}

theorem executeLightunit_inv (h : s.executeLightunit H acc unit = some pairs) :
    (unit.resource.binlog = none ∧ pairs = []) ∨
    ∃ log c, unit.resource.binlog = some log ∧
      (s.storedProperties acc).doPropertyLog .new log = (c, .ok ()) ∧ Written H unit c pairs := by
  unfold executeLightunit at h
  split at h
  · cases h
  rename_i objs hobjs
  unfold StoredProperties.executeLightunit at hobjs
  split at hobjs
  · rename_i hnone
    cases hobjs
    cases h
    exact .inl ⟨hnone, rfl⟩
  rename_i log hlog
  split at hobjs
  · cases hobjs
  rename_i c hdo
  split at hobjs
  · cases hobjs
  rename_i hlen
  split at hobjs
  · rename_i hall
    cases hobjs
    refine .inr ⟨log, c, hlog, hdo, fun name obj => ?_, fun name hnull => ?_, not_not.mp hlen,
      fun name obj hobj => ?_⟩
    · rw [Loop.mem_iff_of_mapM_eq_some h, find?_eq_some_iff]
      constructor
      · rintro ⟨e, he, hpair⟩
        obtain ⟨obj', hobj', hpair⟩ := map_eq_some_iff.mp hpair
        cases hpair
        rwa [← hobj']
      · exact fun he => ⟨_, he, rfl⟩
    · obtain ⟨y, hy⟩ := Loop.exists_of_mapM_eq_some h (find?_eq_some_iff.mp hnull)
      cases hy
    · exact of_decide_eq_true (List.all_eq_true.mp hall _ (find?_eq_some_iff.mp hobj))
  · cases hobjs

variable {name : String}

theorem Written.hash_ne_empty {c : AccountCmd} (h : Written H unit c pairs) {obj : Option Dataobj}
    (hobj : c.cloneObjs.find? name = some obj) :
    (unit.resource.propertyHash.find? name).getD "" ≠ "" := by
  cases obj with
  | none => exact absurd hobj (h.notNull name)
  | some obj =>
    rw [← h.hash name obj hobj]
    exact H.hash_ne_empty obj

variable {obj : Dataobj}

theorem isSome_find?_of_mem_executeLightunit (h : s.executeLightunit H acc unit = some pairs)
    (he : (name, obj) ∈ pairs) :
    (unit.resource.propertyHash.find? name).isSome := by
  rcases executeLightunit_inv h with ⟨-, rfl⟩ | ⟨log, c, -, -, hw⟩
  · cases he
  · have hhash := hw.hash_ne_empty ((hw.mem name obj).mp he)
    cases hfind : unit.resource.propertyHash.find? name with
    | some value => rfl
    | none =>
      rw [hfind] at hhash
      exact absurd rfl hhash

theorem latest_of_executeBody {acc' : Blockchain} {b : Xblock} {pairs : PropertyPairs}
    (hnext : b.height = 0 ∨ acc.lastStateBlockHeight + 1 = b.height)
    (hgenesis : b.height = 0 → ¬ b.isFullunit) (h : s.executeBody H acc b = some (acc', pairs)) :
    (pairs.latest = [] ∧ ∀ unit, b.body ≠ .lightunit unit) ∨
      ∃ unit, b.body = .lightunit unit ∧ s.executeLightunit H acc unit = some pairs.latest := by
  unfold executeBody at h
  cases hbody : b.body with
  | fullunit unit =>
    rw [hbody] at h
    cases h
    have hnz : b.height ≠ 0 := fun h0 => hgenesis h0 (isFullunit_iff.mpr ⟨unit, hbody⟩)
    refine .inl ⟨if_neg ?_, fun _ he => by cases he⟩
    rcases hnext with h0 | hnext
    · exact absurd h0 hnz
    · exact not_not_intro hnext
  | lightunit unit =>
    rw [hbody] at h
    dsimp only at h
    split at h
    · cases h
    · split at h
      · cases h
      · obtain ⟨ps, hps, heq⟩ := map_eq_some_iff.mp h
        cases heq
        exact .inr ⟨unit, rfl, hps⟩
  | _ =>
    rw [hbody] at h
    dsimp only at h
    split at h
    · cases h
    · split at h
      · cases h
      · cases h
        exact .inl ⟨rfl, fun _ he => by cases he⟩

section
variable {h : Nat} (hmade : C.FullunitsMade H h)
include hmade

theorem FullunitsMade.mono (hle : n ≤ h) : C.FullunitsMade H n :=
  fun k hk => hmade k (hk.trans hle)

theorem FullunitsMade.not_genesis : ¬ (C.block 0).isFullunit := by
  intro hfull
  obtain ⟨unit, hunit⟩ := isFullunit_iff.mp hfull
  obtain ⟨m, -, hm, -⟩ := hmade 0 h.zero_le unit hunit
  omega

theorem FullunitsMade.contents {unit : Fullunit} (hbody : (C.block h).body = .fullunit unit) :
    ∃ m s, h = m + 1 ∧ C.replay H m = some s ∧ unit.accountState = (C.accountAt m).accountState ∧
      (∀ name obj, (name, obj) ∈ unit.accountPropertys → s.property name = some obj) ∧
      ∀ name, C.HasHash m name → ∃ obj, (name, obj) ∈ unit.accountPropertys := by
  obtain ⟨m, s, rfl, hreplay, hmake⟩ := hmade h le_rfl unit hbody
  obtain ⟨acc, hacc, hsame⟩ := (runTo_of_replay hreplay).account
  unfold makeFullunitOutput at hmake
  rw [hacc] at hmake
  obtain ⟨propertys, hprops, rfl⟩ := map_eq_some_iff.mp hmake
  refine ⟨m, s, rfl, hreplay, hsame.accountState, fun name obj hmem => ?_, fun name hname => ?_⟩
  · obtain ⟨e, -, he⟩ := (Loop.mem_iff_of_mapM_eq_some hprops _).mp hmem
    split at he
    · cases he
    · rename_i obj' hobj'
      split at he
      · cases he
      · cases he
        exact hobj'
  · unfold HasHash at hname
    rw [← hsame.accountState] at hname
    obtain ⟨value, hvalue⟩ := isSome_iff_exists.mp hname
    have hentry := find?_eq_some_iff.mp hvalue
    obtain ⟨e, he⟩ := Loop.exists_of_mapM_eq_some hprops hentry
    refine ⟨e.2, (Loop.mem_iff_of_mapM_eq_some hprops _).mpr ⟨_, hentry, ?_⟩⟩
    split at he
    · cases he
    · split at he
      · cases he
      · rename_i hhash
        cases he
        simp [hhash]

end

theorem hasHash_succ (hmade : C.FullunitsMade H (n + 1)) (hname : C.HasHash n name) :
    C.HasHash (n + 1) name := by
  unfold HasHash at *
  rw [accountAt, propertyHash_applyBlock]
  cases hbody : (C.block (n + 1)).body with
  | fullunit unit =>
    obtain ⟨m, s, hm, -, hstate, -, -⟩ := hmade.contents hbody
    obtain rfl : n = m := Nat.succ.inj hm
    show (unit.accountState.propertyHash.find? name).isSome
    rw [hstate]
    exact hname
  | lightunit unit => exact isSome_find?_insertAll_of_isSome _ hname
  | _ => exact hname

theorem hasHash_mono (hmade : C.FullunitsMade H n) (hle : m ≤ n) (hname : C.HasHash m name) :
    C.HasHash n name := by
  induction hle with
  | refl => exact hname
  | step _ ih => exact hasHash_succ hmade (ih (hmade.mono (Nat.le_succ _)))

theorem mem_or_of_putAll {values : String → Option Dataobj}
    (h : putAll values pairs name = some obj) :
    (∃ obj', (name, obj') ∈ pairs) ∨ values name = some obj := by
  by_cases hmem : ∃ obj', (name, obj') ∈ pairs
  · exact .inl hmem
  · rw [putAll_of_not_mem fun obj' hobj' => hmem ⟨obj', hobj'⟩] at h
    exact .inr h

theorem hasHash_of_latest (hbody : (C.block n).body = .lightunit unit)
    (hpairs : s.executeLightunit H acc unit = some pairs) (hmem : (name, obj) ∈ pairs) :
    C.HasHash n name := by
  have hsome := isSome_find?_of_mem_executeLightunit hpairs hmem
  obtain ⟨value, hvalue⟩ := isSome_iff_exists.mp hsome
  have hentry := find?_eq_some_iff.mp hvalue
  unfold HasHash
  cases n with
  | zero =>
    rw [accountAt, propertyHash_applyBlock, hbody]
    exact isSome_find?_insertAll_of_mem hentry _
  | succ n =>
    rw [accountAt, propertyHash_applyBlock, hbody]
    exact isSome_find?_insertAll_of_mem hentry _

theorem hasHash_of_property (hmade : C.FullunitsMade H n) (h : C.replay H n = some s)
    (hobj : s.property name = some obj) : C.HasHash n name := by
  induction n generalizing s with
  | zero =>
    obtain ⟨acc', pairs, rfl, hbody, -⟩ := execute_cases (fun acc hacc => by cases hacc) h
    rcases latest_of_executeBody (.inl (C.height_block 0)) (fun _ => hmade.not_genesis) hbody with
      ⟨hnil, -⟩ | ⟨unit, hunit, hpairs⟩
    · have hval : putAll (fun _ => none) pairs.latest name = some obj := hobj
      rw [hnil] at hval
      cases hval
    · rcases mem_or_of_putAll hobj with ⟨obj', hmem⟩ | hold
      · exact hasHash_of_latest hunit hpairs hmem
      · cases hold
  | succ n ih =>
    obtain ⟨s₀, hs₀, hs⟩ := bind_eq_some_iff.mp h
    have hheight := C.height_block (n + 1)
    obtain ⟨acc, hacc, hsame⟩ := (runTo_of_replay hs₀).account
    have hlast := hsame.lastStateBlockHeight.trans (C.lastStateBlockHeight_accountAt n)
    obtain ⟨acc', pairs, rfl, hbody, -⟩ := execute_above hacc hsame (Nat.lt_add_one n) hs
    have hold : s₀.property name = some obj → C.HasHash (n + 1) name := fun hval =>
      hasHash_succ hmade (ih (hmade.mono n.le_succ) hs₀ hval)
    rcases latest_of_executeBody (.inr (by omega)) (fun h0 => by omega) hbody with
      ⟨hnil, -⟩ | ⟨unit, hunit, hpairs⟩
    · have hval : putAll s₀.property pairs.latest name = some obj := hobj
      rw [hnil] at hval
      exact hold hval
    · rcases mem_or_of_putAll hobj with ⟨obj', hmem⟩ | hval
      · exact hasHash_of_latest hunit hpairs hmem
      · exact hold hval

theorem exists_replay_of_le (h : C.replay H n = some s) (hle : m ≤ n) :
    ∃ t, C.replay H m = some t := by
  induction hle generalizing s with
  | refl => exact ⟨s, h⟩
  | step _ ih =>
    obtain ⟨s₀, hs₀, -⟩ := bind_eq_some_iff.mp h
    exact ih hs₀

theorem executeBody_congr {acc' : Blockchain} {b : Xblock} (hsame : acc.SameState acc')
    (hprop : s.property = t.property) :
    (s.executeBody H acc b).map Prod.snd = (t.executeBody H acc' b).map Prod.snd := by
  have hlight : ∀ unit, s.executeLightunit H acc unit = t.executeLightunit H acc' unit := by
    intro unit
    unfold executeLightunit storedProperties
    rw [hsame.accountState, hprop]
  unfold executeBody executeFullunit
  rw [hsame.lastStateBlockHeight]
  cases b.body with
  | fullunit unit => rfl
  | lightunit unit =>
    dsimp only
    rw [hlight unit]
    split
    · rfl
    · split
      · rfl
      · rw [map_map, map_map]
        rfl
  | _ =>
    dsimp only
    split
    · rfl
    · split <;> rfl

theorem FullunitsMade.putAll_propertys {values : String → Option Dataobj} {unit : Fullunit}
    (hmade : C.FullunitsMade H (n + 1)) (hbody : (C.block (n + 1)).body = .fullunit unit)
    (hs : C.replay H n = some s)
    (hvalues : ∀ name obj, values name = some obj → C.HasHash n name) :
    putAll values unit.accountPropertys = s.property := by
  obtain ⟨m, s', hm, hs', -, hvalue, hlisted⟩ := hmade.contents hbody
  obtain rfl : n = m := Nat.succ.inj hm
  obtain rfl := mem_unique hs hs'
  funext name
  by_cases hname : C.HasHash n name
  · obtain ⟨obj, hobj⟩ := hlisted name hname
    have huniq : ∀ obj', (name, obj') ∈ unit.accountPropertys → obj' = obj := by
      intro obj' hobj'
      exact Option.some.inj ((hvalue name obj' hobj').symm.trans (hvalue name obj hobj))
    rw [putAll_of_mem hobj huniq, hvalue name obj hobj]
  · -- neither has a value: it would have its hash in the account
    have hnone : s.property name = none := by
      cases hp : s.property name with
      | none => rfl
      | some obj => exact absurd (hasHash_of_property (hmade.mono n.le_succ) hs hp) hname
    have hold : values name = none := by
      cases hp : values name with
      | none => rfl
      | some obj => exact absurd (hvalues name obj hp) hname
    rw [putAll_of_not_mem, hold, hnone]
    intro obj hobj
    rw [hvalue name obj hobj] at hnone
    cases hnone

theorem latest_of_fullunit {acc' : Blockchain} {b : Xblock} {unit : Fullunit}
    {pairs : PropertyPairs} (hbody : b.body = .fullunit unit)
    (h : s.executeBody H acc b = some (acc', pairs)) :
    pairs.latest = if acc.lastStateBlockHeight + 1 ≠ b.height then unit.accountPropertys
      else [] := by
  unfold executeBody at h
  rw [hbody] at h
  cases h
  rfl

theorem property_replay_fullunit {unit : Fullunit}
    (hunit : (C.block (n + 1)).body = .fullunit unit) (hs : C.replay H n = some s)
    (ht : C.replay H (n + 1) = some t) : t.property = s.property := by
  obtain ⟨s', hs', ht⟩ := bind_eq_some_iff.mp ht
  obtain rfl := mem_unique hs hs'
  have hheight := C.height_block (n + 1)
  obtain ⟨acc, hacc, hsame⟩ := (runTo_of_replay hs).account
  have hlast := hsame.lastStateBlockHeight.trans (C.lastStateBlockHeight_accountAt n)
  obtain ⟨acc', pairs, rfl, hbody, -⟩ := execute_above hacc hsame (Nat.lt_add_one n) ht
  have hlatest := latest_of_fullunit hunit hbody
  rw [if_neg (by omega)] at hlatest
  show putAll s.property pairs.latest = s.property
  rw [hlatest, putAll_nil]

theorem RunTo.property {h : Nat} (hmade : C.FullunitsMade H h) (hs : C.RunTo H 0 n s)
    (hn : n ≤ h) (ht : C.replay H n = some t) : s.property = t.property := by
  induction hs generalizing t with
  | start _ hg =>
    obtain rfl := mem_unique hg ht
    rfl
  | @next n s s' hs hexec ih =>
    obtain ⟨t₀, ht₀, ht⟩ := bind_eq_some_iff.mp ht
    have hprop := ih (by omega) ht₀
    obtain ⟨acc, hacc, hsame⟩ := hs.account
    obtain ⟨acct, hacct, hsamet⟩ := (runTo_of_replay ht₀).account
    obtain ⟨acc', pairs, rfl, hbody, -⟩ := execute_above hacc hsame (Nat.lt_add_one n) hexec
    obtain ⟨acct', pairst, rfl, hbodyt, -⟩ := execute_above hacct hsamet (Nat.lt_add_one n) ht
    have hpairs := executeBody_congr (H := H) (b := C.block (n + 1)) (hsame.trans hsamet.symm) hprop
    rw [hbody, hbodyt] at hpairs
    obtain rfl : pairs = pairst := Option.some.inj hpairs
    show putAll s.property pairs.latest = putAll t₀.property pairs.latest
    rw [hprop]
  | @join n m s s' hs hnm hfull hexec ih =>
    obtain ⟨unit, hunit⟩ := isFullunit_iff.mp hfull
    obtain ⟨tn, htn⟩ := exists_replay_of_le ht hnm.le
    have hprop := ih (by omega) htn
    have hheight := C.height_block m
    obtain ⟨d, rfl⟩ := Nat.exists_eq_add_of_lt hnm
    obtain ⟨r, hr⟩ := exists_replay_of_le ht (n + d).le_succ
    have hmade' := hmade.mono hn
    have hjoin := hmade'.putAll_propertys hunit hr fun name obj hobj =>
      hasHash_mono (hmade'.mono (n + d).le_succ) (Nat.le_add_right n d)
        (hasHash_of_property (hmade'.mono (by omega)) htn hobj)
    obtain ⟨acc, hacc, hsame⟩ := hs.account
    have hlast := hsame.lastStateBlockHeight.trans (C.lastStateBlockHeight_accountAt n)
    obtain ⟨acc', pairs, rfl, hbody, -⟩ := execute_above hacc hsame hnm hexec
    have hlatest := latest_of_fullunit hunit hbody
    show putAll s.property pairs.latest = t.property
    rw [hprop, property_replay_fullunit hunit hr ht, hlatest]
    by_cases hnext : d = 0
    · subst hnext
      obtain rfl := mem_unique hr htn
      rw [if_neg (by omega), putAll_nil]
    · rw [if_pos (by omega), hjoin]

theorem RunTo.exists_join {h : Nat} (hs : C.RunTo H 0 n s) (hnh : n < h)
    (hfull : (C.block h).isFullunit) : ∃ s', s.execute H (C.block h) = some s' := by
  obtain ⟨unit, hunit⟩ := isFullunit_iff.mp hfull
  obtain ⟨acc, hacc, hsame⟩ := hs.account
  have hlast := hsame.lastStateBlockHeight.trans (C.lastStateBlockHeight_accountAt n)
  have hheight := C.height_block h
  have hlink : acc.lastStateBlockHeight + 1 = (C.block h).height →
      acc.lastStateBlockHash = (C.block h).lastBlockHash := by
    intro hnext
    obtain rfl : h = n + 1 := by omega
    rw [hsame.lastStateBlockHash, lastStateBlockHash_accountAt, C.linked n]
  obtain ⟨acc', hupd⟩ := isSome_iff_exists.mp
    (isSome_updateBlockchainByBlock_fullunit hunit (by omega) hlink)
  have hbody : s.executeBody H acc (C.block h) =
      some (acc.applyTable (C.block h), executeFullunit acc (C.block h) unit) := by
    unfold executeBody applyTable
    rw [hunit]
  refine ⟨s.write (C.block h).height acc' (executeFullunit acc (C.block h) unit), ?_⟩
  rw [Xstore.execute, executeBlock_of_above hacc (by omega) hbody hupd]

/-- A node that executes every block up to a full unit and one that executes only that, in the state
of any lower height, have the same account and the same properties. -/
theorem join_agrees_with_replay (H : PropertyHasher) (C : AccountChain) {g h : Nat}
    {sA sg : Xstore} (hmade : C.FullunitsMade H h) (hgh : g < h)
    (hfull : (C.block h).isFullunit) (hA : C.replay H h = some sA) (hg : C.RunTo H 0 g sg) :
    ∃ sB, sg.execute H (C.block h) = some sB ∧ sA.Agree sB := by
  obtain ⟨sB, hB⟩ := hg.exists_join hgh hfull
  have hnode : C.RunTo H 0 h sB := .join hg hgh hfull hB
  obtain ⟨accA, haccA, hsameA⟩ := (runTo_of_replay hA).account
  obtain ⟨accB, haccB, hsameB⟩ := hnode.account
  have hprop := hnode.property hmade le_rfl hA
  refine ⟨sB, hB, ⟨accA, accB, haccA, haccB, hsameA.trans hsameB.symm⟩, fun name => ?_⟩
  rw [hprop]

/-! An account that sets a property in its first unit, with a full unit after it. -/

def sampleHasher : PropertyHasher where
  hash
    | .string value => "s" ++ value
    | .deque _ => "d"
    | .map _ => "m"
  hash_ne_empty obj := by
    cases obj with
    | string value =>
      intro h
      have hlen := congrArg String.length h
      simp at hlen
    | deque values => exact (by decide : "d" ≠ "")
    | map fields => exact (by decide : "m" ≠ "")

def sampleLightunit : Lightunit where
  inputs := []
  outputs := []
  resource :=
    { balanceChange := 0, pledgeTgasChange := 0, pledgeDiskChange := 0, pledgeVoteChange := 0
      lockBalanceChange := 0, lockTgasChange := 0, unvoteNumChange := 0
      nativeProperty := []
      propertyHash := SortedMap.empty.insert "p" "sx"
      unconfirmSendtxNum := 0
      prevSendtxConfirmedFlag := false
      binlog := some (SortedMap.empty.insert "p"
        [{ opCode := .stringCreate }, { opCode := .stringSet, opPara1 := "x" }]) }

def sampleFullunit : Fullunit where
  accountState :=
    { accountCreateTime := 7, propertyHash := SortedMap.empty.insert "p" "sx" }
  accountPropertys := [("p", .string "x")]
  firstUnitHeight := 0
  firstUnitHash := "b"

def sampleHash (n : Nat) : String := String.ofList (List.replicate (n + 1) 'b')

def sampleBody : Nat → XblockBody
  | 1 => .lightunit sampleLightunit
  | 2 => .fullunit sampleFullunit
  | _ => .emptyunit

def sampleChain : AccountChain where
  block n :=
    { height := n
      blockHash := sampleHash n
      lastBlockHash := sampleHash (n - 1)
      gmtime := 7
      body := sampleBody n }
  height_block _ := rfl
  linked _ := rfl
  genesis_hash := by decide
  oneLevel := .inl fun n => by
    match n with
    | 0 | 1 | 2 | _ + 3 => rfl

theorem join_agrees_with_replay_sample :
    ∃ sA sg sB, sampleChain.replay sampleHasher 2 = some sA ∧
      sampleChain.replay sampleHasher 0 = some sg ∧
      sg.execute sampleHasher (sampleChain.block 2) = some sB ∧ sA.Agree sB := by
  have hA : (sampleChain.replay sampleHasher 2).isSome := by decide +kernel
  have hg : (sampleChain.replay sampleHasher 0).isSome := by decide +kernel
  have hmake : (sampleChain.replay sampleHasher 1).bind
      (Xstore.makeFullunitOutput sampleHasher) = some sampleFullunit := by decide +kernel
  obtain ⟨sA, hA⟩ := isSome_iff_exists.mp hA
  obtain ⟨sg, hg⟩ := isSome_iff_exists.mp hg
  obtain ⟨s, hs, hunit⟩ := bind_eq_some_iff.mp hmake
  have hmade : sampleChain.FullunitsMade sampleHasher 2 := by
    intro n hn unit hbody
    match n with
    | 0 => cases hbody
    | 1 => cases hbody
    | 2 =>
      cases hbody
      exact ⟨1, s, rfl, hs, hunit⟩
    | n + 3 => omega
  obtain ⟨sB, hB, hagree⟩ := join_agrees_with_replay sampleHasher sampleChain hmade
    (by decide) rfl hA (runTo_of_replay hg)
  exact ⟨sA, sg, sB, hA, hg, hB, hagree⟩

end AccountChain
end TopChain.Store
