import TopChain.Lib.Run
import TopChain.Store.ExecuteBlock

/-!
# Executing each block once

`xblockacct_t::execute_block`, `save_to_xdb`, `save_block`, `save_meta` and `check_meta`.
-/
namespace TopChain.Store

open Option List TopChain.Lib

structure ObjFlags where
  locked : Bool := false
  committed : Bool := false
  connected : Bool := false
  stored : Bool := false
  unpacked : Bool := false
  executed : Bool := false
deriving DecidableEq

def genesisFlags : ObjFlags := { locked := true, committed := true, connected := true }

structure BlockObj where
  height : Nat
  flags : ObjFlags
  modifiedCount : Nat := 0
deriving DecidableEq

def BlockObj.setBlockFlag (flagCounts : Bool) (o : BlockObj) (set : ObjFlags → ObjFlags) :
    BlockObj :=
  { o with
    flags := set o.flags
    modifiedCount := if flagCounts then o.modifiedCount + 1 else o.modifiedCount }

structure ExecuteMeta where
  height : Nat := 0
  hash : String := ""
deriving DecidableEq

def ExecuteMeta.isReadyToExecuted (m : ExecuteMeta) (b : Xblock) : Bool :=
  (m.height = 0 ∧ b.height = 0) ∨
  (b.height = m.height + 1 ∧ b.lastBlockHash = m.hash) ∨
  (m.height < b.height ∧ b.blockClass = .full)

/-- The objects in memory, the flags on disk, and the meta data in memory and on disk. -/
structure BlockAcct where
  xstore : Xstore := {}
  objects : List BlockObj := []
  vblocks : Nat → Option ObjFlags := fun _ => none
  acctMeta : ExecuteMeta := {}
  savedMeta : ExecuteMeta := {}

namespace BlockAcct

def lastHeight (s : BlockAcct) : Nat :=
  match s.xstore.account with
  | some acc => acc.lastStateBlockHeight
  | none => 0

section
variable (H : PropertyHasher) (C : AccountChain) (flagCounts : Bool)

def setVblock (vblocks : Nat → Option ObjFlags) (o : BlockObj) : Nat → Option ObjFlags :=
  fun height => if height = o.height then some o.flags else vblocks height

/-- `save_to_xdb`: `connects` is the outcome of the tests, `ok` the answer of the database. -/
def saveToXdb (vblocks : Nat → Option ObjFlags) (o : BlockObj) (connects ok : Bool) :
    (Nat → Option ObjFlags) × BlockObj × Bool :=
  let o := if o.flags.committed && !o.flags.connected && connects then
    o.setBlockFlag flagCounts (fun f => { f with connected := true }) else o
  if !o.flags.committed && !o.flags.locked then (vblocks, o, true)
  else if !o.flags.stored then
    let o := o.setBlockFlag flagCounts (fun f => { f with stored := true })
    if ok then (setVblock vblocks o, { o with modifiedCount := 0 }, true)
    else (vblocks, { o with flags := { o.flags with stored := false } }, false)
  else if o.modifiedCount = 0 then (vblocks, o, true)
  else if ok then (setVblock vblocks o, { o with modifiedCount := 0 }, true)
  else (vblocks, o, false)

/-- The answers that one `execute_block` gets. -/
structure ExecuteAnswers where
  units : Option Bool := none
  written : Bool := true
  saved : Bool := true

def executeReady (s : BlockAcct) (p : Nat) (o : BlockObj) (a : ExecuteAnswers) : BlockAcct × Bool :=
  let b := C.block o.height
  if s.acctMeta.isReadyToExecuted b then
    match s.xstore.executeBlock H b o.flags.connected a.written with
    | (xstore, false) => ({ s with xstore, objects := s.objects.set p o }, false)
    | (xstore, true) =>
      let o := o.setBlockFlag flagCounts (fun f => { f with executed := true })
      match saveToXdb flagCounts s.vblocks o false a.saved with
      | (vblocks, o, true) =>
        ({ s with
            xstore, vblocks
            objects := s.objects.set p o
            acctMeta := ⟨b.height, b.blockHash⟩ }, true)
      | (vblocks, o, false) =>
        ({ s with
            xstore, vblocks
            objects := s.objects.set p { o with flags := { o.flags with executed := false } } },
          false)
  else ({ s with objects := s.objects.set p o }, false)

def executeBlock (s : BlockAcct) (p : Nat) (a : ExecuteAnswers) : BlockAcct × Bool :=
  match s.objects[p]? with
  | none => (s, false)
  | some o =>
    if !o.flags.committed || !o.flags.connected then (s, false)
    else if o.flags.executed then
      if s.acctMeta.height < o.height then
        ({ s with acctMeta := ⟨o.height, (C.block o.height).blockHash⟩ }, true)
      else (s, true)
    else
      match a.units with
      | some false => (s, false)
      | some true =>
        executeReady H C flagCounts s p
          (o.setBlockFlag flagCounts (fun f => { f with unpacked := true })) a
      | none => executeReady H C flagCounts s p o a

def loadBlock (s : BlockAcct) (height : Nat) : BlockAcct × Option Nat :=
  match s.vblocks height with
  | some flags => ({ s with objects := s.objects ++ [⟨height, flags, 0⟩] }, some s.objects.length)
  | none =>
    if height = 0 then
      ({ s with objects := s.objects ++ [⟨height, genesisFlags, 0⟩] }, some s.objects.length)
    else (s, none)

def loadBlockObject (s : BlockAcct) (height : Nat) (cached : Option Nat) : BlockAcct × Option Nat :=
  match cached with
  | some p => (s, if (s.objects[p]?.map BlockObj.height) = some height then some p else none)
  | none => s.loadBlock height

structure HistoryTurn where
  cached : Option Nat := none
  answers : ExecuteAnswers := {}

/-- The loop of `save_block` over the blocks not yet executed, for as many turns as the
connected height allows. -/
def executeHistory (s : BlockAcct) : List HistoryTurn → BlockAcct × Bool
  | [] => (s, true)
  | turn :: rest =>
    match s.loadBlockObject (s.acctMeta.height + 1) turn.cached with
    | (s, none) => executeHistory s rest
    | (s, some p) =>
      match executeBlock H C flagCounts s p turn.answers with
      | (s, true) => executeHistory s rest
      | (s, false) => (s, false)

structure SaveAnswers where
  connects : Bool := false
  ok : Bool := true
  answers : ExecuteAnswers := {}
  history : List HistoryTurn := []

def saveAndExecute (s : BlockAcct) (p : Nat) (a : SaveAnswers) : BlockAcct × Bool :=
  match s.objects[p]? with
  | none => (s, false)
  | some o =>
    match saveToXdb flagCounts s.vblocks o a.connects a.ok with
    | (vblocks, o, false) => ({ s with vblocks, objects := s.objects.set p o }, false)
    | (vblocks, o, true) =>
      let s := { s with vblocks, objects := s.objects.set p o }
      executeHistory H C flagCounts (executeBlock H C flagCounts s p a.answers).1 a.history

/-- `save_block`: before a committed block of height one the genesis block is saved. -/
def saveBlock (s : BlockAcct) (p : Nat) (genesis : Option (Nat × SaveAnswers))
    (a : SaveAnswers) : BlockAcct × Bool :=
  match s.objects[p]?, genesis with
  | some o, some (g, ag) =>
    if o.height = 1 ∧ o.flags.committed ∧ (s.objects[g]?.any fun og =>
        og.height = 0 && og.flags.committed && !og.flags.stored) then
      saveAndExecute H C flagCounts (saveAndExecute H C flagCounts s g ag).1 p a
    else saveAndExecute H C flagCounts s p a
  | _, _ => saveAndExecute H C flagCounts s p a

def checkMeta (s : BlockAcct) : BlockAcct :=
  match s.xstore.account with
  | none => s
  | some acc =>
    if s.acctMeta.height < acc.lastStateBlockHeight then
      { s with acctMeta := ⟨acc.lastStateBlockHeight, acc.lastStateBlockHash⟩ }
    else s

/-- What happens to the account. Its objects outlive a restart of the account when others still
hold them. -/
inductive Event where
  | receive (height : Nat) (flags : ObjFlags)
  | load (height : Nat)
  | setLocked (p : Nat)
  | setCommitted (p : Nat)
  | setConnected (p : Nat)
  | setStored (p : Nat)
  | saveBlock (p : Nat) (genesis : Option (Nat × SaveAnswers)) (a : SaveAnswers)
  | executeBlock (p : Nat) (a : ExecuteAnswers)
  | saveMeta
  | restart
  | checkMeta

def raise (s : BlockAcct) (p : Nat) (set : ObjFlags → ObjFlags) : BlockAcct :=
  { s with objects := s.objects.modify p (·.setBlockFlag flagCounts set) }

def step (s : BlockAcct) : Event → BlockAcct × List Bool
  | .receive height flags =>
    ({ s with objects := s.objects ++ [⟨height, { flags with executed := false }, 0⟩] }, [])
  | .load height => ((s.loadBlock height).1, [])
  | .setLocked p => (raise flagCounts s p fun f => { f with locked := true }, [])
  | .setCommitted p => (raise flagCounts s p fun f => { f with committed := true }, [])
  | .setConnected p => (raise flagCounts s p fun f => { f with connected := true }, [])
  | .setStored p => (raise flagCounts s p fun f => { f with stored := true }, [])
  | .saveBlock p genesis a =>
    let r := saveBlock H C flagCounts s p genesis a
    (r.1, [r.2])
  | .executeBlock p a =>
    let r := executeBlock H C flagCounts s p a
    (r.1, [r.2])
  | .saveMeta => ({ s with savedMeta := s.acctMeta }, [])
  | .restart => ({ s with acctMeta := s.savedMeta }, [])
  | .checkMeta => (s.checkMeta, [])

end
end BlockAcct

def Xstore.HasExecuted (x : Xstore) (n : Nat) : Prop :=
  ∃ acc, x.account = some acc ∧ n ≤ acc.lastStateBlockHeight

def Xstore.InOrder (H : PropertyHasher) (C : AccountChain) (x : Xstore) : Prop :=
  x = {} ∨ ∃ first n, C.RunTo H first n x

section
variable {H : PropertyHasher} {C : AccountChain} {x x' : Xstore} {first n : Nat}

theorem not_hasExecuted_empty (n : Nat) : ¬ ({} : Xstore).HasExecuted n := by
  rintro ⟨acc, hacc, -⟩
  cases hacc

theorem AccountChain.RunTo.hasExecuted_iff (h : C.RunTo H first n x) (k : Nat) :
    x.HasExecuted k ↔ k ≤ n := by
  obtain ⟨acc, hacc, hsame⟩ := h.account
  have hlast := hsame.lastStateBlockHeight.trans (C.lastStateBlockHeight_accountAt n)
  constructor
  · rintro ⟨acc', hacc', hle⟩
    obtain rfl := mem_unique hacc hacc'
    omega
  · intro hle
    exact ⟨acc, hacc, by omega⟩

/-- A call keeps the order, and has executed the block when it says so. -/
theorem Xstore.InOrder.executeBlock (hx : x.InOrder H C)
    (hempty : x = {} → n = 0 ∨ (C.block n).blockClass = .full) (connected written : Bool) :
    (x.executeBlock H (C.block n) connected written).1.InOrder H C ∧ (∀ k, x.HasExecuted k →
        (x.executeBlock H (C.block n) connected written).1.HasExecuted k) ∧
      ((x.executeBlock H (C.block n) connected written).2 = true →
        (x.executeBlock H (C.block n) connected written).1.HasExecuted n) := by
  have hheight := C.height_block n
  rcases executeBlock_cases H x (C.block n) connected written with
    ⟨hsame, hold⟩ | ⟨acc', pairs, hr, hlast, hbody, hupd⟩
  · rw [hsame]
    refine ⟨hx, fun k hk => hk, fun hok => ?_⟩
    obtain ⟨acc, hacc, hle⟩ := hold hok
    exact ⟨acc, hacc, by omega⟩
  · have hexec := execute_of_executeBlock hr
    rw [hr]
    have hkind := (executeBody_cases hbody).2
    have hrun : ∃ first, C.RunTo H first n (x.write (C.block n).height acc' pairs) ∧
        ∀ k, x.HasExecuted k → k ≤ n := by
      rcases hx with rfl | ⟨first, m, hm⟩
      · have hfirst : n = 0 ∨ (C.block n).isFullunit := by
          rcases hkind with hfull | ⟨hclass, -⟩
          · exact .inr hfull
          · rcases hempty rfl with h0 | hfull
            · exact .inl h0
            · exact absurd hfull hclass
        exact ⟨n, .start hfirst hexec, fun k hk => absurd hk (not_hasExecuted_empty k)⟩
      · obtain ⟨acc, hacc, hsame⟩ := hm.account
        have hm' := hsame.lastStateBlockHeight.trans (C.lastStateBlockHeight_accountAt m)
        have hlt := hlast acc hacc
        refine ⟨first, ?_, fun k hk => ?_⟩
        · rcases hkind with hfull | ⟨-, hlow⟩
          · exact .join hm (by omega) hfull hexec
          · rw [hacc] at hlow
            have hlow : (C.block n).height = 0 ∨
                (C.block n).height ≤ acc.lastStateBlockHeight + 1 := hlow
            obtain rfl : n = m + 1 := by omega
            exact .next hm hexec
        · have := (hm.hasExecuted_iff k).mp hk
          omega
    obtain ⟨first, hrun, hbelow⟩ := hrun
    exact ⟨.inr ⟨first, n, hrun⟩, fun k hk => (hrun.hasExecuted_iff k).mpr (hbelow k hk),
      fun _ => (hrun.hasExecuted_iff n).mpr le_rfl⟩

end

def AccountChain.MetaOk (C : AccountChain) (x : Xstore) (m : ExecuteMeta) : Prop :=
  m = {} ∨ x.HasExecuted m.height ∧ m.hash = (C.block m.height).blockHash

namespace BlockAcct

structure Inv (H : PropertyHasher) (C : AccountChain) (s : BlockAcct) : Prop where
  xstore : s.xstore.InOrder H C
  object : ∀ o ∈ s.objects, o.flags.executed → s.xstore.HasExecuted o.height
  vblock : ∀ n flags, s.vblocks n = some flags → flags.executed → s.xstore.HasExecuted n
  acctMeta : C.MetaOk s.xstore s.acctMeta
  savedMeta : C.MetaOk s.xstore s.savedMeta

section
variable {H : PropertyHasher} {C : AccountChain} {flagCounts : Bool} {s : BlockAcct}

theorem MetaOk.mono {x x' : Xstore} {m : ExecuteMeta} (h : C.MetaOk x m)
    (hmono : ∀ k, x.HasExecuted k → x'.HasExecuted k) : C.MetaOk x' m :=
  h.imp_right fun hm => ⟨hmono _ hm.1, hm.2⟩

theorem inv_init : Inv H C {} where
  xstore := .inl rfl
  object _ ho := absurd ho not_mem_nil
  vblock _ _ h := by cases h
  acctMeta := .inl rfl
  savedMeta := .inl rfl

theorem Inv.withObjects (h : Inv H C s) {objects : List BlockObj}
    (hobj : ∀ o ∈ objects, o.flags.executed → s.xstore.HasExecuted o.height) :
    Inv H C { s with objects } where
  xstore := h.xstore
  object := hobj
  vblock := h.vblock
  acctMeta := h.acctMeta
  savedMeta := h.savedMeta

variable {o : BlockObj}

theorem Inv.set_object (h : Inv H C s) {p : Nat}
    (ho : o.flags.executed → s.xstore.HasExecuted o.height) :
    ∀ o' ∈ s.objects.set p o, o'.flags.executed → s.xstore.HasExecuted o'.height := by
  intro o' ho' hexec
  rcases mem_or_eq_of_mem_set ho' with hmem | rfl
  · exact h.object o' hmem hexec
  · exact ho hexec

theorem Inv.append_object (h : Inv H C s) (ho : o.flags.executed → s.xstore.HasExecuted o.height) :
    ∀ o' ∈ s.objects ++ [o], o'.flags.executed → s.xstore.HasExecuted o'.height := by
  intro o' ho' hexec
  rcases mem_append.mp ho' with hmem | hmem
  · exact h.object o' hmem hexec
  · obtain rfl := mem_singleton.mp hmem
    exact ho hexec

theorem saveToXdb_spec (flagCounts : Bool) (vblocks : Nat → Option ObjFlags) (o : BlockObj)
    (connects ok : Bool) :
    let r := saveToXdb flagCounts vblocks o connects ok
    r.2.1.height = o.height ∧ r.2.1.flags.executed = o.flags.executed ∧
      ∀ n flags, r.1 n = some flags →
        vblocks n = some flags ∨ (n = o.height ∧ flags.executed = o.flags.executed) := by
  have hset : ∀ {o' : BlockObj} {n : Nat} {flags : ObjFlags}, o'.height = o.height →
      o'.flags.executed = o.flags.executed → setVblock vblocks o' n = some flags →
      vblocks n = some flags ∨ (n = o.height ∧ flags.executed = o.flags.executed) := by
    intro o' n flags hheight hexec h
    unfold setVblock at h
    split at h
    · rename_i hn
      cases h
      exact .inr ⟨hn.trans hheight, hexec⟩
    · exact .inl h
  have hconn : ∀ o', o' = (if o.flags.committed && !o.flags.connected && connects then
      o.setBlockFlag flagCounts (fun f => { f with connected := true }) else o) →
      o'.height = o.height ∧ o'.flags.executed = o.flags.executed := by
    intro o' ho'
    split at ho' <;> (subst ho'; exact ⟨rfl, rfl⟩)
  unfold saveToXdb
  dsimp only
  generalize ho' : (if o.flags.committed && !o.flags.connected && connects then
      o.setBlockFlag flagCounts (fun f => { f with connected := true }) else o) = o'
  obtain ⟨hheight, hexec⟩ := hconn o' ho'.symm
  split_ifs
  · exact ⟨hheight, hexec, fun n flags h => .inl h⟩
  · refine ⟨hheight, hexec, fun n flags h => hset ?_ ?_ h⟩
    · exact hheight
    · exact hexec
  · exact ⟨hheight, hexec, fun n flags h => .inl h⟩
  · exact ⟨hheight, hexec, fun n flags h => .inl h⟩
  · exact ⟨hheight, hexec, fun n flags h => hset hheight hexec h⟩
  · exact ⟨hheight, hexec, fun n flags h => .inl h⟩

theorem Inv.withXstore (h : Inv H C s) {x : Xstore} (hx : x.InOrder H C)
    (hmono : ∀ k, s.xstore.HasExecuted k → x.HasExecuted k) : Inv H C { s with xstore := x } where
  xstore := hx
  object o ho hexec := hmono _ (h.object o ho hexec)
  vblock n flags hn hexec := hmono _ (h.vblock n flags hn hexec)
  acctMeta := MetaOk.mono h.acctMeta hmono
  savedMeta := MetaOk.mono h.savedMeta hmono

theorem Inv.withSaved (h : Inv H C s) (p : Nat) {o' : BlockObj} {connects ok answer : Bool}
    {vblocks : Nat → Option ObjFlags}
    (hsave : saveToXdb flagCounts s.vblocks o connects ok = (vblocks, o', answer))
    (ho : o.flags.executed → s.xstore.HasExecuted o.height) :
    Inv H C { s with vblocks, objects := s.objects.set p o' } := by
  obtain ⟨hheight, hexec, hdisk⟩ := saveToXdb_spec flagCounts s.vblocks o connects ok
  rw [hsave] at hheight hexec hdisk
  have ho' : o'.flags.executed → s.xstore.HasExecuted o'.height := by
    intro hset
    rw [hheight]
    exact ho (hexec ▸ hset)
  refine ⟨h.xstore, h.set_object ho', fun n flags hn hset => ?_, h.acctMeta, h.savedMeta⟩
  rcases hdisk n flags hn with hold | ⟨rfl, hflag⟩
  · exact h.vblock n flags hold hset
  · exact ho (hflag ▸ hset)

theorem Inv.withMeta (h : Inv H C s) {m : ExecuteMeta} (hm : C.MetaOk s.xstore m) :
    Inv H C { s with acctMeta := m } :=
  ⟨h.xstore, h.object, h.vblock, hm, h.savedMeta⟩

theorem genesis_or_full_of_ready {n : Nat} {m : ExecuteMeta} (hm : C.MetaOk {} m)
    (hready : m.isReadyToExecuted (C.block n)) : n = 0 ∨ (C.block n).blockClass = .full := by
  have hheight := C.height_block n
  rcases of_decide_eq_true hready with ⟨-, h0⟩ | ⟨hnext, hlink⟩ | ⟨-, hfull⟩
  · exact .inl (by omega)
  · rcases hm with rfl | ⟨hexec, -⟩
    · -- the first block names the hash of the genesis block
      obtain rfl : n = 0 + 1 := by
        rw [hheight] at hnext
        exact hnext
      rw [C.linked 0] at hlink
      exact absurd hlink C.genesis_hash
    · exact absurd hexec (not_hasExecuted_empty _)
  · exact .inr hfull

variable (flagCounts)

section
variable (h : Inv H C s)
include h

theorem Inv.executeReady (p : Nat) (ho : o.flags.executed = false) (a : ExecuteAnswers) :
    Inv H C (executeReady H C flagCounts s p o a).1 := by
  have hheight := C.height_block o.height
  have hno : ∀ {x : Xstore}, o.flags.executed → x.HasExecuted o.height := by
    intro x hexec
    rw [ho] at hexec
    cases hexec
  unfold BlockAcct.executeReady
  dsimp only
  split
  · rename_i hready
    have hempty : s.xstore = {} → o.height = 0 ∨ (C.block o.height).blockClass = .full := by
      intro hx
      have hm := h.acctMeta
      rw [hx] at hm
      exact genesis_or_full_of_ready hm hready
    obtain ⟨hx, hmono, hdone⟩ := h.xstore.executeBlock hempty o.flags.connected a.written
    split
    · rename_i x hcall
      rw [hcall] at hx hmono
      have hs := h.withXstore hx hmono
      exact hs.withObjects (hs.set_object hno)
    · rename_i x hcall
      rw [hcall] at hx hmono hdone
      have hs := h.withXstore hx hmono
      have hexec : x.HasExecuted o.height := hdone rfl
      split
      · rename_i vblocks o' hsave
        refine (hs.withSaved p hsave fun _ => hexec).withMeta (.inr ⟨?_, ?_⟩)
        · rw [hheight]
          exact hexec
        · rw [hheight]
      · rename_i vblocks o' hsave
        have hs' := hs.withSaved p hsave fun _ => hexec
        -- the flag is taken back, the state of the store stays
        refine ⟨hs'.xstore, hs.set_object fun hset => ?_, hs'.vblock, hs'.acctMeta, hs'.savedMeta⟩
        cases hset
  · exact h.withObjects (h.set_object hno)

theorem Inv.executeBlock (p : Nat) (a : ExecuteAnswers) :
    Inv H C (executeBlock H C flagCounts s p a).1 := by
  unfold BlockAcct.executeBlock
  split
  · exact h
  · rename_i o hp
    split
    · exact h
    · split
      · rename_i hexec
        split
        · exact h.withMeta (.inr ⟨h.object o (mem_of_getElem? hp) hexec, rfl⟩)
        · exact h
      · rename_i hexec
        have ho : o.flags.executed = false := Bool.eq_false_iff.mpr hexec
        split
        · exact h
        · refine h.executeReady flagCounts p ?_ a
          exact ho
        · exact h.executeReady flagCounts p ho a

theorem Inv.loadBlock (height : Nat) : Inv H C (s.loadBlock height).1 := by
  unfold BlockAcct.loadBlock
  split
  · rename_i flags hdisk
    exact h.withObjects (h.append_object (h.vblock height flags hdisk))
  · split
    · refine h.withObjects (h.append_object fun hexec => ?_)
      cases hexec
    · exact h

theorem Inv.loadBlockObject (height : Nat) (cached : Option Nat) :
    Inv H C (s.loadBlockObject height cached).1 := by
  unfold BlockAcct.loadBlockObject
  split
  · exact h
  · exact h.loadBlock height

theorem Inv.executeHistory (turns : List HistoryTurn) :
    Inv H C (executeHistory H C flagCounts s turns).1 := by
  induction turns generalizing s with
  | nil => exact h
  | cons turn rest ih =>
    have hload := h.loadBlockObject (s.acctMeta.height + 1) turn.cached
    rw [BlockAcct.executeHistory]
    split
    · rename_i s' hcall
      rw [hcall] at hload
      exact ih hload
    · rename_i s' p hcall
      rw [hcall] at hload
      have hexec := hload.executeBlock flagCounts p turn.answers
      split
      · rename_i s'' hanswer
        rw [hanswer] at hexec
        exact ih hexec
      · rename_i s'' hanswer
        rw [hanswer] at hexec
        exact hexec

theorem Inv.saveAndExecute (p : Nat) (a : SaveAnswers) :
    Inv H C (saveAndExecute H C flagCounts s p a).1 := by
  unfold BlockAcct.saveAndExecute
  split
  · exact h
  · rename_i o hp
    have ho := h.object o (mem_of_getElem? hp)
    split
    · rename_i hsave
      exact h.withSaved p hsave ho
    · rename_i hsave
      exact ((h.withSaved p hsave ho).executeBlock flagCounts p a.answers).executeHistory flagCounts
        a.history

theorem Inv.saveBlock (p : Nat) (genesis : Option (Nat × SaveAnswers))
    (a : SaveAnswers) : Inv H C (saveBlock H C flagCounts s p genesis a).1 := by
  unfold BlockAcct.saveBlock
  split
  · split
    · exact (h.saveAndExecute flagCounts _ _).saveAndExecute flagCounts p a
    · exact h.saveAndExecute flagCounts p a
  · exact h.saveAndExecute flagCounts p a

theorem Inv.checkMeta : Inv H C s.checkMeta := by
  unfold BlockAcct.checkMeta
  split
  · exact h
  · rename_i acc hacc
    split
    · refine h.withMeta (.inr ⟨⟨acc, hacc, le_rfl⟩, ?_⟩)
      rcases h.xstore with hx | ⟨first, n, hrun⟩
      · rw [hx] at hacc
        cases hacc
      · obtain ⟨acc', hacc', hsame⟩ := hrun.account
        obtain rfl := mem_unique hacc hacc'
        rw [hsame.lastStateBlockHash, hsame.lastStateBlockHeight,
          C.lastStateBlockHash_accountAt, C.lastStateBlockHeight_accountAt]
    · exact h

theorem Inv.raise (p : Nat) {set : ObjFlags → ObjFlags}
    (hset : ∀ f, (set f).executed = f.executed) : Inv H C (raise flagCounts s p set) := by
  refine h.withObjects fun o ho hexec => ?_
  obtain ⟨i, hi⟩ := List.getElem?_of_mem ho
  rw [List.getElem?_modify] at hi
  obtain ⟨o', ho', rfl⟩ := map_eq_some_iff.mp hi
  have hold := h.object o' (mem_of_getElem? ho')
  split_ifs at hexec ⊢
  · exact hold ((hset o'.flags).symm.trans hexec)
  · exact hold hexec

theorem inv_step (e : Event) : Inv H C (step H C flagCounts s e).1 := by
  cases e with
  | receive height flags =>
    refine h.withObjects (h.append_object fun hexec => ?_)
    cases hexec
  | load height => exact h.loadBlock height
  | setLocked p => exact h.raise flagCounts p fun _ => rfl
  | setCommitted p => exact h.raise flagCounts p fun _ => rfl
  | setConnected p => exact h.raise flagCounts p fun _ => rfl
  | setStored p => exact h.raise flagCounts p fun _ => rfl
  | saveBlock p genesis a => exact h.saveBlock flagCounts p genesis a
  | executeBlock p a => exact h.executeBlock flagCounts p a
  | saveMeta => exact ⟨h.xstore, h.object, h.vblock, h.acctMeta, h.acctMeta⟩
  | restart => exact h.withMeta h.savedMeta
  | checkMeta => exact h.checkMeta

end

theorem inv_run (H : PropertyHasher) (C : AccountChain) (events : List Event) :
    Inv H C (Run.run (step H C flagCounts) {} events).1 := by
  have hany : Run.Meets (step H C flagCounts) (fun _ _ => True) {} events :=
    Run.meets_of_forall fun _ _ => trivial
  exact (Run.run_inv (I := Inv H C) (P := fun _ => True)
    (fun _ e hs _ => ⟨inv_step flagCounts hs e, fun _ _ => trivial⟩) inv_init events hany).1

end

/-- The account is the genesis account with the blocks up to the last height applied in their order,
each once, and the highest executed height of the block account is not above that height. -/
theorem executed_once_in_order (H : PropertyHasher) (C : AccountChain) (flagCounts : Bool)
    (events : List Event) :
    let s := (Run.run (step H C flagCounts) {} events).1
    (∀ acc, s.xstore.account = some acc →
      (∃ first, C.RunTo H first acc.lastStateBlockHeight s.xstore) ∧
        acc.SameState (C.accountAt acc.lastStateBlockHeight)) ∧
      s.acctMeta.height ≤ s.lastHeight := by
  intro s
  have h : Inv H C s := inv_run flagCounts H C events
  refine ⟨fun acc hacc => ?_, ?_⟩
  · rcases h.xstore with hx | ⟨first, n, hrun⟩
    · rw [hx] at hacc
      cases hacc
    · obtain ⟨acc', hacc', hsame⟩ := hrun.account
      obtain rfl := mem_unique hacc hacc'
      have hlast := hsame.lastStateBlockHeight.trans (C.lastStateBlockHeight_accountAt n)
      rw [hlast]
      exact ⟨⟨first, hrun⟩, hsame⟩
  · rcases h.acctMeta with hfresh | ⟨⟨acc, hacc, hle⟩, -⟩
    · rw [hfresh]
      exact Nat.zero_le _
    · rw [lastHeight, hacc]
      exact hle

end BlockAcct
end TopChain.Store
