import TopChain.Store.JoinFullunit
import TopChain.Store.Replay

/-!
# The property of an account at a height

`xstore::get_property` with a height.
-/
namespace TopChain.Store

open Option List TopChain.Lib TopChain.TxExecutor PropertyInstruction SortedMap Xblock

def onObject (obj : Option Dataobj) (op : Dataobj → Except PropertyError Dataobj) :
    Except PropertyError (Option Dataobj) :=
  match obj with
  | some obj => (op obj).map some
  | none => .error .operateFail

def restoreObject (obj : Option Dataobj) (i : PropertyInstruction) :
    Except PropertyError (Option Dataobj) :=
  match i.opCode with
  | .stringCreate => .ok (some (.make .string))
  | .listCreate => .ok (some (.make .deque))
  | .mapCreate => .ok (some (.make .map))
  | .delete => .ok none
  | .stringSet => onObject obj (·.stringSet i.opPara1)
  | .listPushBack => onObject obj (·.listPushBack i.opPara1)
  | .listPushFront => onObject obj (·.listPushFront i.opPara1)
  | .listPopBack => onObject obj (·.listPopBack)
  | .listPopFront => onObject obj (·.listPopFront)
  | .listClear => onObject obj (·.listClear)
  | .mapSet => onObject obj (·.mapSet i.opPara1 i.opPara2)
  | .mapRemove => onObject obj (·.mapRemove i.opPara1)
  | .mapClear => onObject obj (·.mapClear)
  | _ => .error .cmdInvalid

def restoreObjects (obj : Option Dataobj) (logs : PropertyBinlog) :
    Except PropertyError (Option Dataobj) :=
  logs.foldlM restoreObject obj

def setsSame (i : PropertyInstruction) (v : PropertyValue) : Bool :=
  i.opCode = .stringSet && v.toOption = some (.string i.opPara1)

def logSetsSame (v : PropertyValue) : PropertyBinlog → Bool
  | [] => false
  | i :: rest =>
    setsSame i v || match i.restore v with
      | some v' => logSetsSame v' rest
      | none => false

variable {i : PropertyInstruction}

theorem restoreObject_create {type : ObjType} (h : i.creates? = some type) (obj : Option Dataobj) :
    restoreObject obj i = .ok (some (.make type)) := by
  unfold creates? at h
  unfold restoreObject
  split at h <;> simp_all

theorem restoreObject_objectOp {o : ObjectOp} (h : i.objectOp? = some o) (obj : Option Dataobj) :
    restoreObject obj i = onObject obj o.op := by
  unfold objectOp? at h
  unfold restoreObject
  split at h <;> cases h <;> simp_all

theorem restoreObject_of_restore {v v' : PropertyValue} (h : i.restore v = some v') :
    restoreObject v.toOption i =
      if setsSame i v then .error .setValueSame else .ok v'.toOption := by
  cases hc : i.creates? with
  | some type =>
    have hno : setsSame i v = false := by
      unfold creates? at hc
      unfold setsSame
      split at hc <;> simp_all
    rw [restore_create hc] at h
    cases h
    rw [restoreObject_create hc, hno]
    rfl
  | none =>
    cases ho : i.objectOp? with
    | some o =>
      have hno : setsSame i v = false := by
        unfold objectOp? at ho
        unfold setsSame
        split at ho <;> simp_all
      obtain ⟨obj, obj', rfl, hop, rfl⟩ := (restore_objectOp ho).mp h
      rw [restoreObject_objectOp ho, hno]
      show (o.op obj).map some = .ok (some obj')
      rw [hop]
      rfl
    | none =>
      obtain ⟨hop, old, rfl, rfl⟩ | ⟨hop, -, rfl⟩ := restore_other hc ho h
      · unfold restoreObject setsSame
        rw [hop]
        by_cases hsame : i.opPara1 = old
        · simp [onObject, Dataobj.stringSet, Except.toOption, hsame, Except.map]
        · simp [onObject, Dataobj.stringSet, Except.toOption, hsame, Ne.symm hsame, Except.map]
      · unfold restoreObject setsSame
        rw [hop]
        rfl

theorem restoreObjects_of_replay {logs : PropertyBinlog} {v v' : PropertyValue}
    (h : replay v logs = some v') :
    restoreObjects v.toOption logs =
      if logSetsSame v logs then .error .setValueSame else .ok v'.toOption := by
  induction logs generalizing v with
  | nil =>
    cases h
    rfl
  | cons i rest ih =>
    rw [replay_cons] at h
    obtain ⟨w, hi, hrest⟩ := bind_eq_some_iff.mp h
    have hstep : restoreObjects v.toOption (i :: rest) =
        (restoreObject v.toOption i).bind fun obj => restoreObjects obj rest := rfl
    rw [hstep, restoreObject_of_restore hi, logSetsSame, hi]
    cases setsSame i v with
    | true => rfl
    | false => exact ih hrest

namespace StoredProperties
variable {P : StoredProperties} {c c' : AccountCmd} {name : String}

theorem value_error {e : PropertyError} (h : P.value c name = .error e) :
    e = .hasAlreadyDelete ∨ e = .behindNotExist ∨ e = .notCreate := by
  unfold value getProperty at h
  split at h
  · cases h
  · cases h
    exact .inl rfl
  · split at h
    · split at h
      · cases h
        exact .inr (.inl rfl)
      · cases h
    · cases h
      exact .inr (.inr rfl)

theorem restore_of_ok (h : (P.restoreLogInstruction c name i).2 = .ok ()) :
    ∃ v, i.restore (P.value c name) = some v := by
  cases hc : i.creates? with
  | some type => exact ⟨_, restore_create hc _⟩
  | none =>
    simp only [restoreLogInstruction_eq, hc] at h
    cases ho : i.objectOp? with
    | some o =>
      obtain ⟨log, -, hop'⟩ := changeProperty_objectOp ho P c name false
      rw [hop'] at h
      obtain ⟨obj, obj', hv, -, hop⟩ := objectOp_inv h
      exact ⟨_, (restore_objectOp ho).mpr ⟨obj, obj', hv, hop, rfl⟩⟩
    | none =>
      have hop : i.opCode = .stringSet ∨ i.opCode = .delete := by
        unfold changeProperty at h
        unfold objectOp? at ho
        split at h <;> simp_all
      rcases hop with hop | hop
      · have hset : P.changeProperty c name i false = P.stringSet c name i.opPara1 false := by
          simp only [changeProperty, hop]
        rw [hset] at h
        obtain ⟨old, hv⟩ := stringSet_inv h
        exact ⟨_, (restore_stringSet hop).mpr ⟨⟨old, hv⟩, rfl⟩⟩
      · have hdel : P.changeProperty c name i false = P.deleteProperty c name false := by
          simp only [changeProperty, hop]
        rw [hdel, deleteProperty] at h
        unfold restore
        rw [hc, ho, hop]
        cases hv : P.value c name with
        | ok obj => exact ⟨_, rfl⟩
        | error e =>
          rw [getProperty_error hv] at h
          rcases value_error hv with rfl | rfl | rfl
          · cases h
          · exact ⟨_, rfl⟩
          · cases h

/-- What the execution of a property's log leaves: the value of its replay, and a clone unless the
log is empty. -/
structure Restored (P : StoredProperties) (c c' : AccountCmd) (name : String)
    (logs : PropertyBinlog) : Prop where
  value : replay (P.value c name) logs = some (P.value c' name)
  same : logs = [] → c'.cloneObjs.find? name = c.cloneObjs.find? name
  cloned : logs ≠ [] → (c'.cloneObjs.find? name).isSome

theorem Restored.of_same (h : c'.cloneObjs.find? name = c.cloneObjs.find? name) :
    P.Restored c c' name [] :=
  ⟨congrArg some (value_congr h.symm), fun _ => h, fun hne => absurd rfl hne⟩

theorem restoreLogs_inv {logs : PropertyBinlog} (h : P.restoreLogs name c logs = (c', .ok ())) :
    P.Restored c c' name logs ∧
      ∀ other, other ≠ name → c'.cloneObjs.find? other = c.cloneObjs.find? other := by
  induction logs generalizing c with
  | nil =>
    cases h
    exact ⟨.of_same rfl, fun _ _ => rfl⟩
  | cons i rest ih =>
    rw [restoreLogs] at h
    split at h
    · rename_i c₁ hi
      obtain ⟨v, hv⟩ := restore_of_ok (congrArg Prod.snd hi)
      obtain ⟨obj, rfl, hset⟩ := restoreLogInstruction_ok hv
      obtain rfl : c.setObj name obj = c₁ := congrArg Prod.fst (hset.symm.trans hi)
      obtain ⟨hrest, hother⟩ := ih h
      have hvalue := hrest.value
      rw [value_setObj_self] at hvalue
      refine ⟨⟨?_, fun hnil => absurd hnil (cons_ne_nil _ _), fun _ => ?_⟩, fun other hne => ?_⟩
      · rw [replay_cons, hv]
        exact hvalue
      · by_cases hnil : rest = []
        · rw [hrest.same hnil]
          exact isSome_iff_exists.mpr ⟨obj, find?_insert_self _ _ _⟩
        · exact hrest.cloned hnil
      · rw [hother other hne]
        exact find?_insert_of_ne _ _ hne
    · cases h

theorem restoreAll_inv {es : List (String × PropertyBinlog)}
    (hsorted : es.Pairwise fun a b => a.1 < b.1) (h : P.restoreAll c es = (c', .ok ())) :
    (∀ e ∈ es, P.Restored c c' e.1 e.2) ∧
      ∀ other, other ∉ es.map (·.1) → c'.cloneObjs.find? other = c.cloneObjs.find? other := by
  induction es generalizing c with
  | nil =>
    cases h
    exact ⟨fun e he => (not_mem_nil he).elim, fun _ _ => rfl⟩
  | cons e rest ih =>
    obtain ⟨hlt, htail⟩ := pairwise_cons.mp hsorted
    obtain ⟨name, logs⟩ := e
    rw [restoreAll] at h
    split at h
    · rename_i c₁ hlogs
      obtain ⟨hfirst, hframe⟩ := restoreLogs_inv hlogs
      obtain ⟨hrest, hother⟩ := ih htail h
      have hnot : name ∉ rest.map (·.1) := fun hmem => by
        obtain ⟨e, he, rfl⟩ := mem_map.mp hmem
        exact lt_irrefl _ (hlt e he)
      have hlast := hother name hnot
      refine ⟨fun e he => ?_, fun other hmem => ?_⟩
      · rcases mem_cons.mp he with rfl | he
        · refine ⟨?_, fun hnil => hlast.trans (hfirst.same hnil), fun hne => ?_⟩
          · rw [hfirst.value, value_congr hlast]
          · rw [hlast]
            exact hfirst.cloned hne
        · have hne : e.1 ≠ name := (hlt e he).ne'
          have hsame := hframe e.1 hne
          obtain ⟨hvalue, hempty, hcloned⟩ := hrest e he
          rw [value_congr hsame] at hvalue
          exact ⟨hvalue, fun hnil => (hempty hnil).trans hsame, hcloned⟩
      · rw [map_cons, mem_cons, not_or] at hmem
        rw [hother other hmem.2, hframe other hmem.1]
    · cases h

theorem doPropertyLog_inv {log : AccountBinlog} (h : P.doPropertyLog c log = (c', .ok ()))
    (name : String) : P.Restored c c' name (log.logOf name) := by
  obtain ⟨hrestored, hother⟩ := restoreAll_inv log.sorted h
  unfold AccountBinlog.logOf
  cases hlogs : log.find? name with
  | some logs => exact hrestored _ (find?_eq_some_iff.mp hlogs)
  | none =>
    refine .of_same (hother name fun hmem => ?_)
    obtain ⟨e, he, rfl⟩ := mem_map.mp hmem
    exact find?_eq_none_iff.mp hlogs e.2 he

end StoredProperties

inductive QueryError where
  | blockNotExist
  | propertyNotInUnit
  | restore (e : PropertyError)
  | propertyNotExist
deriving DecidableEq, Repr

abbrev QueryState := Option Dataobj × Bool

namespace Xblock

def getPropertyHash (b : Xblock) (name : String) : String :=
  match b.body with
  | .lightunit unit => (unit.resource.propertyHash.find? name).getD ""
  | .fullunit unit => (unit.accountState.propertyHash.find? name).getD ""
  | _ => ""

def getPropertyLog (b : Xblock) : Option AccountBinlog :=
  match b.body with
  | .lightunit unit => unit.resource.binlog
  | _ => none

def listsProperty (b : Xblock) (name : String) : Bool :=
  match b.body with
  | .fullunit unit => (unit.accountPropertys.find? (·.1 = name)).isSome
  | _ => false

/-- One of the following blocks. The log of an account is a map, so the loop over it meets the name
once at most. -/
def queryProperty (name : String) (st : QueryState) (b : Xblock) : Except QueryError QueryState :=
  if b.getPropertyHash name = "" then .ok st
  else
    match b.getPropertyLog with
    | none => .ok st
    | some log =>
      match log.find? name with
      | none => .ok st
      | some logs =>
        match restoreObjects st.1 logs with
        | .error e => .error (.restore e)
        | .ok obj => .ok (obj, true)

end Xblock

/-- The first loop of `get_property`, with the blocks above where it stops, lowest on top. -/
def walkBack (blocks : Nat → Option Xblock) :
    Nat → List Xblock → Option (Nat × Xblock × List Xblock)
  | 0, following =>
    match blocks 0 with
    | none => none
    | some b => some (0, b, if b.isFullunit then following else b :: following)
  | n + 1, following =>
    match blocks (n + 1) with
    | none => none
    | some b => if b.isFullunit then some (n + 1, b, following) else walkBack blocks n
        (b :: following)

def replayQuery (name : String) (st : QueryState) (following : List Xblock) :
    Except QueryError (Option Dataobj) :=
  match following.foldlM (Xblock.queryProperty name) st with
  | .error e => .error e
  | .ok (obj, found) => if found then .ok obj else .error .propertyNotExist

def Xstore.getProperty (s : Xstore) (blocks : Nat → Option Xblock) (height : Nat)
    (name : String) : Except QueryError (Option Dataobj) :=
  match walkBack blocks height [] with
  | none => .error .blockNotExist
  | some (lastHeight, block, following) =>
    if lastHeight ≠ 0 then
      match if block.listsProperty name then s.propertyAt lastHeight name else none with
      | none => .error .propertyNotInUnit
      | some obj => replayQuery name (some obj, true) following
    else replayQuery name (none, false) following

def Xstore.valueOf (s : Xstore) (name : String) : PropertyValue :=
  (s.storedProperties (s.account.getD {})).value .new name

def Xblock.logOf (b : Xblock) (name : String) : PropertyBinlog :=
  (b.getPropertyLog.map (·.logOf name)).getD []

section
variable {H : PropertyHasher} {s : Xstore} {name : String}

def Xstore.Hashed (s : Xstore) : Prop :=
  ∀ name obj, s.property name = some obj →
    ((s.account.getD {}).accountState.propertyHash.find? name).isSome

theorem toOption_valueOf (hs : s.Hashed) (name : String) :
    (s.valueOf name).toOption = s.property name := by
  have hclone : (s.storedProperties (s.account.getD {})).cloneProperty name = s.property name := rfl
  unfold Xstore.valueOf StoredProperties.value StoredProperties.getProperty
  rw [AccountCmd.new, find?_empty, hclone]
  cases hhas : (s.storedProperties (s.account.getD {})).hasProperty name with
  | true =>
    cases hprop : s.property name with
    | none => rfl
    | some obj => rfl
  | false =>
    cases hprop : s.property name with
    | none => rfl
    | some obj =>
      have htrue : (s.storedProperties (s.account.getD {})).hasProperty name = true :=
        hs name obj hprop
      rw [hhas] at htrue
      cases htrue

variable {pairs : List (String × Dataobj)}

section
variable {unit : Lightunit} {c : AccountCmd} (h : AccountChain.Written H unit c pairs)
include h

theorem AccountChain.Written.hashed (name : String) :
    (unit.resource.propertyHash.find? name).getD "" = "" ↔ c.cloneObjs.find? name = none := by
  constructor
  · intro hempty
    cases hobj : c.cloneObjs.find? name with
    | none => rfl
    | some obj => exact absurd hempty (h.hash_ne_empty hobj)
  · intro hnone
    cases hfind : unit.resource.propertyHash.find? name with
    | none => rfl
    | some value =>
      have hsub : ∀ k, (c.cloneObjs.find? k).isSome →
          (unit.resource.propertyHash.find? k).isSome := by
        intro k hk
        obtain ⟨obj, hobj⟩ := isSome_iff_exists.mp hk
        by_contra hno
        rw [not_isSome_iff_eq_none] at hno
        exact h.hash_ne_empty hobj (by rw [hno]; rfl)
      have hname := isSome_find?_of_length h.length hsub (isSome_iff_exists.mpr ⟨value, hfind⟩)
      rw [hnone] at hname
      cases hname

theorem AccountChain.Written.putAll_eq (values : String → Option Dataobj) (name : String) :
    putAll values pairs name = (c.cloneObjs.find? name).getD (values name) := by
  cases hobj : c.cloneObjs.find? name with
  | none =>
    apply putAll_of_not_mem
    intro obj hmem
    rw [h.mem, hobj] at hmem
    cases hmem
  | some ptr =>
    cases ptr with
    | none => exact absurd hobj (h.notNull name)
    | some obj =>
      refine putAll_of_mem ((h.mem name obj).mpr hobj) fun obj' hobj' => ?_
      rw [h.mem, hobj] at hobj'
      exact (some_inj.mp (some_inj.mp hobj')).symm

end

theorem queryProperty_lightunit (hs : s.Hashed) {b : Xblock} {unit : Lightunit}
    (hbody : b.body = .lightunit unit)
    (h : s.executeLightunit H (s.account.getD {}) unit = some pairs) (name : String) :
    b.queryProperty name (s.property name, (s.property name).isSome) =
      if logSetsSame (s.valueOf name) (b.logOf name) then .error (.restore .setValueSame)
      else .ok (putAll s.property pairs name, (putAll s.property pairs name).isSome) := by
  have hhash : b.getPropertyHash name = (unit.resource.propertyHash.find? name).getD "" := by
    unfold getPropertyHash
    rw [hbody]
  have hlog : b.getPropertyLog = unit.resource.binlog := by
    unfold getPropertyLog
    rw [hbody]
  unfold queryProperty
  rw [hhash, hlog]
  rcases AccountChain.executeLightunit_inv h with ⟨hnone, rfl⟩ | ⟨log, c, hsome, hdo, hw⟩
  · have hof : b.logOf name = [] := by
      unfold Xblock.logOf
      rw [hlog, hnone]
      rfl
    rw [hof, hnone]
    exact ite_self _
  have hlogOf : b.logOf name = log.logOf name := by
    unfold Xblock.logOf
    rw [hlog, hsome]
    rfl
  rw [hsome]
  dsimp only
  have hrestored := StoredProperties.doPropertyLog_inv hdo name
  rw [hlogOf, hw.putAll_eq]
  by_cases hnil : log.logOf name = []
  · have hc : c.cloneObjs.find? name = none := hrestored.same hnil
    rw [if_pos ((hw.hashed name).mpr hc), hc, hnil]
    rfl
  · obtain ⟨ptr, hptr⟩ := isSome_iff_exists.mp (hrestored.cloned hnil)
    cases ptr with
    | none => exact absurd hptr (hw.notNull name)
    | some obj =>
      have hlogs : log.find? name = some (log.logOf name) := by
        unfold AccountBinlog.logOf at hnil ⊢
        cases hfind : log.find? name with
        | none => exact absurd (by rw [hfind, getD_none]) hnil
        | some logs => rfl
      have hvalue := hrestored.value
      rw [StoredProperties.value_of_find? hptr] at hvalue
      have hreplay : restoreObjects (s.property name) (log.logOf name) =
          if logSetsSame (s.valueOf name) (log.logOf name) then .error .setValueSame
          else .ok (some obj) := by
        rw [← toOption_valueOf hs name]
        exact restoreObjects_of_replay hvalue
      rw [if_neg (hw.hash_ne_empty hptr), hptr, getD_some, hlogs]
      dsimp only
      rw [hreplay]
      cases logSetsSame (s.valueOf name) (log.logOf name) with
      | true => rfl
      | false => rfl

end

namespace AccountChain

section
variable (H : PropertyHasher) (C : AccountChain)

def before : Nat → Option Xstore
  | 0 => some {}
  | n + 1 => C.replay H n

def lastFullunit : Nat → Option Nat
  | 0 => none
  | n + 1 => if (C.block (n + 1)).isFullunit then some (n + 1) else lastFullunit n

def queryStart (h : Nat) : Nat :=
  match C.lastFullunit h with
  | some m => m + 1
  | none => 0

def SetsSameAt (name : String) (k : Nat) : Prop :=
  ∃ p, C.before H k = some p ∧ logSetsSame (p.valueOf name) ((C.block k).logOf name)

/-- The property was there at the nearest full unit, and no block since sets a text to what it is.
-/
structure Answerable (h : Nat) (name : String) : Prop where
  listed : ∀ m r, C.lastFullunit h = some m → C.replay H m = some r → (r.property name).isSome
  changed : ∀ k, C.queryStart h ≤ k → k ≤ h → ¬ C.SetsSameAt H name k

end

variable {H : PropertyHasher} {C : AccountChain} {p q s t : Xstore} {n m h N : Nat} {name : String}

theorem exists_before_of_le (hn : C.before H n = some p) (hle : m ≤ n) :
    ∃ q, C.before H m = some q := by
  cases m with
  | zero => exact ⟨_, rfl⟩
  | succ m =>
    cases n with
    | zero => omega
    | succ n => exact exists_replay_of_le hn (by omega)

theorem before_last (hp : C.before H n = some p) {acc : Blockchain} (hacc : p.account = some acc) :
    acc.lastStateBlockHeight + 1 = n := by
  cases n with
  | zero =>
    cases hp
    cases hacc
  | succ n =>
    obtain ⟨acc', hacc', hsame⟩ := (runTo_of_replay hp).account
    obtain rfl := mem_unique hacc hacc'
    rw [hsame.lastStateBlockHeight, C.lastStateBlockHeight_accountAt]

theorem hashed_before (hmade : C.FullunitsMade H N) (hle : n ≤ N + 1)
    (hp : C.before H n = some p) : p.Hashed := by
  intro name obj hobj
  cases n with
  | zero =>
    cases hp
    cases hobj
  | succ n =>
    obtain ⟨acc, hacc, hsame⟩ := (runTo_of_replay hp).account
    have hhash := hasHash_of_property (hmade.mono (by omega)) hp hobj
    rwa [hacc, getD_some, hsame.accountState]

theorem replay_inv (hp : C.before H n = some p) (hq : C.replay H n = some q) :
    ∃ acc' pairs, q = p.write n acc' pairs ∧ p.executeBody H (p.account.getD {}) (C.block n) =
        some ((p.account.getD {}).applyTable (C.block n), pairs) := by
  have hexec : p.execute H (C.block n) = some q := by
    cases n with
    | zero =>
      cases hp
      exact hq
    | succ n =>
      obtain ⟨p', hp', hexec⟩ := bind_eq_some_iff.mp hq
      obtain rfl := mem_unique hp hp'
      exact hexec
  have hheight := C.height_block n
  obtain ⟨acc', pairs, hwrite, hbody, -⟩ := execute_cases (fun acc hacc => by
    have hlast := before_last hp hacc
    omega) hexec
  rw [hheight] at hwrite
  exact ⟨acc', pairs, hwrite, hbody⟩

theorem queryProperty_block (hmade : C.FullunitsMade H N) (hle : n ≤ N)
    (hp : C.before H n = some p) (hq : C.replay H n = some q)
    (hfull : ¬ (C.block n).isFullunit) (name : String) :
    (C.block n).queryProperty name (p.property name, (p.property name).isSome) =
      if logSetsSame (p.valueOf name) ((C.block n).logOf name) then
        .error (.restore .setValueSame)
      else .ok (q.property name, (q.property name).isSome) := by
  obtain ⟨acc', pairs, rfl, hbody⟩ := replay_inv hp hq
  have hheight := C.height_block n
  have hnext : (C.block n).height = 0 ∨
      (p.account.getD {}).lastStateBlockHeight + 1 = (C.block n).height := by
    cases hacc : p.account with
    | none =>
      cases n with
      | zero => exact .inl hheight
      | succ n =>
        obtain ⟨acc, hsome, -⟩ := (runTo_of_replay hp).account
        rw [hacc] at hsome
        cases hsome
    | some acc =>
      have hlast := before_last hp hacc
      rw [hheight]
      exact .inr hlast
  show _ = if _ then _ else
    Except.ok (putAll p.property pairs.latest name, (putAll p.property pairs.latest name).isSome)
  rcases latest_of_executeBody hnext (fun _ => hfull) hbody with
    ⟨hnil, hother⟩ | ⟨unit, hunit, hpairs⟩
  · rw [hnil, putAll_nil]
    have hlog : (C.block n).getPropertyLog = none := by
      unfold getPropertyLog
      split
      · exact absurd ‹_› (hother _)
      · rfl
    have hof : (C.block n).logOf name = [] := by
      unfold Xblock.logOf
      rw [hlog]
      rfl
    unfold queryProperty
    rw [hlog, hof]
    exact ite_self _
  · exact queryProperty_lightunit (hashed_before hmade (by omega) hp) hunit hpairs name

theorem query_blocks (hmade : C.FullunitsMade H N) {len : Nat} (hp : C.before H n = some p)
    (ht : C.before H (n + len) = some t) (hle : n + len ≤ N + 1)
    (hfull : ∀ k, n ≤ k → k < n + len → ¬ (C.block k).isFullunit) (name : String)
    (st : QueryState) :
    ((List.range' n len).map C.block).foldlM (Xblock.queryProperty name)
        (p.property name, (p.property name).isSome) = .ok st ↔
      (∀ k, n ≤ k → k < n + len → ¬ C.SetsSameAt H name k) ∧
        (t.property name, (t.property name).isSome) = st := by
  induction len generalizing n p with
  | zero =>
    obtain rfl := mem_unique hp ht
    show Except.ok _ = Except.ok st ↔ _
    rw [Except.ok.injEq, iff_and_self]
    omega
  | succ len ih =>
    obtain ⟨q, hq⟩ := exists_before_of_le ht (show n + 1 ≤ n + (len + 1) by omega)
    have hstep := queryProperty_block hmade (by omega) hp hq (hfull n le_rfl (by omega)) name
    have hsame : C.SetsSameAt H name n ↔
        logSetsSame (p.valueOf name) ((C.block n).logOf name) = true := by
      constructor
      · rintro ⟨p', hp', hlog⟩
        obtain rfl := mem_unique hp hp'
        exact hlog
      · exact fun hlog => ⟨p, hp, hlog⟩
    rw [range'_succ, map_cons, foldlM_cons, hstep]
    by_cases hlog : logSetsSame (p.valueOf name) ((C.block n).logOf name) = true
    · rw [if_pos hlog]
      constructor
      · intro herr
        cases herr
      · rintro ⟨hchanged, -⟩
        exact absurd (hsame.mpr hlog) (hchanged n le_rfl (by omega))
    · rw [if_neg hlog]
      have hrest := ih hq (by rwa [Nat.add_right_comm]) (by omega)
        (fun k hk hlt => hfull k (by omega) (by omega))
      refine hrest.trans
        (and_congr_left fun _ => ⟨fun hchanged k hk hlt => ?_, fun hchanged k hk hlt => ?_⟩)
      · rcases Nat.eq_or_lt_of_le hk with rfl | hk
        · exact fun hset => hlog (hsame.mp hset)
        · exact hchanged k hk (by omega)
      · exact hchanged k (by omega) (by omega)

theorem lastFullunit_eq_some (hm : C.lastFullunit h = some m) :
    m ≤ h ∧ 0 < m ∧ (C.block m).isFullunit := by
  induction h with
  | zero => cases hm
  | succ n ih =>
    unfold lastFullunit at hm
    split at hm
    · rename_i hfull
      cases hm
      exact ⟨le_rfl, n.succ_pos, hfull⟩
    · obtain ⟨hle, hpos, hfull⟩ := ih hm
      exact ⟨by omega, hpos, hfull⟩

theorem queryStart_succ_of_full (hfull : (C.block (n + 1)).isFullunit) :
    C.queryStart (n + 1) = n + 2 := by
  unfold queryStart lastFullunit
  rw [if_pos hfull]

theorem queryStart_succ (hfull : ¬ (C.block (n + 1)).isFullunit) :
    C.queryStart (n + 1) = C.queryStart n := by
  unfold queryStart
  rw [lastFullunit, if_neg hfull]

theorem queryStart_le (C : AccountChain) (h : Nat) : C.queryStart h ≤ h + 1 := by
  unfold queryStart
  split
  · rename_i m hm
    have hle := (lastFullunit_eq_some hm).1
    omega
  · omega

theorem not_isFullunit_of_queryStart_le (hgenesis : ¬ (C.block 0).isFullunit) {k : Nat}
    (hk : C.queryStart h ≤ k) (hkh : k ≤ h) : ¬ (C.block k).isFullunit := by
  induction h with
  | zero =>
    obtain rfl : k = 0 := by omega
    exact hgenesis
  | succ n ih =>
    by_cases hfull : (C.block (n + 1)).isFullunit
    · rw [queryStart_succ_of_full hfull] at hk
      omega
    · rcases Nat.eq_or_lt_of_le hkh with rfl | hlt
      · exact hfull
      · rw [queryStart_succ hfull] at hk
        exact ih hk (by omega)

theorem walkBack_eq (hgenesis : ¬ (C.block 0).isFullunit) {blocks : Nat → Option Xblock}
    (hblocks : ∀ n ≤ h, blocks n = some (C.block n)) (following : List Xblock) :
    walkBack blocks h following =
      some ((C.lastFullunit h).getD 0, C.block ((C.lastFullunit h).getD 0),
        (List.range' (C.queryStart h) (h + 1 - C.queryStart h)).map C.block ++ following) := by
  induction h generalizing following with
  | zero =>
    unfold walkBack
    rw [hblocks 0 le_rfl]
    dsimp only
    rw [if_neg hgenesis]
    rfl
  | succ n ih =>
    unfold walkBack
    rw [hblocks (n + 1) le_rfl]
    dsimp only
    by_cases hfull : (C.block (n + 1)).isFullunit
    · rw [if_pos hfull, queryStart_succ_of_full hfull, lastFullunit, if_pos hfull, Nat.sub_self]
      rfl
    · have hle := C.queryStart_le n
      have hlen : n + 1 + 1 - C.queryStart n = (n + 1 - C.queryStart n) + 1 := by omega
      have hend : C.queryStart n + (n + 1 - C.queryStart n) = n + 1 := by omega
      rw [if_neg hfull, ih (fun k hk => hblocks k (by omega)), queryStart_succ hfull, lastFullunit,
        if_neg hfull, hlen, range'_1_concat, hend, map_append, append_assoc]
      rfl

theorem propertyAt_before (hp : C.before H n = some p) {k : Nat} (hk : n ≤ k) :
    p.propertyAt k = fun _ => none := by
  induction n generalizing p with
  | zero =>
    cases hp
    rfl
  | succ n ih =>
    obtain ⟨p₀, hp₀⟩ := exists_before_of_le hp n.le_succ
    obtain ⟨acc', pairs, rfl, -⟩ := replay_inv hp₀ hp
    show (if k = n then _ else _) = _
    rw [if_neg (by omega), ih hp₀ (by omega)]

theorem propertyAt_replay {unit : Fullunit} (hunit : (C.block m).body = .fullunit unit)
    (hs : C.replay H N = some s) (hle : m ≤ N) :
    s.propertyAt m = putAll (fun _ => none) unit.accountPropertys := by
  induction N, hle using Nat.le_induction generalizing s with
  | base =>
    obtain ⟨p, hp⟩ := exists_before_of_le (n := m + 1) hs m.le_succ
    obtain ⟨acc', pairs, rfl, hbody⟩ := replay_inv hp hs
    unfold Xstore.executeBody at hbody
    rw [hunit] at hbody
    obtain ⟨-, rfl⟩ := Prod.mk.inj (Option.some.inj hbody)
    show (if m = m then _ else _) = _
    rw [if_pos rfl, propertyAt_before hp le_rfl]
    rfl
  | succ N hle ih =>
    obtain ⟨p, hp⟩ := exists_before_of_le (n := N + 1 + 1) hs (N + 1).le_succ
    obtain ⟨acc', pairs, rfl, -⟩ := replay_inv hp hs
    show (if m = N + 1 then _ else _) = _
    rw [if_neg (by omega)]
    exact ih hp

theorem propertyAt_fullunit {r : Xstore} (hmade : C.FullunitsMade H N) (hs : C.replay H N = some s)
    (hle : m ≤ N) (hfull : (C.block m).isFullunit) (hr : C.replay H m = some r) :
    (if (C.block m).listsProperty name then s.propertyAt m name else none) = r.property name := by
  obtain ⟨unit, hunit⟩ := isFullunit_iff.mp hfull
  obtain ⟨k, r₀, rfl, hr₀, -⟩ := hmade m hle unit hunit
  have hputAll : putAll (fun _ => none) unit.accountPropertys = r₀.property :=
    (hmade.mono hle).putAll_propertys hunit hr₀ fun _ _ hnone => by cases hnone
  rw [property_replay_fullunit hunit hr₀ hr, ← hputAll, propertyAt_replay hunit hs hle]
  have hlists : (C.block (k + 1)).listsProperty name =
      (unit.accountPropertys.find? (·.1 = name)).isSome := by
    unfold listsProperty
    rw [hunit]
  have hvalue : putAll (fun _ => none) unit.accountPropertys name =
      (unit.accountPropertys.find? (·.1 = name)).map (·.2) := or_none
  rw [hvalue]
  split
  · rfl
  · rename_i hno
    rw [hlists, not_isSome_iff_eq_none] at hno
    rw [hno, map_none]

theorem replayQuery_eq_ok {st : QueryState} {following : List Xblock} {o : Option Dataobj} :
    replayQuery name st following = .ok o ↔
      following.foldlM (Xblock.queryProperty name) st = .ok (o, true) := by
  unfold replayQuery
  cases following.foldlM (queryProperty name) st with
  | error e => exact ⟨nofun, nofun⟩
  | ok st =>
    obtain ⟨obj, found⟩ := st
    cases found with
    | true => simp
    | false => simp

theorem answerable_of_genesis (hlast : C.lastFullunit h = none) :
    C.Answerable H h name ↔ ∀ k, C.queryStart h ≤ k → k ≤ h → ¬ C.SetsSameAt H name k := by
  refine ⟨fun hans => hans.changed, fun hchanged => ⟨fun m r hm => ?_, hchanged⟩⟩
  rw [hlast] at hm
  cases hm

theorem answerable_of_fullunit {r : Xstore} (hlast : C.lastFullunit h = some m)
    (hr : C.replay H m = some r) :
    C.Answerable H h name ↔ (r.property name).isSome ∧
      ∀ k, C.queryStart h ≤ k → k ≤ h → ¬ C.SetsSameAt H name k := by
  constructor
  · intro hans
    exact ⟨hans.listed m r hlast hr, hans.changed⟩
  · rintro ⟨hlisted, hchanged⟩
    refine ⟨fun m' r' hm' hr' => ?_, hchanged⟩
    obtain rfl := mem_unique hlast hm'
    obtain rfl := mem_unique hr hr'
    exact hlisted

/-- On a node that has executed the chain up to a height, the query there gives the value that the
property has after these blocks, where it has one and the query can answer. -/
theorem get_property_agrees (H : PropertyHasher) (C : AccountChain) {N h : Nat} {s t : Xstore}
    {blocks : Nat → Option Xblock} (hmade : C.FullunitsMade H N) (hs : C.replay H N = some s)
    (hle : h ≤ N) (ht : C.replay H h = some t) (hblocks : ∀ n ≤ h, blocks n = some (C.block n))
    (name : String) (o : Option Dataobj) :
    s.getProperty blocks h name = .ok o ↔
      (t.property name = o ∧ o.isSome) ∧ C.Answerable H h name := by
  have hgenesis := hmade.not_genesis
  have hlen := C.queryStart_le h
  have hrun : ∀ {p}, C.before H (C.queryStart h) = some p →
      (replayQuery name (p.property name, (p.property name).isSome)
        ((List.range' (C.queryStart h) (h + 1 - C.queryStart h)).map C.block) = .ok o ↔
      (∀ k, C.queryStart h ≤ k → k ≤ h → ¬ C.SetsSameAt H name k) ∧
        t.property name = o ∧ o.isSome) := by
    intro p hp
    have hend : C.queryStart h + (h + 1 - C.queryStart h) = h + 1 := by omega
    have hblock := query_blocks (t := t) hmade hp (by rwa [hend]) (by omega)
      (fun k hk hlt => not_isFullunit_of_queryStart_le hgenesis hk (by omega)) name (o, true)
    rw [replayQuery_eq_ok, hblock, hend]
    simp only [Nat.lt_succ_iff, Prod.mk.injEq]
    refine and_congr_right fun _ => and_congr_right fun heq => ?_
    rw [heq]
  unfold Xstore.getProperty
  rw [walkBack_eq hgenesis hblocks, append_nil]
  dsimp only
  cases hlast : C.lastFullunit h with
  | none =>
    have hstart : C.queryStart h = 0 := by rw [queryStart, hlast]
    have hgo := hrun (p := {}) (by rw [hstart]; rfl)
    rw [answerable_of_genesis hlast, and_comm]
    exact hgo
  | some m =>
    obtain ⟨hmh, hpos, hfull⟩ := lastFullunit_eq_some hlast
    have hstart : C.queryStart h = m + 1 := by rw [queryStart, hlast]
    obtain ⟨r, hr⟩ := exists_replay_of_le ht hmh
    have hgo := hrun (p := r) (by rw [hstart]; exact hr)
    rw [getD_some, if_pos (by omega),
      propertyAt_fullunit hmade hs (hmh.trans hle) hfull hr]
    rw [answerable_of_fullunit hlast hr]
    cases hvalue : r.property name with
    | none =>
      constructor
      · intro herr
        cases herr
      · rintro ⟨-, hlisted, -⟩
        cases hlisted
    | some obj =>
      rw [hvalue] at hgo
      rw [isSome_some, eq_self, true_and, and_comm]
      exact hgo

/-! An account that changes its property and creates another one after a full unit, and then changes
the first property and changes it back. -/

namespace QuerySample

def lightunit (P : StoredProperties) (ops : List (String × PropertyInstruction)) : Lightunit :=
  let output := (Run.run P.step .new ops).1.output sampleHasher.hashPtr
  { sampleLightunit with
    resource :=
      { sampleLightunit.resource with
        propertyHash := output.propertyHash
        binlog := output.propertyLog } }

def stored (texts : List (String × String)) : StoredProperties where
  hasProperty name := (texts.lookup name).isSome
  cloneProperty name := (texts.lookup name).map .string

def body : Nat → XblockBody
  | 1 => .lightunit (lightunit (stored [])
      [("p", ⟨.stringCreate, "", ""⟩), ("p", ⟨.stringSet, "x", ""⟩)])
  | 2 => .fullunit sampleFullunit
  | 3 => .lightunit (lightunit (stored [("p", "x")])
      [("q", ⟨.stringCreate, "", ""⟩), ("q", ⟨.stringSet, "y", ""⟩), ("p", ⟨.stringSet, "z", ""⟩)])
  | 4 => .lightunit (lightunit (stored [("p", "z"), ("q", "y")])
      [("p", ⟨.stringSet, "w", ""⟩), ("p", ⟨.stringSet, "z", ""⟩)])
  | _ => .emptyunit

def chain : AccountChain where
  block n :=
    { height := n
      blockHash := sampleHash n
      lastBlockHash := sampleHash (n - 1)
      gmtime := 7
      body := body n }
  height_block _ := rfl
  linked _ := rfl
  genesis_hash := by decide
  oneLevel := .inl fun n => by
    match n with
    | 0 | 1 | 2 | 3 | 4 | _ + 5 => rfl

theorem fullunitsMade : chain.FullunitsMade sampleHasher 4 := by
  have hmake : (chain.replay sampleHasher 1).bind
      (Xstore.makeFullunitOutput sampleHasher) = some sampleFullunit := by decide +kernel
  obtain ⟨s, hs, hunit⟩ := bind_eq_some_iff.mp hmake
  intro n hn unit hbody
  match n with
  | 0 => cases hbody
  | 1 => cases hbody
  | 2 =>
    cases hbody
    exact ⟨1, s, rfl, hs, hunit⟩
  | 3 => cases hbody
  | 4 => cases hbody
  | n + 5 => omega

end QuerySample

theorem get_property_agrees_sample :
    ∃ s t, QuerySample.chain.replay sampleHasher 4 = some s ∧
      QuerySample.chain.replay sampleHasher 3 = some t ∧
      s.getProperty (fun n => some (QuerySample.chain.block n)) 3 "p" =
        .ok (some (.string "z")) ∧
      t.property "p" = some (.string "z") ∧
      QuerySample.chain.Answerable sampleHasher 3 "p" := by
  have hquery : (QuerySample.chain.replay sampleHasher 4).map
      (·.getProperty (fun n => some (QuerySample.chain.block n)) 3 "p") =
        some (.ok (some (.string "z"))) := by decide +kernel
  obtain ⟨s, hs, hquery⟩ := map_eq_some_iff.mp hquery
  obtain ⟨t, ht⟩ := exists_replay_of_le hs (show 3 ≤ 4 by decide)
  have hagree := (get_property_agrees sampleHasher QuerySample.chain QuerySample.fullunitsMade hs
    (by decide) ht (fun _ _ => rfl) "p" _).mp hquery
  exact ⟨s, t, hs, ht, hquery, hagree.1.1, hagree.2⟩

theorem get_property_misses_value :
    QuerySample.chain.FullunitsMade sampleHasher 4 ∧
    (QuerySample.chain.replay sampleHasher 3).bind (·.property "q") = some (.string "y") ∧
    (QuerySample.chain.replay sampleHasher 4).map
      (·.getProperty (fun n => some (QuerySample.chain.block n)) 3 "q") =
        some (.error .propertyNotInUnit) ∧
    (QuerySample.chain.replay sampleHasher 4).bind (·.property "p") = some (.string "z") ∧
    (QuerySample.chain.replay sampleHasher 4).map
      (·.getProperty (fun n => some (QuerySample.chain.block n)) 4 "p") =
        some (.error (.restore .setValueSame)) :=
  ⟨QuerySample.fullunitsMade, by decide +kernel, by decide +kernel, by decide +kernel,
    by decide +kernel⟩

end AccountChain
end TopChain.Store
