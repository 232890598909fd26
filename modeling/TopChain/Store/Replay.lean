import TopChain.Store.PropertyLog
import TopChain.Lib.Run

/-!
# Replaying a compacted binlog

The binlog of a unit stands for the operations that were done directly.
-/
namespace TopChain.Store

open Option List TopChain.Lib SortedMap AccountBinlog

abbrev PropertyValue := Except PropertyError Dataobj

def toValue : Option Dataobj → PropertyValue
  | some obj => .ok obj
  | none => .error .hasAlreadyDelete

def StoredProperties.value (P : StoredProperties) (c : AccountCmd) (name : String) :
    PropertyValue :=
  (P.getProperty c name).2

structure ObjectOp where
  type : ObjType
  op : Dataobj → Except PropertyError Dataobj

variable {i j : PropertyInstruction} {o : ObjectOp} {obj obj' : Dataobj} {type : ObjType}
  {v v' v₀ : PropertyValue} {logs : PropertyBinlog} {field : String}

namespace PropertyInstruction

def objectOp? (i : PropertyInstruction) : Option ObjectOp :=
  match i.opCode with
  | .listPushBack => some ⟨.deque, (·.listPushBack i.opPara1)⟩
  | .listPushFront => some ⟨.deque, (·.listPushFront i.opPara1)⟩
  | .listPopBack => some ⟨.deque, (·.listPopBack)⟩
  | .listPopFront => some ⟨.deque, (·.listPopFront)⟩
  | .listClear => some ⟨.deque, (·.listClear)⟩
  | .mapSet => some ⟨.map, (·.mapSet i.opPara1 i.opPara2)⟩
  | .mapRemove => some ⟨.map, (·.mapRemove i.opPara1)⟩
  | .mapClear => some ⟨.map, (·.mapClear)⟩
  | _ => none

def creates? (i : PropertyInstruction) : Option ObjType :=
  match i.opCode with
  | .stringCreate => some .string
  | .listCreate => some .deque
  | .mapCreate => some .map
  | _ => none

/-- What a logged instruction makes of the value of its property; `none` where
`restore_log_instruction` fails. -/
def restore (i : PropertyInstruction) (v : PropertyValue) : Option PropertyValue :=
  match i.creates?, i.objectOp?, i.opCode, v with
  | some type, _, _, _ => some (.ok (.make type))
  | none, some o, _, .ok obj => (o.op obj).toOption.map .ok
  | none, none, .stringSet, .ok (.string _) => some (.ok (.string i.opPara1))
  | none, none, .delete, .ok _ => some (.error .hasAlreadyDelete)
  | none, none, .delete, .error .behindNotExist => some (.error .hasAlreadyDelete)
  | _, _, _, _ => none

theorem objectOp?_typed (ho : i.objectOp? = some o) (h : o.op obj = .ok obj') :
    obj.objType = o.type ∧ obj'.objType = o.type := by
  unfold objectOp? at ho
  split at ho <;> cases ho
  case h_7 =>
    cases obj with
    | map fields =>
      simp only [Dataobj.mapRemove] at h
      split_ifs at h
      cases h
      exact ⟨rfl, rfl⟩
    | _ => cases h
  all_goals
    rcases obj with _ | (_ | _) | _ <;> cases h
    all_goals exact ⟨rfl, rfl⟩

theorem objectOp?_of_creates? (h : i.creates? = some type) : i.objectOp? = none := by
  unfold creates? at h
  unfold objectOp?
  split at h <;> simp_all

theorem restore_create (h : i.creates? = some type) (v : PropertyValue) :
    i.restore v = some (.ok (.make type)) := by
  simp [restore, h]

theorem restore_objectOp (ho : i.objectOp? = some o) :
    i.restore v = some v' ↔ ∃ obj obj', v = .ok obj ∧ o.op obj = .ok obj' ∧ v' = .ok obj' := by
  have hc : i.creates? = none := by
    by_contra hc
    obtain ⟨type, hc⟩ := ne_none_iff_exists'.mp hc
    rw [objectOp?_of_creates? hc] at ho
    cases ho
  cases v with
  | error e => simp [restore, hc, ho]
  | ok obj =>
    simp only [restore, hc, ho, Except.ok.injEq]
    cases hop : o.op obj with
    | error e => simp [Except.toOption, hop]
    | ok obj' => simp [Except.toOption, hop, eq_comm]

theorem restore_stringSet (hi : i.opCode = .stringSet) :
    i.restore v = some v' ↔ (∃ old, v = .ok (.string old)) ∧ v' = .ok (.string i.opPara1) := by
  have hc : i.creates? = none := by simp [creates?, hi]
  have ho : i.objectOp? = none := by simp [objectOp?, hi]
  rcases v with e | (old | values | fields) <;> simp [restore, hc, ho, hi, eq_comm]

theorem restore_other (hc : i.creates? = none) (ho : i.objectOp? = none)
    (h : i.restore v = some v') :
    (i.opCode = .stringSet ∧ ∃ old, v = .ok (.string old) ∧ v' = .ok (.string i.opPara1)) ∨
      (i.opCode = .delete ∧ (v = .error .behindNotExist ∨ ∃ obj, v = .ok obj) ∧
        v' = .error .hasAlreadyDelete) := by
  simp only [restore, hc, ho] at h
  split at h <;> simp_all

theorem typed_of_restore (h : i.restore v = some (.ok obj')) (hc : i.creates? ≠ some obj'.objType) :
    ∃ obj, v = .ok obj ∧ obj.objType = obj'.objType := by
  cases hcr : i.creates? with
  | some type =>
    rw [restore_create hcr, Option.some.injEq, Except.ok.injEq] at h
    subst h
    cases type <;> exact absurd hcr hc
  | none =>
    cases ho : i.objectOp? with
    | some o =>
      obtain ⟨obj, obj'', rfl, hop, he⟩ := (restore_objectOp ho).mp h
      obtain ⟨h1, h2⟩ := objectOp?_typed ho hop
      cases he
      exact ⟨obj, rfl, h1.trans h2.symm⟩
    | none =>
      obtain ⟨-, old, rfl, he⟩ | ⟨-, -, he⟩ := restore_other hcr ho h
      · cases he
        exact ⟨_, rfl, rfl⟩
      · cases he

end PropertyInstruction

open PropertyInstruction PropertyBinlog

def replay (v : PropertyValue) (logs : PropertyBinlog) : Option PropertyValue :=
  logs.foldlM (fun v i => i.restore v) v

@[simp] theorem replay_nil (v : PropertyValue) : replay v [] = some v := rfl

theorem replay_cons (v : PropertyValue) (i : PropertyInstruction) (logs : PropertyBinlog) :
    replay v (i :: logs) = (i.restore v).bind (fun v' => replay v' logs) := rfl

theorem replay_append (v : PropertyValue) (logs logs' : PropertyBinlog) :
    replay v (logs ++ logs') = (replay v logs).bind (fun v' => replay v' logs') := by
  simp [replay, foldlM_append]

theorem replay_concat {v'' : PropertyValue} (h : replay v logs = some v')
    (hi : i.restore v' = some v'') :
    replay v (logs ++ [i]) = some v'' := by
  rw [replay_append, h, bind_some, replay_cons, hi]
  rfl

theorem replay_concat_inv {v'' : PropertyValue} (h : replay v (logs ++ [i]) = some v'') :
    ∃ v', replay v logs = some v' ∧ i.restore v' = some v'' := by
  rw [replay_append] at h
  obtain ⟨v', h1, h2⟩ := bind_eq_some_iff.mp h
  obtain ⟨w, h3, h4⟩ := bind_eq_some_iff.mp h2
  cases h4
  exact ⟨v', h1, h3⟩

theorem typed_of_replay (h : replay v logs = some (.ok obj'))
    (hc : ∀ i ∈ logs, i.creates? ≠ some obj'.objType) :
    ∃ obj, v = .ok obj ∧ obj.objType = obj'.objType := by
  induction logs generalizing v with
  | nil => exact ⟨obj', by simpa using h, rfl⟩
  | cons i logs ih =>
    obtain ⟨v', hi, h⟩ := bind_eq_some_iff.mp h
    obtain ⟨obj, rfl, ht⟩ := ih h fun j hj => hc j (mem_cons_of_mem _ hj)
    rw [← ht] at hc ⊢
    exact typed_of_restore hi (hc i mem_cons_self)

theorem deleteBinlogDequePush_eq_some {logs' : PropertyBinlog} {op : PropertyOpCode}
    (h : logs.deleteBinlogDequePush op = some logs') :
    ∃ last, logs = logs' ++ [last] ∧ last.opCode = op := by
  unfold deleteBinlogDequePush at h
  split at h
  · rename_i last hlast
    split_ifs at h with hop
    cases h
    exact ⟨last, (dropLast_append_getLast? last hlast).symm, hop⟩
  · cases h

theorem replay_undo {push : PropertyOpCode} (ho : i.objectOp? = some o)
    (hpush : ∀ j : PropertyInstruction, j.opCode = push → ∃ p, j.objectOp? = some p ∧
      ∀ obj obj', p.op obj = .ok obj' → o.op obj' = .ok obj)
    (h : replay v₀ logs = some v) (hi : i.restore v = some v') :
    replay v₀ ((logs.deleteBinlogDequePush push).getD (logs ++ [i])) = some v' := by
  cases hd : logs.deleteBinlogDequePush push with
  | none => exact replay_concat h hi
  | some logs' =>
    obtain ⟨last, rfl, hop⟩ := deleteBinlogDequePush_eq_some hd
    obtain ⟨u, hu, hlast⟩ := replay_concat_inv h
    obtain ⟨p, hp, hundo⟩ := hpush last hop
    obtain ⟨obj, obj', rfl, hdone, rfl⟩ := (restore_objectOp hp).mp hlast
    have hback := (restore_objectOp ho).mpr ⟨obj', obj, rfl, hundo obj obj' hdone, rfl⟩
    rw [hi] at hback
    rw [getD_some, hu, hback]

theorem listPopBack_concat (values : List String) (value : String) :
    (Dataobj.deque (values ++ [value])).listPopBack = .ok (.deque values) := by
  cases values with
  | nil => rfl
  | cons first rest =>
    change Except.ok (Dataobj.deque (first :: rest ++ [value]).dropLast) = _
    rw [dropLast_concat]

theorem pushBack_undone (hj : j.opCode = .listPushBack) : ∃ p, j.objectOp? = some p ∧
    ∀ obj obj', p.op obj = .ok obj' → obj'.listPopBack = .ok obj := by
  refine ⟨⟨.deque, (·.listPushBack j.opPara1)⟩, by simp [objectOp?, hj], fun obj obj' hop => ?_⟩
  rcases obj with s | values | fields <;> cases hop
  exact listPopBack_concat values _

theorem pushFront_undone (hj : j.opCode = .listPushFront) : ∃ p, j.objectOp? = some p ∧
    ∀ obj obj', p.op obj = .ok obj' → obj'.listPopFront = .ok obj := by
  refine ⟨⟨.deque, (·.listPushFront j.opPara1)⟩, by simp [objectOp?, hj], fun obj obj' hop => ?_⟩
  rcases obj with s | values | fields <;> cases hop
  rfl

theorem replay_stringSet (hop : i.opCode = .stringSet) (h : replay v₀ logs = some v)
    (hi : i.restore v = some v') :
    replay v₀ (logs.deleteBinlogStringSet .stringSet ++ [i]) = some v' := by
  rw [deleteBinlogStringSet]
  cases hd : logs.deleteBinlogDequePush .stringSet with
  | none => exact replay_concat h hi
  | some logs' =>
    obtain ⟨last, rfl, hlop⟩ := deleteBinlogDequePush_eq_some hd
    obtain ⟨u, hu, hlast⟩ := replay_concat_inv h
    obtain ⟨hold, -⟩ := (restore_stringSet hlop).mp hlast
    obtain ⟨-, rfl⟩ := (restore_stringSet hop).mp hi
    exact replay_concat hu ((restore_stringSet hop).mpr ⟨hold, rfl⟩)

theorem make_objType (type : ObjType) : (Dataobj.make type).objType = type := by
  cases type <;> rfl

theorem creates?_deque_iff (i : PropertyInstruction) :
    i.creates? = some .deque ↔ i.opCode = .listCreate := by
  unfold creates?
  split <;> simp_all

theorem creates?_map_iff (i : PropertyInstruction) :
    i.creates? = some .map ↔ i.opCode = .mapCreate := by
  unfold creates?
  split <;> simp_all

theorem listClear_of_deque (obj : Dataobj) (h : obj.objType = .deque) :
    obj.listClear = .ok (.make .deque) := by
  cases obj with
  | deque values => rfl
  | _ => cases h

theorem mapClear_of_map (obj : Dataobj) (h : obj.objType = .map) :
    obj.mapClear = .ok (.make .map) := by
  cases obj with
  | map fields => rfl
  | _ => cases h

theorem replay_clear {create : PropertyOpCode} (ho : i.objectOp? = some o)
    (hcreate : ∀ j : PropertyInstruction, j.creates? = some o.type ↔ j.opCode = create)
    (hclear : ∀ obj, obj.objType = o.type → o.op obj = .ok (.make o.type))
    (h : replay v₀ logs = some v) (hi : i.restore v = some v') :
    replay v₀ (logs.deleteBinlogSince create ++ [i]) = some v' := by
  obtain ⟨obj, obj', rfl, hop, rfl⟩ := (restore_objectOp ho).mp hi
  have ht := (objectOp?_typed ho hop).1
  obtain rfl : Dataobj.make o.type = obj' := by simpa [hclear obj ht] using hop
  have hmakes : ∀ obj, obj.objType = o.type → i.restore (.ok obj) = some (.ok (.make o.type)) :=
    fun obj ht => (restore_objectOp ho).mpr ⟨obj, _, rfl, hclear obj ht, rfl⟩
  rcases eq_nil_or_concat (logs.deleteBinlogSince create) with hnil | ⟨front, last, hlast⟩
  · have hall : ∀ j ∈ logs, j.creates? ≠ some obj.objType := fun j hj => by
      have hne := rdropWhile_eq_nil_iff.mp hnil j hj
      rw [ht, Ne, hcreate j]
      simpa using hne
    obtain ⟨obj₀, rfl, ht₀⟩ := typed_of_replay h hall
    rw [hnil]
    exact replay_concat (replay_nil _) (hmakes obj₀ (ht₀.trans ht))
  · rw [concat_eq_append] at hlast
    have hprefix : logs.deleteBinlogSince create <+: logs := rdropWhile_prefix _ _
    obtain ⟨rest, hrest⟩ := hprefix
    have hlop : last.opCode = create := by
      have hl : logs.deleteBinlogSince create ≠ [] := by simp [hlast]
      have hne := rdropWhile_last_not _ logs hl
      have hget : (logs.deleteBinlogSince create).getLast hl = last := by simp [hlast]
      change ¬ (decide (((logs.deleteBinlogSince create).getLast hl).opCode ≠ create)) = true at hne
      rw [hget] at hne
      simpa using hne
    rw [← hrest, replay_append] at h
    obtain ⟨w, hw, -⟩ := bind_eq_some_iff.mp h
    have hmade : w = .ok (.make o.type) := by
      rw [hlast] at hw
      obtain ⟨u, -, hu⟩ := replay_concat_inv hw
      rw [restore_create ((hcreate last).mpr hlop)] at hu
      simpa using hu.symm
    subst hmade
    exact replay_concat hw (hmakes _ (make_objType _))

def holdsField (field : String) : PropertyValue → Bool
  | .ok (.map fields) => (fields.find? field).isSome
  | _ => false

/-- No set of the field is logged, or exactly one is, and the field was not there before it. -/
def RemoveSafe (v₀ : PropertyValue) (logs : PropertyBinlog) (field : String) : Prop :=
  logs.any (isSetOf .mapSet field) →
    logs.countP (isSetOf .mapSet field) = 1 ∧
    (replay v₀ (logs.takeWhile (fun i => !isSetOf .mapSet field i))).any (holdsField field) = false

instance instDecidableRemoveSafe (v₀ : PropertyValue) (logs : PropertyBinlog) (field : String) :
    Decidable (RemoveSafe v₀ logs field) :=
  inferInstanceAs (Decidable (_ → _ ∧ _))

theorem map_of_holdsField (h : holdsField field v = true) : ∃ fields, v = .ok (.map fields) := by
  rcases v with e | (s | values | fields)
  · cases h
  · cases h
  · cases h
  · exact ⟨fields, rfl⟩

theorem restore_holdsField (h : i.restore v = some v') (hv' : holdsField field v' = true) :
    ∃ fields, v = .ok (.map fields) ∧
      ((i.opCode = .mapSet ∧ v' = .ok (.map (fields.insert i.opPara1 i.opPara2))) ∨
        (i.opCode = .mapRemove ∧ (fields.find? i.opPara1).isSome ∧
          v' = .ok (.map (fields.erase i.opPara1)))) := by
  obtain ⟨fields', rfl⟩ := map_of_holdsField hv'
  cases hc : i.creates? with
  | some type =>
    rw [restore_create hc, Option.some.injEq, Except.ok.injEq] at h
    rw [← h] at hv'
    cases type <;> cases hv'
  | none =>
    cases ho : i.objectOp? with
    | none =>
      obtain ⟨-, old, -, he⟩ | ⟨-, -, he⟩ := restore_other hc ho h <;> cases he
    | some o =>
      obtain ⟨obj, obj', rfl, hop, he⟩ := (restore_objectOp ho).mp h
      cases he
      have ht : o.type = .map := (objectOp?_typed ho hop).2.symm
      obtain ⟨fields, rfl⟩ : ∃ fields, obj = .map fields := by
        have hobj := (objectOp?_typed ho hop).1.trans ht
        cases obj with
        | map fields => exact ⟨fields, rfl⟩
        | _ => cases hobj
      refine ⟨fields, rfl, ?_⟩
      unfold objectOp? at ho
      split at ho <;> cases ho
      case h_6 hset =>
        cases hop
        exact .inl ⟨hset, rfl⟩
      case h_7 hremove =>
        simp only [Dataobj.mapRemove] at hop
        split_ifs at hop with hfound
        cases hop
        exact .inr ⟨hremove, hfound, rfl⟩
      case h_8 =>
        cases hop
        cases hv'
      all_goals cases ht

theorem isSetOf_iff : isSetOf .mapSet field i = true ↔ i.opCode = .mapSet ∧ i.opPara1 = field := by
  simp [isSetOf]

section
variable (hno : ∀ i ∈ logs, ¬ isSetOf .mapSet field i = true)
include hno

theorem holdsField_of_replay (h : replay v logs = some v') (hv' : holdsField field v' = true) :
    holdsField field v = true := by
  induction logs generalizing v with
  | nil =>
    cases h
    exact hv'
  | cons i logs ih =>
    obtain ⟨w, hi, h⟩ := bind_eq_some_iff.mp h
    have hw := ih (fun j hj => hno j (mem_cons_of_mem _ hj)) h
    obtain ⟨fields, rfl, ⟨hset, rfl⟩ | ⟨-, -, rfl⟩⟩ := restore_holdsField hi hw
    · have hne : field ≠ i.opPara1 := fun he =>
        hno i mem_cons_self (isSetOf_iff.mpr ⟨hset, he.symm⟩)
      simpa [holdsField, find?_insert_of_ne _ _ hne] using hw
    · by_cases he : field = i.opPara1
      · simp [holdsField, he] at hw
      · simpa [holdsField, find?_erase_of_ne _ he] using hw

theorem replay_erase {fields fields' : SortedMap String String}
    (h : replay (.ok (.map fields)) logs = some (.ok (.map fields')))
    (hfound : (fields'.find? field).isSome) :
    replay (.ok (.map (fields.erase field))) logs = some (.ok (.map (fields'.erase field))) := by
  induction logs generalizing fields with
  | nil =>
    cases h
    rfl
  | cons i logs ih =>
    have hno' : ∀ j ∈ logs, ¬ isSetOf .mapSet field j = true := fun j hj =>
      hno j (mem_cons_of_mem _ hj)
    rw [replay_cons] at h ⊢
    obtain ⟨w, hi, h⟩ := bind_eq_some_iff.mp h
    have hw := holdsField_of_replay hno' h hfound
    obtain ⟨_, he, ⟨hop, rfl⟩ | ⟨hop, hthere, rfl⟩⟩ := restore_holdsField hi hw
    · cases he
      have hne : i.opPara1 ≠ field := fun he =>
        hno i mem_cons_self (isSetOf_iff.mpr ⟨hop, he⟩)
      have ho : i.objectOp? = some ⟨.map, (·.mapSet i.opPara1 i.opPara2)⟩ := by
        simp [objectOp?, hop]
      rw [(restore_objectOp ho).mpr ⟨_, _, rfl, rfl, rfl⟩, bind_some,
        ← SortedMap.erase_insert_comm _ _ hne]
      exact ih hno' h
    · cases he
      have hne : i.opPara1 ≠ field := fun he => by simp [holdsField, he] at hw
      have ho : i.objectOp? = some ⟨.map, (·.mapRemove i.opPara1)⟩ := by simp [objectOp?, hop]
      have hthere' : ((fields.erase field).find? i.opPara1).isSome := by
        rwa [SortedMap.find?_erase_of_ne _ hne]
      rw [(restore_objectOp ho).mpr ⟨_, _, rfl, by simp [Dataobj.mapRemove, hthere']; rfl, rfl⟩,
        bind_some, SortedMap.erase_comm]
      exact ih hno' h

end

theorem restore_mapRemove (hop : i.opCode = .mapRemove) :
    i.restore v = some v' ↔ ∃ fields, v = .ok (.map fields) ∧ (fields.find? i.opPara1).isSome ∧
      v' = .ok (.map (fields.erase i.opPara1)) := by
  have ho : i.objectOp? = some ⟨.map, (·.mapRemove i.opPara1)⟩ := by simp [objectOp?, hop]
  rw [restore_objectOp ho]
  constructor
  · rintro ⟨obj, obj', rfl, h, rfl⟩
    cases obj with
    | map fields =>
      simp only [Dataobj.mapRemove] at h
      split_ifs at h with hfound
      cases h
      exact ⟨fields, rfl, hfound, rfl⟩
    | _ => cases h
  · rintro ⟨fields, rfl, hfound, rfl⟩
    exact ⟨_, _, rfl, if_pos hfound, rfl⟩

theorem replay_mapRemove (hop : i.opCode = .mapRemove) (h : replay v₀ logs = some v)
    (hi : i.restore v = some v') (hsafe : RemoveSafe v₀ logs i.opPara1) :
    replay v₀ ((logs.deleteBinlogMapSet .mapSet i.opPara1).getD (logs ++ [i])) = some v' := by
  unfold deleteBinlogMapSet
  split_ifs with hany
  swap
  · exact replay_concat h hi
  obtain ⟨hcount, habsent⟩ := hsafe hany
  obtain ⟨j, hj, hset⟩ := any_eq_true.mp hany
  obtain ⟨set, front, back, hfront, hset, rfl, herase⟩ := exists_of_eraseP hj hset
  rw [getD_some, herase]
  -- the one logged set stands between a log without the field and a log that keeps it
  have hback : ∀ b ∈ back, ¬ isSetOf .mapSet i.opPara1 b = true := by
    rw [countP_append, countP_cons, if_pos hset] at hcount
    exact countP_eq_zero.mp (by omega)
  rw [takeWhile_append_of_pos (by simpa using hfront),
    takeWhile_cons_of_neg (by simp [hset]), append_nil] at habsent
  rw [replay_append] at h ⊢
  obtain ⟨u, hu, h⟩ := bind_eq_some_iff.mp h
  obtain ⟨w, hw, h⟩ := bind_eq_some_iff.mp h
  obtain ⟨fields', rfl, hfound, rfl⟩ := (restore_mapRemove hop).mp hi
  obtain ⟨fields, rfl, ⟨-, rfl⟩ | ⟨hremove, -⟩⟩ :=
    restore_holdsField hw (holdsField_of_replay hback h hfound)
  · have hkey : set.opPara1 = i.opPara1 := (isSetOf_iff.mp hset).2
    have hnone : fields.find? set.opPara1 = none := by
      simpa [hu, holdsField, hkey] using habsent
    have hrest := replay_erase hback h hfound
    rw [← hkey, erase_insert_self _ hnone, hkey] at hrest
    rw [hu, bind_some, hrest]
  · rw [(isSetOf_iff.mp hset).1] at hremove
    cases hremove

theorem replay_addBinlog (h : replay v₀ logs = some v) (hi : i.restore v = some v')
    (hsafe : i.opCode = .mapRemove → RemoveSafe v₀ logs i.opPara1) :
    replay v₀ (logs.addBinlog i) = some v' := by
  unfold addBinlog
  split
  case h_1 hop =>
    have ho : i.objectOp? = some ⟨.deque, (·.listPopBack)⟩ := by simp [objectOp?, hop]
    exact replay_undo ho (fun _ => pushBack_undone) h hi
  case h_2 hop =>
    have ho : i.objectOp? = some ⟨.deque, (·.listPopFront)⟩ := by simp [objectOp?, hop]
    exact replay_undo ho (fun _ => pushFront_undone) h hi
  case h_3 hop => exact replay_mapRemove hop h hi (hsafe hop)
  case h_4 hop => exact replay_stringSet hop h hi
  case h_5 hop =>
    have ho : i.objectOp? = some ⟨.deque, (·.listClear)⟩ := by simp [objectOp?, hop]
    exact replay_clear ho creates?_deque_iff listClear_of_deque h hi
  case h_6 hop =>
    have ho : i.objectOp? = some ⟨.map, (·.mapClear)⟩ := by simp [objectOp?, hop]
    exact replay_clear ho creates?_map_iff mapClear_of_map h hi
  case h_7 => exact replay_concat h hi

namespace AccountCmd

theorem setObj_setObj (c : AccountCmd) (name : String) (obj obj' : Option Dataobj) :
    (c.setObj name obj).setObj name obj' = c.setObj name obj' := by
  unfold setObj
  rw [insert_insert]

theorem setObj_self {c : AccountCmd} {name : String} {obj : Option Dataobj}
    (h : c.cloneObjs.find? name = some obj) : c.setObj name obj = c := by
  unfold setObj
  rw [insert_of_find? h]

end AccountCmd

namespace StoredProperties
variable {P : StoredProperties} {c c' : AccountCmd} {name : String}

theorem value_of_find? {obj : Option Dataobj} (h : c.cloneObjs.find? name = some obj) :
    P.value c name = toValue obj := by
  unfold value getProperty
  rw [h]
  cases obj <;> rfl

theorem value_congr (h : c.cloneObjs.find? name = c'.cloneObjs.find? name) :
    P.value c name = P.value c' name := by
  unfold value getProperty
  rw [h]
  split
  · rfl
  · rfl
  · split_ifs
    · split <;> rfl
    · rfl

@[simp] theorem value_setObj_self (obj : Option Dataobj) :
    P.value (c.setObj name obj) name = toValue obj :=
  value_of_find? (find?_insert_self _ _ _)

theorem value_setObj_of_ne {name' : String} (obj : Option Dataobj) (h : name' ≠ name) :
    P.value (c.setObj name obj) name' = P.value c name' :=
  value_congr (find?_insert_of_ne _ _ h)

@[simp] theorem value_addLog (addFlag : Bool) (name' : String) (i : PropertyInstruction) :
    P.value (c.addLog addFlag name' i) name = P.value c name := by
  cases addFlag <;> exact value_congr rfl

theorem getProperty_ok (h : P.value c name = .ok obj) :
    P.getProperty c name = (c.setObj name (some obj), .ok obj) := by
  unfold value at h
  unfold getProperty at h ⊢
  split at h
  · rename_i obj' hfind
    cases h
    rw [AccountCmd.setObj_self hfind]
  · cases h
  · split_ifs at h ⊢ with hhas
    split at h
    · cases h
    · cases h
      rfl

theorem getProperty_error {e : PropertyError} (h : P.value c name = .error e) :
    P.getProperty c name = (c, .error e) := by
  unfold value at h
  unfold getProperty at h ⊢
  split at h
  · cases h
  · cases h
    rfl
  · split_ifs at h ⊢ with hhas
    · split at h
      · cases h
        rfl
      · cases h
    · cases h
      rfl

theorem getPropertyWithType_ok (h : P.value c name = .ok obj) :
    P.getPropertyWithType c name obj.objType = (c.setObj name (some obj), .ok obj) := by
  unfold getPropertyWithType
  rw [getProperty_ok h]
  simp

theorem getPropertyWithType_error (type : ObjType)
    (h : ∀ obj, P.value c name = .ok obj → obj.objType ≠ type) :
    ∃ e, (P.getPropertyWithType c name type).2 = .error e := by
  unfold getPropertyWithType
  cases hv : P.value c name with
  | ok obj =>
    rw [getProperty_ok hv]
    exact ⟨_, if_neg (h obj hv)⟩
  | error e =>
    rw [getProperty_error hv]
    exact ⟨e, rfl⟩

section
variable {type : ObjType} {op : Dataobj → Except PropertyError Dataobj}
  {log : Dataobj → PropertyInstruction} {addFlag : Bool}

theorem objectOp_ok (h : P.value c name = .ok obj) (ht : obj.objType = type)
    (hop : op obj = .ok obj') :
    P.objectOp c name type op log addFlag =
      ((c.setObj name (some obj')).addLog addFlag name (log obj), .ok ()) := by
  subst ht
  unfold objectOp
  rw [getPropertyWithType_ok h]
  simp only [hop, AccountCmd.setObj_setObj]

theorem objectOp_inv (h : (P.objectOp c name type op log addFlag).2 = .ok ()) :
    ∃ obj obj', P.value c name = .ok obj ∧ obj.objType = type ∧ op obj = .ok obj' := by
  by_cases hv : ∃ obj, P.value c name = .ok obj ∧ obj.objType = type
  · obtain ⟨obj, hv, rfl⟩ := hv
    cases hop : op obj with
    | ok obj' => exact ⟨obj, obj', hv, rfl, hop⟩
    | error e =>
      unfold objectOp at h
      rw [getPropertyWithType_ok hv] at h
      simp only [hop] at h
      cases h
  · obtain ⟨e, he⟩ := getPropertyWithType_error type fun obj hobj ht => hv ⟨obj, hobj, ht⟩
    unfold objectOp at h
    split at h
    · cases h
    · rename_i hget
      rw [hget] at he
      cases he

end

structure SameEffect (j i : PropertyInstruction) : Prop where
  opCode : j.opCode = i.opCode
  restore : ∀ v, j.restore v = i.restore v
  field : i.opCode = .mapRemove → j.opPara1 = i.opPara1

theorem SameEffect.of_iff (hop : j.opCode = i.opCode)
    (h : ∀ v v', j.restore v = some v' ↔ i.restore v = some v')
    (hfield : i.opCode = .mapRemove → j.opPara1 = i.opPara1) : SameEffect j i :=
  ⟨hop, fun v => Option.ext (h v), hfield⟩

theorem changeProperty_objectOp (ho : i.objectOp? = some o) (P : StoredProperties)
    (c : AccountCmd) (name : String) (addFlag : Bool) :
    ∃ log : Dataobj → PropertyInstruction, (∀ obj, SameEffect (log obj) i) ∧
      P.changeProperty c name i addFlag = P.objectOp c name o.type o.op log addFlag := by
  have hsame : ∀ {para1 para2 : String},
      (PropertyInstruction.mk i.opCode para1 para2).objectOp? = i.objectOp? →
      (i.opCode = .mapRemove → para1 = i.opPara1) → SameEffect ⟨i.opCode, para1, para2⟩ i := by
    intro para1 para2 hop hfield
    exact .of_iff rfl (fun v v' => (restore_objectOp (hop.trans ho)).trans
        (restore_objectOp ho).symm)
      hfield
  obtain ⟨op, para1, para2⟩ := i
  unfold objectOp? at ho
  split at ho <;> cases ho
  case h_7 hop =>
    cases hop
    refine ⟨_, ?_, rfl⟩
    exact fun _ => hsame rfl fun _ => rfl
  all_goals
    rename_i hop
    cases hop
    refine ⟨_, ?_, rfl⟩
    exact fun _ => hsame rfl nofun

theorem restoreLogInstruction_eq : P.restoreLogInstruction c name i = match i.creates? with
    | some type => (c.setObj name (some (.make type)), .ok ())
    | none => P.changeProperty c name i false := by
  unfold creates? restoreLogInstruction
  split <;> simp_all

variable {addFlag : Bool}

theorem doInstruction_eq : P.doInstruction c name i addFlag = match i.creates? with
    | some type => P.create c name type i.opCode addFlag
    | none => P.changeProperty c name i addFlag := by
  unfold creates? doInstruction
  split <;> simp_all

theorem stringSet_ok {old value : String} (h : P.value c name = .ok (.string old)) :
    P.stringSet c name value addFlag = (if value = old then c.setObj name (some (.string value))
        else (c.setObj name (some (.string value))).addLog addFlag name ⟨.stringSet, value, ""⟩,
        .ok ()) := by
  unfold stringSet
  have hget := getPropertyWithType_ok h
  rw [Dataobj.objType] at hget
  rw [hget]
  by_cases hv : value = old
  · simp [Dataobj.stringSet, hv]
  · simp [Dataobj.stringSet, hv, AccountCmd.setObj_setObj]

theorem restoreLogInstruction_ok (h : i.restore (P.value c name) = some v) :
    ∃ obj, toValue obj = v ∧ P.restoreLogInstruction c name i = (c.setObj name obj, .ok ()) := by
  cases hc : i.creates? with
  | some type =>
    rw [restore_create hc, Option.some.injEq] at h
    exact ⟨some (.make type), h, by rw [restoreLogInstruction_eq, hc]⟩
  | none =>
    rw [restoreLogInstruction_eq, hc]
    cases ho : i.objectOp? with
    | some o =>
      obtain ⟨obj, obj', hv, hop, rfl⟩ := (restore_objectOp ho).mp h
      obtain ⟨log, -, hop'⟩ := changeProperty_objectOp ho P c name false
      rw [hop', objectOp_ok hv (objectOp?_typed ho hop).1 hop]
      exact ⟨some obj', rfl, rfl⟩
    | none =>
      obtain ⟨hop, old, hv, rfl⟩ | ⟨hop, hv, rfl⟩ := restore_other hc ho h
      · refine ⟨some (.string i.opPara1), rfl, ?_⟩
        simp only [changeProperty, hop, stringSet_ok hv, AccountCmd.addLog, Bool.false_eq_true,
          if_false, ite_self]
      · refine ⟨none, rfl, ?_⟩
        simp only [changeProperty, hop, deleteProperty]
        rcases hv with hv | ⟨obj, hv⟩
        · rw [getProperty_error hv]
          rfl
        · simp only [getProperty_ok hv, AccountCmd.setObj_setObj]
          rfl

theorem create_ok {opCode : PropertyOpCode} (h : (P.create c name type opCode addFlag).2 = .ok ()) :
    (P.create c name type opCode addFlag).1 =
      (c.setObj name (some (.make type))).addLog addFlag name { opCode } := by
  unfold create createProperty at h ⊢
  cases hv : P.value c name with
  | ok obj =>
    rw [getProperty_ok hv] at h
    cases h
  | error e =>
    rw [getProperty_error hv] at h ⊢
    cases e <;> first | rfl | cases h

theorem stringSet_inv {value : String} (h : (P.stringSet c name value addFlag).2 = .ok ()) :
    ∃ old, P.value c name = .ok (.string old) := by
  by_contra hv
  have hno : ∀ obj, P.value c name = .ok obj → obj.objType ≠ .string := fun obj hobj ht => by
    cases obj with
    | string old => exact hv ⟨old, hobj⟩
    | _ => cases ht
  obtain ⟨e, he⟩ := getPropertyWithType_error .string hno
  unfold stringSet at h
  split at h
  · cases h
  · rename_i hget
    rw [hget] at he
    cases he

theorem doInstruction_ok (hdel : i.opCode ≠ .delete)
    (h : (P.doInstruction c name i true).2 = .ok ()) :
    ∃ obj, i.restore (P.value c name) = some (.ok obj) ∧
      ((P.doInstruction c name i true).1 = c.setObj name (some obj) ∧ P.value c name = .ok obj ∨
        ∃ j, SameEffect j i ∧
          (P.doInstruction c name i true).1 = (c.setObj name (some obj)).addLog true name j) := by
  cases hc : i.creates? with
  | some type =>
    simp only [doInstruction_eq, hc] at h ⊢
    have hc' : (PropertyInstruction.mk i.opCode "" "").creates? = some type := hc
    refine ⟨.make type, restore_create hc _, .inr ⟨⟨i.opCode, "", ""⟩, ?_, create_ok h⟩⟩
    refine .of_iff rfl (fun v v' => by rw [restore_create hc, restore_create hc']) fun hop => ?_
    rw [creates?, hop] at hc
    cases hc
  | none =>
    simp only [doInstruction_eq, hc] at h ⊢
    cases ho : i.objectOp? with
    | some o =>
      obtain ⟨log, hlog, hop'⟩ := changeProperty_objectOp ho P c name true
      rw [hop'] at h ⊢
      obtain ⟨obj, obj', hv, ht, hop⟩ := objectOp_inv h
      rw [objectOp_ok hv ht hop]
      exact ⟨obj', (restore_objectOp ho).mpr ⟨obj, obj', hv, hop, rfl⟩,
        .inr ⟨log obj, hlog obj, rfl⟩⟩
    | none =>
      have hop : i.opCode = .stringSet := by
        unfold changeProperty at h
        unfold objectOp? at ho
        split at h <;> simp_all
      have hset : P.changeProperty c name i true = P.stringSet c name i.opPara1 true := by
        simp only [changeProperty, hop]
      rw [hset] at h ⊢
      obtain ⟨old, hv⟩ := stringSet_inv h
      refine ⟨.string i.opPara1, (restore_stringSet hop).mpr ⟨⟨old, hv⟩, rfl⟩, ?_⟩
      rw [stringSet_ok hv]
      split_ifs with hsame
      · exact .inl ⟨rfl, by rw [hv, hsame]⟩
      · refine .inr ⟨⟨.stringSet, i.opPara1, ""⟩,
          .of_iff hop.symm (fun v v' => ?_) fun hr => ?_, rfl⟩
        · rw [restore_stringSet rfl, restore_stringSet hop]
        · simp [hop] at hr

def step (P : StoredProperties) (c : AccountCmd) (op : String × PropertyInstruction) :
    AccountCmd × List (Except PropertyError Unit) :=
  let r := P.doInstruction c op.1 op.2 true
  (r.1, [r.2])

/-- The instruction succeeds, and is not a deletion. -/
def Succeeds (P : StoredProperties) (c : AccountCmd) (op : String × PropertyInstruction) : Prop :=
  (P.doInstruction c op.1 op.2 true).2 = .ok () ∧ op.2.opCode ≠ .delete

/-- A map field is removed only where the log can be replayed after it. -/
def Safe (P : StoredProperties) (c : AccountCmd) (op : String × PropertyInstruction) : Prop :=
  op.2.opCode = .mapRemove →
    RemoveSafe (P.value .new op.1) (c.proplogs.logOf op.1) op.2.opPara1

instance instDecidableSucceeds (P : StoredProperties) (c : AccountCmd)
    (op : String × PropertyInstruction) : Decidable (P.Succeeds c op) :=
  inferInstanceAs (Decidable (_ ∧ _))

instance instDecidableSafe (P : StoredProperties) (c : AccountCmd)
    (op : String × PropertyInstruction) : Decidable (P.Safe c op) :=
  inferInstanceAs (Decidable (_ → _))

structure Replays (P : StoredProperties) (c : AccountCmd) : Prop where
  replay_log : ∀ name, replay (P.value .new name) (c.proplogs.logOf name) = some (P.value c name)
  log_ne_nil : ∀ name logs, c.proplogs.find? name = some logs → logs ≠ []
  log_cloned : ∀ name logs, c.proplogs.find? name = some logs →
    ∃ obj, c.cloneObjs.find? name = some (some obj)

theorem replays_new (P : StoredProperties) : P.Replays .new :=
  ⟨fun _ => rfl, nofun, nofun⟩

theorem logOf_addInstruction (b : AccountBinlog) (name : String) (i : PropertyInstruction) :
    (b.addInstruction name i).logOf name = (b.logOf name).addBinlog i := by
  unfold addInstruction AccountBinlog.logOf
  split
  · rename_i logs hfind
    simp only [hfind, getD_some]
    split_ifs with hempty
    · rw [find?_erase_self, isEmpty_iff.mp hempty]
      rfl
    · rw [find?_insert_self]
      rfl
  · rename_i hfind
    rw [hfind, find?_insert_self]
    rfl

theorem find?_addInstruction_of_ne (b : AccountBinlog) {name name' : String}
    (i : PropertyInstruction) (h : name' ≠ name) :
    (b.addInstruction name i).find? name' = b.find? name' := by
  unfold addInstruction
  split
  · dsimp only
    split_ifs
    · exact find?_erase_of_ne _ h
    · exact find?_insert_of_ne _ _ h
  · exact find?_insert_of_ne _ _ h

theorem find?_addInstruction_ne_nil (b : AccountBinlog) (name : String) (i : PropertyInstruction)
    (h : (b.addInstruction name i).find? name = some logs) : logs ≠ [] := by
  unfold addInstruction at h
  split at h
  · dsimp only at h
    split_ifs at h with hempty
    · rw [find?_erase_self] at h
      cases h
    · rw [find?_insert_self, Option.some.injEq] at h
      subst h
      simpa using hempty
  · rw [find?_insert_self, Option.some.injEq] at h
    subst h
    unfold addBinlog deleteBinlogStringSet
    split <;> simp [deleteBinlogDequePush, deleteBinlogMapSet]

theorem Replays.addLog (h : P.Replays c) (hi : i.restore (P.value c name) = some (.ok obj))
    (hj : SameEffect j i) (hsafe : P.Safe c (name, i)) :
    P.Replays ((c.setObj name (some obj)).addLog true name j) := by
  constructor
  · intro name'
    change replay _ (AccountBinlog.logOf (c.proplogs.addInstruction name j) name') = _
    rw [value_addLog]
    by_cases hn : name' = name
    · subst hn
      rw [logOf_addInstruction, value_setObj_self]
      refine replay_addBinlog (h.replay_log name') (by rw [hj.restore, hi]; rfl) fun hop => ?_
      rw [hj.opCode] at hop
      rw [hj.field hop]
      exact hsafe hop
    · rw [value_setObj_of_ne _ hn, AccountBinlog.logOf, find?_addInstruction_of_ne _ _ hn]
      exact h.replay_log name'
  · intro name' logs hfind
    change (c.proplogs.addInstruction name j).find? name' = some logs at hfind
    by_cases hn : name' = name
    · subst hn
      exact find?_addInstruction_ne_nil _ _ _ hfind
    · rw [find?_addInstruction_of_ne _ _ hn] at hfind
      exact h.log_ne_nil name' logs hfind
  · intro name' logs hfind
    change (c.proplogs.addInstruction name j).find? name' = some logs at hfind
    change ∃ obj', (c.cloneObjs.insert name (some obj)).find? name' = some (some obj')
    by_cases hn : name' = name
    · subst hn
      exact ⟨obj, find?_insert_self _ _ _⟩
    · rw [find?_addInstruction_of_ne _ _ hn] at hfind
      rw [find?_insert_of_ne _ _ hn]
      exact h.log_cloned name' logs hfind

theorem Replays.setObj (h : P.Replays c) (hv : P.value c name = .ok obj) :
    P.Replays (c.setObj name (some obj)) := by
  have hsame : ∀ name', P.value (c.setObj name (some obj)) name' = P.value c name' :=
    fun name' => by
    by_cases hn : name' = name
    · rw [hn, value_setObj_self, hv]
      rfl
    · exact value_setObj_of_ne _ hn
  constructor
  · intro name'
    rw [hsame]
    exact h.replay_log name'
  · exact h.log_ne_nil
  · intro name' logs hfind
    change ∃ obj', (c.cloneObjs.insert name (some obj)).find? name' = some (some obj')
    by_cases hn : name' = name
    · exact ⟨obj, hn ▸ find?_insert_self _ _ _⟩
    · rw [find?_insert_of_ne _ _ hn]
      exact h.log_cloned name' logs hfind

theorem Replays.step (h : P.Replays c) {op : String × PropertyInstruction}
    (hsucc : P.Succeeds c op) (hsafe : P.Safe c op) : P.Replays (P.step c op).1 := by
  obtain ⟨obj, hi, ⟨hc, hv⟩ | ⟨j, hj, hc⟩⟩ := doInstruction_ok hsucc.2 hsucc.1
  · change P.Replays (P.doInstruction c op.1 op.2 true).1
    rw [hc]
    exact h.setObj hv
  · change P.Replays (P.doInstruction c op.1 op.2 true).1
    rw [hc]
    exact h.addLog hi hj hsafe

theorem restoreLogs_ok (hne : logs ≠ []) (h : replay (P.value c name) logs = some v) :
    ∃ obj, toValue obj = v ∧ P.restoreLogs name c logs = (c.setObj name obj, .ok ()) := by
  induction logs generalizing c with
  | nil => exact absurd rfl hne
  | cons i rest ih =>
    obtain ⟨w, hi, h⟩ := bind_eq_some_iff.mp h
    obtain ⟨obj, rfl, hrestore⟩ := restoreLogInstruction_ok hi
    rw [restoreLogs, hrestore]
    rcases eq_nil_or_concat rest with rfl | ⟨_, _, hrest⟩
    · cases h
      exact ⟨obj, rfl, rfl⟩
    · have hval : P.value (c.setObj name obj) name = toValue obj := value_setObj_self obj
      rw [← hval] at h
      obtain ⟨obj', hobj', hall⟩ := ih (by simp [hrest]) h
      exact ⟨obj', hobj', by rw [AccountCmd.setObj_setObj] at hall; exact hall⟩

theorem restoreAll_ok {es : List (String × PropertyBinlog)}
    (hsorted : es.Pairwise (fun a b => a.1 < b.1)) {w : String → Dataobj}
    (h : ∀ e ∈ es, e.2 ≠ [] ∧ replay (P.value c e.1) e.2 = some (.ok (w e.1))) :
    ∃ c', P.restoreAll c es = (c', .ok ()) ∧ ∀ name, c'.cloneObjs.find? name =
      if name ∈ es.map (·.1) then some (some (w name)) else c.cloneObjs.find? name := by
  induction es generalizing c with
  | nil => exact ⟨c, rfl, fun _ => rfl⟩
  | cons e rest ih =>
    obtain ⟨hlt, hrest⟩ := pairwise_cons.mp hsorted
    obtain ⟨hne, he⟩ := h e mem_cons_self
    obtain ⟨obj, hobj, hlogs⟩ := restoreLogs_ok hne he
    obtain rfl : obj = some (w e.1) := by
      cases obj with
      | none => cases hobj
      | some o => simpa [toValue] using hobj
    obtain ⟨c', hall, hfind⟩ := ih (c := c.setObj e.1 (some (w e.1))) hrest fun e' he' => by
      rw [value_setObj_of_ne _ (hlt e' he').ne']
      exact h e' (mem_cons_of_mem _ he')
    refine ⟨c', by rw [restoreAll, hlogs]; exact hall, fun name => ?_⟩
    rw [hfind]
    by_cases hn : name = e.1
    · subst hn
      have hset : (c.setObj e.1 (some (w e.1))).cloneObjs.find? e.1 = some (some (w e.1)) :=
        find?_insert_self _ _ _
      rw [hset, map_cons, if_pos mem_cons_self, ite_self]
    · have hset : (c.setObj e.1 (some (w e.1))).cloneObjs.find? name = c.cloneObjs.find? name :=
        find?_insert_of_ne _ _ hn
      simp only [hset, map_cons, mem_cons, hn, false_or]

theorem find?_getChangeProperty (c : AccountCmd) (name : String) : c.getChangeProperty.find? name =
      if c.proplogs.isPropertyChanged name then c.cloneObjs.find? name else none :=
  find?_filter_key _ (fun name => c.proplogs.isPropertyChanged name) name

theorem Replays.doPropertyLog_eq (h : P.Replays c) :
    ∃ c', P.doPropertyLog .new c.proplogs = (c', .ok ()) ∧ c'.cloneObjs = c.getChangeProperty := by
  let w : String → Dataobj := fun name => ((c.cloneObjs.find? name).getD none).getD (.string "")
  have hw : ∀ name logs, c.proplogs.find? name = some logs →
      c.cloneObjs.find? name = some (some (w name)) := fun name logs hlogs => by
    obtain ⟨obj, hobj⟩ := h.log_cloned name logs hlogs
    simp only [w, hobj, getD_some]
  have hreplay : ∀ e ∈ c.proplogs.entries,
      e.2 ≠ [] ∧ replay (P.value .new e.1) e.2 = some (.ok (w e.1)) := by
    rintro ⟨name, logs⟩ he
    have hlogs : c.proplogs.find? name = some logs := find?_eq_some_iff.mpr he
    have hlog := h.replay_log name
    rw [value_of_find? (hw name logs hlogs), AccountBinlog.logOf, hlogs] at hlog
    exact ⟨h.log_ne_nil name logs hlogs, hlog⟩
  obtain ⟨c', hall, hfind⟩ := restoreAll_ok c.proplogs.sorted hreplay
  refine ⟨c', hall, ext_find? fun name => ?_⟩
  rw [hfind, find?_getChangeProperty]
  cases hlogs : c.proplogs.find? name with
  | some logs =>
    have hmem : name ∈ c.proplogs.entries.map (·.1) :=
      mem_map_of_mem (find?_eq_some_iff.mp hlogs)
    rw [if_pos hmem, if_pos (by rw [isPropertyChanged, hlogs]; rfl), hw name logs hlogs]
  | none =>
    have hnot : name ∉ c.proplogs.entries.map (·.1) := fun hmem => by
      obtain ⟨e, he, rfl⟩ := mem_map.mp hmem
      exact find?_eq_none_iff.mp hlogs e.2 he
    rw [if_neg hnot, if_neg (by rw [isPropertyChanged, hlogs]; simp)]
    rfl

theorem Replays.value_of_not_changed (h : P.Replays c)
    (hn : c.proplogs.isPropertyChanged name = false) : P.value c name = P.value .new name := by
  have hnone : c.proplogs.find? name = none := by
    simpa [isPropertyChanged] using hn
  have hlog := h.replay_log name
  rw [AccountBinlog.logOf, hnone] at hlog
  simpa using hlog.symm

theorem Replays.executeLightunit_eq (h : P.Replays c) (hash : Option Dataobj → String) :
    P.executeLightunit hash (c.output hash) = some c.getChangeProperty := by
  obtain ⟨c', hall, hclone⟩ := h.doPropertyLog_eq
  unfold executeLightunit AccountCmd.output AccountCmd.getPropertyLog
  split_ifs with hempty
  · have hlogs : c.proplogs.entries = [] := length_eq_zero_iff.mp hempty
    refine congrArg some (ext_find? fun name => ?_)
    rw [find?_getChangeProperty, if_neg]
    · rfl
    · simp [isPropertyChanged, SortedMap.find?, hlogs]
  · simp only [hall, hclone, AccountCmd.getPropertyHash]
    rw [if_neg (by simp [SortedMap.mapVal]), if_pos]
    refine all_eq_true.mpr fun e he => ?_
    have hfind : c.getChangeProperty.find? e.1 = some e.2 := find?_eq_some_iff.mpr he
    simp [find?_mapVal, hfind]

/-- Replaying the compacted binlog of operations none of which removes a map field unsafely gives
every property its value, reports what differs from the stored one, and passes the checks. -/
theorem replay_of_run (P : StoredProperties) (hash : Option Dataobj → String)
    (ops : List (String × PropertyInstruction))
    (hrun : Run.Meets P.step (fun c op => P.Succeeds c op ∧ P.Safe c op) .new ops) :
    let c := (Run.run P.step .new ops).1
    (∃ c', P.doPropertyLog .new c.proplogs = (c', .ok ()) ∧
      ∀ name, P.value c' name = P.value c name) ∧
    (∀ name, P.value c name ≠ P.value .new name → c.proplogs.isPropertyChanged name = true) ∧
    P.executeLightunit hash (c.output hash) = some c.getChangeProperty := by
  intro c
  have hc : P.Replays c :=
    (Run.run_inv (P := fun _ => True)
      (fun c op hc hcond => ⟨hc.step hcond.1 hcond.2, fun _ _ => trivial⟩) P.replays_new ops hrun).1
  refine ⟨?_, fun name hne => ?_, hc.executeLightunit_eq hash⟩
  · obtain ⟨c', hall, hclone⟩ := hc.doPropertyLog_eq
    refine ⟨c', hall, fun name => ?_⟩
    cases hn : c.proplogs.isPropertyChanged name with
    | true =>
      refine value_congr ?_
      rw [hclone, find?_getChangeProperty, if_pos hn]
    | false =>
      rw [hc.value_of_not_changed hn]
      refine value_congr ?_
      rw [hclone, find?_getChangeProperty, if_neg (by simp [hn])]
      rfl
  · cases hn : c.proplogs.isPropertyChanged name with
    | true => rfl
    | false => exact absurd (hc.value_of_not_changed hn) hne

namespace Sample

def votes : SortedMap String String := SortedMap.empty.insert "alice" "1"

def stored : StoredProperties where
  hasProperty name := name = "votes"
  cloneProperty name := if name = "votes" then some (.map votes) else none

def removed : List (String × PropertyInstruction) :=
  [("votes", ⟨.mapRemove, "alice", ""⟩), ("votes", ⟨.mapSet, "alice", "2"⟩),
    ("votes", ⟨.mapRemove, "alice", ""⟩)]

def overwritten : List (String × PropertyInstruction) :=
  [("votes", ⟨.mapSet, "alice", "2"⟩), ("votes", ⟨.mapRemove, "alice", ""⟩)]

def setTwice : List (String × PropertyInstruction) :=
  [("seats", ⟨.mapCreate, "", ""⟩), ("seats", ⟨.mapSet, "bob", "1"⟩),
    ("seats", ⟨.mapSet, "bob", "2"⟩), ("seats", ⟨.mapRemove, "bob", ""⟩)]

def fieldCount : Option Dataobj → String
  | some (.map fields) => toString fields.entries.length
  | _ => ""

end Sample

theorem replay_of_run_removed :
    Run.Meets Sample.stored.step (fun c op => Sample.stored.Succeeds c op ∧ Sample.stored.Safe c op)
      .new Sample.removed ∧
    let c := (Run.run Sample.stored.step .new Sample.removed).1
    (∃ c', Sample.stored.doPropertyLog .new c.proplogs = (c', .ok ()) ∧
      ∀ name, Sample.stored.value c' name = Sample.stored.value c name) ∧
    (∀ name, Sample.stored.value c name ≠ Sample.stored.value .new name →
      c.proplogs.isPropertyChanged name = true) ∧
    Sample.stored.executeLightunit Sample.fieldCount (c.output Sample.fieldCount) =
      some c.getChangeProperty :=
  have hrun : Run.Meets Sample.stored.step
      (fun c op => Sample.stored.Succeeds c op ∧ Sample.stored.Safe c op) .new Sample.removed := by
    decide
  ⟨hrun, replay_of_run Sample.stored Sample.fieldCount Sample.removed hrun⟩

theorem overwritten_field_comes_back :
    (Run.Meets Sample.stored.step Sample.stored.Succeeds .new Sample.overwritten ∧
      let c := (Run.run Sample.stored.step .new Sample.overwritten).1
      Sample.stored.value c "votes" = .ok (.map .empty) ∧
      c.proplogs.isPropertyChanged "votes" = false ∧
      Sample.stored.value (Sample.stored.doPropertyLog .new c.proplogs).1 "votes" =
        .ok (.map Sample.votes)) ∧
    Run.Meets Sample.stored.step Sample.stored.Succeeds .new Sample.setTwice ∧
    let c := (Run.run Sample.stored.step .new Sample.setTwice).1
    Sample.stored.executeLightunit Sample.fieldCount (c.output Sample.fieldCount) = none := by
  decide

end StoredProperties
end TopChain.Store
