import TopChain.TxPool.SendQueue

/-!
# The index and the counters of the pool

The map from digests and the counters agree with the queues as long as `pop_tx` is not called.
-/
namespace TopChain.TxPool

open List TopChain.Lib TopChain.Cert SortedMap

/-- The map finds exactly the transactions of the list, by digest. -/
structure Indexed (m : SortedMap String PoolTx) (l : List PoolTx) : Prop where
  nodup : (l.map (·.digest)).Nodup
  find : ∀ digest tx, m.find? digest = some tx ↔ tx ∈ l ∧ tx.digest = digest

section
variable {m : SortedMap String PoolTx} {l l' : List PoolTx} {tx q : PoolTx}

theorem Indexed.perm (h : Indexed m l) (hp : l.Perm l') : Indexed m l' := by
  refine ⟨(hp.map _).nodup_iff.mp h.nodup, fun digest tx => ?_⟩
  rw [h.find, hp.mem_iff]

theorem Indexed.eq_of_digest (h : Indexed m l) (htx : tx ∈ l) (hq : q ∈ l)
    (hd : tx.digest = q.digest) : tx = q := by
  have hfind := (h.find q.digest q).mpr ⟨hq, rfl⟩
  rw [(h.find q.digest tx).mpr ⟨htx, hd⟩] at hfind
  exact Option.some_inj.mp hfind

theorem Indexed.insert (h : Indexed m l) (hnew : m.find? tx.digest = none) :
    Indexed (m.insert tx.digest tx) (tx :: l) := by
  have hfresh : ∀ q ∈ l, q.digest ≠ tx.digest := by
    intro q hq hd
    rw [(h.find tx.digest q).mpr ⟨hq, hd⟩] at hnew
    cases hnew
  refine ⟨?_, fun digest q => ?_⟩
  · rw [map_cons, nodup_cons]
    refine ⟨fun hmem => ?_, h.nodup⟩
    obtain ⟨q, hq, hd⟩ := mem_map.mp hmem
    exact hfresh q hq hd
  · rw [mem_cons]
    by_cases hd : digest = tx.digest
    · rw [hd, find?_insert_self, Option.some_inj]
      constructor
      · rintro rfl
        exact ⟨.inl rfl, rfl⟩
      · rintro ⟨rfl | hq, hqd⟩
        · rfl
        · exact absurd hqd (hfresh q hq)
    · rw [find?_insert_of_ne m tx hd, h.find]
      constructor
      · exact fun ⟨hq, hqd⟩ => ⟨.inr hq, hqd⟩
      · rintro ⟨rfl | hq, hqd⟩
        · exact absurd hqd.symm hd
        · exact ⟨hq, hqd⟩

theorem Indexed.erase (h : Indexed m (tx :: l)) : Indexed (m.erase tx.digest) l := by
  have hnodup := h.nodup
  rw [map_cons, nodup_cons] at hnodup
  refine ⟨hnodup.2, fun digest q => ?_⟩
  by_cases hd : digest = tx.digest
  · rw [hd, find?_erase_self]
    constructor
    · intro hq
      cases hq
    · exact fun ⟨hq, hqd⟩ => absurd (mem_map.mpr ⟨q, hq, hqd⟩) hnodup.1
  · rw [find?_erase_of_ne m hd, h.find, mem_cons]
    constructor
    · rintro ⟨rfl | hq, hqd⟩
      · exact absurd hqd.symm hd
      · exact ⟨hq, hqd⟩
    · exact fun ⟨hq, hqd⟩ => ⟨.inr hq, hqd⟩

end

structure Counted (base table : TxCounters) (l : List PoolTx) : Prop where
  send : table.send = base.send + l.countP (·.isSource)
  recv : table.recv = base.recv + l.countP (·.subtype = .recv)
  conf : table.conf = base.conf + l.countP (·.subtype = .confirm)

theorem Counted.perm {base table : TxCounters} {l l' : List PoolTx} (h : Counted base table l)
    (hp : l.Perm l') : Counted base table l' := by
  refine ⟨?_, ?_, ?_⟩
  · rw [h.send, hp.countP_eq]
  · rw [h.recv, hp.countP_eq]
  · rw [h.conf, hp.countP_eq]

theorem Counted.cons {base table table' : TxCounters} {l : List PoolTx} {tx : PoolTx}
    (h : Counted base table l) (hsend : table'.send = table.send + if tx.isSource then 1 else 0)
    (hrecv : table'.recv = table.recv + if tx.subtype = .recv then 1 else 0)
    (hconf : table'.conf = table.conf + if tx.subtype = .confirm then 1 else 0) :
    Counted base table' (tx :: l) := by
  refine ⟨?_, ?_, ?_⟩
  · rw [hsend, h.send, countP_cons, Nat.cast_add, Int.add_assoc]
    simp
  · rw [hrecv, h.recv, countP_cons, Nat.cast_add, Int.add_assoc]
    simp
  · rw [hconf, h.conf, countP_cons, Nat.cast_add, Int.add_assoc]
    simp

namespace AccountObj
variable {G : PoolConfig} {base : TxCounters} {a : AccountObj} {tx : PoolTx} {l l' : List PoolTx}

def Accounts (base : TxCounters) (a : AccountObj) (l : List PoolTx) : Prop :=
  Indexed a.txMap l ∧ Counted base a.table l

theorem Accounts.perm (h : Accounts base a l) (hp : l.Perm l') : Accounts base a l' :=
  ⟨h.1.perm hp, h.2.perm hp⟩

theorem Accounts.remove (h : Accounts base a (tx :: l)) :
    Accounts base ({ a with txMap := a.txMap.erase tx.digest }.countOut tx) l := by
  obtain ⟨hindex, hsend, hrecv, hconf⟩ := h
  rw [countP_cons] at hsend hrecv hconf
  have hsource : tx.isSource = (decide (tx.subtype = .send) || decide (tx.subtype = .self)) := rfl
  obtain ⟨c, hcount⟩ := countOut_eq { a with txMap := a.txMap.erase tx.digest } tx
  refine ⟨by rw [hcount]; exact hindex.erase, ?_⟩
  unfold countOut
  cases hsub : tx.subtype <;> rw [hsub] at hrecv hconf <;> rw [hsource, hsub] at hsend <;>
    simp at hsend hrecv hconf
  all_goals
    exact ⟨by dsimp only; omega, by dsimp only; omega, by dsimp only; omega⟩

theorem Accounts.popTxEvent (h : Accounts base a (tx :: l)) :
    Accounts base (a.popTxEvent tx) l := by
  have hfind := (h.1.find tx.digest tx).mpr ⟨mem_cons_self, rfl⟩
  have heq : a.popTxEvent tx = { a with txMap := a.txMap.erase tx.digest }.countOut tx := by
    unfold AccountObj.popTxEvent
    rw [if_neg (by simp [hfind])]
  rw [heq]
  exact h.remove

theorem Accounts.popTxEvents (h : Accounts base a (l ++ l')) :
    Accounts base (a.popTxEvents l) l' := by
  induction l generalizing a with
  | nil => exact h
  | cons tx rest ih => exact ih h.popTxEvent

def txs (a : AccountObj) : List PoolTx :=
  a.sendQueue.entries ++ (a.recvQueue.entries ++ a.recvAckQueue.entries)

/-- Index and counters are those of the queues, and each queue has its own kind. -/
structure Consistent (base : TxCounters) (a : AccountObj) : Prop where
  accounts : Accounts base a a.txs
  send : ∀ tx ∈ a.sendQueue.entries, tx.isSource
  recv : ∀ tx ∈ a.recvQueue.entries, tx.subtype = .recv
  ack : ∀ tx ∈ a.recvAckQueue.entries, tx.subtype = .confirm

theorem consistent_new (nonce : UInt64) (hash : String) (base : TxCounters) :
    Consistent base (new nonce hash base) := by
  refine ⟨⟨⟨nodup_nil, fun digest tx => ?_⟩, ?_⟩, ?_, ?_, ?_⟩
  · constructor
    · intro h
      cases h
    · exact fun h => absurd h.1 not_mem_nil
  · exact ⟨(Int.add_zero _).symm, (Int.add_zero _).symm, (Int.add_zero _).symm⟩
  · exact fun _ h => absurd h not_mem_nil
  · exact fun _ h => absurd h not_mem_nil
  · exact fun _ h => absurd h not_mem_nil

theorem Consistent.dropSend {kept : Bag sendLess} (h : Consistent base a)
    (hperm : a.sendQueue.entries.Perm (l ++ kept.entries)) :
    Consistent base { a.popTxEvents l with sendQueue := kept } := by
  have hall : a.txs.Perm (l ++ (kept.entries ++
      (a.recvQueue.entries ++ a.recvAckQueue.entries))) := by
    rw [← append_assoc]
    exact hperm.append_right _
  have hpop := (h.accounts.perm hall).popTxEvents
  obtain ⟨m, c, heq⟩ := popTxEvents_eq a l
  rw [heq] at hpop ⊢
  refine ⟨hpop, fun tx htx => h.send tx ?_, h.recv, h.ack⟩
  exact hperm.symm.subset (mem_append_right l htx)

section
variable (h : Consistent base a)
include h

theorem Consistent.clearSendQueueByIter (i : Nat) : Consistent base (a.clearSendQueueByIter i) := by
  refine h.dropSend ?_
  conv_lhs => rw [← take_append_drop i a.sendQueue.entries]
  exact perm_append_comm

theorem Consistent.dropOldNonces (nonce : UInt64) : Consistent base (a.dropOldNonces nonce) := by
  refine h.dropSend ?_
  show a.sendQueue.entries.Perm (a.sendQueue.entries.takeWhile (·.lastNonce < nonce) ++
    a.sendQueue.entries.dropWhile (·.lastNonce < nonce))
  rw [takeWhile_append_dropWhile]

theorem Consistent.updateLatest (nonce : UInt64) (hash : String) :
    Consistent base (a.updateLatestSendTransNumberHash G nonce hash).1 := by
  unfold updateLatestSendTransNumberHash
  split_ifs
  · exact h
  · exact h
  · have hmoved : Consistent base
        { a with latestSendTransNumber := nonce, latestSendTransHash := hash } :=
      ⟨h.accounts, h.send, h.recv, h.ack⟩
    have hdropped := hmoved.dropOldNonces nonce
    dsimp only
    split
    · split_ifs
      · exact hdropped
      · exact hdropped.clearSendQueueByIter 0
    · exact hdropped

end

theorem Consistent.findIdx?_equal {lt : PoolTx → PoolTx → Bool} [StrictWeak lt] {m : Bag lt}
    (h : Consistent base a) (hsub : m.entries ⊆ a.txs) (htx : tx ∈ m.entries) :
    ∃ i, (m.equal tx).findIdx? (·.digest = tx.digest) = some i ∧ (m.equal tx)[i]? = some tx := by
  cases hfind : (m.equal tx).findIdx? (·.digest = tx.digest) with
  | none =>
    have hnone := List.findIdx?_eq_none_iff.mp hfind tx (Bag.mem_equal htx)
    simp at hnone
  | some i =>
    obtain ⟨hi, hdigest, -⟩ := List.findIdx?_eq_some_iff_getElem.mp hfind
    have hmem : (m.equal tx)[i] ∈ m.entries := by
      rw [← m.below_append_equal_append_above tx]
      exact mem_append_right _ (mem_append_left _ (getElem_mem hi))
    have heq : (m.equal tx)[i] = tx :=
      h.accounts.1.eq_of_digest (hsub hmem) (hsub htx) (of_decide_eq_true hdigest)
    exact ⟨i, rfl, List.getElem?_eq_some_iff.mpr ⟨hi, heq⟩⟩

theorem Consistent.mem_queue (h : Consistent base a) (htx : tx ∈ a.txs) :
    (tx.isSource → tx ∈ a.sendQueue.entries) ∧ (tx.subtype = .recv → tx ∈ a.recvQueue.entries) ∧
      (tx.subtype = .confirm → tx ∈ a.recvAckQueue.entries) := by
  rcases mem_append.mp htx with hsend | hrest
  · have hsource := h.send tx hsend
    refine ⟨fun _ => hsend, fun hsub => ?_, fun hsub => ?_⟩
    · simp [PoolTx.isSource, hsub] at hsource
    · simp [PoolTx.isSource, hsub] at hsource
  · rcases mem_append.mp hrest with hrecv | hack
    · have hsub := h.recv tx hrecv
      simp [PoolTx.isSource, hsub, hrecv]
    · have hsub := h.ack tx hack
      simp [PoolTx.isSource, hsub, hack]

theorem perm_of_recv {send recv ack rest : List PoolTx} (h : recv.Perm (tx :: rest)) :
    (send ++ (recv ++ ack)).Perm (tx :: (send ++ (rest ++ ack))) :=
  ((h.append_right ack).append_left send).trans perm_middle

theorem perm_of_recvAck {send recv ack rest : List PoolTx} (h : ack.Perm (tx :: rest)) :
    (send ++ (recv ++ ack)).Perm (tx :: (send ++ (recv ++ rest))) :=
  (((h.append_left recv).trans perm_middle).append_left send).trans perm_middle

section
variable (h : Consistent base a) (htx : tx ∈ a.txs)

include h htx

theorem Consistent.popSend (hsource : tx.isSource) :
    Consistent base ({ a with txMap := a.txMap.erase tx.digest }.popFromQueue tx) := by
  obtain ⟨i, hfind, hget⟩ := h.findIdx?_equal (subset_append_left _ _) ((h.mem_queue htx).1 hsource)
  have hperm := Bag.perm_truncateEqual hget
  have hall : a.txs.Perm (tx :: (a.sendQueue.above tx ++
    ((a.sendQueue.truncateEqual tx i).entries ++
      (a.recvQueue.entries ++ a.recvAckQueue.entries)))) := by
    rw [← append_assoc, ← cons_append]
    exact hperm.append_right _
  have hpop := ((h.accounts.perm hall).remove).popTxEvents
  have heq : { a with txMap := a.txMap.erase tx.digest }.popFromQueue tx =
      { ({ a with txMap := a.txMap.erase tx.digest }.countOut tx).popTxEvents
          (a.sendQueue.above tx) with
        sendQueue := a.sendQueue.truncateEqual tx i } := by
    unfold popFromQueue
    simp only [PoolTx.isSource, Bool.or_eq_true, decide_eq_true_eq] at hsource
    rcases hsource with hsub | hsub <;> rw [hsub] <;> simp only [hfind]
  rw [heq]
  obtain ⟨c, hcount⟩ := countOut_eq { a with txMap := a.txMap.erase tx.digest } tx
  rw [hcount] at hpop ⊢
  obtain ⟨m, c', hevents⟩ := popTxEvents_eq
    { a with txMap := a.txMap.erase tx.digest, table := c } (a.sendQueue.above tx)
  rw [hevents] at hpop ⊢
  refine ⟨hpop, fun q hq => h.send q ?_, h.recv, h.ack⟩
  exact hperm.symm.subset (mem_cons_of_mem tx (mem_append_right _ hq))

theorem Consistent.popRecv (hsub : tx.subtype = .recv) :
    Consistent base ({ a with txMap := a.txMap.erase tx.digest }.popFromQueue tx) := by
  obtain ⟨i, hfind, hget⟩ := h.findIdx?_equal
    (fun q hq => mem_append_right _ (mem_append_left _ hq)) ((h.mem_queue htx).2.1 hsub)
  have hperm := Bag.perm_eraseEqual hget
  have hall : a.txs.Perm (tx :: (a.sendQueue.entries ++
      ((a.recvQueue.eraseEqual tx i).entries ++ a.recvAckQueue.entries))) :=
    perm_of_recv hperm
  have hremove := (h.accounts.perm hall).remove
  unfold popFromQueue
  rw [hsub]
  simp only [hfind]
  obtain ⟨c, hcount⟩ := countOut_eq { a with txMap := a.txMap.erase tx.digest } tx
  rw [hcount] at hremove ⊢
  refine ⟨hremove, h.send, fun q hq => h.recv q ?_, h.ack⟩
  exact hperm.symm.subset (mem_cons_of_mem tx hq)

theorem Consistent.popRecvAck (hsub : tx.subtype = .confirm) :
    Consistent base ({ a with txMap := a.txMap.erase tx.digest }.popFromQueue tx) := by
  obtain ⟨i, hfind, hget⟩ := h.findIdx?_equal
    (fun q hq => mem_append_right _ (mem_append_right _ hq)) ((h.mem_queue htx).2.2 hsub)
  have hperm := Bag.perm_eraseEqual hget
  have hall : a.txs.Perm (tx :: (a.sendQueue.entries ++
      (a.recvQueue.entries ++ (a.recvAckQueue.eraseEqual tx i).entries))) :=
    perm_of_recvAck hperm
  have hremove := (h.accounts.perm hall).remove
  unfold popFromQueue
  rw [hsub]
  simp only [hfind]
  obtain ⟨c, hcount⟩ := countOut_eq { a with txMap := a.txMap.erase tx.digest } tx
  rw [hcount] at hremove ⊢
  refine ⟨hremove, h.send, h.recv, fun q hq => h.ack q ?_⟩
  exact hperm.symm.subset (mem_cons_of_mem tx hq)

end

section
variable (h : Consistent base a)
include h

theorem Consistent.popTxByHash (hash : String) (subtype : TxSubtype) :
    Consistent base (a.popTxByHash hash subtype).1 := by
  unfold AccountObj.popTxByHash
  split
  · exact h
  · rename_i tx hfind
    split_ifs
    · exact h
    · obtain ⟨hmem, rfl⟩ := (h.accounts.1.find hash tx).mp hfind
      cases hsub : tx.subtype with
      | send => exact h.popSend hmem (by simp [PoolTx.isSource, hsub])
      | self => exact h.popSend hmem (by simp [PoolTx.isSource, hsub])
      | recv => exact h.popRecv hmem hsub
      | confirm => exact h.popRecvAck hmem hsub

section
variable (hsource : tx.isSource) (hnew : a.txMap.find? tx.digest = none)
include hsource hnew

theorem Consistent.enqueueSend : Consistent base (a.enqueueSend tx) := by
  have hperm := a.sendQueue.perm_insert tx
  have hall : (tx :: a.txs).Perm (a.enqueueSend tx).txs := (hperm.append_right _).symm
  have hsub : tx.subtype ≠ .recv ∧ tx.subtype ≠ .confirm := by
    constructor <;> intro hsub <;> simp [PoolTx.isSource, hsub] at hsource
  have hcount : Counted base { a.table with send := a.table.send + 1 } (tx :: a.txs) :=
    h.accounts.2.cons (by simp [hsource]) (by simp [hsub]) (by simp [hsub])
  refine ⟨⟨(h.accounts.1.insert hnew).perm hall, hcount.perm hall⟩, fun q hq => ?_, h.recv, h.ack⟩
  rcases mem_cons.mp (hperm.subset hq) with rfl | hq
  · exact hsource
  · exact h.send q hq

theorem Consistent.enqueueIfRoom : Consistent base (a.enqueueIfRoom G tx).1 := by
  unfold AccountObj.enqueueIfRoom
  split_ifs
  · exact h
  · exact h.enqueueSend hsource hnew

end

theorem Consistent.find?_eq_none {digest : String} :
    a.txMap.find? digest = none ↔ ∀ q ∈ a.txs, q.digest ≠ digest := by
  constructor
  · intro hnone q hq hd
    rw [(h.accounts.1.find digest q).mpr ⟨hq, hd⟩] at hnone
    cases hnone
  · intro hall
    cases hfind : a.txMap.find? digest with
    | none => rfl
    | some q =>
      obtain ⟨hq, hd⟩ := (h.accounts.1.find digest q).mp hfind
      exact absurd hd (hall q hq)

theorem Consistent.clearSendQueueByIter_new (i : Nat) (hnew : a.txMap.find? tx.digest = none) :
    (a.clearSendQueueByIter i).txMap.find? tx.digest = none := by
  rw [(h.clearSendQueueByIter i).find?_eq_none]
  intro q hq
  refine h.find?_eq_none.mp hnew q ?_
  obtain ⟨m, c, heq⟩ := clearSendQueueByIter_eq a i
  rw [heq] at hq
  rcases mem_append.mp hq with hsend | hrest
  · exact mem_append_left _ (mem_of_mem_take hsend)
  · exact mem_append_right _ hrest

theorem Consistent.eraseDuplicate (hnew : a.txMap.find? tx.digest = none) :
    Consistent base (a.checkAndEraseOldNonceDuplicateTx tx).1 ∧
      (a.checkAndEraseOldNonceDuplicateTx tx).1.txMap.find? tx.digest = none := by
  unfold checkAndEraseOldNonceDuplicateTx
  dsimp only
  split
  · split_ifs
    · exact ⟨h, hnew⟩
    · exact ⟨h.clearSendQueueByIter _, h.clearSendQueueByIter_new _ hnew⟩
  · exact ⟨h, hnew⟩

theorem Consistent.pushChained (hsource : tx.isSource)
    (hnew : a.txMap.find? tx.digest = none) : Consistent base (a.pushChained G tx).1 := by
  obtain ⟨herase, hstill⟩ := h.eraseDuplicate hnew
  unfold AccountObj.pushChained
  split
  · split_ifs
    · exact h
    · exact h
    · exact h.enqueueSend hsource hnew
  · split_ifs
    · exact h
    · exact h.enqueueIfRoom hsource hnew
    · exact h
    · split <;> rename_i heq <;> rw [heq] at herase hstill
      · exact herase
      · exact herase.enqueueIfRoom hsource hstill

theorem Consistent.pushSendTx (hsource : tx.isSource) : Consistent base (a.pushSendTx G tx).1 := by
  have hexpire : Consistent base (a.clearExpireTxs G tx.pushPoolTimestamp) :=
    h.clearSendQueueByIter _
  unfold AccountObj.pushSendTx
  split_ifs
  · exact h
  · dsimp only
    split_ifs with hnew
    · exact hexpire
    · exact hexpire.pushChained hsource (by simpa using hnew)

theorem Consistent.pushRecvTx (hsub : tx.subtype = .recv) :
    Consistent base (a.pushRecvTx tx).1 := by
  unfold AccountObj.pushRecvTx
  split_ifs with hnew
  · exact h
  · have hperm := a.recvQueue.perm_insert tx
    have hall : (tx :: a.txs).Perm (a.sendQueue.entries ++
        ((a.recvQueue.insert tx).entries ++ a.recvAckQueue.entries)) :=
      (perm_of_recv hperm).symm
    refine ⟨⟨(h.accounts.1.insert (by simpa using hnew)).perm hall,
      (h.accounts.2.cons (by simp [PoolTx.isSource, hsub]) (by simp [hsub]) (by simp [hsub])).perm
        hall⟩, h.send, fun q hq => ?_, h.ack⟩
    rcases mem_cons.mp (hperm.subset hq) with rfl | hq
    · exact hsub
    · exact h.recv q hq

theorem Consistent.pushRecvAckTx (hsub : tx.subtype = .confirm) :
    Consistent base (a.pushRecvAckTx tx).1 := by
  unfold AccountObj.pushRecvAckTx
  split_ifs with hnew
  · exact h
  · have hperm := a.recvAckQueue.perm_insert tx
    have hall : (tx :: a.txs).Perm (a.sendQueue.entries ++
        (a.recvQueue.entries ++ (a.recvAckQueue.insert tx).entries)) :=
      (perm_of_recvAck hperm).symm
    refine ⟨⟨(h.accounts.1.insert (by simpa using hnew)).perm hall,
      (h.accounts.2.cons (by simp [PoolTx.isSource, hsub]) (by simp [hsub]) (by simp [hsub])).perm
        hall⟩, h.send, h.recv, fun q hq => ?_⟩
    rcases mem_cons.mp (hperm.subset hq) with rfl | hq
    · exact hsub
    · exact h.ack q hq

theorem Consistent.popTxsByHash (txs : List CommittedTx) :
    Consistent base (txs.foldl (fun a tx => (a.popTxByHash tx.digest tx.subtype).1) a) := by
  induction txs generalizing a with
  | nil => exact h
  | cons tx rest ih => exact ih (h.popTxByHash tx.digest tx.subtype)

theorem Consistent.onUnitToDb (txs : Option (List CommittedTx))
    (nonce : UInt64) (hash : String) : Consistent base (a.onUnitToDb G txs nonce hash) := by
  cases txs with
  | none => exact h.updateLatest nonce hash
  | some txs => exact (h.popTxsByHash txs).updateLatest _ _

theorem Consistent.getConsTxs (nonce : UInt64) (hash : String) :
    Consistent base (a.getConsTxs G nonce hash).1 := by
  have hupdate := h.updateLatest (G := G) nonce hash
  unfold AccountObj.getConsTxs AccountObj.getSendTxs
  split_ifs
  · exact h
  · exact h
  · split <;> rename_i heq <;> rw [heq] at hupdate <;> exact hupdate

theorem Consistent.counts : a.table.send = base.send + a.sendQueue.entries.length ∧
      a.table.recv = base.recv + a.recvQueue.entries.length ∧
      a.table.conf = base.conf + a.recvAckQueue.entries.length := by
  obtain ⟨hsend, hrecv, hconf⟩ := h.accounts.2
  simp only [AccountObj.txs, countP_append] at hsend hrecv hconf
  have hsource : ∀ tx ∈ a.sendQueue.entries, tx.subtype ≠ .recv ∧ tx.subtype ≠ .confirm := by
    intro tx htx
    have hsub : tx.subtype = .send ∨ tx.subtype = .self := by
      simpa [PoolTx.isSource] using h.send tx htx
    rcases hsub with hsub | hsub <;> rw [hsub] <;> decide
  refine ⟨?_, ?_, ?_⟩
  · rw [hsend, countP_eq_length.mpr h.send,
      countP_eq_zero.mpr fun tx htx => by simp [PoolTx.isSource, h.recv tx htx],
      countP_eq_zero.mpr fun tx htx => by simp [PoolTx.isSource, h.ack tx htx]]
    rfl
  · rw [hrecv, countP_eq_zero.mpr fun tx htx => by simp [(hsource tx htx).1],
      countP_eq_length.mpr fun tx htx => decide_eq_true (h.recv tx htx),
      countP_eq_zero.mpr fun tx htx => by simp [h.ack tx htx]]
    rw [Nat.zero_add, Nat.add_zero]
  · rw [hconf, countP_eq_zero.mpr fun tx htx => by simp [(hsource tx htx).2],
      countP_eq_zero.mpr fun tx htx => by simp [h.recv tx htx],
      countP_eq_length.mpr fun tx htx => decide_eq_true (h.ack tx htx)]
    rw [Nat.zero_add, Nat.zero_add]

end

/-- `pop_tx` is called only if there is nothing for it to take out of the queues. -/
def KeepsIndex (a : AccountObj) : PoolCall → Prop
  | .popTx => a.recvQueue.entries = [] ∧ a.sendQueue.entries = []
  | _ => True

instance instDecidableKeepsIndex (a : AccountObj) (call : PoolCall) :
    Decidable (KeepsIndex a call) :=
  match call with
  | .popTx => inferInstanceAs (Decidable (_ ∧ _))
  | .push _ | .getConsTxs _ _ | .popTxByHash _ _ | .clearInvalidSendTx _ | .updateLatest _ _
  | .onUnitToDb _ _ _ => inferInstanceAs (Decidable True)

theorem Consistent.step {call : PoolCall} (h : Consistent base a) (hcall : KeepsIndex a call) :
    Consistent base (a.step G call).1 := by
  cases call with
  | push tx =>
    show Consistent base (a.push G tx).1
    unfold AccountObj.push
    cases hsub : tx.subtype with
    | send => exact h.pushSendTx (by simp [PoolTx.isSource, hsub])
    | self => exact h.pushSendTx (by simp [PoolTx.isSource, hsub])
    | recv => exact h.pushRecvTx hsub
    | confirm => exact h.pushRecvAckTx hsub
  | popTx =>
    obtain ⟨hrecv, hsend⟩ := hcall
    have hsame : a.popTx.1 = a := by rw [AccountObj.popTx, hrecv, hsend]
    show Consistent base a.popTx.1
    rwa [hsame]
  | popTxByHash hash subtype => exact h.popTxByHash hash subtype
  | clearInvalidSendTx now => exact h.clearSendQueueByIter _
  | updateLatest nonce hash => exact h.updateLatest nonce hash
  | onUnitToDb txs nonce hash => exact h.onUnitToDb txs nonce hash
  | getConsTxs nonce hash => exact h.getConsTxs nonce hash

/-- After calls among which `pop_tx` finds nothing, the digests of the queues are disjoint and
together the keys of the map, and the counters have grown by the sizes of the queues. -/
theorem index_and_counters_agree (G : PoolConfig) (nonce : UInt64) (hash : String)
    (table : TxCounters) (calls : List PoolCall)
    (hcalls : Run.Meets (step G) KeepsIndex (new nonce hash table) calls) :
    let a := (Run.run (step G) (new nonce hash table) calls).1
    let send := a.sendQueue.entries.map (·.digest)
    let recv := a.recvQueue.entries.map (·.digest)
    let conf := a.recvAckQueue.entries.map (·.digest)
    (send ++ (recv ++ conf)).Nodup ∧
    (∀ digest, (a.txMap.find? digest).isSome ↔
      digest ∈ send ∨ digest ∈ recv ∨ digest ∈ conf) ∧
    a.table.send = table.send + send.length ∧ a.table.recv = table.recv + recv.length ∧
    a.table.conf = table.conf + conf.length := by
  intro a send recv conf
  have h : Consistent table a :=
    (Run.run_inv (P := fun _ => True)
      (fun _ _ h hcall => ⟨Consistent.step h hcall, fun _ _ => trivial⟩)
      (consistent_new nonce hash table) calls hcalls).1
  have hmap : send ++ (recv ++ conf) = a.txs.map (·.digest) := by
    rw [AccountObj.txs, map_append, map_append]
  refine ⟨hmap ▸ h.accounts.1.nodup, fun digest => ?_, ?_⟩
  · rw [← mem_append, ← mem_append, hmap, mem_map, Option.isSome_iff_exists]
    exact exists_congr fun tx => h.accounts.1.find digest tx
  · obtain ⟨hsend, hrecv, hconf⟩ := h.counts
    simp only [send, recv, conf, length_map]
    exact ⟨hsend, hrecv, hconf⟩

def receiptTx : PoolTx :=
  { digest := "r", subtype := .recv, lastNonce := 0, lastHash := 0, fireTimestamp := 5 }

def indexedCalls : List PoolCall :=
  [.popTx, .push receiptTx, .push (firstTx "a" 1 1), .push { firstTx "b" 1 3 with lastNonce := 1 },
    .popTxByHash "b" .send, .popTxByHash "r" .recv]

theorem index_and_counters_agree_sample :
    Run.Meets (step sampleConfig) KeepsIndex (new 0 "g" {}) indexedCalls ∧
      (Run.run (step sampleConfig) (new 0 "g" {}) indexedCalls).1.table.send = 1 := by
  have hmeets : Run.Meets (step sampleConfig) KeepsIndex (new 0 "g" {}) indexedCalls := by
    decide +kernel
  refine ⟨hmeets, ?_⟩
  obtain ⟨-, -, hsend, -⟩ := index_and_counters_agree sampleConfig 0 "g" {} indexedCalls hmeets
  exact hsend.trans (by decide +kernel)

theorem popTx_leaves_index :
    let a := (Run.run (step sampleConfig) (new 0 "g" {}) [.push receiptTx, .popTx]).1
    a.recvQueue.entries = [] ∧ a.txMap.find? "r" = some receiptTx ∧ a.table.recv = 1 := by
  decide +kernel

def unitTx (tx : PoolTx) : CommittedTx := ⟨tx.digest, tx.subtype, tx.lastNonce⟩

def committedAt (a : AccountObj) (k : Nat) : UInt64 × String :=
  match (a.sendQueue.entries.take k).getLast? with
  | none => (a.latestSendTransNumber, a.latestSendTransHash)
  | some tx => (tx.lastNonce + 1, tx.digest)

def commitPrefix (G : PoolConfig) (a : AccountObj) (k : Nat) : AccountObj :=
  a.onUnitToDb G (some ((a.sendQueue.entries.take k).map unitTx)) (a.committedAt k).1
    (a.committedAt k).2

structure SendShrinks (a a' : AccountObj) : Prop where
  send : a'.sendQueue.entries.Sublist a.sendQueue.entries
  recv : a'.recvQueue = a.recvQueue
  ack : a'.recvAckQueue = a.recvAckQueue

theorem SendShrinks.refl (a : AccountObj) : SendShrinks a a := ⟨.refl _, rfl, rfl⟩

theorem SendShrinks.trans {a a' a'' : AccountObj} (h : SendShrinks a a') (h' : SendShrinks a' a'') :
    SendShrinks a a'' :=
  ⟨h'.send.trans h.send, h'.recv.trans h.recv, h'.ack.trans h.ack⟩

theorem sendShrinks_popFromQueue (a : AccountObj) (hsource : tx.isSource) :
    SendShrinks a (a.popFromQueue tx) := by
  have hfound : ∀ i, SendShrinks a { (a.countOut tx).popTxEvents (a.sendQueue.above tx) with
      sendQueue := a.sendQueue.truncateEqual tx i } := by
    intro i
    obtain ⟨c, hcount⟩ := countOut_eq a tx
    obtain ⟨m, c', hpop⟩ := popTxEvents_eq (a.countOut tx) (a.sendQueue.above tx)
    rw [hpop, hcount]
    exact ⟨a.sendQueue.truncateEqual_sublist tx i, rfl, rfl⟩
  have hsub : tx.subtype = .send ∨ tx.subtype = .self := by
    simpa [PoolTx.isSource] using hsource
  unfold popFromQueue
  rcases hsub with hsub | hsub
  all_goals
    rw [hsub]
    dsimp only
    split
    · exact SendShrinks.refl a
    · exact hfound _

theorem sendShrinks_popTxByHash (a : AccountObj) (hash : String) {subtype : TxSubtype}
    (hsource : subtype = .send ∨ subtype = .self) :
    SendShrinks a (a.popTxByHash hash subtype).1 := by
  unfold popTxByHash
  split
  · exact SendShrinks.refl a
  · rename_i tx hfind
    split_ifs with hsub
    · exact SendShrinks.refl a
    · have htx : tx.isSource := by
        rw [← not_not.mp hsub] at hsource
        simpa [PoolTx.isSource] using hsource
      obtain ⟨hsend, hrecv, hack⟩ :=
        sendShrinks_popFromQueue { a with txMap := a.txMap.erase hash } htx
      exact ⟨hsend, hrecv, hack⟩

theorem sendShrinks_updateLatest (a : AccountObj) (nonce : UInt64) (hash : String) :
    SendShrinks a (a.updateLatestSendTransNumberHash G nonce hash).1 := by
  rcases updateLatest_cases G a nonce hash with ⟨ok, -, heq⟩ | ⟨-, q, m, c, heq, hnil | ⟨rfl, -⟩⟩
  · rw [heq]
    exact .refl a
  · rw [heq]
    refine ⟨?_, rfl, rfl⟩
    show q.entries.Sublist a.sendQueue.entries
    rw [hnil]
    exact nil_sublist _
  · rw [heq]
    exact ⟨dropWhile_sublist _, rfl, rfl⟩

theorem sendShrinks_popTxsByHash (a : AccountObj) {txs : List CommittedTx}
    (hsource : ∀ tx ∈ txs, tx.subtype = .send ∨ tx.subtype = .self) :
    SendShrinks a (txs.foldl (fun a tx => (a.popTxByHash tx.digest tx.subtype).1) a) := by
  induction txs generalizing a with
  | nil => exact SendShrinks.refl a
  | cons tx rest ih =>
    have hone := sendShrinks_popTxByHash a tx.digest (hsource tx mem_cons_self)
    exact hone.trans (ih _ fun q hq => hsource q (mem_cons_of_mem tx hq))

section
variable (h : Consistent base a)
include h

theorem Consistent.popFirst
    (hchain : Chained G.hash64 a.latestSendTransNumber.toNat a.latestSendTransHash
      a.sendQueue.entries)
    (hqueue : a.sendQueue.entries = tx :: l) :
    (a.popTxByHash tx.digest tx.subtype).1.sendQueue.entries = [] := by
  have hsend : tx ∈ a.sendQueue.entries := hqueue ▸ mem_cons_self
  have hmem : tx ∈ a.txs := mem_append_left _ hsend
  have hfind := (h.accounts.1.find tx.digest tx).mpr ⟨hmem, rfl⟩
  have hfollow : ∀ q ∈ l, sendLess tx q := by
    intro q hq
    have hpair := hchain.pairwise
    rw [hqueue] at hpair
    have hlt := (pairwise_cons.mp hpair).1 q hq
    rw [sendLess, if_neg hlt.ne]
    exact decide_eq_true hlt
  have hsplit : a.sendQueue.entries = [] ++ tx :: l := hqueue
  obtain ⟨hbelow, hequal, -⟩ := Bag.range_of_split hsplit
    (fun _ hq => absurd hq not_mem_nil) hfollow
  obtain ⟨i, hi, hget⟩ := h.findIdx?_equal (subset_append_left _ _) hsend
  have hi0 : i = 0 := by
    rw [hequal] at hget
    exact Nat.lt_one_iff.mp (List.getElem?_eq_some_iff.mp hget).1
  have hsub : tx.subtype = .send ∨ tx.subtype = .self := by
    simpa [PoolTx.isSource] using h.send tx hsend
  have hnil : (a.sendQueue.truncateEqual tx i).entries = [] := by
    show a.sendQueue.below tx ++ (a.sendQueue.equal tx).eraseIdx i = []
    rw [hbelow, hequal, hi0]
    rfl
  unfold AccountObj.popTxByHash AccountObj.popFromQueue
  rw [hfind]
  dsimp only
  rcases hsub with hsub | hsub
  all_goals
    rw [hsub]
    rw [hi]
    exact hnil

theorem Consistent.mem_take (k : Nat) :
    ∀ tx ∈ (a.sendQueue.entries.take k).map unitTx, tx.subtype = .send ∨ tx.subtype = .self := by
  intro tx htx
  obtain ⟨q, hq, rfl⟩ := mem_map.mp htx
  have hsource := h.send q (mem_of_mem_take hq)
  simpa [PoolTx.isSource, unitTx] using hsource

theorem Consistent.commitPrefix_shrinks (k : Nat) : SendShrinks a (a.commitPrefix G k) :=
  (sendShrinks_popTxsByHash a (h.mem_take k)).trans (sendShrinks_updateLatest _ _ _)

theorem Consistent.commitPrefix_succ
    (hchain : Chained G.hash64 a.latestSendTransNumber.toNat a.latestSendTransHash
      a.sendQueue.entries) (k : Nat) :
    (a.commitPrefix G (k + 1)).sendQueue.entries = [] := by
  cases hqueue : a.sendQueue.entries with
  | nil =>
    have hsub := (h.commitPrefix_shrinks (G := G) (k + 1)).send
    rw [hqueue] at hsub
    exact sublist_nil.mp hsub
  | cons tx rest =>
    have hfirst := h.popFirst hchain hqueue
    have hrest := h.mem_take (k + 1)
    unfold commitPrefix AccountObj.onUnitToDb
    rw [hqueue, take_succ_cons, map_cons] at hrest ⊢
    have hpops := sendShrinks_popTxsByHash (a.popTxByHash tx.digest tx.subtype).1
      fun q hq => hrest q (mem_cons_of_mem _ hq)
    apply sublist_nil.mp
    rw [← hfirst]
    exact (hpops.trans (sendShrinks_updateLatest _ _ _)).send

end

theorem commitPrefix_zero (G : PoolConfig) (a : AccountObj) : a.commitPrefix G 0 = a := by
  have hinfo : a.committedAt 0 = (a.latestSendTransNumber, a.latestSendTransHash) := by
    rfl
  have hmax : ¬ ((0 : UInt64) ≠ 0 ∧ (0 : UInt64) > a.latestSendTransNumber) := fun h => h.1 rfl
  unfold commitPrefix onUnitToDb
  rw [hinfo, take_zero, map_nil]
  show (a.updateLatestSendTransNumberHash G _ _).1 = a
  rw [sendTransInfo, foldl_nil, if_neg hmax, updateLatestSendTransNumberHash,
    if_neg (lt_irrefl _), if_pos rfl]

/-- A committed unit with the first `k` queued transactions leaves exactly the others queued and
indexed if it has none of them or all of them, and only then. -/
theorem committed_prefix_keeps_rest (G : PoolConfig) (base : TxCounters) (a : AccountObj) (k : Nat)
    (h : Consistent base a)
    (hchain : Chained G.hash64 a.latestSendTransNumber.toNat a.latestSendTransHash
      a.sendQueue.entries)
    (hk : k ≤ a.sendQueue.entries.length) :
    ((a.commitPrefix G k).sendQueue.entries = a.sendQueue.entries.drop k ∧
      (a.commitPrefix G k).recvQueue = a.recvQueue ∧
      (a.commitPrefix G k).recvAckQueue = a.recvAckQueue ∧
      Indexed (a.commitPrefix G k).txMap (a.sendQueue.entries.drop k ++
        (a.recvQueue.entries ++ a.recvAckQueue.entries))) ↔
    (k = 0 ∨ k = a.sendQueue.entries.length) := by
  have hsend : (a.commitPrefix G k).sendQueue.entries = a.sendQueue.entries.drop k ↔
      (k = 0 ∨ k = a.sendQueue.entries.length) := by
    cases k with
    | zero => simp [commitPrefix_zero]
    | succ k =>
      rw [h.commitPrefix_succ hchain, eq_comm, drop_eq_nil_iff]
      omega
  rw [← hsend]
  refine ⟨fun hrest => hrest.1, fun hrest => ?_⟩
  have hshrinks := h.commitPrefix_shrinks (G := G) k
  have hindex := (h.onUnitToDb (G := G) (some ((a.sendQueue.entries.take k).map unitTx))
    (a.committedAt k).1 (a.committedAt k).2).accounts.1
  have htxs : (a.commitPrefix G k).txs = a.sendQueue.entries.drop k ++
      (a.recvQueue.entries ++ a.recvAckQueue.entries) := by
    rw [AccountObj.txs, hrest, hshrinks.recv, hshrinks.ack]
  exact ⟨hrest, hshrinks.recv, hshrinks.ack, htxs ▸ hindex⟩

def queuedTwo : AccountObj :=
  (Run.run (step sampleConfig) (new 0 "g" {})
    [.push (firstTx "a" 1 1), .push { firstTx "b" 1 3 with lastNonce := 1 }]).1

theorem committed_prefix_keeps_rest_sample :
    queuedTwo.sendQueue.entries.length = 2 ∧
      (queuedTwo.commitPrefix sampleConfig 2).sendQueue.entries = [] := by
  have hfirst : KeepsIndex (new 0 "g" {}) (.push (firstTx "a" 1 1)) := trivial
  have hconsistent := (consistent_new 0 "g" {}).step (G := sampleConfig) hfirst
  have hsecond : KeepsIndex ((new 0 "g" {}).step sampleConfig (.push (firstTx "a" 1 1))).1
    (.push { firstTx "b" 1 3 with lastNonce := 1 }) := trivial
  replace hconsistent : Consistent {} queuedTwo := hconsistent.step hsecond
  have hlen : queuedTwo.sendQueue.entries.length = 2 := by decide +kernel
  refine ⟨hlen, ?_⟩
  rw [((committed_prefix_keeps_rest sampleConfig {} queuedTwo 2 hconsistent (by decide +kernel)
    hlen.ge).mpr (.inr hlen.symm)).1]
  decide +kernel

theorem committed_prefix_loses_rest :
    queuedTwo.sendQueue.entries.map (·.digest) = ["a", "b"] ∧
      Chained sampleConfig.hash64 queuedTwo.latestSendTransNumber.toNat
        queuedTwo.latestSendTransHash queuedTwo.sendQueue.entries ∧
      queuedTwo.committedAt 1 = (1, "a") ∧
      (queuedTwo.commitPrefix sampleConfig 1).sendQueue.entries = [] ∧
      (queuedTwo.commitPrefix sampleConfig 1).txMap.find? "b" = none := by
  decide +kernel

end AccountObj
end TopChain.TxPool
