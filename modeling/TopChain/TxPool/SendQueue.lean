import TopChain.TxPool.AccountObj

/-!
# The chain in the send queue

The queue is chained as long as a replacement names the hash of what it replaces.
-/
namespace TopChain.TxPool

open Option List TopChain.Lib TopChain.Cert Word

/-- Each transaction names the nonce and the hash of the one before. -/
def Chained (hash64 : String → UInt64) : Nat → String → List PoolTx → Prop
  | _, _, [] => True
  | nonce, hash, tx :: rest =>
    tx.lastNonce.toNat = nonce ∧ tx.lastHash = hash64 hash ∧
      Chained hash64 (nonce + 1) tx.digest rest

instance instDecidableChained (hash64 : String → UInt64) (nonce : Nat) (hash : String)
    (l : List PoolTx) : Decidable (Chained hash64 nonce hash l) :=
  match l with
  | [] => .isTrue trivial
  | tx :: rest =>
    have := instDecidableChained hash64 (nonce + 1) tx.digest rest
    inferInstanceAs (Decidable (_ ∧ _ ∧ _))

def tailHash : String → List PoolTx → String
  | hash, [] => hash
  | _, tx :: rest => tailHash tx.digest rest

section
variable {hash64 : String → UInt64} {nonce : Nat} {hash : String} {l l₁ l₂ : List PoolTx}
  {tx q : PoolTx}

theorem chained_append : Chained hash64 nonce hash (l₁ ++ l₂) ↔ Chained hash64 nonce hash l₁ ∧
      Chained hash64 (nonce + l₁.length) (tailHash hash l₁) l₂ := by
  induction l₁ generalizing nonce hash with
  | nil => exact ⟨fun h => ⟨trivial, h⟩, fun h => h.2⟩
  | cons tx rest ih =>
    have hlen : nonce + (tx :: rest).length = nonce + 1 + rest.length := by
      rw [length_cons]
      omega
    rw [cons_append, Chained, Chained, ih, hlen, tailHash]
    tauto

theorem tailHash_of_getLast? (h : l.getLast? = some q) : tailHash hash l = q.digest := by
  induction l generalizing hash with
  | nil => cases h
  | cons tx rest ih =>
    rw [tailHash]
    cases rest with
    | nil =>
      rw [getLast?_singleton, some_inj] at h
      rw [tailHash, h]
    | cons tx' rest => exact ih (by rwa [getLast?_cons_cons] at h)

theorem Chained.take (h : Chained hash64 nonce hash l) (i : Nat) :
    Chained hash64 nonce hash (l.take i) := by
  rw [← take_append_drop i l] at h
  exact (chained_append.mp h).1

theorem Chained.nonce_eq {i : Nat} (h : Chained hash64 nonce hash l) (hq : l[i]? = some q) :
    q.lastNonce.toNat = nonce + i := by
  induction l generalizing nonce hash i with
  | nil => cases hq
  | cons tx rest ih =>
    cases i with
    | zero =>
      rw [getElem?_cons_zero, some_inj] at hq
      rw [← hq, h.1]
      rfl
    | succ i =>
      rw [ih h.2.2 hq]
      omega

theorem Chained.le_nonce (h : Chained hash64 nonce hash l) (hq : q ∈ l) :
    nonce ≤ q.lastNonce.toNat ∧ q.lastNonce.toNat < nonce + l.length := by
  obtain ⟨i, hi, hget⟩ := mem_iff_getElem.mp hq
  have hnonce := h.nonce_eq (List.getElem?_eq_some_iff.mpr ⟨hi, hget⟩)
  omega

theorem Chained.pairwise (h : Chained hash64 nonce hash l) :
    l.Pairwise fun a b => a.lastNonce < b.lastNonce := by
  induction l generalizing nonce hash with
  | nil => exact .nil
  | cons tx rest ih =>
    refine pairwise_cons.mpr ⟨fun q hq => ?_, ih h.2.2⟩
    have hle := (h.2.2.le_nonce hq).1
    rw [lt_nat, h.1]
    omega

theorem Chained.rehash {hash' : String} (h : Chained hash64 nonce hash l)
    (hhead : ∀ q, l.head? = some q → q.lastHash = hash64 hash') :
    Chained hash64 nonce hash' l := by
  cases l with
  | nil => trivial
  | cons tx rest => exact ⟨h.1, hhead tx rfl, h.2.2⟩

theorem Chained.dropWhile {number : UInt64} (h : Chained hash64 nonce hash l)
    (hle : nonce ≤ number.toNat) :
    ∃ hash', Chained hash64 number.toNat hash' (l.dropWhile (·.lastNonce < number)) := by
  induction l generalizing nonce hash with
  | nil => exact ⟨hash, trivial⟩
  | cons tx rest ih =>
    obtain ⟨htx, hhash, hrest⟩ := h
    by_cases hlt : tx.lastNonce < number
    · rw [dropWhile_cons_of_pos (by simpa using hlt)]
      refine ih hrest ?_
      rw [lt_nat, htx] at hlt
      omega
    · rw [dropWhile_cons_of_neg (by simpa using hlt)]
      rw [lt_nat, htx] at hlt
      have heq : nonce = number.toNat := by omega
      exact ⟨hash, htx.trans heq, hhash, heq ▸ hrest⟩

section
variable {m : Bag sendLess} (h : Chained hash64 nonce hash m.entries)
include h

theorem Chained.insert (hnonce : tx.lastNonce.toNat = nonce + m.entries.length)
    (hhash : tx.lastHash = hash64 (tailHash hash m.entries)) :
    (m.insert tx).entries = m.entries ++ [tx] ∧ Chained hash64 nonce hash (m.entries ++ [tx]) := by
  refine ⟨Bag.insertList_of_last fun q hq => ?_, chained_append.mpr ⟨h, hnonce, hhash, trivial⟩⟩
  have hlt : q.lastNonce < tx.lastNonce := by
    rw [lt_nat, hnonce]
    exact (h.le_nonce hq).2
  rw [sendLess, if_neg hlt.ne', decide_eq_true_eq]
  exact hlt.not_gt

theorem Chained.length_equal : (m.equal tx).length ≤ 1 := by
  have hsub : (m.equal tx).Sublist m.entries :=
    (takeWhile_sublist _).trans (dropWhile_sublist _)
  have hpair := h.pairwise.sublist hsub
  have hsame : ∀ q ∈ m.equal tx, q.lastNonce = tx.lastNonce := by
    intro q hq
    obtain ⟨hlt, hgt⟩ := Bag.not_lt_of_mem_equal hq
    by_contra hne
    rw [sendLess, if_neg hne, decide_eq_true_eq] at hlt
    rw [sendLess, if_neg (Ne.symm hne), decide_eq_true_eq] at hgt
    exact hne (le_antisymm (not_lt.mp hgt) (not_lt.mp hlt))
  match hl : m.equal tx with
  | [] => exact Nat.zero_le 1
  | [q] => exact le_rfl
  | q :: q' :: rest =>
    rw [hl] at hpair hsame
    have hlt := (pairwise_cons.mp hpair).1 q' mem_cons_self
    rw [hsame q mem_cons_self, hsame q' (mem_cons_of_mem q mem_cons_self)] at hlt
    exact absurd hlt (lt_irrefl _)

end
end

namespace AccountObj
variable {G : PoolConfig} {a : AccountObj}

theorem popTxEvents_eq (a : AccountObj) (txs : List PoolTx) :
    ∃ m c, a.popTxEvents txs = { a with txMap := m, table := c } := by
  induction txs generalizing a with
  | nil => exact ⟨a.txMap, a.table, rfl⟩
  | cons tx rest ih =>
    have hone : ∃ m c, a.popTxEvent tx = { a with txMap := m, table := c } := by
      unfold popTxEvent countOut
      split
      · exact ⟨a.txMap, a.table, rfl⟩
      · split <;> exact ⟨_, _, rfl⟩
    obtain ⟨m, c, hone⟩ := hone
    obtain ⟨m', c', hrest⟩ := ih (a.popTxEvent tx)
    refine ⟨m', c', ?_⟩
    rw [popTxEvents, foldl_cons, ← popTxEvents, hrest, hone]

theorem countOut_eq (a : AccountObj) (tx : PoolTx) :
    ∃ c, a.countOut tx = { a with table := c } := by
  unfold countOut
  split <;> exact ⟨_, rfl⟩

structure Linked (G : PoolConfig) (a : AccountObj) : Prop where
  chained : Chained G.hash64 a.latestSendTransNumber.toNat a.latestSendTransHash
    a.sendQueue.entries
  send : ∀ tx ∈ a.sendQueue.entries, tx.isSource
  recv : ∀ tx ∈ a.recvQueue.entries, tx.subtype = .recv
  ack : ∀ tx ∈ a.recvAckQueue.entries, tx.subtype = .confirm

theorem linked_new (G : PoolConfig) (nonce : UInt64) (hash : String) (table : TxCounters) :
    Linked G (new nonce hash table) :=
  ⟨trivial, fun _ h => absurd h not_mem_nil, fun _ h => absurd h not_mem_nil,
    fun _ h => absurd h not_mem_nil⟩

theorem clearSendQueueByIter_eq (a : AccountObj) (i : Nat) : ∃ m c, a.clearSendQueueByIter i =
      { a with sendQueue := a.sendQueue.take i, txMap := m, table := c } := by
  obtain ⟨m, c, h⟩ := popTxEvents_eq a (a.sendQueue.entries.drop i)
  exact ⟨m, c, by rw [clearSendQueueByIter, h]⟩

theorem dropOldNonces_eq (a : AccountObj) (nonce : UInt64) : ∃ m c, a.dropOldNonces nonce =
      { a with
        sendQueue := a.sendQueue.dropWhile (·.lastNonce < nonce), txMap := m, table := c } := by
  obtain ⟨m, c, h⟩ := popTxEvents_eq a (a.sendQueue.entries.takeWhile (·.lastNonce < nonce))
  exact ⟨m, c, by rw [dropOldNonces, h]⟩

section
variable (h : Linked G a)
include h

theorem Linked.clearSendQueueByIter (i : Nat) : Linked G (a.clearSendQueueByIter i) := by
  obtain ⟨m, c, heq⟩ := clearSendQueueByIter_eq a i
  rw [heq]
  exact ⟨h.chained.take i, fun tx htx => h.send tx (mem_of_mem_take htx), h.recv, h.ack⟩

theorem Linked.clearExpireTxs (now : UInt64) : Linked G (a.clearExpireTxs G now) :=
  h.clearSendQueueByIter _

theorem Linked.popFromQueue (tx : PoolTx) : Linked G (a.popFromQueue tx) := by
  obtain ⟨c, hcount⟩ := countOut_eq a tx
  have hsource : ∀ i, (a.sendQueue.equal tx).findIdx? (·.digest = tx.digest) = some i →
      Linked G { (a.countOut tx).popTxEvents (a.sendQueue.above tx) with
        sendQueue := a.sendQueue.truncateEqual tx i } := by
    intro i hi
    obtain ⟨m, c', hpop⟩ := popTxEvents_eq (a.countOut tx) (a.sendQueue.above tx)
    have hlen : (a.sendQueue.equal tx).length ≤ 1 := h.chained.length_equal
    have hlt := (findIdx?_eq_some_iff_getElem.mp hi).1
    have hnil : (a.sendQueue.equal tx).eraseIdx i = [] := by
      apply length_eq_zero_iff.mp
      rw [length_eraseIdx, if_pos hlt]
      omega
    have hentries : (a.sendQueue.truncateEqual tx i).entries = a.sendQueue.below tx := by
      show a.sendQueue.below tx ++ (a.sendQueue.equal tx).eraseIdx i = _
      rw [hnil, append_nil]
    rw [hpop, hcount]
    refine ⟨?_, ?_, h.recv, h.ack⟩
    · have hsplit := h.chained
      rw [← a.sendQueue.below_append_equal_append_above tx] at hsplit
      rw [hentries]
      exact (chained_append.mp hsplit).1
    · intro q hq
      have hq' : q ∈ a.sendQueue.below tx := hentries ▸ hq
      exact h.send q ((takeWhile_sublist _).subset hq')
  unfold AccountObj.popFromQueue
  split
  · split
    · exact h
    · exact hsource _ ‹_›
  · split
    · exact h
    · exact hsource _ ‹_›
  · split
    · exact h
    · rw [hcount]
      refine ⟨h.chained, h.send, fun q hq => h.recv q ?_, h.ack⟩
      exact (a.recvQueue.eraseEqual_sublist tx _).subset hq
  · split
    · exact h
    · rw [hcount]
      refine ⟨h.chained, h.send, h.recv, fun q hq => h.ack q ?_⟩
      exact (a.recvAckQueue.eraseEqual_sublist tx _).subset hq

theorem Linked.popTxByHash (hash : String) (subtype : TxSubtype) :
    Linked G (a.popTxByHash hash subtype).1 := by
  unfold AccountObj.popTxByHash
  split
  · exact h
  · split
    · exact h
    · refine Linked.popFromQueue ?_ _
      exact ⟨h.chained, h.send, h.recv, h.ack⟩

end

/-- The account stays, or gets the latest transaction and a queue that continues it. -/
theorem updateLatest_cases (G : PoolConfig) (a : AccountObj) (nonce : UInt64) (hash : String) :
    (∃ ok, (ok = true → nonce = a.latestSendTransNumber) ∧
      a.updateLatestSendTransNumberHash G nonce hash = (a, ok)) ∨
    (a.latestSendTransNumber ≤ nonce ∧ ∃ q m c, a.updateLatestSendTransNumberHash G nonce hash =
        ({ a with
           latestSendTransNumber := nonce
           latestSendTransHash := hash
           sendQueue := q
           txMap := m
           table := c }, true) ∧
      (q.entries = [] ∨ q = a.sendQueue.dropWhile (·.lastNonce < nonce) ∧
        ∀ tx, q.entries.head? = some tx → tx.lastHash = G.hash64 hash)) := by
  unfold updateLatestSendTransNumberHash
  split_ifs with hlt heq
  · exact .inl ⟨false, nofun, rfl⟩
  · exact .inl ⟨true, fun _ => heq, rfl⟩
  · refine .inr ⟨not_lt.mp hlt, ?_⟩
    obtain ⟨m, c, hold⟩ := dropOldNonces_eq
      { a with latestSendTransNumber := nonce, latestSendTransHash := hash } nonce
    dsimp only
    rw [hold]
    split
    · rename_i tx hhead
      split_ifs with hcheck
      · refine ⟨_, m, c, rfl, .inr ⟨rfl, fun q hq => ?_⟩⟩
        obtain rfl := some_inj.mp (hhead.symm.trans hq)
        exact of_decide_eq_true hcheck
      · obtain ⟨m', c', hclear⟩ := clearSendQueueByIter_eq _ 0
        rw [hclear]
        exact ⟨_, m', c', rfl, .inl rfl⟩
    · rename_i hhead
      exact ⟨_, m, c, rfl, .inl (head?_eq_none_iff.mp hhead)⟩

theorem Linked.updateLatest (h : Linked G a) (nonce : UInt64) (hash : String) :
    Linked G (a.updateLatestSendTransNumberHash G nonce hash).1 := by
  rcases updateLatest_cases G a nonce hash
    with ⟨ok, -, heq⟩ | ⟨hle, q, m, c, heq, hnil | ⟨rfl, hhead⟩⟩
  · rw [heq]
    exact h
  · rw [heq]
    refine ⟨?_, fun tx (htx : tx ∈ q.entries) => ?_, h.recv, h.ack⟩
    · show Chained _ _ _ q.entries
      rw [hnil]
      trivial
    · rw [hnil] at htx
      cases htx
  · rw [heq]
    obtain ⟨hash', hdrop⟩ := h.chained.dropWhile (le_nat.mp hle)
    refine ⟨hdrop.rehash hhead, fun tx htx => ?_, h.recv, h.ack⟩
    exact h.send tx ((dropWhile_sublist _).subset htx)

variable {tx : PoolTx} {nonce : UInt64} {hash : String}

theorem Linked.enqueueSend (h : Linked G a) (hsource : tx.isSource)
    (hnonce : tx.lastNonce.toNat = a.latestSendTransNumber.toNat + a.sendQueue.entries.length)
    (hhash : tx.lastHash = G.hash64 (tailHash a.latestSendTransHash a.sendQueue.entries)) :
    Linked G (a.enqueueSend tx) := by
  obtain ⟨hentries, hchain⟩ := h.chained.insert hnonce hhash
  refine ⟨?_, ?_, h.recv, h.ack⟩
  · show Chained _ _ _ (a.sendQueue.insert tx).entries
    rw [hentries]
    exact hchain
  · intro q hq
    have hq' : q ∈ (a.sendQueue.insert tx).entries := hq
    rcases mem_cons.mp ((a.sendQueue.perm_insert tx).subset hq') with rfl | hq'
    · exact hsource
    · exact h.send q hq'

def ReplacesAlike (a : AccountObj) (tx : PoolTx) : Prop :=
  ∀ q ∈ a.sendQueue.entries, q.lastNonce = tx.lastNonce →
    q.fireTimestamp ≤ tx.fireTimestamp → tx.lastHash = q.lastHash

theorem Linked.findIdx_nonce (h : Linked G a)
    (hlow : a.latestSendTransNumber.toNat ≤ tx.lastNonce.toNat)
    (hhigh : tx.lastNonce.toNat < a.latestSendTransNumber.toNat + a.sendQueue.entries.length) :
    ∃ q, a.sendQueue.entries[a.sendQueue.entries.findIdx (tx.lastNonce = ·.lastNonce)]? =
      some q ∧ q.lastNonce = tx.lastNonce := by
  have hindex : tx.lastNonce.toNat - a.latestSendTransNumber.toNat <
      a.sendQueue.entries.length := by
    omega
  obtain ⟨q, hq⟩ : ∃ q, a.sendQueue.entries[tx.lastNonce.toNat - a.latestSendTransNumber.toNat]? =
      some q := ⟨_, getElem?_eq_getElem hindex⟩
  have hnonce : tx.lastNonce = q.lastNonce := by
    rw [eq_nat, h.chained.nonce_eq hq]
    omega
  have hlt : a.sendQueue.entries.findIdx (tx.lastNonce = ·.lastNonce) <
      a.sendQueue.entries.length :=
    findIdx_lt_length.mpr ⟨q, mem_of_getElem? hq, by simpa using hnonce⟩
  refine ⟨_, getElem?_eq_getElem hlt, ?_⟩
  have hfound := findIdx_getElem (w := hlt)
  exact (of_decide_eq_true hfound).symm

theorem Linked.replace {old : PoolTx} {i : Nat} (h : Linked G a) (hsource : tx.isSource)
    (hget : a.sendQueue.entries[i]? = some old) (hnonce : old.lastNonce = tx.lastNonce)
    (hhash : tx.lastHash = old.lastHash) :
    Linked G ((a.clearSendQueueByIter i).enqueueIfRoom G tx).1 := by
  have hcleared := h.clearSendQueueByIter i
  obtain ⟨hi, hold⟩ := List.getElem?_eq_some_iff.mp hget
  have hsplit : a.sendQueue.entries =
      a.sendQueue.entries.take i ++ old :: a.sendQueue.entries.drop (i + 1) := by
    rw [← hold, cons_getElem_drop_succ, take_append_drop]
  have hchain := h.chained
  rw [hsplit] at hchain
  obtain ⟨-, -, holdHash, -⟩ := chained_append.mp hchain
  unfold AccountObj.enqueueIfRoom
  split_ifs with hroom
  · exact hcleared
  · obtain ⟨m, c, heq⟩ := clearSendQueueByIter_eq a i
    refine hcleared.enqueueSend hsource ?_ ?_
    · rw [heq]
      show tx.lastNonce.toNat = a.latestSendTransNumber.toNat + (a.sendQueue.entries.take i).length
      rw [length_take, ← hnonce, h.chained.nonce_eq hget]
      omega
    · rw [heq, hhash]
      exact holdHash

section
variable (h : Linked G a)
include h

theorem Linked.pushChained (hsource : tx.isSource)
    (hlow : a.latestSendTransNumber ≤ tx.lastNonce) (halike : a.ReplacesAlike tx) :
    Linked G (a.pushChained G tx).1 := by
  have hlow' := le_nat.mp hlow
  unfold AccountObj.pushChained
  split
  · rename_i hlast
    have hnil : a.sendQueue.entries = [] := getLast?_eq_none_iff.mp hlast
    split_ifs with hnonce hcheck
    · exact h
    · exact h
    · refine h.enqueueSend hsource ?_ ?_
      · rw [not_not.mp hnonce, hnil]
        rfl
      · rw [hnil, tailHash]
        simpa [PoolConfig.checkLastTransHash] using hcheck
  · rename_i last hlast
    have hlen : 0 < a.sendQueue.entries.length := by
      rw [length_pos_iff]
      intro hnil
      rw [hnil] at hlast
      cases hlast
    have hlastNonce : last.lastNonce.toNat + 1 =
        a.latestSendTransNumber.toNat + a.sendQueue.entries.length := by
      rw [getLast?_eq_getElem?] at hlast
      rw [h.chained.nonce_eq hlast]
      omega
    have hsucc := toNat_add_one last.lastNonce
    have hlt := toNat_lt last.lastNonce
    split_ifs with hnext hcheck hgap
    · exact h
    · -- appended: a nonce that wraps would need more transactions than the queue may hold
      unfold AccountObj.enqueueIfRoom
      split_ifs with hroom
      · exact h
      · have hmax := UInt32.toNat_lt G.accountSendQueueTxMaxNum
        rw [← hnext] at hsucc
        refine h.enqueueSend hsource (by omega) ?_
        rw [tailHash_of_getLast? hlast]
        simpa [PoolConfig.checkLastTransHash] using hcheck
    · exact h
    · rw [gt_iff_lt, lt_nat] at hgap
      rw [eq_nat] at hnext
      obtain ⟨old, hget, hold⟩ := h.findIdx_nonce hlow' (by omega)
      unfold AccountObj.checkAndEraseOldNonceDuplicateTx
      dsimp only
      rw [hget]
      dsimp only
      split_ifs with htime
      · exact h
      · have hmem : old ∈ a.sendQueue.entries := mem_of_getElem? hget
        exact h.replace hsource hget hold (halike old hmem hold (not_lt.mp htime))

theorem Linked.push
    (halike : tx.isSource → (a.clearExpireTxs G tx.pushPoolTimestamp).ReplacesAlike tx) :
    Linked G (a.push G tx).1 := by
  have hsource : tx.isSource → Linked G (a.pushSendTx G tx).1 := by
    intro htx
    unfold AccountObj.pushSendTx
    split_ifs with hold
    · exact h
    · have hexpire := h.clearExpireTxs tx.pushPoolTimestamp
      obtain ⟨m, c, heq⟩ := clearSendQueueByIter_eq a
        (a.sendQueue.entries.findIdx (G.expired tx.pushPoolTimestamp))
      have hlatest : (a.clearExpireTxs G tx.pushPoolTimestamp).latestSendTransNumber =
          a.latestSendTransNumber := by
        rw [AccountObj.clearExpireTxs, heq]
      dsimp only
      split_ifs with hrepeat
      · exact hexpire
      · exact hexpire.pushChained htx (hlatest ▸ not_lt.mp hold) (halike htx)
  unfold AccountObj.push
  split
  · rename_i hsub
    exact hsource (by simp [PoolTx.isSource, hsub])
  · rename_i hsub
    exact hsource (by simp [PoolTx.isSource, hsub])
  · rename_i hsub
    unfold pushRecvTx
    split_ifs
    · exact h
    · refine ⟨h.chained, h.send, fun q hq => ?_, h.ack⟩
      rcases mem_cons.mp ((a.recvQueue.perm_insert tx).subset hq) with rfl | hq
      · exact hsub
      · exact h.recv q hq
  · rename_i hsub
    unfold pushRecvAckTx
    split_ifs
    · exact h
    · refine ⟨h.chained, h.send, h.recv, fun q hq => ?_⟩
      rcases mem_cons.mp ((a.recvAckQueue.perm_insert tx).subset hq) with rfl | hq
      · exact hsub
      · exact h.ack q hq

theorem Linked.onUnitToDb (txs : Option (List CommittedTx)) (nonce : UInt64)
    (hash : String) : Linked G (a.onUnitToDb G txs nonce hash) := by
  cases txs with
  | none => exact h.updateLatest nonce hash
  | some txs =>
    have hpop : Linked G (txs.foldl (fun a tx => (a.popTxByHash tx.digest tx.subtype).1) a) := by
      induction txs generalizing a with
      | nil => exact h
      | cons tx rest ih => exact ih (h.popTxByHash tx.digest tx.subtype)
    exact hpop.updateLatest _ _

theorem Linked.getConsTxs (nonce : UInt64) (hash : String) :
    Linked G (a.getConsTxs G nonce hash).1 := by
  have hupdate := h.updateLatest nonce hash
  unfold AccountObj.getConsTxs AccountObj.getSendTxs
  split_ifs
  · exact h
  · exact h
  · split <;> rename_i heq <;> rw [heq] at hupdate <;> exact hupdate

end

inductive BackupError where
  | verify (code : Nat)
  | txNonceIncontinuity
  | receipt (code : Nat)
deriving DecidableEq, Repr

/-- The backup's check, with the answers of the other checks as functions of the transaction. -/
def checkBackup (G : PoolConfig) (verifyConsTx checkReceipt : PoolTx → Option Nat)
    (nonce : UInt64) (hash : String) (txs : List PoolTx) : Option BackupError :=
  Id.run (txsValidityCheckBackup (fun tx => (verifyConsTx tx).map .verify) (·.isSource)
    G.nonceContinous .txNonceIncontinuity (fun tx => pure ((checkReceipt tx).map .receipt))
    (nonce, hash) txs)

/-- The backup's check of the order accepts the batch, whatever its other checks are. -/
def PassesBackup (G : PoolConfig) (nonce : UInt64) (hash : String) (txs : List PoolTx) : Prop :=
  ∀ verifyConsTx checkReceipt : PoolTx → Option Nat,
    (∀ tx ∈ txs, verifyConsTx tx = none) → (∀ tx ∈ txs, checkReceipt tx = none) →
    checkBackup G verifyConsTx checkReceipt nonce hash txs = none

theorem passesBackup_of_chained {txs : List PoolTx} (h : Chained G.hash64 nonce.toNat hash txs)
    (hsource : ∀ tx ∈ txs, tx.isSource) :
    PassesBackup G nonce hash txs := by
  intro verify receipt hverify hreceipt
  induction txs generalizing nonce hash with
  | nil => rfl
  | cons tx rest ih =>
    obtain ⟨hnonce, hhash, hrest⟩ := h
    have heq : nonce = tx.lastNonce := by rw [eq_nat, hnonce]
    have hcheck : G.checkLastTransHash tx hash = true := decide_eq_true hhash
    have hnext : G.nonceContinous (nonce, hash) tx = some (tx.lastNonce + 1, tx.digest) :=
      if_pos ⟨heq, hcheck⟩
    rw [checkBackup, txsValidityCheckBackup, hverify tx mem_cons_self]
    dsimp only [Option.map_none]
    rw [if_pos (hsource tx mem_cons_self), hnext]
    cases rest with
    | nil => rfl
    | cons tx' rest =>
      -- the next nonce is a word, so the nonce does not wrap
      have hsucc : (tx.lastNonce + 1).toNat = nonce.toNat + 1 := by
        have hlt := toNat_lt tx'.lastNonce
        rw [hrest.1] at hlt
        rw [toNat_add_one, hnonce, Nat.mod_eq_of_lt hlt]
      refine ih (hsucc ▸ hrest) (fun q hq => hsource q (mem_cons_of_mem tx hq)) ?_ ?_
      · exact fun q hq => hverify q (mem_cons_of_mem tx hq)
      · exact fun q hq => hreceipt q (mem_cons_of_mem tx hq)

theorem passesBackup_of_receipts {txs : List PoolTx} (h : ∀ tx ∈ txs, ¬ tx.isSource) :
    PassesBackup G nonce hash txs := by
  intro verify receipt hverify hreceipt
  induction txs with
  | nil => rfl
  | cons tx rest ih =>
    rw [checkBackup, txsValidityCheckBackup, hverify tx mem_cons_self]
    dsimp only [Option.map_none]
    rw [if_neg (h tx mem_cons_self), hreceipt tx mem_cons_self]
    refine ih (fun q hq => h q (mem_cons_of_mem tx hq)) ?_ ?_
    · exact fun q hq => hverify q (mem_cons_of_mem tx hq)
    · exact fun q hq => hreceipt q (mem_cons_of_mem tx hq)

theorem selectBatch_isPrefix (batchNum count : Nat) (l : List PoolTx) :
    selectBatch batchNum count l <+: l := by
  induction l generalizing count with
  | nil => exact prefix_refl []
  | cons tx rest ih =>
    rw [selectBatch]
    split_ifs
    · exact nil_prefix
    · exact ⟨rest, rfl⟩
    · exact (prefix_cons_inj tx).mpr (ih (count + 1))

theorem selectBatch_cons (batchNum : Nat) (tx : PoolTx) (l : List PoolTx) :
    ∃ rest, selectBatch batchNum 0 (tx :: l) = tx :: rest := by
  rw [selectBatch]
  split_ifs with hfirst
  · simp at hfirst
  · exact ⟨[], rfl⟩
  · exact ⟨_, rfl⟩

/-- The asserts of `get_send_txs`: the first transaction continues the account's state. -/
def SendAsserts (G : PoolConfig) (a : AccountObj) (nonce : UInt64) (hash : String) : Prop :=
  match a.updateLatestSendTransNumberHash G nonce hash with
  | (_, false) => True
  | (a', true) =>
    match selectBatch G.sendTransferTxBatchNum 0 a'.sendQueue.entries with
    | [] => a'.sendQueue.entries = []
    | tx :: _ => nonce = tx.lastNonce ∧ G.checkLastTransHash tx hash

theorem updateLatest_latest {a' : AccountObj}
    (hsame : nonce = a.latestSendTransNumber → hash = a.latestSendTransHash)
    (h : a.updateLatestSendTransNumberHash G nonce hash = (a', true)) :
    a'.latestSendTransNumber = nonce ∧ a'.latestSendTransHash = hash := by
  rcases updateLatest_cases G a nonce hash with ⟨ok, hok, heq⟩ | ⟨-, q, m, c, heq, -⟩
  · obtain ⟨rfl, rfl⟩ := Prod.mk.inj (heq.symm.trans h)
    exact ⟨(hok rfl).symm, (hsame (hok rfl)).symm⟩
  · obtain ⟨rfl, -⟩ := Prod.mk.inj (heq.symm.trans h)
    exact ⟨rfl, rfl⟩

section
variable (h : Linked G a) (hsame : nonce = a.latestSendTransNumber → hash = a.latestSendTransHash)
include h hsame

theorem Linked.sendAsserts : SendAsserts G a nonce hash := by
  have hupdate := h.updateLatest nonce hash
  unfold SendAsserts
  split
  · trivial
  · rename_i a' heq
    rw [heq] at hupdate
    obtain ⟨hnumber, hhash⟩ := updateLatest_latest hsame heq
    cases hq : a'.sendQueue.entries with
    | nil => rfl
    | cons tx l =>
      obtain ⟨rest, hselect⟩ := selectBatch_cons G.sendTransferTxBatchNum tx l
      have hchain := hupdate.chained
      rw [hq, hnumber, hhash] at hchain
      rw [hselect]
      exact ⟨eq_nat.mpr hchain.1.symm, decide_eq_true hchain.2.1⟩

theorem Linked.passesBackup : PassesBackup G nonce hash (a.getConsTxs G nonce hash).2 := by
  have hupdate := h.updateLatest nonce hash
  unfold AccountObj.getConsTxs AccountObj.getSendTxs
  split_ifs
  · refine passesBackup_of_receipts fun tx htx => ?_
    simp [PoolTx.isSource, h.ack tx (mem_of_mem_take htx)]
  · refine passesBackup_of_receipts fun tx htx => ?_
    simp [PoolTx.isSource, h.recv tx ((selectBatch_isPrefix _ 0 _).subset htx)]
  · split
    · exact fun _ _ _ _ => rfl
    · rename_i a' heq
      rw [heq] at hupdate
      obtain ⟨hnumber, hhash⟩ := updateLatest_latest hsame heq
      obtain ⟨rest, hsplit⟩ := selectBatch_isPrefix G.sendTransferTxBatchNum 0 a'.sendQueue.entries
      have hchain := hupdate.chained
      rw [← hsplit, hnumber, hhash] at hchain
      refine passesBackup_of_chained (chained_append.mp hchain).1 fun tx htx => ?_
      exact hupdate.send tx ((selectBatch_isPrefix _ 0 _).subset htx)

end

/-- The calls without `pop_tx`; a replacement names the hash of what it replaces. -/
def Admissible (G : PoolConfig) (a : AccountObj) : PoolCall → Prop
  | .push tx => tx.isSource → (a.clearExpireTxs G tx.pushPoolTimestamp).ReplacesAlike tx
  | .popTx => False
  | .getConsTxs nonce hash => nonce = a.latestSendTransNumber → hash = a.latestSendTransHash
  | _ => True

instance instDecidableAdmissible (G : PoolConfig) (a : AccountObj) (call : PoolCall) :
    Decidable (Admissible G a call) :=
  match call with
  | .push tx =>
    inferInstanceAs (Decidable (tx.isSource →
      ∀ q ∈ (a.clearExpireTxs G tx.pushPoolTimestamp).sendQueue.entries,
        q.lastNonce = tx.lastNonce → q.fireTimestamp ≤ tx.fireTimestamp →
          tx.lastHash = q.lastHash))
  | .popTx => inferInstanceAs (Decidable False)
  | .getConsTxs nonce hash =>
    inferInstanceAs (Decidable (nonce = a.latestSendTransNumber → hash = a.latestSendTransHash))
  | .popTxByHash _ _ | .clearInvalidSendTx _ | .updateLatest _ _ | .onUnitToDb _ _ _ =>
    inferInstanceAs (Decidable True)

theorem Linked.step {call : PoolCall} (h : Linked G a) (hcall : Admissible G a call) :
    Linked G (a.step G call).1 ∧
      ∀ o ∈ (a.step G call).2, PassesBackup G o.accountTxNonce o.accountTxHash o.txs := by
  cases call with
  | push tx => exact ⟨h.push hcall, fun _ ho => absurd ho not_mem_nil⟩
  | popTx => exact hcall.elim
  | popTxByHash hash subtype =>
    exact ⟨h.popTxByHash hash subtype, fun _ ho => absurd ho not_mem_nil⟩
  | clearInvalidSendTx now =>
    exact ⟨h.clearExpireTxs now, fun _ ho => absurd ho not_mem_nil⟩
  | updateLatest nonce hash =>
    exact ⟨h.updateLatest nonce hash, fun _ ho => absurd ho not_mem_nil⟩
  | onUnitToDb txs nonce hash =>
    exact ⟨h.onUnitToDb txs nonce hash, fun _ ho => absurd ho not_mem_nil⟩
  | getConsTxs nonce hash =>
    refine ⟨h.getConsTxs nonce hash, fun o ho => ?_⟩
    obtain rfl := mem_singleton.mp ho
    exact h.passesBackup hcall

/-- After any admissible calls the send queue continues the chain of the account, the asserts of
`get_send_txs` hold, and every selected list passes the backups' check. -/
theorem send_queue_chained (G : PoolConfig) (nonce : UInt64) (hash : String) (table : TxCounters)
    (calls : List PoolCall)
    (hcalls : Run.Meets (step G) (Admissible G) (new nonce hash table) calls) :
    Chained G.hash64
      (Run.run (step G) (new nonce hash table) calls).1.latestSendTransNumber.toNat
      (Run.run (step G) (new nonce hash table) calls).1.latestSendTransHash
      (Run.run (step G) (new nonce hash table) calls).1.sendQueue.entries ∧
    (∀ number hash',
      (number = (Run.run (step G) (new nonce hash table) calls).1.latestSendTransNumber →
        hash' = (Run.run (step G) (new nonce hash table) calls).1.latestSendTransHash) →
      SendAsserts G (Run.run (step G) (new nonce hash table) calls).1 number hash') ∧
    ∀ o ∈ (Run.run (step G) (new nonce hash table) calls).2,
      PassesBackup G o.accountTxNonce o.accountTxHash o.txs := by
  obtain ⟨hlinked, hselected⟩ :=
    Run.run_inv (fun _ _ h hcall => Linked.step h hcall)
      (linked_new G nonce hash table) calls hcalls
  exact ⟨hlinked.chained, fun _ _ hsame => hlinked.sendAsserts hsame, hselected⟩

def sampleConfig : PoolConfig where
  hash64 hash := hash.length.toUInt64
  accountSendQueueTxMaxNum := 100
  txSendTimestampTolerance := 300
  sendTransferTxBatchNum := 30
  recvTransferTxBatchNum := 30
  confirmTxBatchNum := 30

def firstTx (digest : String) (lastHash fireTimestamp : UInt64) : PoolTx :=
  { digest, subtype := .send, lastNonce := 0, lastHash, fireTimestamp }

def replacingCalls : List PoolCall :=
  [.push (firstTx "a" 1 1), .push (firstTx "bb" 1 2),
    .push { firstTx "c" 2 3 with lastNonce := 1 }, .getConsTxs 0 "g"]

theorem send_queue_chained_sample :
    Run.Meets (step sampleConfig) (Admissible sampleConfig) (new 0 "g" {}) replacingCalls ∧
    ((Run.run (step sampleConfig) (new 0 "g" {}) replacingCalls).1.sendQueue.entries.map
      (·.digest)) = ["bb", "c"] ∧
    Chained sampleConfig.hash64
      (Run.run (step sampleConfig) (new 0 "g" {}) replacingCalls).1.latestSendTransNumber.toNat
      (Run.run (step sampleConfig) (new 0 "g" {}) replacingCalls).1.latestSendTransHash
      (Run.run (step sampleConfig) (new 0 "g" {}) replacingCalls).1.sendQueue.entries :=
  ⟨by decide +kernel, by decide +kernel,
    (send_queue_chained sampleConfig 0 "g" {} replacingCalls (by decide +kernel)).1⟩

theorem replacement_breaks_chain :
    ((new 0 "g" {}).push sampleConfig (firstTx "a" 1 1)).2 = none ∧
    (((new 0 "g" {}).push sampleConfig (firstTx "a" 1 1)).1.push sampleConfig
      (firstTx "bb" 7 2)).2 = none ∧
    (Run.run (step sampleConfig) (new 0 "g" {})
      [.push (firstTx "a" 1 1), .push (firstTx "bb" 7 2)]).1.sendQueue.entries =
        [firstTx "bb" 7 2] ∧
    ¬ Chained sampleConfig.hash64 0 "g"
      (Run.run (step sampleConfig) (new 0 "g" {})
        [.push (firstTx "a" 1 1), .push (firstTx "bb" 7 2)]).1.sendQueue.entries ∧
    sampleConfig.checkLastTransHash (firstTx "bb" 7 2) "g" = false ∧
    checkBackup sampleConfig (fun _ => none) (fun _ => none) 0 "g"
      ((Run.run (step sampleConfig) (new 0 "g" {})
        [.push (firstTx "a" 1 1), .push (firstTx "bb" 7 2)]).1.getConsTxs sampleConfig 0 "g").2 =
        some .txNonceIncontinuity := by
  decide +kernel

end AccountObj
end TopChain.TxPool
