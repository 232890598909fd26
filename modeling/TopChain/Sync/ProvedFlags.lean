import TopChain.Sync.Handler

/-!
# The status of a synced block rests on what was proved

Every block that sync passes to the store came in a message that backs the flags set on it.
-/
namespace TopChain.Sync

open List TopChain.Base TopChain.Lib SortedMap

variable {S : SyncStore}

def SameBlock (b w : XvBlock) : Prop := b.resetBlockFlags = w.resetBlockFlags

def Links (message : List XvBlock) (i : Nat) : Prop :=
  ∃ b successor, message[i]? = some b ∧ message[i + 1]? = some successor ∧ LinksTo b successor

def Backed (log : List (SyncOutput S)) (message : List XvBlock) (i : Nat) : Prop :=
  ∃ j w b, i ≤ j ∧ message[j]? = some w ∧ .verified b ∈ log ∧ SameBlock b w ∧
    ∀ k, i ≤ k → k < j → Links message k

structure Proved (log : List (SyncOutput S)) (message : List XvBlock) (i : Nat)
    (flags : Finset BlockFlag) : Prop where
  authenticated : .authenticated ∈ flags → Backed log message i
  locked : .locked ∈ flags → Links message i
  committed : .committed ∈ flags → Links message i ∧ Links message (i + 1)
  noOther : ∀ f ∈ flags, f = .authenticated ∨ f = .locked ∨ f = .committed

def FlagsProved (log : List (SyncOutput S)) (b : XvBlock) (flags : Finset BlockFlag) : Prop :=
  ∃ message i w, .received message ∈ log ∧ message[i]? = some w ∧ SameBlock b w ∧
    Proved log message i flags

/-- The same block was passed to the store before, as the object `o`. -/
def PassedBefore (log : List (SyncOutput S)) (b : XvBlock) (o : S.Obj) : Prop :=
  ∃ b', SameBlock b b' ∧ .passed b' o false b'.flags ∈ log

/-- Every flag of a block that the store was given had its proof in the log by then. -/
def PassesProved (log : List (SyncOutput S)) : Prop :=
  ∀ newer older b o again flags, log = newer ++ .passed b o again flags :: older →
    FlagsProved older b b.flags ∧ (again = false → flags = b.flags) ∧
      (again = true → PassedBefore older b o)

section
variable {log log' : List (SyncOutput S)} {message : List XvBlock} {i : Nat}
  {flags : Finset BlockFlag} {b : XvBlock} {o : S.Obj}

theorem Backed.mono (h : Backed log message i) (hsub : log ⊆ log') : Backed log' message i := by
  obtain ⟨j, w, b, hij, hw, hb, hsame, hlinks⟩ := h
  exact ⟨j, w, b, hij, hw, hsub hb, hsame, hlinks⟩

theorem Proved.mono (h : Proved log message i flags) (hsub : log ⊆ log') :
    Proved log' message i flags :=
  ⟨fun hf => (h.authenticated hf).mono hsub, h.locked, h.committed, h.noOther⟩

theorem FlagsProved.mono (h : FlagsProved log b flags) (hsub : log ⊆ log') :
    FlagsProved log' b flags := by
  obtain ⟨message, i, w, hm, hw, hsame, hp⟩ := h
  exact ⟨message, i, w, hsub hm, hw, hsame, hp.mono hsub⟩

theorem PassedBefore.mono (h : PassedBefore log b o) (hsub : log ⊆ log') :
    PassedBefore log' b o := by
  obtain ⟨b', hsame, hb'⟩ := h
  exact ⟨b', hsame, hsub hb'⟩

end

theorem PassesProved.nil : PassesProved ([] : List (SyncOutput S)) := by
  intro newer older b o again flags h
  simp at h

theorem PassesProved.cons {log : List (SyncOutput S)} {out : SyncOutput S} (h : PassesProved log)
    (hout : ∀ b o again flags, out = .passed b o again flags →
      FlagsProved log b b.flags ∧ (again = false → flags = b.flags) ∧
        (again = true → PassedBefore log b o)) :
    PassesProved (out :: log) := by
  intro newer older b o again flags heq
  cases newer with
  | nil =>
    obtain ⟨rfl, rfl⟩ := List.cons.inj heq
    exact hout b o again flags rfl
  | cons x newer => exact h newer older b o again flags (List.cons.inj heq).2

/-- A block in the hands of sync: its flags are proved, and if the store knows it, then
because sync has passed it. -/
structure BlockPtr.Held (log : List (SyncOutput S)) (p : BlockPtr S) : Prop where
  flags : FlagsProved log p.block p.block.flags
  passed : ∀ o, p.obj = some o → PassedBefore log p.block o

theorem BlockPtr.Held.mono {log log' : List (SyncOutput S)} {p : BlockPtr S}
    (h : p.Held log) (hsub : log ⊆ log') : p.Held log' :=
  ⟨h.flags.mono hsub, fun o ho => (h.passed o ho).mono hsub⟩

def FetcherEvent.Held (log : List (SyncOutput S)) : FetcherEvent S → Prop
  | .newblock p => p.Held log
  | .blocks p => p.Held log
  | _ => True

variable {e : FetcherEvent S}

theorem FetcherEvent.Held.mono {log log' : List (SyncOutput S)} (h : e.Held log)
    (hsub : log ⊆ log') : e.Held log' := by
  cases e with
  | newblock p => exact BlockPtr.Held.mono h hsub
  | blocks p => exact BlockPtr.Held.mono h hsub
  | _ => trivial

def Batch (log : List (SyncOutput S)) (blocks : List (BlockPtr S)) : Prop :=
  ∃ message, .received message ∈ log ∧ message.IsChain LinksTo ∧
    blocks = message.map readBlock

variable {message : List XvBlock}

namespace SyncState

def PendingHeld (log : List (SyncOutput S)) (pending : PendingBlock S) : Prop :=
  pending.type ≠ .consensus → pending.block.Held log

structure Inv (s : SyncState S) : Prop where
  passes : PassesProved s.log
  pending : ∀ chain ∈ s.chains.values, ∀ b ∈ chain.blocks.values, PendingHeld s.log b
  events : ∀ e ∈ s.fetcherEvents, e.Held s.log
  responses : ∀ blocks ∈ s.responses, Batch s.log blocks

structure Goes (s t : SyncState S) : Prop where
  inv : t.Inv
  log : s.log ⊆ t.log

variable {s : SyncState S}

theorem Goes.refl (h : s.Inv) : s.Goes s := ⟨h, List.Subset.refl _⟩

theorem Goes.trans {t u : SyncState S} (h : s.Goes t) (h' : t.Goes u) : s.Goes u :=
  ⟨h'.inv, List.Subset.trans h.log h'.log⟩

theorem Inv.goes {t : SyncState S} (hs : s.Inv) (hpasses : PassesProved t.log)
    (hlog : s.log ⊆ t.log) (hchains : t.chains = s.chains)
    (hevents : t.fetcherEvents = s.fetcherEvents) (hresponses : t.responses = s.responses) :
    s.Goes t := by
  refine ⟨⟨hpasses, ?_, ?_, ?_⟩, hlog⟩
  · rw [hchains]
    exact fun chain hc b hb hne => (hs.pending chain hc b hb hne).mono hlog
  · rw [hevents]
    exact fun e he => (hs.events e he).mono hlog
  · rw [hresponses]
    intro blocks hb
    obtain ⟨message, hm, h⟩ := hs.responses blocks hb
    exact ⟨message, hlog hm, h⟩

variable (env : SyncEnv) (address : String) {s : SyncState S} {p : BlockPtr S}
  {type : PendingType}

section
variable (hs : s.Inv)
include hs

theorem checkAuth_goes (hp : p.Held s.log) :
    s.Goes (s.checkAuth env p).1 ∧ (s.checkAuth env p).2.1.Held (s.checkAuth env p).1.log := by
  unfold checkAuth
  split_ifs with hok
  · have hsub : s.log ⊆ .verified p.block :: s.log := subset_cons_self _ _
    refine ⟨hs.goes (hs.passes.cons (by simp)) hsub rfl rfl rfl, ?_, ?_⟩
    · obtain ⟨message, i, w, hm, hw, hsame, hproved⟩ := hp.flags.mono hsub
      refine ⟨message, i, w, hm, hw, hsame, ⟨fun _ => ?_, ?_, ?_, ?_⟩⟩
      · exact ⟨i, w, p.block, le_rfl, hw, mem_cons_self, hsame,
          fun k hik hki => absurd hik (by omega)⟩
      · exact fun hf => hproved.locked (by simpa using hf)
      · exact fun hf => hproved.committed (by simpa using hf)
      · intro f hf
        rcases (XvBlock.mem_setBlockFlag _ _ _).mp hf with rfl | hf
        · exact .inl rfl
        · exact hproved.noOther f hf
    · exact fun o ho => (hp.passed o ho).mono hsub
  · exact ⟨.refl hs, hp⟩

theorem storeBlock_goes (hp : p.Held s.log) :
    s.Goes (s.storeBlock p).1 ∧ (s.storeBlock p).2.1.Held (s.storeBlock p).1.log := by
  unfold storeBlock
  split
  · refine ⟨hs.goes (hs.passes.cons ?_) (subset_cons_self _ _) rfl rfl rfl,
      hp.flags.mono (subset_cons_self _ _), ?_⟩
    · intro b o again flags heq
      obtain ⟨rfl, rfl, rfl, rfl⟩ := SyncOutput.passed.inj heq
      exact ⟨hp.flags, fun _ => rfl, fun h => absurd h (by simp)⟩
    · intro o ho
      obtain rfl := Option.some.inj ho
      exact ⟨p.block, rfl, mem_cons_self⟩
  · rename_i o hsome
    refine ⟨hs.goes (hs.passes.cons ?_) (subset_cons_self _ _) rfl rfl rfl,
      hp.mono (subset_cons_self _ _)⟩
    intro b o' again flags heq
    obtain ⟨rfl, rfl, rfl, rfl⟩ := SyncOutput.passed.inj heq
    exact ⟨hp.flags, fun h => absurd h (by simp), fun _ => hp.passed o hsome⟩

theorem getCurrentBlock_goes : s.Goes (s.getCurrentBlock address).1 :=
  hs.goes hs.passes (List.Subset.refl _) rfl rfl rfl

theorem getLatestCertBlock_goes : s.Goes (s.getLatestCertBlock address).1 :=
  hs.goes hs.passes (List.Subset.refl _) rfl rfl rfl

theorem getBlocks_goes (height : UInt64) : s.Goes (s.getBlocks env address height type) := by
  unfold getBlocks
  split_ifs
  · exact .refl hs
  · split
    · exact .refl hs
    · exact hs.goes hs.passes (List.Subset.refl _) rfl rfl rfl

theorem putChain_goes {chain : ChainFetcherInfo S}
    (hchain : ∀ b ∈ chain.blocks.values, PendingHeld s.log b) :
    s.Goes (s.putChain address chain) := by
  refine ⟨⟨hs.passes, fun c hc => ?_, hs.events, hs.responses⟩, List.Subset.refl _⟩
  rcases mem_values_insert hc with rfl | hc
  · exact hchain
  · exact hs.pending c hc

theorem Inv.pending_of_find? {address : String} {chain : ChainFetcherInfo S}
    (h : s.chains.find? address = some chain) {b : PendingBlock S}
    (hb : b ∈ chain.blocks.values) : PendingHeld s.log b :=
  hs.pending chain (mem_values_of_find? h) b hb

theorem storePass_goes (hp : p.Held s.log) : s.Goes (match s.storeBlock p with
      | (s, _, true) => s
      | (s, p, false) => (s.getCurrentBlock p.block.account).1) := by
  obtain ⟨hgoes, -⟩ := storeBlock_goes hs hp
  revert hgoes
  rcases s.storeBlock p with ⟨t, q, _ | _⟩
  · exact fun h => h.trans (getCurrentBlock_goes _ h.inv)
  · exact id

theorem handleBlock_goes (hp : type ≠ .consensus → p.Held s.log) :
    s.Goes (s.handleBlock env type p) := by
  unfold handleBlock
  split_ifs with hc hb
  · exact .refl hs
  · obtain ⟨hgoes, hheld⟩ := checkAuth_goes env hs (hp hc)
    revert hgoes hheld
    rcases s.checkAuth env p with ⟨t, q, _ | _⟩
    · exact fun h _ => h
    · exact fun h hq => h.trans (storePass_goes h.inv hq)
  · exact storePass_goes hs (hp hc)

end

theorem processPending_goes {l : List (UInt64 × PendingBlock S)} (hs : s.Inv)
    (hl : ∀ e ∈ l, PendingHeld s.log e.2) :
    s.Goes (s.processPending env address l).1 := by
  induction l generalizing s with
  | nil => exact .refl hs
  | cons e rest ih =>
    have hcur := getCurrentBlock_goes address hs
    have hhead : e.2.type ≠ .consensus → e.2.block.Held (s.getCurrentBlock address).1.log :=
      fun h => (hl e mem_cons_self h).mono hcur.log
    have hhandle := hcur.trans (handleBlock_goes env hcur.inv hhead)
    -- whichever way the head goes, the rest is still held
    have hnext : ∀ t, s.Goes t → s.Goes (processPending env address rest t).1 :=
      fun t ht => ht.trans (ih ht.inv fun e' he' hne =>
        (hl e' (mem_cons_of_mem _ he') hne).mono ht.log)
    rw [processPending]
    split_ifs
    · exact hnext _ hcur
    · exact hnext _ hhandle
    · exact hnext _ hcur
    · exact hnext _ hhandle
    · exact hcur

theorem processNewestBlock_goes (hs : s.Inv) : s.Goes (s.processNewestBlock env address) := by
  unfold processNewestBlock
  split
  · exact .refl hs
  · rename_i chain hfind
    have hr := processPending_goes env address (l := chain.blocks.entries) hs fun e he =>
        hs.pending_of_find? hfind (mem_values.mpr ⟨e.1, he⟩)
    refine hr.trans (putChain_goes _ hr.inv fun b hb hne => ?_)
    exact (hs.pending_of_find? hfind (mem_values_drop hb) hne).mono hr.log

theorem notifyDownloader_goes (hs : s.Inv) : s.Goes (s.notifyDownloader address) := by
  unfold notifyDownloader
  split
  · exact .refl hs
  · rename_i chain hfind
    split
    · exact .refl hs
    · dsimp only
      split_ifs
      · exact .refl hs
      · exact putChain_goes _ hs fun b hb => hs.pending_of_find? hfind hb

theorem syncNewestBlock_goes (hs : s.Inv) : s.Goes (s.syncNewestBlock env address) := by
  have hcur := getCurrentBlock_goes address hs
  unfold syncNewestBlock
  split
  · exact .refl hs
  · split
    · exact .refl hs
    · exact getBlocks_goes env _ hs _
    · dsimp only
      split_ifs
      · exact .refl hs
      · exact hcur.trans (getBlocks_goes env _ hcur.inv _)
      · exact hcur

theorem writeAhead_goes (hs : s.Inv) (hp : type ≠ .consensus → p.Held s.log) :
    s.Goes (s.writeAhead env type p).1 ∧
      (type ≠ .consensus → (s.writeAhead env type p).2.Held (s.writeAhead env type p).1.log) := by
  unfold writeAhead
  dsimp only
  split_ifs with h
  · obtain ⟨hgoes, hheld⟩ := storeBlock_goes hs (hp h.1)
    exact ⟨hgoes, fun _ => hheld⟩
  · exact ⟨.refl hs, hp⟩

theorem mem_values_enqueue {blocks : SortedMap UInt64 (PendingBlock S)}
    {new b : PendingBlock S} (h : b ∈ (enqueue blocks new).values) :
    b = new ∨ b ∈ blocks.values := by
  unfold enqueue at h
  dsimp only at h
  split at h
  · exact mem_values_insert h
  · split_ifs at h
    · exact mem_values_emplace h
    · exact .inr h

section
variable (hs : s.Inv)
include hs

theorem handleFetchBlock_goes (hp : type ≠ .consensus → p.Held s.log) :
    s.Goes (s.handleFetchBlock env type p) := by
  obtain ⟨hgoes, hheld⟩ := writeAhead_goes env hs hp
  unfold handleFetchBlock
  dsimp only
  set r := s.writeAhead env type p
  -- the chain on record, or an empty one
  have hchain : ∀ b ∈ ((r.1.chains.find? p.block.account).getD ⟨.empty, 0, env.now⟩).blocks.values,
      PendingHeld r.1.log b := by
    cases hfind : r.1.chains.find? p.block.account with
    | none => simp
    | some chain => exact fun b hb => hgoes.inv.pending_of_find? hfind hb
  split_ifs
  · exact hgoes.trans (putChain_goes _ hgoes.inv hchain)
  · refine hgoes.trans (putChain_goes _ hgoes.inv fun b hb => ?_)
    rcases mem_values_enqueue (mem_values_drop hb) with rfl | hb
    · exact hheld
    · exact hchain b hb

theorem onFetchedBlock_goes (hp : type ≠ .consensus → p.Held s.log) :
    s.Goes (s.onFetchedBlock env type p) := by
  have h1 := handleFetchBlock_goes env hs hp
  have h2 := h1.trans (processNewestBlock_goes env p.block.account h1.inv)
  have h3 := h2.trans (notifyDownloader_goes p.block.account h2.inv)
  exact h3.trans (syncNewestBlock_goes env _ h3.inv)

theorem onBlockInfo_goes (height viewid : UInt64) :
    s.Goes (s.onBlockInfo env type address height viewid) := by
  unfold onBlockInfo
  split
  · exact getBlocks_goes env _ hs _
  · split_ifs
    · exact getBlocks_goes env _ hs _
    · exact notifyDownloader_goes _ hs
    · exact .refl hs

theorem onBlocksEvent_goes (hp : p.Held s.log) : s.Goes (s.onBlocksEvent env p) := by
  unfold onBlocksEvent
  dsimp only
  split
  · exact .refl hs
  · have h1 : s.Goes { s with
        fetchingList := s.fetchingList.erase (getKey p.block.account p.block.height) } :=
      hs.goes hs.passes (List.Subset.refl _) rfl rfl rfl
    split_ifs
    · exact h1.trans (onFetchedBlock_goes env h1.inv fun _ => hp)
    · obtain ⟨h2, hheld⟩ := checkAuth_goes env h1.inv hp
      revert h2 hheld
      generalize checkAuth env _ p = r
      rcases r with ⟨t, q, _ | _⟩
      · exact fun h2 _ => h1.trans h2
      · exact fun h2 hq => h1.trans (h2.trans (onFetchedBlock_goes env h2.inv fun _ => hq))

theorem onFetcherTimer_goes : s.Goes (s.onFetcherTimer env) := by
  have fold : ∀ (l : List (String × ChainFetcherInfo S)) (t : SyncState S), s.Goes t →
      s.Goes (l.foldl (fun s e => s.processNewestBlock env e.1) t) := by
    intro l
    induction l with
    | nil => exact fun t ht => ht
    | cons e l ih => exact fun t ht => ih _ (ht.trans (processNewestBlock_goes env _ ht.inv))
  exact fold _ _ (hs.goes hs.passes (List.Subset.refl _) rfl rfl rfl)

theorem processFetcherEvent_goes (he : e.Held s.log) : s.Goes (s.processFetcherEvent env e) := by
  cases e with
  | consensus p => exact onFetchedBlock_goes env hs fun h => absurd rfl h
  | newblock p => exact onFetchedBlock_goes env hs fun _ => he
  | info type address height viewid => exact onBlockInfo_goes env _ hs height viewid
  | blocks p => exact onBlocksEvent_goes env hs he
  | timer => exact onFetcherTimer_goes env hs
  | downloaderComplete address =>
    have h1 := processNewestBlock_goes env address hs
    exact h1.trans (syncNewestBlock_goes env _ h1.inv)

end

theorem links_of_isChain (h : message.IsChain LinksTo) {i : Nat} (hi : i + 1 < message.length) :
    Links message i :=
  ⟨message[i], message[i + 1], getElem?_eq_getElem _, getElem?_eq_getElem _,
    isChain_iff_getElem.mp h i hi⟩

theorem mem_batchFlags {count i : Nat} {w : XvBlock} {f : BlockFlag} :
    f ∈ (batchFlags count i (readBlock w : BlockPtr S)).block.flags ↔
      f = .authenticated ∨ (f = .locked ∧ 1 < count - i) ∨ (f = .committed ∧ 2 < count - i) := by
  simp only [batchFlags]
  split_ifs <;> simp [readBlock, XvBlock.resetBlockFlags, *] <;> tauto

theorem batchFlags_proved {log : List (SyncOutput S)} (hchain : message.IsChain LinksTo)
    {last b : XvBlock} (hlast : message.getLast? = some last) (hb : .verified b ∈ log)
    (hsame : SameBlock b last) {i : Nat} (hi : i < message.length) (w : XvBlock) :
    Proved log message i (batchFlags message.length i (readBlock w : BlockPtr S)).block.flags := by
  have hlinks : ∀ k, k + 1 < message.length → Links message k :=
    fun k hk => links_of_isChain hchain hk
  refine ⟨fun _ => ?_, fun hf => ?_, fun hf => ?_, fun f hf => ?_⟩
  · refine ⟨message.length - 1, last, b, by omega, ?_, hb, hsame, fun k _ hk => hlinks k (by omega)⟩
    rw [← getLast?_eq_getElem?, hlast]
  · have h1 : 1 < message.length - i := by simpa using mem_batchFlags.mp hf
    exact hlinks i (by omega)
  · have h2 : 2 < message.length - i := by simpa using mem_batchFlags.mp hf
    exact ⟨hlinks i (by omega), hlinks (i + 1) (by omega)⟩
  · rcases mem_batchFlags.mp hf with rfl | ⟨rfl, -⟩ | ⟨rfl, -⟩
    · exact .inl rfl
    · exact .inr (.inl rfl)
    · exact .inr (.inr rfl)

theorem sameBlock_batchFlags (count i : Nat) (w : XvBlock) :
    SameBlock (batchFlags count i (readBlock w : BlockPtr S)).block w := by
  simp only [batchFlags]
  split_ifs <;> rfl

theorem readBlock_held {log : List (SyncOutput S)} (hm : .received message ∈ log) {w : XvBlock}
    (hw : w ∈ message) :
    (readBlock w : BlockPtr S).Held log := by
  obtain ⟨i, hi, rfl⟩ := mem_iff_getElem.mp hw
  refine ⟨⟨message, i, message[i], hm, getElem?_eq_getElem hi, rfl, ?_⟩, ?_⟩
  · constructor <;> simp [readBlock, XvBlock.resetBlockFlags]
  · simp [readBlock]

theorem passBlock_goes (current : XvBlock) (hs : s.Inv) (hp : p.Held s.log) :
    s.Goes (s.passBlock address current p).1 := by
  unfold passBlock
  split_ifs
  · exact .refl hs
  · obtain ⟨hgoes, -⟩ := storeBlock_goes hs hp
    revert hgoes
    rcases s.storeBlock p with ⟨t, q, _ | _⟩
    · exact id
    · exact fun h => h.trans (getCurrentBlock_goes address h.inv)

theorem handleSyncedBlock_goes (current : XvBlock) (hs : s.Inv) (hp : p.Held s.log) :
    s.Goes (s.handleSyncedBlock env address current p).1 := by
  unfold handleSyncedBlock
  split_ifs
  · obtain ⟨hgoes, hheld⟩ := checkAuth_goes env hs hp
    revert hgoes hheld
    rcases s.checkAuth env p with ⟨t, q, _ | _⟩
    · exact fun h _ => h
    · exact fun h hq => h.trans (passBlock_goes address current h.inv hq)
  · exact passBlock_goes address current hs hp

theorem handleBatch_goes {l : List (BlockPtr S)} (hs : s.Inv) (hl : ∀ p ∈ l, p.Held s.log) :
    s.Goes (s.handleBatch env address l) := by
  induction l generalizing s with
  | nil => exact .refl hs
  | cons p rest ih =>
    have hcur := getCurrentBlock_goes address hs
    have hgoes := hcur.trans (handleSyncedBlock_goes env address
      (s.getCurrentBlock address).2 hcur.inv ((hl p mem_cons_self).mono hcur.log))
    have hnext : ∀ t, s.Goes t → s.Goes (handleBatch env address rest t) :=
      fun t ht => ht.trans (ih ht.inv fun q hq => (hl q (mem_cons_of_mem _ hq)).mono ht.log)
    rw [handleBatch]
    revert hgoes
    rcases handleSyncedBlock env _ address _ p with ⟨t, _ | _ | _ | _ | _⟩
    · exact fun h => hnext t h
    · exact fun h => hnext t h
    · exact id
    · exact id
    · exact id

theorem checkAuth_verified (h : (s.checkAuth env p).2.2 = true) :
    .verified p.block ∈ (s.checkAuth env p).1.log := by
  unfold checkAuth at h ⊢
  split_ifs at h ⊢
  exact mem_cons_self

theorem onResponseEvent_goes {blocks : List (BlockPtr S)} (hs : s.Inv)
    (hb : Batch s.log blocks) : s.Goes (s.onResponseEvent env address blocks) := by
  obtain ⟨message, hm, hchain, rfl⟩ := hb
  have hread : ∀ p ∈ message.map readBlock, p.Held s.log := by
    intro p hp
    obtain ⟨w, hw, rfl⟩ := mem_map.mp hp
    exact readBlock_held hm hw
  unfold onResponseEvent
  split_ifs
  · exact .refl hs
  · exact handleBatch_goes env address hs hread
  · split
    · exact .refl hs
    · rename_i last hlast
      obtain ⟨w, hw, rfl⟩ : ∃ w, message.getLast? = some w ∧ readBlock w = last := by
        simpa [getLast?_map] using hlast
      obtain ⟨hgoes, -⟩ := checkAuth_goes env hs (hread _ (mem_of_getLast? hlast))
      have hver := checkAuth_verified env (s := s) (p := readBlock w)
      revert hgoes hver
      rcases s.checkAuth env (readBlock w) with ⟨t, q, _ | _⟩
      · exact fun h _ => h
      · intro hgoes hver
        refine hgoes.trans (handleBatch_goes env address hgoes.inv fun p hp => ?_)
        obtain ⟨i, hi, rfl⟩ := mem_mapIdx.mp hp
        have hi' : i < message.length := by simpa using hi
        simp only [getElem_map, length_map]
        refine ⟨⟨message, i, message[i], hgoes.log hm, getElem?_eq_getElem hi',
          sameBlock_batchFlags _ _ _, ?_⟩, by simp [batchFlags, readBlock]⟩
        exact batchFlags_proved hchain hw (hver rfl) rfl hi' _

theorem Inv.enqueue {t : SyncState S} (hs : s.Inv) {events : List (FetcherEvent S)}
    {batches : List (List (BlockPtr S))} (hstore : t.chains = s.chains) (hlog : t.log = s.log)
    (hevents : t.fetcherEvents = s.fetcherEvents ++ events)
    (hresponses : t.responses = s.responses ++ batches) (he : ∀ e ∈ events, e.Held s.log)
    (hb : ∀ b ∈ batches, Batch s.log b) : s.Goes t := by
  refine ⟨⟨hlog ▸ hs.passes, ?_, ?_, ?_⟩, hlog ▸ List.Subset.refl _⟩
  · rw [hstore, hlog]
    exact hs.pending
  · rw [hevents, hlog]
    exact fun e h => (mem_append.mp h).elim (hs.events e) (he e)
  · rw [hresponses, hlog]
    exact fun b h => (mem_append.mp h).elim (hs.responses b) (hb b)

theorem Inv.push (hs : s.Inv) (he : e.Held s.log) :
    s.Goes { s with fetcherEvents := s.fetcherEvents ++ [e] } :=
  hs.enqueue rfl rfl rfl (append_nil _).symm (by simpa using he) (by simp)

theorem handleNewblock_goes (hs : s.Inv) (hp : p.Held s.log) : s.Goes (s.handleNewblock env p) := by
  unfold handleNewblock
  split_ifs
  · exact hs.push hp
  · obtain ⟨hgoes, hheld⟩ := checkAuth_goes env hs hp
    revert hgoes hheld
    rcases s.checkAuth env p with ⟨t, q, _ | _⟩
    · exact fun h _ => h
    · exact fun h hq => h.trans (h.inv.push hq)

theorem handleNewblockhash_goes (hs : s.Inv) (height viewid : UInt64) :
    s.Goes (s.handleNewblockhash address height viewid) := by
  have hcur := getCurrentBlock_goes address hs
  unfold handleNewblockhash
  dsimp only
  split_ifs
  · exact hcur
  · exact hcur.trans (hcur.inv.push trivial)

theorem handleLatestBlocks_goes {l : List (BlockPtr S)} (hs : s.Inv)
    (hl : ∀ p ∈ l, p.Held s.log) : s.Goes (s.handleLatestBlocks env l) := by
  cases l with
  | nil => exact .refl hs
  | cons p rest =>
    have hcur := getLatestCertBlock_goes p.block.account hs
    unfold handleLatestBlocks
    dsimp only
    split_ifs
    · exact .refl hs
    · obtain ⟨hgoes, hheld⟩ :=
        checkAuth_goes env hcur.inv ((hl p mem_cons_self).mono hcur.log)
      revert hgoes hheld
      rcases checkAuth env _ p with ⟨t, q, _ | _⟩
      · exact fun h _ => hcur.trans h
      · exact fun h hq => hcur.trans (h.trans (storeBlock_goes h.inv hq).1)
    · exact hcur

theorem handleBlocks_goes (hs : s.Inv) (hm : .received message ∈ s.log) :
    s.Goes (s.handleBlocks (message.map readBlock)) := by
  unfold handleBlocks
  split_ifs with hcheck
  · exact .refl hs
  · have hchain : message.IsChain LinksTo := by
      have h := (not_or.mp hcheck).2
      rw [not_not, map_map, isChain_map] at h
      exact h
    unfold filterBlock
    split
    · rename_i t ht
      split at ht
      · rename_i p hone
        split at ht
        · obtain rfl := Option.some.inj ht
          obtain ⟨w, hw, rfl⟩ : ∃ w ∈ message, readBlock w = p :=
            mem_map.mp (hone ▸ mem_cons_self)
          exact hs.push (readBlock_held hm hw)
        · simp at ht
      · simp at ht
    · exact hs.enqueue rfl rfl (append_nil _).symm rfl (by simp)
        (by simpa using ⟨message, hm, hchain, rfl⟩)

theorem map_readBlock_resetBlockFlags (bs : List XvBlock) :
    (bs.map (·.resetBlockFlags)).map (readBlock : XvBlock → BlockPtr S) = bs.map readBlock := by
  rw [map_map]
  rfl

theorem receive_goes (hs : s.Inv) (message : Message) : s.Goes (s.receive env message) := by
  set wire := message.wireBlocks.map (·.resetBlockFlags) with hwire
  set t : SyncState S := { s with log := .received wire :: s.log }
  have ht : s.Goes t :=
    hs.goes (hs.passes.cons (by simp)) (subset_cons_self _ _) rfl rfl rfl
  have hm : .received wire ∈ t.log := mem_cons_self
  cases message with
  | blocks bs =>
    have h := handleBlocks_goes ht.inv hm
    rw [show wire.map readBlock = bs.map readBlock from map_readBlock_resetBlockFlags bs] at h
    exact ht.trans h
  | newblock b =>
    rw [receive]
    split_ifs
    · exact ht.trans (handleNewblock_goes env ht.inv
        (readBlock_held hm (w := b.resetBlockFlags) (by simp [hwire, Message.wireBlocks])))
    · exact ht
  | latestBlocks bs =>
    refine ht.trans (handleLatestBlocks_goes env ht.inv fun p hp => ?_)
    rw [← map_readBlock_resetBlockFlags] at hp
    obtain ⟨w, hw, rfl⟩ := mem_map.mp hp
    exact readBlock_held hm hw
  | newblockhash address height viewid =>
    rw [receive]
    split_ifs
    · exact ht
    · exact ht.trans (handleNewblockhash_goes address ht.inv height viewid)
  | gossip behind =>
    refine ht.trans (ht.inv.enqueue rfl rfl rfl (append_nil _).symm ?_ (by simp))
    intro e he
    obtain ⟨x, -, rfl⟩ := mem_map.mp he
    trivial

theorem onEvent_goes (hs : s.Inv) (e : SyncEvent S) : s.Goes (s.onEvent env e) := by
  cases e with
  | receive message => exact receive_goes env hs message
  | consensusResult p =>
    rw [onEvent]
    split_ifs
    · exact hs.push trivial
    · exact .refl hs
  | timer => exact hs.push trivial
  | downloaderComplete address => exact hs.push trivial
  | fetcherTurn =>
    rw [onEvent]
    split
    · exact .refl hs
    · rename_i e rest hevents
      have ht : s.Goes { s with fetcherEvents := rest } :=
        ⟨⟨hs.passes, hs.pending, fun e' he' => hs.events e' (hevents ▸ mem_cons_of_mem _ he'),
          hs.responses⟩, List.Subset.refl _⟩
      exact ht.trans (processFetcherEvent_goes env ht.inv (hs.events e (hevents ▸ mem_cons_self)))
  | downloaderTurn position =>
    rw [onEvent]
    split
    · rename_i p blocks hresp
      have ht : s.Goes { s with responses := s.responses.eraseIdx position } :=
        ⟨⟨hs.passes, hs.pending, hs.events, fun b hb =>
          hs.responses b (mem_of_mem_eraseIdx hb)⟩, List.Subset.refl _⟩
      exact ht.trans (onResponseEvent_goes env _ ht.inv (hs.responses _ (mem_of_getElem? hresp)))
    · exact .refl hs
  | storeChanges change => exact hs.goes hs.passes (List.Subset.refl _) rfl rfl rfl

theorem init_inv (store : S.State) : (init store).Inv :=
  ⟨.nil, by simp [init], by simp [init], by simp [init]⟩

theorem runFrom_inv (hs : s.Inv) (inputs : List (SyncInput S)) : (s.runFrom inputs).Inv := by
  induction inputs generalizing s with
  | nil => exact hs
  | cons i inputs ih => exact ih (onEvent_goes i.env hs i.event).inv

theorem receive_withoutFlags (s : SyncState S) (message : Message) :
    s.receive env message.withoutFlags = s.receive env message := by
  cases message with
  | blocks bs =>
    simp only [receive, Message.withoutFlags, Message.wireBlocks, map_readBlock_resetBlockFlags]
    simp [XvBlock.resetBlockFlags, Function.comp_def]
  | newblock b => rfl
  | latestBlocks bs =>
    simp only [receive, Message.withoutFlags, Message.wireBlocks, map_readBlock_resetBlockFlags]
    simp [XvBlock.resetBlockFlags, Function.comp_def]
  | newblockhash address height viewid => rfl
  | gossip behind => rfl

end SyncState

def SyncInput.withoutFlags (i : SyncInput S) : SyncInput S :=
  match i.event with
  | .receive message => { i with event := .receive message.withoutFlags }
  | _ => i

namespace SyncState

theorem onEvent_withoutFlags (s : SyncState S) (i : SyncInput S) :
    s.onEvent i.withoutFlags.env i.withoutFlags.event = s.onEvent i.env i.event := by
  obtain ⟨env, event⟩ := i
  cases event with
  | receive message => exact receive_withoutFlags env s message
  | _ => rfl

theorem runFrom_withoutFlags (s : SyncState S) (inputs : List (SyncInput S)) :
    s.runFrom (inputs.map SyncInput.withoutFlags) = s.runFrom inputs := by
  induction inputs generalizing s with
  | nil => rfl
  | cons i inputs ih =>
    simp only [runFrom, map_cons, foldl_cons, onEvent_withoutFlags] at ih ⊢
    exact ih _

/-- Every pass is of a block from a message that proves all the flags sync has set; a first pass
carries just these, a second one is of an object passed before, and the flags on the wire change
nothing. -/
theorem passed_flags_proved (store : S.State) (inputs : List (SyncInput S)) :
    PassesProved ((init store).runFrom inputs).log ∧
      (init store).runFrom (inputs.map SyncInput.withoutFlags) = (init store).runFrom inputs :=
  ⟨(runFrom_inv (init_inv store) inputs).passes, runFrom_withoutFlags _ _⟩

namespace Sample

def block (height viewid : UInt64) (hash last : String) : XvBlock where
  chainid := 0
  account := "table"
  level := .table
  height := height
  viewid := viewid
  viewtoken := 1
  validator := ⟨0, 0⟩
  auditor := ⟨0, 0⟩
  lastBlockHash := last
  headerHash := hash
  justifyCertHash := ""
  outputRootHash := ""
  blockHash := hash
  flags := ∅

def storeEnv (flagCounts : Bool) : Store.StoreEnv where
  checks := ⟨fun _ _ => true, fun _ _ => true, fun _ _ => true,
    fun b _ => b.checkBlockFlag .authenticated⟩
  blockClass _ := .light
  genesisBlock := { block 0 0 "genesis" "" with
    flags := {.authenticated, .locked, .committed, .confirmed, .connected} }
  flagCounts := flagCounts
  setVblock _ := true
  executeBlock _ := true
  storeUnits _ := some true

def store (flagCounts : Bool) : SyncStore := chainStore (fun _ => storeEnv flagCounts) 8

def env : SyncEnv where
  verifyMutiSign _ _ := true
  chainExists _ := true
  hasRequest _ := true
  isTableAddress _ := true
  extractParts _ := (true, shardingTableBlockAddr)
  now := 0

/-- Two forks, `a1 - a2` and `b1 - b2 - b3`; the node hears of `a1`, `a2`, `b3` and then `b2`. -/
def events (c : Bool) : List (SyncEvent (store c)) :=
  [.receive (.newblock (block 1 1 "a1" "genesis")), .fetcherTurn,
    .receive (.newblock (block 2 3 "a2" "a1")), .fetcherTurn,
    .receive (.latestBlocks [block 3 5 "b3" "b2"]),
    .receive (.newblock (block 2 4 "b2" "b1")), .fetcherTurn]

def final (c : Bool) : SyncState (store c) :=
  (init fun _ => Store.ChainAccount.init (storeEnv c)).runFrom ((events c).map (⟨env, ·⟩))

def passesLocked {S : SyncStore} : SyncOutput S → Bool
  | .passed _ _ _ flags => .locked ∈ flags
  | _ => false

def severalBlocks {S : SyncStore} : SyncOutput S → Bool
  | .received message => 1 < message.length
  | _ => false

section
variable {S : SyncStore} {log : List (SyncOutput S)}

theorem exists_locked_pass (h : log.any passesLocked = true) :
    ∃ b o again flags, .passed b o again flags ∈ log ∧ .locked ∈ flags := by
  obtain ⟨out, hout, hlock⟩ := any_eq_true.mp h
  cases out with
  | passed b o again flags => exact ⟨b, o, again, flags, hout, by simpa [passesLocked] using hlock⟩
  | _ => simp [passesLocked] at hlock

theorem no_links (h : log.any severalBlocks = false)
    (hm : .received message ∈ log) (i : Nat) : ¬ Links message i := by
  rintro ⟨b, successor, -, hsucc, -⟩
  have hlen : ¬ 1 < message.length := by
    simpa [severalBlocks] using any_eq_false.mp h _ hm
  have := (List.getElem?_eq_some_iff.mp hsucc).1
  omega

end

def LockUnproved (c : Bool) : Prop :=
  ∃ b o again flags, .passed b o again flags ∈ (final c).log ∧ .locked ∈ flags ∧
    ¬ FlagsProved (final c).log b flags

theorem lockUnproved {c : Bool} (hlock : (final c).log.any passesLocked = true)
    (hshort : (final c).log.any severalBlocks = false) : LockUnproved c := by
  obtain ⟨b, o, again, flags, hmem, hf⟩ := exists_locked_pass hlock
  refine ⟨b, o, again, flags, hmem, hf, ?_⟩
  rintro ⟨message, i, w, hm, -, -, hproved⟩
  exact no_links hshort hm i (hproved.locked hf)

end Sample

theorem locked_between_passes : Sample.LockUnproved true ∧ Sample.LockUnproved false :=
  ⟨Sample.lockUnproved (by decide +kernel) (by decide +kernel),
    Sample.lockUnproved (by decide +kernel) (by decide +kernel)⟩

end SyncState
end TopChain.Sync
