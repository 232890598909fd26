import TopChain.Store.Restart

/-!
# The order of the heights in the meta data

`execute ≤ connect ≤ commit ≤ lock ≤ cert` while the account is open.
-/
namespace TopChain.Store

open Set Option List TopChain.Base TopChain.Lib TopChain.Lib.Guarantee SortedMap Word

/-- Executed, connected, committed, locked, certified: no height is above the next. -/
structure AcctMeta.Ordered (m : AcctMeta) : Prop where
  execute_le : m.highestExecuteBlockHeight ≤ m.highestConnectBlockHeight
  connect_le : m.highestConnectBlockHeight ≤ m.highestCommitBlockHeight
  commit_le : m.highestCommitBlockHeight ≤ m.highestLockBlockHeight
  lock_le : m.highestLockBlockHeight ≤ m.highestCertBlockHeight

structure AcctMeta.Le (m m' : AcctMeta) : Prop where
  cert : m.highestCertBlockHeight ≤ m'.highestCertBlockHeight
  commit : m.highestCommitBlockHeight ≤ m'.highestCommitBlockHeight
  connect : m.highestConnectBlockHeight ≤ m'.highestConnectBlockHeight

theorem AcctMeta.Le.refl (m : AcctMeta) : m.Le m := ⟨le_refl _, le_refl _, le_refl _⟩

theorem AcctMeta.Le.trans {m₁ m₂ m₃ : AcctMeta} (h : m₁.Le m₂) (h' : m₂.Le m₃) : m₁.Le m₃ :=
  ⟨le_trans h.cert h'.cert, le_trans h.commit h'.commit, le_trans h.connect h'.connect⟩

/-- The heights of the account have the block in. -/
structure Recorded (m : AcctMeta) (b : XvBlock) : Prop where
  cert : b.height ≤ m.highestCertBlockHeight
  commit : .committed ∈ b.flags → b.height ≤ m.highestCommitBlockHeight

/-- A connected block is at or below the connected height. -/
def Joined (m : AcctMeta) (b : XvBlock) : Prop :=
  .connected ∈ b.flags → b.height ≤ m.highestConnectBlockHeight

/-- What holds of a block in the database. -/
structure KeptOk (m : AcctMeta) (b : XvBlock) : Prop where
  authenticated : .authenticated ∈ b.flags
  recorded : Recorded m b
  joined : Joined m b

/-- What holds of a block in the cache; one that is saved and modified since is not yet recorded. -/
structure ObjectOk (m : AcctMeta) (o : BlockObject) : Prop where
  stored : .stored ∈ o.block.flags → 0 < o.modifiedCount ∨ Recorded m o.block
  joined : Joined m o.block

section
variable {m m' : AcctMeta} {b b' : XvBlock} {o : BlockObject}

theorem Recorded.mono (h : Recorded m b) (hm : m.Le m') : Recorded m' b :=
  ⟨le_trans h.cert hm.cert, fun hflag => le_trans (h.commit hflag) hm.commit⟩

theorem Joined.mono (h : Joined m b) (hm : m.Le m') : Joined m' b :=
  fun hflag => le_trans (h hflag) hm.connect

theorem KeptOk.mono (h : KeptOk m b) (hm : m.Le m') : KeptOk m' b :=
  ⟨h.authenticated, h.recorded.mono hm, h.joined.mono hm⟩

theorem ObjectOk.mono (h : ObjectOk m o) (hm : m.Le m') : ObjectOk m' o :=
  ⟨fun hflag => (h.stored hflag).imp id (·.mono hm), h.joined.mono hm⟩

theorem KeptOk.object (h : KeptOk m b) : ObjectOk m ⟨b, none, none, 0, false⟩ :=
  ⟨fun _ => .inr h.recorded, h.joined⟩

end

namespace ChainAccount

/-- Blocks above the certificate height, and committed ones above the commit height. -/
structure Unsaved where
  cert : Set Ptr
  commit : Set Ptr

/-- The certificate and commit heights cover the object, or it waits for its save. -/
def Covered (W : Unsaved) (p : Ptr) (s : ChainAccount) : Prop :=
  ∀ o, s.objects[p]? = some o →
    (o.block.height ≤ s.acctMeta.highestCertBlockHeight ∨ p ∈ W.cert) ∧
    (.committed ∈ o.block.flags → o.block.height ≤ s.acctMeta.highestCommitBlockHeight ∨
      p ∈ W.commit)

/-- The heights are ordered but for the unsaved blocks. `skip` are the objects being written. -/
structure Heights (S : List XvBlock) (W : Unsaved) (skip : Set Ptr) (s : ChainAccount) : Prop where
  execute_le : s.acctMeta.highestExecuteBlockHeight ≤ s.acctMeta.highestConnectBlockHeight
  connect_le : s.acctMeta.highestConnectBlockHeight ≤ s.acctMeta.highestCommitBlockHeight ∨
    ∃ p ∈ W.commit, ∃ o, s.objects[p]? = some o ∧
      s.acctMeta.highestConnectBlockHeight ≤ o.block.height
  commit_le : s.acctMeta.highestCommitBlockHeight ≤ s.acctMeta.highestLockBlockHeight
  lock_le : s.acctMeta.highestLockBlockHeight ≤ s.acctMeta.highestCertBlockHeight
  bounded : s.acctMeta.highestConnectBlockHeight ≠ Word.top
  authenticated : ∀ (p : Ptr) o, s.objects[p]? = some o → .authenticated ∈ o.block.flags
  objects : ∀ (p : Ptr) o, s.objects[p]? = some o → p ∉ skip → ObjectOk s.acctMeta o
  cached : ∀ height, ∀ p ∈ (viewsOf s height).values, Covered W p s
  database : ∀ b ∈ s.vblocks.values, KeptOk s.acctMeta b ∨ ∃ p ∈ skip, ∃ o,
    s.objects[p]? = some o ∧ b.height = o.block.height ∧ .authenticated ∈ b.flags ∧
    (.committed ∈ b.flags → .committed ∈ o.block.flags) ∧
    (.connected ∈ b.flags → .connected ∈ o.block.flags)
  lastCert : ∀ b, s.lastCert = some b → Backed S b ∧ KeptOk s.acctMeta b

variable {S : List XvBlock} {env : StoreEnv} {s t : ChainAccount} {W W' : Unsaved} {skip : Set Ptr}

theorem Heights.open (h : Heights S W skip s) (hcert : W.cert ⊆ W'.cert)
    (hcommit : W.commit ⊆ W'.commit) : Heights S W' skip s :=
  { h with
    connect_le := h.connect_le.imp id fun ⟨p, hp, ho⟩ => ⟨p, hcommit hp, ho⟩
    cached := fun height p hp o ho => ⟨(h.cached height p hp o ho).1.imp id (@hcert p),
      fun hflag => ((h.cached height p hp o ho).2 hflag).imp id (@hcommit p)⟩ }

theorem Heights.skipping (h : Heights S W ∅ s) (skip : Set Ptr) : Heights S W skip s :=
  { h with
    objects := fun p o ho _ => h.objects p o ho (notMem_empty p)
    database := fun b hb => (h.database b hb).imp id fun ⟨p, hp, _⟩ => absurd hp (notMem_empty p) }

variable {p : Ptr} {o : BlockObject}

theorem Heights.settle (h : Heights S W {p} s) (ho : s.objects[p]? = some o)
    (hrecorded : Recorded s.acctMeta o.block) (hjoined : Joined s.acctMeta o.block) :
    Heights S W ∅ s :=
  { h with
    objects := by
      intro q x hx _
      by_cases hq : q = p
      · subst hq
        obtain rfl := mem_unique ho hx
        exact ⟨fun _ => .inr hrecorded, hjoined⟩
      · exact h.objects q x hx hq
    database := by
      intro b hb
      refine .inl ?_
      obtain hok | ⟨q, hq, x, hx, hheight, hauth, hcommitted, hconnected⟩ := h.database b hb
      · exact hok
      · obtain rfl : q = p := hq
        obtain rfl := mem_unique ho hx
        refine ⟨hauth, ⟨?_, fun hflag => ?_⟩, fun hflag => ?_⟩
        · rw [hheight]
          exact hrecorded.cert
        · rw [hheight]
          exact hrecorded.commit (hcommitted hflag)
        · rw [hheight]
          exact hjoined (hconnected hflag) }

def Advances (S : List XvBlock) (W : Unsaved) (skip : Set Ptr) (s : ChainAccount) (m : AcctMeta) :
    Prop :=
  Heights S W skip { s with acctMeta := m } ∧ s.acctMeta.Le m

theorem Heights.setMeta {m : AcctMeta} (h : Heights S W skip s) (hle : s.acctMeta.Le m)
    (hexecute : m.highestExecuteBlockHeight ≤ m.highestConnectBlockHeight)
    (hconnect : m.highestConnectBlockHeight ≤ m.highestCommitBlockHeight ∨
      ∃ p ∈ W.commit, ∃ o, s.objects[p]? = some o ∧ m.highestConnectBlockHeight ≤ o.block.height)
    (hcommit : m.highestCommitBlockHeight ≤ m.highestLockBlockHeight)
    (hlock : m.highestLockBlockHeight ≤ m.highestCertBlockHeight)
    (hbounded : m.highestConnectBlockHeight ≠ Word.top) : Advances S W skip s m := by
  refine ⟨⟨hexecute, hconnect, hcommit, hlock, hbounded, h.authenticated, fun p o ho hp => ?_,
    fun height p hp o ho => ⟨?_, fun hflag => ?_⟩, fun b hb => ?_, fun b hb => ?_⟩, hle⟩
  · exact (h.objects p o ho hp).mono hle
  · exact (h.cached height p hp o ho).1.imp (le_trans · hle.cert) id
  · exact ((h.cached height p hp o ho).2 hflag).imp (le_trans · hle.commit) id
  · exact (h.database b hb).imp (·.mono hle) id
  · exact ⟨(h.lastCert b hb).1, (h.lastCert b hb).2.mono hle⟩

theorem Heights.raiseMeta {m : AcctMeta} (h : Heights S W skip s)
    (hexecute : m.highestExecuteBlockHeight = s.acctMeta.highestExecuteBlockHeight)
    (hconnect : m.highestConnectBlockHeight = s.acctMeta.highestConnectBlockHeight)
    (hcommit : s.acctMeta.highestCommitBlockHeight ≤ m.highestCommitBlockHeight)
    (hcert : s.acctMeta.highestCertBlockHeight ≤ m.highestCertBlockHeight)
    (hcommit_le : m.highestCommitBlockHeight ≤ m.highestLockBlockHeight)
    (hlock_le : m.highestLockBlockHeight ≤ m.highestCertBlockHeight) : Advances S W skip s m := by
  refine h.setMeta ⟨hcert, hcommit, hconnect ▸ le_refl _⟩ ?_ ?_ hcommit_le hlock_le ?_
  · rw [hexecute, hconnect]
    exact h.execute_le
  · rw [hconnect]
    exact h.connect_le.imp (le_trans · hcommit) id
  · rw [hconnect]
    exact h.bounded

theorem Inv.height_ne_top (hs : Inv S s) (hS : ∀ x ∈ S, x.height ≠ Word.top)
    (ho : s.objects[p]? = some o) : o.block.height ≠ Word.top := by
  obtain ⟨x, hx, hsame⟩ := (hs.objects p o ho).1.known
  rw [← hsame.height]
  exact hS x hx

theorem Heights.connectTo (h : Heights S W skip s) (hs : Inv S s)
    (hS : ∀ x ∈ S, x.height ≠ Word.top)
    (ho : s.objects[p]? = some o) (hle : s.acctMeta.highestConnectBlockHeight ≤ o.block.height)
    (hcommit : o.block.height ≤ s.acctMeta.highestCommitBlockHeight ∨ p ∈ W.commit) :
    Advances S W skip s { s.acctMeta with
      highestConnectBlockHeight := o.block.height
      highestConnectBlockHash := o.block.blockHash } :=
  h.setMeta ⟨le_refl _, le_refl _, hle⟩ (le_trans h.execute_le hle)
    (hcommit.imp id fun hp => ⟨p, hp, o, ho, le_refl _⟩) h.commit_le h.lock_le
    (hs.height_ne_top hS ho)

theorem Heights.le_next (h : Heights S W skip s) :
    s.acctMeta.highestConnectBlockHeight ≤ s.acctMeta.highestConnectBlockHeight + 1 := by
  have hbound := toNat_lt s.acctMeta.highestConnectBlockHeight
  have hne : s.acctMeta.highestConnectBlockHeight.toNat ≠ 18446744073709551615 :=
    fun heq => h.bounded (eq_nat.mpr heq)
  rw [le_nat, toNat_add_one]
  omega

variable {f : BlockObject → BlockObject}

theorem Heights.modifyObject (h : Heights S W skip s) (hf : Mild f)
    (hok : ∀ o, p ∉ skip → s.objects[p]? = some o → ObjectOk s.acctMeta o →
      ObjectOk s.acctMeta (f o))
    (hcommit : ∀ o, .committed ∈ (f o).block.flags → .committed ∈ o.block.flags ∨ p ∈ W.commit) :
    Heights S W skip { s with objects := s.objects.modify p f } := by
  have hgrows : Grows s { s with objects := s.objects.modify p f } := grows_modify hf
  have hback : ∀ (q : Ptr) o', (s.objects.modify p f)[q]? = some o' →
      ∃ o, s.objects[q]? = some o ∧ o' = if p = q then f o else o := by
    intro q o' ho'
    rw [getElem?_modify_map] at ho'
    obtain ⟨o, ho, heq⟩ := map_eq_some_iff.mp ho'
    exact ⟨o, ho, heq.symm⟩
  refine { h with
    connect_le := ?_, authenticated := ?_, objects := ?_, cached := ?_, database := ?_ }
  · refine h.connect_le.imp id fun ⟨q, hq, o, ho, hle⟩ => ?_
    obtain ⟨o', ho', hbody, -⟩ := hgrows q o ho
    exact ⟨q, hq, o', ho', hbody.height ▸ hle⟩
  · intro q o' ho'
    obtain ⟨o, ho, rfl⟩ := hback q o' ho'
    split
    · exact hf.flags o _ (by decide) (by decide) (h.authenticated q o ho)
    · exact h.authenticated q o ho
  · intro q o' ho' hq
    obtain ⟨o, ho, rfl⟩ := hback q o' ho'
    split
    · rename_i hpq
      subst hpq
      exact hok o hq ho (h.objects p o ho hq)
    · exact h.objects q o ho hq
  · intro height q hq o' ho'
    obtain ⟨o, ho, rfl⟩ := hback q o' ho'
    obtain ⟨hcert, hcommitted⟩ := h.cached height q hq o ho
    split
    · rename_i hpq
      subst hpq
      rw [(hf.same o).height]
      refine ⟨hcert, fun hflag => ?_⟩
      obtain hold | hopen := hcommit o hflag
      · exact hcommitted hold
      · exact .inr hopen
    · exact ⟨hcert, hcommitted⟩
  · intro b hb
    refine (h.database b hb).imp id fun ⟨q, hq, o, ho, hheight, hauth, hcommitted, hconnected⟩ => ?_
    obtain ⟨o', ho', hbody, hkept⟩ := hgrows q o ho
    refine ⟨q, hq, o', ho', hheight.trans hbody.height.symm, hauth, ?_, ?_⟩
    · exact fun hflag => hkept _ (by decide) (by decide) (hcommitted hflag)
    · exact fun hflag => hkept _ (by decide) (by decide) (hconnected hflag)

theorem Heights.write (h : Heights S W {p} s) (ho : s.objects[p]? = some o) :
    Heights S W {p} { s with vblocks := s.vblocks.insert o.block.height o.block } :=
  { h with
    database := by
      intro b hb
      rcases mem_values_insert hb with rfl | hold
      · exact .inr ⟨p, rfl, o, ho, rfl, h.authenticated p o ho, id, id⟩
      · exact h.database b hold }

theorem Heights.setBlocks {blocks : SortedMap UInt64 (SortedMap UInt64 Ptr)}
    (h : Heights S W skip s)
    (hcached : ∀ height, ∀ p ∈ (viewsOf { s with allBlocks := blocks } height).values,
      (∃ height', p ∈ (viewsOf s height').values) ∨ Covered W p s) :
    Heights S W skip { s with allBlocks := blocks } :=
  { h with
    cached := by
      intro height p hp o ho
      obtain ⟨height', hold⟩ | hnew := hcached height p hp
      · exact h.cached height' p hold o ho
      · exact hnew o ho }

variable {b : XvBlock}

theorem Heights.newObject (h : Heights S W skip s) (hinv : Inv S s)
    (hauth : .authenticated ∈ b.flags) (hb : ObjectOk s.acctMeta ⟨b, none, none, 0, false⟩) :
    Heights S W skip { s with objects := s.objects ++ [⟨b, none, none, 0, false⟩] } := by
  have hback : ∀ (q : Ptr) o', (s.objects ++
      [(⟨b, none, none, 0, false⟩ : BlockObject)])[q]? = some o' →
      s.objects[q]? = some o' ∨ o' = ⟨b, none, none, 0, false⟩ := by
    intro q o' ho'
    rw [List.getElem?_append] at ho'
    split at ho'
    · exact .inl ho'
    · exact .inr (mem_singleton.mp (mem_of_getElem? ho'))
  have hgrows := grows_append (s := s) ⟨b, none, none, 0, false⟩
  refine { h with
    connect_le := ?_, authenticated := ?_, objects := ?_, cached := ?_, database := ?_ }
  · refine h.connect_le.imp id fun ⟨q, hq, o, ho, hle⟩ => ?_
    obtain ⟨o', ho', hbody, -⟩ := hgrows q o ho
    exact ⟨q, hq, o', ho', hbody.height ▸ hle⟩
  · intro q o' ho'
    obtain ho | rfl := hback q o' ho'
    · exact h.authenticated q o' ho
    · exact hauth
  · intro q o' ho' hq
    obtain ho | rfl := hback q o' ho'
    · exact h.objects q o' ho hq
    · exact hb
  · intro height q hq o' ho'
    -- the cache holds none but the old objects
    obtain ⟨o, ho, -⟩ := hinv.viewsAt hq
    obtain ⟨hlt, -⟩ := List.getElem?_eq_some_iff.mp ho
    have hold : s.objects[q]? = some o' := (List.getElem?_append_left hlt).symm.trans ho'
    exact h.cached height q hq o' hold
  · intro b' hb'
    refine (h.database b' hb').imp id fun ⟨q, hq, o, ho, hrest⟩ => ?_
    obtain ⟨hlt, -⟩ := List.getElem?_eq_some_iff.mp ho
    exact ⟨q, hq, o, (List.getElem?_append_left hlt).trans ho, hrest⟩

def Touched (p : Ptr) (s : ChainAccount) : Prop :=
  ∃ o, s.objects[p]? = some o ∧ (0 < o.modifiedCount ∨ Recorded s.acctMeta o.block)

structure Forward (s t : ChainAccount) : Prop where
  grows : Grows s t
  le : s.acctMeta.Le t.acctMeta
  touched : ∀ p, Touched p s → Touched p t

theorem Forward.refl (s : ChainAccount) : Forward s s := ⟨.refl s, .refl _, fun _ h => h⟩

theorem Forward.trans {u : ChainAccount} (h : Forward s t) (h' : Forward t u) : Forward s u :=
  ⟨h.grows.trans h'.grows, h.le.trans h'.le, fun p hp => h'.touched p (h.touched p hp)⟩

theorem Touched.of_same (h : Touched p s) (hobjects : t.objects = s.objects)
    (hle : s.acctMeta.Le t.acctMeta) : Touched p t := by
  obtain ⟨o, ho, htouched⟩ := h
  refine ⟨o, ?_, htouched.imp id (·.mono hle)⟩
  rw [hobjects]
  exact ho

theorem Forward.of_same (hobjects : t.objects = s.objects) (hle : s.acctMeta.Le t.acctMeta) :
    Forward s t :=
  ⟨.of_objects hobjects, hle, fun _ h => h.of_same hobjects hle⟩

theorem Touched.modifyObject {q : Ptr} (h : Touched q s) (hsame : ∀ o, SameBody (f o).block o.block)
    (hcount : p = q → ∀ o, o.modifiedCount ≤ (f o).modifiedCount)
    (hcommit : ∀ o, .committed ∈ (f o).block.flags → .committed ∈ o.block.flags ∨
      0 < (f o).modifiedCount) :
    Touched q { s with objects := s.objects.modify p f } := by
  obtain ⟨o, ho, htouched⟩ := h
  refine ⟨if p = q then f o else o, ?_, ?_⟩
  · rw [getElem?_modify_map, ho]
    rfl
  · split
    · rename_i hpq
      obtain hcounted | hrecorded := htouched
      · exact .inl (lt_of_lt_of_le hcounted (hcount hpq o))
      · by_cases hzero : 0 < (f o).modifiedCount
        · exact .inl hzero
        · refine .inr ⟨?_, fun hflag => ?_⟩
          · rw [(hsame o).height]
            exact hrecorded.cert
          · rw [(hsame o).height]
            exact hrecorded.commit ((hcommit o hflag).resolve_right hzero)
    · exact htouched

def heights (S : List XvBlock) : Walk S Unsaved where
  inv W s := Shape S False s ∧ Heights S W ∅ s
  rel := Forward
  refl := Forward.refl
  trans := Forward.trans
  base h := h.1.inv
  keyed hown _ _ h := h.1.keyed hown
  grows h := h.grows
  savable _ _ _ := True
  savable_mono _ h := h
  owes p s := ∃ o, s.objects[p]? = some o ∧ .committed ∈ o.block.flags
  owes_mono := by
    rintro p s t hst ⟨o, ho, hflag⟩
    obtain ⟨o', ho', -, hflags⟩ := hst.grows p o ho
    exact ⟨o', ho', hflags _ (by decide) (by decide) hflag⟩
  done c p s := ∃ o, s.objects[p]? = some o ∧ o.block.height ≤ s.acctMeta.highestCertBlockHeight ∧
    (c → o.block.height ≤ s.acctMeta.highestCommitBlockHeight)
  done_mono := by
    rintro c p s t hst ⟨o, ho, hcert, hcommit⟩
    obtain ⟨o', ho', hsame, -⟩ := hst.grows p o ho
    refine ⟨o', ho', ?_, fun hc => ?_⟩
    · rw [hsame.height]
      exact le_trans hcert hst.le.cert
    · rw [hsame.height]
      exact le_trans (hcommit hc) hst.le.commit

def Unsaved.during (c : Prop) (W : Unsaved) (p : Ptr) : Unsaved :=
  ⟨insert p W.cert, {q | q ∈ W.commit ∨ (c ∧ q = p)}⟩

theorem Heights.during (h : Heights S W skip s) (c : Prop) (p : Ptr) :
    Heights S (Unsaved.during c W p) skip s :=
  h.open (subset_insert p W.cert) fun _ hq => .inl hq

variable {c : Prop}

theorem Heights.leave (h : Heights S (Unsaved.during c W p) ∅ s) (hdone : (heights S).done c p s) :
    Heights S W ∅ s := by
  obtain ⟨o, ho, hcert, hcommit⟩ := hdone
  refine { h with connect_le := ?_, cached := ?_ }
  · obtain hle | ⟨q, hq | ⟨hc, rfl⟩, x, hx, hle⟩ := h.connect_le
    · exact .inl hle
    · exact .inr ⟨q, hq, x, hx, hle⟩
    · obtain rfl := mem_unique ho hx
      exact .inl (le_trans hle (hcommit hc))
  · intro height q hq x hx
    obtain ⟨hcert', hcommit'⟩ := h.cached height q hq x hx
    constructor
    · obtain hle | rfl | hopen := hcert'
      · exact .inl hle
      · obtain rfl := mem_unique ho hx
        exact .inl hcert
      · exact .inr hopen
    · intro hflag
      obtain hle | hopen | ⟨hc, rfl⟩ := hcommit' hflag
      · exact .inl hle
      · exact .inr hopen
      · obtain rfl := mem_unique ho hx
        exact .inl (hcommit hc)

/-- While `p` is written no object becomes committed, nor connected unless `p` is committed. -/
structure Near (c : Prop) (p : Ptr) (s t : ChainAccount) : Prop where
  grows : Grows s t
  le : s.acctMeta.Le t.acctMeta
  cache : t.allBlocks = s.allBlocks
  touched : ∀ q, q ≠ p → Touched q s → Touched q t
  flags : ∀ (q : Ptr) o o', s.objects[q]? = some o → t.objects[q]? = some o' →
    (.committed ∈ o'.block.flags → .committed ∈ o.block.flags) ∧
    (¬ c → .connected ∈ o'.block.flags → .connected ∈ o.block.flags)

theorem Near.of_same (hobjects : t.objects = s.objects) (hcache : t.allBlocks = s.allBlocks)
    (hle : s.acctMeta.Le t.acctMeta) : Near c p s t where
  grows := .of_objects hobjects
  le := hle
  cache := hcache
  touched _ _ h := h.of_same hobjects hle
  flags q o o' ho ho' := by
    rw [hobjects, ho] at ho'
    obtain rfl := Option.some.inj ho'
    exact ⟨id, fun _ => id⟩

theorem Near.trans {u : ChainAccount} (h : Near c p s t) (h' : Near c p t u) : Near c p s u where
  grows := h.grows.trans h'.grows
  le := h.le.trans h'.le
  cache := h'.cache.trans h.cache
  touched q hq hs := h'.touched q hq (h.touched q hq hs)
  flags q o o' ho ho' := by
    obtain ⟨x, hx, -⟩ := h.grows q o ho
    obtain ⟨hcommitted, hconnected⟩ := h.flags q o x ho hx
    obtain ⟨hcommitted', hconnected'⟩ := h'.flags q x o' hx ho'
    exact ⟨fun hflag => hcommitted (hcommitted' hflag),
      fun hc hflag => hconnected hc (hconnected' hc hflag)⟩

def near (S : List XvBlock) (W : Unsaved) (c : Prop) (p : Ptr) : Frame ChainAccount where
  inv s := Shape S False s ∧ Heights S W {p} s
  rel := Near c p
  refl _ := .of_same rfl rfl (.refl _)
  trans := Near.trans

def Settled (p : Ptr) (s : ChainAccount) : Prop :=
  ∃ o, s.objects[p]? = some o ∧ Recorded s.acctMeta o.block ∧ Joined s.acctMeta o.block

variable {P : ChainAccount → Prop}

theorem Spec.of_near {α : Type} {m : StoreM α} {Q : α → ChainAccount → Prop}
    (h : Spec (near S W c p) P m (fun r s => Q r s ∧ Settled p s)) :
    Spec ((heights S).frame W) P m Q := by
  intro s hs hp
  obtain ⟨hinv, hrel, hq, ⟨o, ho, hrecorded, hjoined⟩⟩ := h s ⟨hs.1, hs.2.skipping {p}⟩ hp
  refine ⟨⟨hinv.1, hinv.2.settle ho hrecorded hjoined⟩, ⟨hrel.grows, hrel.le, fun q hq => ?_⟩, hq⟩
  by_cases heq : q = p
  · subst heq
    exact ⟨o, ho, .inr hrecorded⟩
  · exact hrel.touched q heq hq

section
variable (hcounts : env.flagCounts = true)

include hcounts

theorem Heights.setBlockFlag {q : Ptr} {f : BlockFlag} (h : Heights S W skip s)
    (hconnected : f = .connected → q ∉ skip → ∀ o, s.objects[q]? = some o →
      o.block.height ≤ s.acctMeta.highestConnectBlockHeight)
    (hcommitted : f = .committed → q ∈ W.commit) :
    Heights S W skip (setBlockFlag env q f s).2 := by
  refine h.modifyObject mild_set ?_ ?_
  · intro o hq ho hok
    refine ⟨fun _ => .inl ?_, fun hflag => ?_⟩
    · rw [hcounts]
      exact Nat.succ_pos _
    · obtain hf | hold := (XvBlock.mem_setBlockFlag _ _ _).mp hflag
      · exact hconnected hf.symm hq o ho
      · exact hok.joined hold
  · intro o hflag
    obtain hf | hold := (XvBlock.mem_setBlockFlag _ _ _).mp hflag
    · exact .inr (hcommitted hf.symm)
    · exact .inl hold

theorem Touched.setBlockFlag (h : Touched p s) (q : Ptr) (f : BlockFlag) :
    Touched p (setBlockFlag env q f s).2 := by
  refine h.modifyObject (fun _ => rfl) (fun _ o => ?_) fun o _ => .inr ?_
  · rw [hcounts]
    exact Nat.le_succ _
  · rw [hcounts]
    exact Nat.succ_pos _

omit hcounts in
theorem mem_of_setBlockFlag {q r : Ptr} {f g : BlockFlag} {o' : BlockObject}
    (ho : s.objects[r]? = some o) (ho' : (setBlockFlag env q f s).2.objects[r]? = some o')
    (hg : g ≠ f) (hmem : g ∈ o'.block.flags) : g ∈ o.block.flags := by
  have hmap : (s.objects.modify q _)[r]? = some o' := ho'
  rw [getElem?_modify_map, ho] at hmap
  obtain rfl := Option.some.inj hmap
  split at hmem
  · exact ((XvBlock.mem_setBlockFlag _ _ g).mp hmem).resolve_left hg
  · exact hmem

end

section
variable {c : Prop} {p : Ptr}

theorem setBlockFlag_near (hcounts : env.flagCounts = true) (q : Ptr) {f : BlockFlag}
    (hf : f = .stored ∨ (f = .connected ∧ c)) :
    Spec (near S W c p) (fun s => q = p ∨ ∃ o, s.objects[q]? = some o ∧
        o.block.height ≤ s.acctMeta.highestConnectBlockHeight)
      (setBlockFlag env q f) (fun _ _ => True) := by
  intro s hs hq
  have hlocked : f ≠ .locked := by
    obtain rfl | ⟨rfl, -⟩ := hf <;> decide
  have hcommitted : f ≠ .committed := by
    obtain rfl | ⟨rfl, -⟩ := hf <;> decide
  obtain ⟨hshape, hgrows, -⟩ := (writes_shape env).flag () q f hlocked hcommitted s hs.1 trivial
  refine ⟨⟨hshape, hs.2.setBlockFlag hcounts ?_ fun h => absurd h hcommitted⟩,
    ⟨hgrows, .refl _, rfl, fun r _ hr => hr.setBlockFlag hcounts q f, ?_⟩, trivial⟩
  · intro _ hskip o ho
    obtain ⟨x, hx, hle⟩ := hq.resolve_left hskip
    obtain rfl := mem_unique ho hx
    exact hle
  · intro r o o' ho ho'
    refine ⟨mem_of_setBlockFlag ho ho' hcommitted.symm, fun hc => mem_of_setBlockFlag ho ho' ?_⟩
    obtain rfl | ⟨-, hc'⟩ := hf
    · decide
    · exact absurd hc' hc

theorem modifyMeta_near {Q : ChainAccount → Prop} {g : AcctMeta → AcctMeta}
    (h : ∀ s, Shape S False s → Heights S W {p} s → P s → Advances S W {p} s (g s.acctMeta) ∧
      Q { s with acctMeta := g s.acctMeta }) :
    Spec (near S W c p) P (modifyMeta g) (fun _ => Q) := by
  refine .modify fun s hs hp => ?_
  obtain ⟨⟨hheights, hle⟩, hq⟩ := h s hs.1 hs.2 hp
  exact ⟨⟨hs.1.of_same rfl rfl rfl, hheights⟩, .of_same rfl rfl hle, hq⟩

def Below (q : Ptr) (s : ChainAccount) : Prop :=
  ∃ o, s.objects[q]? = some o ∧ o.block.height ≤ s.acctMeta.highestConnectBlockHeight

theorem stable_below (q : Ptr) : Stable (near S W c p) (Below q) := by
  rintro s t hst ⟨o, ho, hle⟩
  obtain ⟨o', ho', hsame, -⟩ := hst.grows q o ho
  refine ⟨o', ho', ?_⟩
  rw [hsame.height]
  exact le_trans hle hst.le.connect

section
variable (hS : ∀ x ∈ S, x.height ≠ Word.top) (hcounts : env.flagCounts = true) (hc : c)
include hS hcounts hc

theorem connectMore_near (l : List (UInt64 × SortedMap UInt64 Ptr)) :
    Spec (near S W c p) (fun s => ∀ e ∈ l, e ∈ s.allBlocks.entries) (connectMore env l)
      (fun _ _ => True) := by
  have hstable : ∀ l : List (UInt64 × SortedMap UInt64 Ptr),
      Stable (near S W c p) (fun s => ∀ e ∈ l, e ∈ s.allBlocks.entries) := by
    intro l s t hst h e he
    rw [hst.cache]
    exact h e he
  induction l with
  | nil => exact (Safe.pure ()).spec
  | cons e l ih =>
    refine Spec.get_bind fun s hs h => ?_
    cases hvalues : e.2.values with
    | nil => exact (Safe.pure ()).spec
    | cons q rest =>
      refine object_bind q ?_
      rintro t ht rfl
      refine Spec.ite (fun hnext => ?_) fun _ => (Safe.pure ()).spec
      have hcached : q ∈ (viewsOf t e.1).values := by
        rw [viewsOf_of_mem (h e mem_cons_self), hvalues]
        exact mem_cons_self
      obtain ⟨o, ho, hheight⟩ := hs.1.inv.viewsAt hcached
      rw [getD_of_getElem? ho] at hnext ⊢
      obtain ⟨hsucc, hflag, -⟩ := hnext
      have hle : t.acctMeta.highestConnectBlockHeight ≤ o.block.height := by
        rw [hheight, hsucc]
        exact hs.2.le_next
      have hmove : Spec (near S W c p) (· = t) (modifyMeta fun m => { m with
          highestConnectBlockHeight := o.block.height
          highestConnectBlockHash := o.block.blockHash })
          (fun _ s => (∀ e ∈ l, e ∈ s.allBlocks.entries) ∧ Below q s) := by
        refine modifyMeta_near ?_
        rintro s hshape hheights rfl
        exact ⟨hheights.connectTo hshape.inv hS ho hle ((hheights.cached e.1 q hcached o ho).2
          (of_decide_eq_true hflag)), fun e' he' => h e' (mem_cons_of_mem e he'), o, ho, le_refl _⟩
      refine Spec.bind hmove fun _ => Spec.bind ?_ fun _ => ih
      exact (setBlockFlag_near hcounts q (.inr ⟨rfl, hc⟩)).carry (hstable l)
        fun _ _ h => ⟨.inr h.2, h.1⟩

theorem raiseConnect_near : Spec (near S W c p) (fun s => ∃ o, s.objects[p]? = some o ∧
        o.block.height ≤ s.acctMeta.highestCommitBlockHeight)
      (raiseConnect env p) (fun _ s => ∃ o, s.objects[p]? = some o ∧
        Joined s.acctMeta o.block) := by
  refine object_bind p ?_
  rintro s hs ⟨o, ho, hcommit⟩
  rw [getD_of_getElem? ho]
  refine .get_bind ?_
  rintro t ht rfl
  refine .ite (fun hraise => ?_) fun hkeep => .pure ?_
  · have hle : t.acctMeta.highestConnectBlockHeight ≤ o.block.height := le_of_lt hraise.2
    have hmove : Spec (near S W c p) (· = t) (modifyMeta fun m => { m with
        highestConnectBlockHeight := o.block.height
        highestConnectBlockHash := o.block.blockHash }) (fun _ => Below p) := by
      refine modifyMeta_near ?_
      rintro s hshape hheights rfl
      exact ⟨hheights.connectTo hshape.inv hS ho hle (.inl hcommit), o, ho, le_refl _⟩
    refine .bind hmove fun _ => .get_bind fun s _ hbelow => ?_
    refine ((connectMore_near hS hcounts hc _).carry (stable_below p) ?_).conseq (fun _ _ h => h) ?_
    · rintro t - rfl
      exact ⟨fun e he => (dropWhile_sublist _).subset he, hbelow⟩
    · rintro _ s - ⟨x, hx, hle⟩
      exact ⟨x, hx, fun _ => hle⟩
  · rintro s - rfl
    refine ⟨o, ho, fun hflag => ?_⟩
    by_contra hnot
    exact hkeep ⟨decide_eq_true hflag, not_le.mp hnot⟩

end

structure Since (c : Prop) (p : Ptr) (o : BlockObject) (s : ChainAccount) : Prop where
  object : ∃ o', s.objects[p]? = some o' ∧ SameBody o'.block o.block ∧
    (.committed ∈ o'.block.flags → .committed ∈ o.block.flags) ∧
    (¬ c → .connected ∈ o'.block.flags → .connected ∈ o.block.flags)
  ok : ObjectOk s.acctMeta o
  raised : .locked ∈ o.block.flags ∨ .committed ∈ o.block.flags → Raised p s

theorem stable_since (o : BlockObject) : Stable (near S W c p) (Since c p o) := by
  rintro s t hst ⟨⟨x, hx, hsame, hcommitted, hconnected⟩, hok, hraised⟩
  obtain ⟨y, hy, hsame', -⟩ := hst.grows p x hx
  obtain ⟨hcommitted', hconnected'⟩ := hst.flags p x y hx hy
  exact ⟨⟨y, hy, hsame'.trans hsame, fun h => hcommitted (hcommitted' h),
    fun hc h => hconnected hc (hconnected' hc h)⟩, hok.mono hst.le,
    fun hflag => (hraised hflag).grows hst.grows⟩

theorem Since.start (ho : s.objects[p]? = some o) (hok : ObjectOk s.acctMeta o) : Since c p o s :=
  ⟨⟨o, ho, .refl _, id, fun _ => id⟩, hok, fun hflag => ⟨o, ho, hflag⟩⟩

theorem Since.at (h : Since c p o s) : At p o.block.height s := by
  obtain ⟨x, hx, hsame, -⟩ := h.object
  exact ⟨x, hx, hsame.height⟩

theorem Since.settled (h : Since (.committed ∈ o.block.flags) p o s)
    (hrecorded : Recorded s.acctMeta o.block)
    (hjoined : .committed ∈ o.block.flags → ∃ x, s.objects[p]? = some x ∧
      Joined s.acctMeta x.block) :
    Settled p s := by
  obtain ⟨x, hx, hsame, hcommitted, hconnected⟩ := h.object
  refine ⟨x, hx, ⟨?_, fun hflag => ?_⟩, ?_⟩
  · rw [hsame.height]
    exact hrecorded.cert
  · rw [hsame.height]
    exact hrecorded.commit (hcommitted hflag)
  · by_cases hc : .committed ∈ o.block.flags
    · obtain ⟨y, hy, hjoined⟩ := hjoined hc
      obtain rfl := mem_unique hx hy
      exact hjoined
    · intro hflag
      rw [hsame.height]
      exact h.ok.joined (hconnected hc hflag)

theorem markConnected_near (hcounts : env.flagCounts = true) (hc : c) (o : BlockObject) :
    Spec (near S W c p) (fun s => s.objects[p]? = some o) (markConnected env p)
      (fun _ s => ∃ o', s.objects[p]? = some o' ∧ (o' = o ∨ 0 < o'.modifiedCount)) := by
  have hkeep : ∀ s : ChainAccount, s.objects[p]? = some o →
      ∃ o', s.objects[p]? = some o' ∧ (o' = o ∨ 0 < o'.modifiedCount) :=
    fun _ ho => ⟨o, ho, .inl rfl⟩
  refine .bind (object_read p) fun x => .ite (fun _ => .pure fun s _ h => hkeep s h.2)
    fun _ => .get_bind fun s _ h => ?_
  refine .at (P := fun s => s.objects[p]? = some o) h.2 (.bind (Walk.isConnected_read x _)
    fun r => .ite (fun _ => ?_) fun _ => .pure fun s _ h => hkeep s h)
  intro t ht ho
  have hflag : Spec (near S W c p) _ (setBlockFlag env p .connected) (fun _ _ => True) :=
    setBlockFlag_near hcounts p (.inr ⟨rfl, hc⟩)
  obtain ⟨hinv, hrel, -⟩ := hflag t ht (.inl rfl)
  refine ⟨hinv, hrel, _, Walk.getElem?_setBlockFlag ho .connected, .inr ?_⟩
  rw [hcounts]
  exact Nat.succ_pos _

theorem stable_at_near (h : UInt64) : Stable (near S W c p) (At p h) :=
  fun s t hst hs => stable_at (S := S) p h s t hst.grows.evolves hs

theorem writeVblock_near (hwrite : ∀ b, env.setVblock b = true) :
    Spec (near S W c p) (Raised p) (writeVblock env p) (fun r _ => r = true) := by
  refine object_bind p ?_
  rintro s hs ⟨o, ho, hflag⟩
  rw [getD_of_getElem? ho]
  refine .ite (fun _ => ?_) fun hfail => absurd (hwrite o.block) hfail
  refine .bind (Q := fun _ _ => True) (.modify ?_) fun _ => .bind (Q := fun _ _ => True) ?_
    fun _ => .pure fun _ _ _ => rfl
  · rintro t ht rfl
    exact ⟨⟨ht.1.write ho hflag, ht.2.write ho⟩, .of_same rfl rfl (.refl _), trivial⟩
  · intro t ht _
    have hreset : Safe ((shape S False).frame ())
        (modifyObject p fun o => { o with modifiedCount := 0 }) :=
      modifyObject_shape_safe (fun _ => rfl) fun _ => .inl rfl
    obtain ⟨hshape, hgrows, -⟩ := hreset t ht.1 trivial
    refine ⟨⟨hshape, ht.2.modifyObject (.of_block fun _ => rfl)
      (fun _ hskip => absurd rfl hskip) fun _ h => .inl h⟩, ⟨hgrows, .refl _, rfl, ?_, ?_⟩, trivial⟩
    · exact fun q hq h => h.modifyObject (fun _ => rfl) (fun heq => absurd heq.symm hq)
        fun _ hflag => .inl hflag
    · intro q x x' hx hx'
      have hmap : (t.objects.modify p _)[q]? = some x' := hx'
      rw [getElem?_modify_map, hx] at hmap
      obtain rfl := Option.some.inj hmap
      split <;> exact ⟨id, fun _ => id⟩

theorem updateMeta_near (hS : ∀ x ∈ S, x.height ≠ Word.top) (hcounts : env.flagCounts = true)
    (hauth : .authenticated ∈ b.flags) (hc : .committed ∈ b.flags → c) :
    Spec (near S W c p) (At p b.height) (updateMeta env p b) (fun _ s => Recorded s.acctMeta b ∧
        (.committed ∈ b.flags → ∃ x, s.objects[p]? = some x ∧ Joined s.acctMeta x.block)) := by
  -- the certificate height covers the block from the first step on
  let R : ChainAccount → Prop := fun s => At p b.height s ∧
    b.height ≤ s.acctMeta.highestCertBlockHeight
  have hR : Stable (near S W c p) R :=
    (stable_at_near b.height).and fun s t hst h => le_trans h hst.le.cert
  refine .ite (fun _ => ?_) fun hnot => absurd (decide_eq_true hauth) hnot
  refine .bind (Q := fun _ => R) (modifyMeta_near fun s _ h hat => ⟨?_, hat, ?_⟩) fun _ => ?_
  · exact h.raiseMeta rfl rfl (le_refl _) (le_max_left _ _) h.commit_le
      (le_trans h.lock_le (le_max_left _ _))
  · exact le_max_right _ _
  refine .ite_seq (a := ()) hR (fun _ => modifyMeta_near fun s _ h hpre => ⟨?_, trivial⟩)
    fun _ => .ite (fun hflag => ?_) fun hnot => .pure fun s _ hpre => ?_
  · exact h.raiseMeta rfl rfl (le_refl _) (le_refl _) (le_trans h.commit_le (le_max_left _ _))
      (max_le h.lock_le hpre.2)
  · have hstable : Stable (near S W c p)
        (fun s => R s ∧ b.height ≤ s.acctMeta.highestCommitBlockHeight) :=
      hR.and fun s t hst h => le_trans h hst.le.commit
    refine .bind (Q := fun _ s => R s ∧ b.height ≤ s.acctMeta.highestCommitBlockHeight)
      (modifyMeta_near fun s _ h hpre => ⟨?_, hpre, le_max_right _ _⟩) fun _ =>
      (((raiseConnect_near hS hcounts (hc (of_decide_eq_true hflag))).frame hstable).pre ?_).conseq
        (fun _ _ h => h) ?_
    · exact h.raiseMeta rfl rfl (le_max_left _ _) (le_refl _) (max_le_max h.commit_le (le_refl _))
        (max_le h.lock_le hpre.2)
    · rintro s - ⟨⟨⟨o, ho, hheight⟩, hcert⟩, hle⟩
      exact ⟨⟨o, ho, hheight ▸ hle⟩, ⟨⟨o, ho, hheight⟩, hcert⟩, hle⟩
    · rintro _ s - ⟨hjoined, ⟨-, hcert⟩, hle⟩
      exact ⟨⟨hcert, fun _ => hle⟩, fun _ => hjoined⟩
  · exact ⟨⟨hpre.2, fun h => absurd (decide_eq_true h) hnot⟩,
      fun h => absurd (decide_eq_true h) hnot⟩

end

section

theorem modifyMeta_heights {Q : ChainAccount → Prop} {g : AcctMeta → AcctMeta}
    (h : ∀ s, Heights S W ∅ s → P s → Advances S W ∅ s (g s.acctMeta) ∧
      Q { s with acctMeta := g s.acctMeta }) :
    Spec ((heights S).frame W) P (modifyMeta g) (fun _ => Q) := by
  refine .modify fun s hs hp => ?_
  obtain ⟨⟨hheights, hle⟩, hq⟩ := h s hs.2 hp
  exact ⟨⟨hs.1.of_same rfl rfl rfl, hheights⟩, .of_same rfl hle, hq⟩

theorem setBlockFlag_moves (hcounts : env.flagCounts = true) {f : BlockFlag}
    (hshape : Spec ((shape S False).frame ()) P (setBlockFlag env p f) (fun _ _ => True))
    (hcert : W.cert ⊆ W'.cert) (hcommit : W.commit ⊆ W'.commit) (hf : f ≠ .connected)
    (hcommitted : f = .committed → p ∈ W'.commit) :
    (heights S).Moves W W' P (setBlockFlag env p f) (fun _ _ => True) := by
  intro s hs hp
  obtain ⟨hshape, hgrows, -⟩ := hshape s hs.1 hp
  refine ⟨⟨hshape, (hs.2.open hcert hcommit).setBlockFlag hcounts
    (fun h => absurd h hf) hcommitted⟩,
    ⟨hgrows, .refl _, fun q hq => hq.setBlockFlag hcounts p f⟩, trivial⟩

theorem setBlockFlag_heights (hcounts : env.flagCounts = true) (p : Ptr) {f : BlockFlag}
    (hlocked : f ≠ .locked) (hcommitted : f ≠ .committed) (hconnected : f ≠ .connected) :
    Safe ((heights S).frame W) (setBlockFlag env p f) :=
  setBlockFlag_moves hcounts ((writes_shape env).flag () p f hlocked hcommitted) (Set.Subset.refl _)
    (Set.Subset.refl _) hconnected fun h => absurd h hcommitted

theorem Heights.relink (h : Heights S W ∅ s) (hblock : ∀ o, (f o).block = o.block)
    (hcount : ∀ o, o.modifiedCount ≤ (f o).modifiedCount) :
    Heights S W ∅ { s with objects := s.objects.modify p f } := by
  refine h.modifyObject (.of_block hblock) ?_ ?_
  · intro o _ _ hok
    refine ⟨fun hflag => ?_, ?_⟩
    · rw [hblock] at hflag ⊢
      exact (hok.stored hflag).imp (lt_of_lt_of_le · (hcount o)) id
    · rw [hblock]
      exact hok.joined
  · intro o hflag
    rw [hblock] at hflag
    exact .inl hflag

theorem Forward.relink (hblock : ∀ o, (f o).block = o.block)
    (hcount : ∀ o, o.modifiedCount ≤ (f o).modifiedCount) :
    Forward s { s with objects := s.objects.modify p f } := by
  have hmild : Mild f := .of_block hblock
  refine ⟨grows_modify hmild, .refl _, fun q hq => ?_⟩
  refine hq.modifyObject hmild.same (fun _ => hcount) fun o hflag => .inl ?_
  rw [hblock] at hflag
  exact hflag

theorem modifyObject_heights (hblock : ∀ o, (f o).block = o.block)
    (hprev : ∀ o, (f o).prevBlock = o.prevBlock ∨ (f o).prevBlock = none)
    (hcount : ∀ o, o.modifiedCount ≤ (f o).modifiedCount) :
    Safe ((heights S).frame W) (modifyObject p f) := fun s hs _ =>
  ⟨⟨(modifyObject_shape_safe hblock hprev s hs.1 trivial).1, hs.2.relink hblock hcount⟩,
    .relink hblock hcount, trivial⟩

variable (hS : ∀ x ∈ S, x.height ≠ Word.top) (hcounts : env.flagCounts = true)
  (hwrite : ∀ b, env.setVblock b = true)

theorem removeExecuted_heights (p : Ptr) :
    Safe ((heights S).frame W) (removeBlockFlag p .executed) := by
  intro s hs _
  obtain ⟨hshape, hgrows, -⟩ := removeBlockFlag_shape p (.inr rfl) s hs.1 trivial
  refine ⟨⟨hshape, hs.2.modifyObject (mild_remove (.inr rfl)) ?_ ?_⟩,
    ⟨hgrows, .refl _, fun q hq => ?_⟩,
    trivial⟩
  · intro o _ _ hok
    refine ⟨fun hflag => (hok.stored (Finset.mem_of_mem_erase hflag)).imp id fun h =>
        ⟨h.cert, ?_⟩, ?_⟩
    · exact fun hflag => h.commit (Finset.mem_of_mem_erase hflag)
    · exact fun hflag => hok.joined (Finset.mem_of_mem_erase hflag)
  · exact fun o hflag => .inl (Finset.mem_of_mem_erase hflag)
  · exact hq.modifyObject (fun _ => rfl) (fun _ _ => le_refl _) fun _ hflag =>
      .inl (Finset.mem_of_mem_erase hflag)

theorem keepCert_heights (ho : s.objects[p]? = some o) (hcommitted : .committed ∉ o.block.flags) :
    Spec ((heights S).frame W) (· = s) (do
        if (← get).acctMeta.highestCertBlockHeight < o.block.height then
          modifyMeta fun m => { m with highestCertBlockHeight := o.block.height }
          modify fun s => { s with lastCert := some o.block }
        return true : StoreM Bool)
      (fun _ s => ∃ x, s.objects[p]? = some x ∧
        x.block.height ≤ s.acctMeta.highestCertBlockHeight) := by
  refine .get_bind ?_
  rintro t ht rfl
  refine .ite (fun hlt => ?_) fun hle => .pure ?_
  · have hraise : Spec ((heights S).frame W) (· = t)
        (modifyMeta fun m => { m with highestCertBlockHeight := o.block.height })
        (fun _ s => s.objects = t.objects ∧ s.acctMeta.highestCertBlockHeight = o.block.height ∧
          t.acctMeta.Le s.acctMeta) := by
      refine modifyMeta_heights ?_
      rintro s h rfl
      have hadvance :=
        h.raiseMeta (m := { s.acctMeta with highestCertBlockHeight := o.block.height })
        rfl rfl (le_refl _) (le_of_lt hlt) h.commit_le (le_trans h.lock_le (le_of_lt hlt))
      exact ⟨hadvance, rfl, rfl, hadvance.2⟩
    refine .bind hraise fun _ => .bind (Q := fun _ s => s.objects = t.objects ∧
      s.acctMeta.highestCertBlockHeight = o.block.height) (.modify ?_) fun _ => .pure ?_
    · rintro s hs ⟨hobjects, hcert, hle⟩
      refine ⟨⟨hs.1.of_same rfl rfl rfl, { hs.2 with lastCert := ?_ }⟩, .of_same rfl (.refl _),
        hobjects, hcert⟩
      intro b hb
      obtain rfl := Option.some.inj hb
      refine ⟨(ht.1.inv.objects p o ho).1, ht.2.authenticated p o ho, ⟨le_of_eq hcert.symm, ?_⟩, ?_⟩
      · exact fun hflag => absurd hflag hcommitted
      · exact ((ht.2.objects p o ho (notMem_empty p)).joined).mono hle
    · rintro s - ⟨hobjects, hcert⟩
      exact ⟨o, by rw [hobjects]; exact ho, le_of_eq hcert.symm⟩
  · rintro s - rfl
    exact ⟨o, ho, not_lt.mp hle⟩

include hS hcounts hwrite

theorem writeRaised_near (hauth : .authenticated ∈ o.block.flags)
    (hraised : .locked ∈ o.block.flags ∨ .committed ∈ o.block.flags) (failed : StoreM Bool) :
    Spec (near S W (.committed ∈ o.block.flags) p) (Since (.committed ∈ o.block.flags) p o)
      (do if ← writeVblock env p then
            updateMeta env p o.block
            return true
          else failed)
      (fun _ s => Recorded s.acctMeta o.block ∧ Settled p s) := by
  have hstable := stable_since (S := S) (W := W) (c := .committed ∈ o.block.flags) (p := p) o
  refine .bind (((writeVblock_near hwrite).frame hstable).pre fun _ _ h => ⟨h.raised hraised, h⟩)
    fun r => .ite (fun _ => ?_) fun hfail => ?_
  · refine .bind (((updateMeta_near hS hcounts hauth id).frame hstable).pre
      fun _ _ h => ⟨h.2.at, h.2⟩) fun _ => .pure ?_
    rintro s - ⟨⟨hrecorded, hjoined⟩, hsince⟩
    exact ⟨hrecorded, hsince.settled hrecorded hjoined⟩
  · exact fun _ _ h => absurd h.1 hfail

theorem saveToXdb_heights (C : Prop) (p : Ptr) :
    Spec ((heights S).frame W) ((heights S).Owing C W p) (saveToXdb env p)
      (fun _ => (heights S).done C p) := by
  refine object_bind p ?_
  rintro s hs ⟨⟨⟨o, ho⟩, -⟩, howes⟩
  rw [getD_of_getElem? ho]
  have hauth : .authenticated ∈ o.block.flags := hs.2.authenticated p o ho
  have hok : ObjectOk s.acctMeta o := hs.2.objects p o ho (notMem_empty p)
  have hcommit : C → .committed ∈ o.block.flags := by
    intro hC
    obtain ⟨x, hx, hflag⟩ := howes hC
    obtain rfl := mem_unique ho hx
    exact hflag
  by_cases hraised : .committed ∈ o.block.flags ∨ .locked ∈ o.block.flags
  · -- the object is out of order between its write and the change of the meta data
    have hdone : ∀ t : ChainAccount, Since (.committed ∈ o.block.flags) p o t →
        Recorded t.acctMeta o.block → (heights S).done C p t := by
      intro t hsince hrecorded
      obtain ⟨x, hx, hheight⟩ := hsince.at
      exact ⟨x, hx, hheight ▸ hrecorded.cert, fun hC => hheight ▸ hrecorded.commit (hcommit hC)⟩
    have hstable := stable_since (S := S) (W := W) (c := .committed ∈ o.block.flags) (p := p) o
    have hwritten := fun failed => ((writeRaised_near (W := W) (p := p) hS hcounts hwrite hauth
      hraised.symm failed).frame hstable).conseq (fun _ _ h => ⟨h, h⟩)
        fun _ t _ h => And.intro (hdone t h.2 h.1.1) h.1.2
    refine Spec.of_near (c := .committed ∈ o.block.flags) (p := p) ?_
    refine Spec.ite_bind (a := ()) (R := fun t => Since (.committed ∈ o.block.flags) p o t ∧
      ∃ x, t.objects[p]? = some x ∧ (x = o ∨ 0 < x.modifiedCount)) (fun hflag => ?_) ?_ fun _ => ?_
    · refine ((markConnected_near hcounts (of_decide_eq_true hflag) o).frame hstable).conseq ?_
        fun _ _ _ h => ⟨h.2, h.1⟩
      rintro t - rfl
      exact ⟨ho, .start ho hok⟩
    · rintro _ t - rfl
      exact ⟨.start ho hok, o, ho, .inl rfl⟩
    refine Spec.ite (fun hcert => ?_) fun _ => Spec.ite (fun _ => ?_) fun hstored => ?_
    · exfalso
      obtain hflag | hflag := hraised
      · rw [XvBlock.checkBlockFlag, decide_eq_true hflag] at hcert
        cases hcert
      · rw [XvBlock.checkBlockFlag, XvBlock.checkBlockFlag, decide_eq_true hflag,
          Bool.not_true, Bool.and_false] at hcert
        cases hcert
    · refine Spec.pre (P := Since (.committed ∈ o.block.flags) p o) ?_ fun _ _ h => h.1
      exact Spec.seq hstable ((setBlockFlag_near hcounts p (.inl rfl)).pre fun _ _ _ => .inl rfl)
        fun _ => hwritten _
    · refine object_bind p ?_
      rintro t - ⟨hsince, x, hx, hsame⟩
      rw [getD_of_getElem? hx]
      refine Spec.ite (fun hzero => Spec.pure ?_) fun _ => Spec.at hsince (hwritten _)
      rintro u - rfl
      -- nothing has changed, and the heights cover the block since its last write
      obtain rfl := hsame.resolve_right (by omega)
      have hrecorded : Recorded u.acctMeta x.block := by
        refine (hsince.ok.stored ?_).resolve_left (by omega)
        by_contra hnot
        exact hstored (by rw [XvBlock.checkBlockFlag, decide_eq_false hnot]; rfl)
      exact ⟨hdone u hsince hrecorded, x, hx, hrecorded, hsince.ok.joined⟩
  · -- only the certificate is kept
    obtain ⟨hcommitted, hlocked⟩ := not_or.mp hraised
    refine Spec.ite (fun h => absurd (of_decide_eq_true h) hcommitted) fun _ =>
      Spec.ite (fun _ => ?_) fun hnot => ?_
    · refine (keepCert_heights ho hcommitted).conseq (fun _ _ h => h) ?_
      rintro _ t - ⟨x, hx, hle⟩
      exact ⟨x, hx, hle, fun hC => absurd (hcommit hC) hcommitted⟩
    · refine absurd ?_ hnot
      rw [XvBlock.checkBlockFlag, XvBlock.checkBlockFlag, decide_eq_false hlocked,
        decide_eq_false hcommitted]
      rfl

theorem executeBlock_heights (p : Ptr) :
    Spec ((heights S).frame W) (Valid p) (executeBlock env p) (fun _ _ => True) := by
  refine object_bind p ?_
  rintro s hs ⟨o, ho⟩
  rw [getD_of_getElem? ho]
  refine Spec.ite (fun _ => (Safe.pure _).spec) fun hready => ?_
  -- a connected block is not above the connected height
  have hbelow : o.block.height ≤ s.acctMeta.highestConnectBlockHeight := by
    refine (hs.2.objects p o ho (notMem_empty p)).joined (of_decide_eq_true ?_)
    exact not_not.mp fun h => hready (.inr h)
  let R : ChainAccount → Prop := fun t => Valid p t ∧
    o.block.height ≤ t.acctMeta.highestConnectBlockHeight
  have hR : Stable ((heights S).frame W) R :=
    ((heights S).stable_valid p).and fun _ _ hst h => le_trans h hst.le.connect
  have hexecuted : Spec ((heights S).frame W) R (executed o.block) (fun _ _ => True) := by
    refine modifyMeta_heights fun t h hpre => ⟨?_, trivial⟩
    exact h.setMeta ⟨le_refl _, le_refl _, le_refl _⟩ hpre.2 h.connect_le h.commit_le
      h.lock_le h.bounded
  refine Spec.at (P := R) ⟨⟨o, ho⟩, hbelow⟩ (Spec.ite (fun _ => ?_) fun _ => ?_)
  · refine Spec.get_bind fun t _ h => Spec.at h ?_
    exact Spec.ite_seq (a := ()) hR (fun _ => hexecuted) fun _ => (Safe.pure _).spec
  · have hunload : Safe ((heights S).frame W) (unloadSubblockFromContainer env p) := by
      refine Safe.bind (object_read p).safe fun x => Safe.ite ?_ (Safe.pure _)
      split
      · exact Safe.pure _
      · exact Safe.bind (setBlockFlag_heights hcounts p (by decide) (by decide) (by decide))
          fun _ => Safe.pure _
      · exact Safe.pure _
    refine Spec.seq hR hunload.spec fun r => Spec.ite (fun _ => (Safe.pure _).spec) fun _ => ?_
    refine Spec.get_bind fun t _ h => Spec.at h (Spec.ite (fun _ => ?_) fun _ => (Safe.pure _).spec)
    refine Spec.seq hR (setBlockFlag_heights hcounts p (by decide) (by decide) (by decide)).spec
      fun _ => ?_
    have hsave := (saveToXdb_heights (W := W) hS hcounts hwrite False p).weaken
    refine Spec.seq hR (hsave.pre fun _ _ h => ⟨⟨h.1, trivial⟩, False.elim⟩) fun r => ?_
    refine Spec.ite (fun _ => Spec.bind hexecuted fun _ => Safe.pure _) fun _ => ?_
    exact (Safe.bind (removeExecuted_heights p) fun _ => Safe.pure _).spec

omit hwrite in
theorem loadedMeta_heights (p : Ptr) (target : UInt64) :
    Spec ((heights S).frame W) (At p target) (loadedMeta env p target) (fun _ _ => True) := by
  refine object_bind p ?_
  rintro s hs ⟨o, ho, hheight⟩
  rw [getD_of_getElem? ho]
  refine Spec.ite (fun hflag => ?_) fun _ => Spec.ite (fun _ => ?_) fun _ =>
    Spec.ite (fun _ => ?_) fun _ => (Safe.pure _).spec
  · have hok : ObjectOk s.acctMeta o := hs.2.objects p o ho (notMem_empty p)
    let R : ChainAccount → Prop := fun t => Since (.committed ∈ o.block.flags) p o t ∧
      Recorded t.acctMeta o.block
    have hR : Stable (near S W (.committed ∈ o.block.flags) p) R :=
      (stable_since o).and fun _ _ hst h => h.mono hst.le
    refine Spec.of_near (c := .committed ∈ o.block.flags) (p := p)
      (Spec.bind (Q := fun _ t => R t ∧ t.objects[p]? = some o) (modifyMeta_near ?_) fun _ => ?_)
    · rintro t _ h rfl
      refine ⟨?hadvance, ⟨.start ho (hok.mono (And.right ?hadvance)), ?_, fun _ => ?_⟩, ho⟩
      · exact h.raiseMeta rfl rfl (le_max_left _ _) (le_max_left _ _)
          (max_le_max h.commit_le (le_refl _)) (max_le_max h.lock_le (le_refl _))
      · rw [hheight]
        exact le_max_right _ _
      · rw [hheight]
        exact le_max_right _ _
    refine Spec.bind ((markConnected_near hcounts (of_decide_eq_true hflag) o).carry hR
      fun _ _ h => ⟨h.2, h.1⟩) fun _ => ?_
    refine Spec.bind (((raiseConnect_near hS hcounts (of_decide_eq_true hflag)).frame hR).pre ?_)
      fun _ => Spec.pure ?_
    · rintro t - hpre
      obtain ⟨x, hx, hsame⟩ := hpre.1.at
      exact ⟨⟨x, hx, hsame ▸ hpre.2.commit (of_decide_eq_true hflag)⟩, hpre⟩
    · rintro t - ⟨hjoined, hsince, hrecorded⟩
      exact ⟨trivial, hsince.settled hrecorded fun _ => hjoined⟩
  · refine Spec.bind (Q := fun _ _ => True) (modifyMeta_heights fun t h _ => ⟨?_, trivial⟩)
      fun _ => Safe.pure _
    exact h.raiseMeta rfl rfl (le_refl _) (le_max_left _ _) (le_trans h.commit_le (le_max_left _ _))
      (max_le_max h.lock_le (le_refl _))
  · refine Spec.bind (Q := fun _ _ => True) (modifyMeta_heights fun t h _ => ⟨?_, trivial⟩)
      fun _ => Safe.pure _
    exact h.raiseMeta rfl rfl (le_refl _) (le_max_left _ _) h.commit_le
      (le_trans h.lock_le (le_max_left _ _))

theorem saves_heights : (heights S).Saves env where
  save C _ p := saveToXdb_heights hS hcounts hwrite C p
  execute _ p := (executeBlock_heights hS hcounts hwrite p).pre fun _ _ h => h.1
  exhaust _ := .modify fun _ hs _ =>
    ⟨⟨hs.1.of_same rfl rfl rfl, { hs.2 with }⟩, .of_same rfl (.refl _), trivial⟩
  cached _ _ := trivial

end

theorem links_heights : (heights S).Links := by
  intro W p q s hs hq
  have hshape := (links_shape () p q s hs.1 hq).1
  rcases resetPrevBlock_cases p q s with h | h
  · rw [h]
    exact ⟨hs, .refl s, trivial⟩
  · rw [h] at hshape ⊢
    exact ⟨⟨hshape, hs.2.relink (fun _ => rfl) fun _ => le_refl _⟩,
      .relink (fun _ => rfl) fun _ => le_refl _, trivial⟩

theorem Forward.newObject (b : BlockObject) : Forward s { s with objects := s.objects ++ [b] } := by
  refine ⟨grows_append b, .refl _, ?_⟩
  rintro p ⟨o, ho, htouched⟩
  obtain ⟨hlt, -⟩ := List.getElem?_eq_some_iff.mp ho
  exact ⟨o, (List.getElem?_append_left hlt).trans ho, htouched⟩

theorem Heights.keptOk_of_dbBlock (h : Heights S W ∅ s)
    (hgenesis : .authenticated ∈ env.genesisBlock.flags) (hb : dbBlock env s b.height = some b) :
    KeptOk s.acctMeta b := by
  rcases dbBlock_cases hb with hfind | ⟨hzero, rfl⟩
  · exact (h.database b (mem_values_of_find? hfind)).resolve_right
      fun ⟨p, hp, _⟩ => notMem_empty p hp
  · have hleast : ∀ x : UInt64, env.genesisBlock.height ≤ x := by
      intro x
      rw [hzero, le_nat]
      exact Nat.zero_le _
    exact ⟨hgenesis, ⟨hleast _, fun _ => hleast _⟩, fun _ => hleast _⟩

theorem Heights.put {height view : UInt64} (h : Heights S W skip s)
    (hp : Covered W p s) :
    Heights S W skip { s with
      allBlocks := s.allBlocks.insert height ((viewsOf s height).insert view p) } := by
  refine h.setBlocks fun height' q hq => ?_
  rw [viewsOf_insert] at hq
  split at hq
  · rcases mem_values_insert hq with rfl | hold
    · exact .inr hp
    · exact .inl ⟨height, hold⟩
  · exact .inl ⟨height', hq⟩

theorem loads_heights (hgenesis : env.genesisBlock ∈ S)
    (hauth : .authenticated ∈ env.genesisBlock.flags) (hS : ∀ x ∈ S, x.height ≠ Word.top)
    (hcounts : env.flagCounts = true) : (heights S).Loads env where
  enter {_ s b} hs hb hview := by
    have hkept : KeptOk s.acctMeta b := hs.2.keptOk_of_dbBlock hauth hb
    have hget : (s.objects ++ [(⟨b, none, none, 0, false⟩ : BlockObject)])[s.objects.length]? =
        some ⟨b, none, none, 0, false⟩ := by
      rw [List.getElem?_append_right le_rfl, Nat.sub_self]
      rfl
    refine ⟨⟨((loads_shape hgenesis False.elim).enter (i := ()) hs.1 hb hview).1, ?_⟩, ?_, trivial⟩
    · refine (hs.2.newObject hs.1.inv hkept.authenticated hkept.object).put
        (p := s.objects.length) ?_
      intro o ho
      obtain rfl := mem_unique hget ho
      exact ⟨.inl hkept.recorded.cert, fun hflag => .inl (hkept.recorded.commit hflag)⟩
    · exact (Forward.newObject _).trans (.of_same rfl (.refl _))
  loadedMeta _ p target := (loadedMeta_heights hS hcounts p target).pre fun _ _ h => h.1

theorem dropView_heights : (heights S).Drops := by
  rintro W height view p s hs hpre
  obtain ⟨hshape, -, -⟩ := dropView_shape () height view p s hs.1 hpre
  have hclose := hs.2.relink (p := p)
    (f := fun o => { o with prevBlock := none, nextBlock := none, closed := true })
    (fun _ => rfl) fun _ => le_refl _
  refine ⟨⟨hshape, hclose.setBlocks fun height' q hq => .inl ?_⟩, ?_, trivial⟩
  · rw [viewsOf_insert] at hq
    split at hq
    · exact ⟨height, mem_values_filter hq⟩
    · exact ⟨height', hq⟩
  · have hforward : Forward s { s with objects := s.objects.modify p fun o => { o with
        prevBlock := none, nextBlock := none, closed := true } } :=
      .relink (fun _ => rfl) fun _ => le_refl _
    exact hforward.trans (.of_same rfl (.refl _))

theorem emptied_heights (W : Unsaved) {height : UInt64} {t : ChainAccount}
    {m : SortedMap UInt64 (SortedMap UInt64 Ptr)} (hm : Emptied height t m)
    (hold : height ≠ 0 ∨ (viewsOf t height).values = []) :
    Spec ((heights S).frame W) (· = t) (setBlocks m) (fun _ _ => True) := by
  rintro s hs rfl
  exact ⟨⟨hs.1.emptied hm hold, hs.2.setBlocks fun height' q hq =>
    .inl ⟨height', hm.mem_values hq⟩⟩,
    .of_same rfl (.refl _), trivial⟩

theorem commit_heights (hcounts : env.flagCounts = true) (p : Ptr) (hcert : W.cert ⊆ W'.cert)
    (hcommit : W.commit ⊆ W'.commit) (hp : p ∈ W'.commit) :
    (heights S).Moves W W' (CommittableAt S p) (setBlockFlag env p .committed)
      (fun _ => (heights S).owes p) := by
  rintro s hs hpre
  obtain ⟨hinv, hrel, -⟩ := setBlockFlag_moves hcounts (commit_shape () p) hcert hcommit (by decide)
    (fun _ => hp) s hs hpre
  obtain ⟨x, ⟨o, ho, -⟩, -⟩ := hpre
  exact ⟨hinv, hrel, _, Walk.getElem?_setBlockFlag ho .committed, Finset.mem_insert_self _ _⟩

theorem Touched.done (h : Touched p s) (hzero : (s.objects.getD p default).modifiedCount = 0)
    (howes : c → (heights S).owes p s) :
    (heights S).done c p s := by
  obtain ⟨o, ho, htouched⟩ := h
  rw [getD_of_getElem? ho] at hzero
  have hrecorded : Recorded s.acctMeta o.block := htouched.resolve_left (by omega)
  refine ⟨o, ho, hrecorded.cert, fun hc => ?_⟩
  obtain ⟨x, hx, hflag⟩ := howes hc
  obtain rfl := mem_unique ho hx
  exact hrecorded.commit hflag

def storesHeights (env : StoreEnv) (hcounts : env.flagCounts = true) : (heights S).Stores env where
  during := Unsaved.during
  ready _ _ := trivial
  lock _ p := setBlockFlag_moves hcounts (lock_shape () p) (subset_insert _ _)
    (fun _ h => .inl h) (by decide) fun h => absurd h (by decide)
  commit _ p := commit_heights hcounts p (subset_insert _ _) (fun _ h => .inl h)
    (.inr ⟨trivial, rfl⟩)
  promote _ p := commit_heights hcounts p (Set.Subset.refl _)
    (fun _ h => h.imp id fun h => h.1.elim)
    (.inr ⟨trivial, rfl⟩)
  next _ p q := resetNextBlock_safe
    (modifyObject_heights (fun _ => rfl) (fun _ => .inl rfl) fun _ => le_refl _)
  clean _ _ p := Walk.clean_moves dropView_heights p fun _ h hdone => ⟨h.1, h.2.leave hdone⟩
  leave h hdone := ⟨h.1, h.2.leave hdone⟩
  free _ _ := trivial
  close _ _ := modifyObject_heights (fun _ => rfl) (fun _ => .inr rfl) fun _ => le_refl _
  unlink _ _ := modifyObject_heights (fun _ => rfl) (fun _ => .inr rfl) fun _ => le_refl _
  keepStored _ p := setBlockFlag_heights hcounts p (by decide) (by decide) (by decide)
  touched := Touched
  touched_mono hst h := hst.touched _ h
  touch W p := by
    rintro s hs ⟨o, ho⟩
    have hsafe : Safe ((heights S).frame W)
        (modifyObject p fun o => { o with modifiedCount := o.modifiedCount + 1 }) :=
      modifyObject_heights (fun _ => rfl) (fun _ => .inl rfl) fun _ => Nat.le_succ _
    obtain ⟨hinv, hrel, -⟩ := hsafe s hs trivial
    refine ⟨hinv, hrel, { o with modifiedCount := o.modifiedCount + 1 }, ?_, .inl (Nat.succ_pos _)⟩
    show (s.objects.modify p _)[p]? = _
    rw [getElem?_modify_map, ho, map_some, if_pos rfl]
  settled _ htouched hzero howes := htouched.done hzero howes
  drop := dropView_heights
  blank W height t h := emptied_heights W (emptied_insert height t) (.inr (values_nil h))
  erase W height t := emptied_heights W (emptied_erase height t)
  put W view p t o ho hview := by
    rintro s hs rfl
    refine ⟨⟨(put_shape () view p s o ho hview s hs.1 rfl).1, ?_⟩, .of_same rfl (.refl _), trivial⟩
    refine (hs.2.during _ p).put fun x hx => ⟨.inr ?_, fun hflag => ?_⟩
    · exact mem_insert p W.cert
    · exact .inr (.inr ⟨⟨x, hx, hflag⟩, rfl⟩)

/-- The database does not fail, a flag counts as a change, genesis is authenticated, and no block
has the largest height. -/
structure Dependable (S : List XvBlock) (env : StoreEnv) : Prop where
  write : ∀ b, env.setVblock b = true
  counts : env.flagCounts = true
  genesis : env.genesisBlock ∈ S
  authenticated : .authenticated ∈ env.genesisBlock.flags
  bounded : ∀ x ∈ S, x.height ≠ Word.top

section
variable (henv : Dependable S env) (fuel : Nat)

include henv

theorem Dependable.saves : (heights S).Saves env :=
  saves_heights henv.bounded henv.counts henv.write

theorem loadBlock_heights : (heights S).LoadSpec (loadBlock env fuel) :=
  Walk.loadBlock_spec henv.saves links_heights
    (loads_heights henv.genesis henv.authenticated henv.bounded henv.counts)
    (fun _ fuel hload => Walk.raises (storesHeights env henv.counts).toLifts henv.saves
      hload fuel) fuel

theorem loadBlockObject_heights (height : UInt64) :
    Spec ((heights S).frame W) (fun _ => True) (loadBlockObject (loadBlock env fuel) height)
      (fun r s => ∀ p, r = some p → Valid p s) :=
  (Walk.loadBlockObject_spec henv.saves (loadBlock_heights henv fuel) height).conseq
    (fun _ _ h => h) fun _ _ _ h p hp => (h p hp).1.valid

theorem saveBlock_heights (C : Prop) (p : Ptr) :
    Spec ((heights S).frame W) (fun s => Valid p s ∧ (C → (heights S).owes p s))
      (saveBlock env (loadBlock env fuel) fuel p) (fun _ => (heights S).done C p) :=
  Walk.saveBlock_valid (storesHeights env henv.counts) henv.saves (loadBlock_heights henv fuel) C p

theorem storeBlock_heights (this : Ptr) :
    Spec ((heights S).frame W) (Valid this) (storeBlock env fuel this) (fun _ _ => True) :=
  Walk.storeBlock_spec (storesHeights env henv.counts) henv.saves (loadBlock_heights henv fuel)
    links_heights (Walk.raises (storesHeights env henv.counts).toLifts henv.saves
      (loadBlock_heights henv fuel) fuel) this

def Fresh (b : XvBlock) : Prop :=
  .authenticated ∈ b.flags ∧ b.height ≠ Word.top ∧
    (b.height = 0 ∨ (.stored ∉ b.flags ∧ .connected ∉ b.flags))

omit henv in
theorem Fresh.object (h : Fresh b) (m : AcctMeta) : ObjectOk m ⟨b, none, none, 0, false⟩ := by
  obtain hzero | ⟨hstored, hconnected⟩ := h.2.2
  · have hleast : ∀ x : UInt64, b.height ≤ x := by
      intro x
      rw [hzero, le_nat]
      exact Nat.zero_le _
    exact ⟨fun _ => .inr ⟨hleast _, fun _ => hleast _⟩, fun _ => hleast _⟩
  · exact ⟨fun hflag => absurd hflag hstored, fun hflag => absurd hflag hconnected⟩

theorem storeNewObject_heights (hb : Backed S b) (hauth : .authenticated ∈ b.flags) :
    Spec ((heights S).frame W) (fun s => ObjectOk s.acctMeta ⟨b, none, none, 0, false⟩)
      (do let p ← newObject b
          let _ ← storeBlock env fuel p)
      (fun _ _ => True) := by
  refine Spec.bind (Q := fun p => Valid p) (fun s hs hok => ⟨⟨?_, ?_⟩, .newObject _, ?_⟩) fun p =>
    Spec.bind (storeBlock_heights henv fuel p) fun _ => (Safe.pure ()).spec
  · exact hs.1.newObject hb fun h => h.elim
  · exact hs.2.newObject hs.1.inv hauth hok
  · exact (newObject_spec (P := fun _ => True) hb s hs.1.inv trivial).2.2.valid

theorem call_heights (c : StoreCall) (hc : ∀ b, c = .storeBlock b → b ∈ S ∧ Fresh b) :
    Safe ((heights S).frame W) (call env fuel c) := by
  cases c with
  | storeBlock b =>
    obtain ⟨hb, hfresh⟩ := hc b rfl
    exact (storeNewObject_heights henv fuel (backed_of_mem hb) hfresh.1).pre
      fun s _ _ => hfresh.object s.acctMeta
  | storeObject p =>
    refine Spec.get_bind fun s _ _ => Spec.ite (fun hlt => ?_) fun _ => (Safe.pure ()).spec
    exact Spec.at (valid_of_lt hlt) (Spec.bind
        (storeBlock_heights henv fuel p) fun _ => Safe.pure ())
  | loadBlockObject height =>
    exact Safe.bind (loadBlockObject_heights henv fuel height).safe fun _ => Safe.pure ()
  | executeBlock p =>
    refine Spec.get_bind fun s _ _ => Spec.ite (fun hlt => ?_) fun _ => (Safe.pure ()).spec
    exact Spec.at (valid_of_lt hlt) (Spec.bind
      (executeBlock_heights henv.bounded henv.counts henv.write p) fun _ => Safe.pure ())
  | cleanBlocks keep =>
    exact Walk.cleanBlocks_safe henv.saves (loadBlock_heights henv fuel)
      ((storesHeights env henv.counts).close _) ((storesHeights env henv.counts).erase _) keep

end
end ChainAccount
end TopChain.Store
