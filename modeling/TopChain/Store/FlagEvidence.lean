import TopChain.Lib.Guarantee
import TopChain.Store.ChainAccount

/-!
# What the flags in the block store rest on

A block becomes locked when a child of it is there, committed when that may be locked.
-/
namespace TopChain.Store

open Finset Option List TopChain.Base TopChain.Lib TopChain.Lib.Guarantee SortedMap

def ChildOf (c x : XvBlock) : Prop := x.blockHash = c.lastBlockHash ∧ x.height + 1 = c.height

def SameBody (a b : XvBlock) : Prop := a.resetBlockFlags = b.resetBlockFlags

section
variable (S : List XvBlock)

def Lockable (x : XvBlock) : Prop :=
  (∃ b ∈ S, SameBody b x ∧ .locked ∈ b.flags) ∨ ∃ c ∈ S, ChildOf c x

def Committable (x : XvBlock) : Prop :=
  (∃ b ∈ S, SameBody b x ∧ .committed ∈ b.flags) ∨ ∃ c ∈ S, ChildOf c x ∧ Lockable S c

structure Backed (b : XvBlock) : Prop where
  known : ∃ x ∈ S, SameBody x b
  locked : .locked ∈ b.flags → Lockable S b
  committed : .committed ∈ b.flags → Committable S b

end

variable {S : List XvBlock} {a b c x y : XvBlock}

theorem SameBody.field {α : Type} (h : SameBody a b) (f : XvBlock → α)
    (hf : ∀ x : XvBlock, f x.resetBlockFlags = f x) : f a = f b := by
  rw [← hf a, ← hf b, h]

theorem SameBody.height (h : SameBody a b) : a.height = b.height := h.field (·.height) fun _ => rfl

theorem SameBody.blockHash (h : SameBody a b) : a.blockHash = b.blockHash :=
  h.field (·.blockHash) fun _ => rfl

theorem SameBody.lastBlockHash (h : SameBody a b) : a.lastBlockHash = b.lastBlockHash :=
  h.field (·.lastBlockHash) fun _ => rfl

@[refl] theorem SameBody.refl (a : XvBlock) : SameBody a a := rfl

theorem SameBody.symm (h : SameBody a b) : SameBody b a := Eq.symm h

theorem SameBody.trans (h : SameBody a b) (h' : SameBody b c) : SameBody a c := Eq.trans h h'

theorem ChildOf.congr (h : ChildOf c x) (hc : SameBody c b) (hx : SameBody x y) : ChildOf b y := by
  unfold ChildOf at h ⊢
  rw [← hc.lastBlockHash, ← hc.height, ← hx.blockHash, ← hx.height]
  exact h

theorem Lockable.congr (h : Lockable S x) (hx : SameBody x y) : Lockable S y := by
  obtain ⟨b, hb, hsame, hflag⟩ | ⟨c, hc, hchild⟩ := h
  · exact .inl ⟨b, hb, hsame.trans hx, hflag⟩
  · exact .inr ⟨c, hc, hchild.congr (.refl c) hx⟩

theorem Committable.congr (h : Committable S x) (hx : SameBody x y) : Committable S y := by
  obtain ⟨b, hb, hsame, hflag⟩ | ⟨c, hc, hchild, hlock⟩ := h
  · exact .inl ⟨b, hb, hsame.trans hx, hflag⟩
  · exact .inr ⟨c, hc, hchild.congr (.refl c) hx, hlock⟩

theorem Backed.lockable (h : Backed S c) (hchild : ChildOf c x) : Lockable S x := by
  obtain ⟨c', hc', hsame⟩ := h.known
  exact .inr ⟨c', hc', hchild.congr hsame.symm (.refl x)⟩

theorem Backed.committable (h : Backed S c) (hchild : ChildOf c x) (hlock : Lockable S c) :
    Committable S x := by
  obtain ⟨c', hc', hsame⟩ := h.known
  exact .inr ⟨c', hc', hchild.congr hsame.symm (.refl x), hlock.congr hsame.symm⟩

theorem backed_of_mem (h : b ∈ S) : Backed S b :=
  ⟨⟨b, h, .refl b⟩, fun hflag => .inl ⟨b, h, .refl b, hflag⟩,
    fun hflag => .inl ⟨b, h, .refl b, hflag⟩⟩

namespace ChainAccount

def At (p : Ptr) (h : UInt64) (s : ChainAccount) : Prop :=
  ∃ o, s.objects[p]? = some o ∧ o.block.height = h

def Is (p : Ptr) (x : XvBlock) (s : ChainAccount) : Prop :=
  ∃ o, s.objects[p]? = some o ∧ SameBody o.block x

def PrevOk (s : ChainAccount) (o : BlockObject) : Prop :=
  ∀ q, o.prevBlock = some q → ∃ o', s.objects[q]? = some o' ∧ ChildOf o.block o'.block

def CacheOk (s : ChainAccount) (m : SortedMap UInt64 (SortedMap UInt64 Ptr)) : Prop :=
  ∀ e ∈ m.entries, ∀ p ∈ e.2.values, At p e.1 s

structure Inv (S : List XvBlock) (s : ChainAccount) : Prop where
  objects : ∀ (p : Ptr) o, s.objects[p]? = some o → Backed S o.block ∧ PrevOk s o
  cache : CacheOk s s.allBlocks
  stored : ∀ b ∈ s.vblocks.values, Backed S b

def Evolves (s t : ChainAccount) : Prop :=
  ∀ (p : Ptr) o, s.objects[p]? = some o → ∃ o', t.objects[p]? = some o' ∧
    SameBody o'.block o.block ∧
    (.committed ∈ o.block.flags → .committed ∈ o'.block.flags)

theorem Evolves.refl (s : ChainAccount) : Evolves s s := fun _ o h => ⟨o, h, .refl _, id⟩

variable {s t : ChainAccount} {m : SortedMap UInt64 (SortedMap UInt64 Ptr)} {p : Ptr}
  {P : ChainAccount → Prop}

theorem Evolves.trans {u : ChainAccount} (h : Evolves s t) (h' : Evolves t u) : Evolves s u := by
  intro p o ho
  obtain ⟨o₁, ho₁, hsame₁, hcommit₁⟩ := h p o ho
  obtain ⟨o₂, ho₂, hsame₂, hcommit₂⟩ := h' p o₁ ho₁
  exact ⟨o₂, ho₂, hsame₂.trans hsame₁, fun hc => hcommit₂ (hcommit₁ hc)⟩

theorem Evolves.of_objects (h : t.objects = s.objects) : Evolves s t := by
  intro p o ho
  exact ⟨o, by rw [h]; exact ho, .refl _, id⟩

/-- Objects stay, and lose no flags but those that `save_to_xdb` and `execute_block` take back. -/
def Grows (s t : ChainAccount) : Prop :=
  ∀ (p : Ptr) o, s.objects[p]? = some o → ∃ o', t.objects[p]? = some o' ∧
    SameBody o'.block o.block ∧
    ∀ f, f ≠ .stored → f ≠ .executed → f ∈ o.block.flags → f ∈ o'.block.flags

theorem Grows.refl (s : ChainAccount) : Grows s s := fun _ o h => ⟨o, h, .refl _, fun _ _ _ h => h⟩

theorem Grows.trans {u : ChainAccount} (h : Grows s t) (h' : Grows t u) : Grows s u := by
  intro p o ho
  obtain ⟨o₁, ho₁, hsame₁, hflags₁⟩ := h p o ho
  obtain ⟨o₂, ho₂, hsame₂, hflags₂⟩ := h' p o₁ ho₁
  exact ⟨o₂, ho₂, hsame₂.trans hsame₁, fun f hf hf' hmem =>
    hflags₂ f hf hf' (hflags₁ f hf hf' hmem)⟩

theorem Grows.of_objects (h : t.objects = s.objects) : Grows s t :=
  fun _ o ho => ⟨o, h ▸ ho, .refl _, fun _ _ _ hmem => hmem⟩

theorem Grows.evolves (h : Grows s t) : Evolves s t := by
  intro p o ho
  obtain ⟨o', ho', hsame, hflags⟩ := h p o ho
  exact ⟨o', ho', hsame, hflags .committed (by decide) (by decide)⟩

def frame (S : List XvBlock) : Frame ChainAccount where
  inv := Inv S
  rel := Evolves
  refl := Evolves.refl
  trans := Evolves.trans

theorem stable_at (p : Ptr) (h : UInt64) : Stable (frame S) (At p h) := by
  rintro s t hst ⟨o, ho, hh⟩
  obtain ⟨o', ho', hsame, -⟩ := hst p o ho
  exact ⟨o', ho', hsame.height.trans hh⟩

theorem stable_is (p : Ptr) (x : XvBlock) : Stable (frame S) (Is p x) := by
  rintro s t hst ⟨o, ho, hx⟩
  obtain ⟨o', ho', hsame, -⟩ := hst p o ho
  exact ⟨o', ho', hsame.trans hx⟩

theorem CacheOk.evolve (h : CacheOk s m) (hst : Evolves s t) : CacheOk t m :=
  fun e he p hp => stable_at (S := []) p e.1 s t hst (h e he p hp)

theorem PrevOk.evolve {o o' : BlockObject} (h : PrevOk s o) (hst : Evolves s t)
    (hprev : o'.prevBlock = o.prevBlock) (hsame : SameBody o'.block o.block) :
    PrevOk t o' := by
  intro q hq
  obtain ⟨p, hp, hchild⟩ := h q (hprev ▸ hq)
  obtain ⟨p', hp', hsame', -⟩ := hst q p hp
  exact ⟨p', hp', hchild.congr hsame.symm hsame'.symm⟩

theorem getD_of_getElem? {o : BlockObject} (h : s.objects[p]? = some o) :
    s.objects.getD p default = o := by
  rw [getD_eq_getElem?_getD, h]
  rfl

theorem object_read {F : Frame ChainAccount} (p : Ptr) :
    Spec F P (object p) (fun o s => o = s.objects.getD p default ∧ P s) :=
  .read (fun s : ChainAccount => s.objects.getD p default) fun _ => rfl

theorem resetNextBlock_safe {F : Frame ChainAccount} {q : Ptr}
    (h : Safe F (modifyObject p fun o => { o with nextBlock := some q })) :
    Safe F (resetNextBlock p q) := by
  refine .bind (object_read p).safe fun o => .bind (object_read q).safe fun d => ?_
  exact .ite (.bind h fun _ => .pure _) (.pure _)

section
variable {F : Frame ChainAccount} {P : ChainAccount → Prop} {β : Type} {R : β → ChainAccount → Prop}

theorem object_bind {k : BlockObject → StoreM β} (p : Ptr)
    (hk : ∀ s, F.inv s → P s → Spec F (· = s) (k (s.objects.getD p default)) R) :
    Spec F P (object p >>= k) R :=
  .read_bind _ (fun _ => rfl) hk

theorem checkBlockFlag_bind {k : Bool → StoreM β} (p : Ptr) (f : BlockFlag)
    (hk : ∀ s, F.inv s → P s →
      Spec F (· = s) (k ((s.objects.getD p default).block.checkBlockFlag f)) R) :
    Spec F P (checkBlockFlag p f >>= k) R :=
  .read_bind _ (fun _ => rfl) hk

end

theorem getElem?_modify_map (p q : Ptr) (f : BlockObject → BlockObject) :
    (s.objects.modify p f)[q]? = (s.objects[q]?).map fun o => if p = q then f o else o := by
  rw [List.getElem?_modify]
  cases s.objects[q]? <;> rfl

structure Kept (S : List XvBlock) (s : ChainAccount) (o o' : BlockObject) : Prop where
  same : SameBody o'.block o.block
  locked : .locked ∈ o'.block.flags → Lockable S o.block
  committed : .committed ∈ o'.block.flags → Committable S o.block
  keeps : .committed ∈ o.block.flags → .committed ∈ o'.block.flags
  prev : PrevOk s { o with prevBlock := o'.prevBlock }

theorem modifyObject_spec {f : BlockObject → BlockObject}
    (h : ∀ s o, Inv S s → P s → s.objects[p]? = some o → Kept S s o (f o)) :
    Spec (frame S) P (modifyObject p f) (fun _ _ => True) := by
  refine .modify fun s hs hp => ?_
  have hevolve : Evolves s { s with objects := s.objects.modify p f } := by
    intro q o ho
    refine ⟨if p = q then f o else o, ?_, ?_⟩
    · rw [getElem?_modify_map, ho]
      rfl
    · split
      · rename_i hpq
        subst hpq
        exact ⟨(h s o hs hp ho).same, (h s o hs hp ho).keeps⟩
      · exact ⟨.refl _, id⟩
  refine ⟨⟨?_, hs.cache.evolve hevolve, hs.stored⟩, hevolve, trivial⟩
  intro q o' ho'
  have ho'' : (s.objects.modify p f)[q]? = some o' := ho'
  rw [getElem?_modify_map] at ho''
  obtain ⟨o, ho, rfl⟩ := map_eq_some_iff.mp ho''
  obtain ⟨hbacked, hprev⟩ := hs.objects q o ho
  split
  · rename_i hpq
    subst hpq
    have hkept := h s o hs hp ho
    refine ⟨⟨?_, ?_, ?_⟩, ?_⟩
    · obtain ⟨x, hx, hsame⟩ := hbacked.known
      exact ⟨x, hx, hsame.trans hkept.same.symm⟩
    · exact fun hflag => (hkept.locked hflag).congr hkept.same.symm
    · exact fun hflag => (hkept.committed hflag).congr hkept.same.symm
    · exact hkept.prev.evolve hevolve rfl hkept.same
  · exact ⟨hbacked, hprev.evolve hevolve rfl (.refl _)⟩

theorem modify_safe {f : ChainAccount → ChainAccount} (hobjects : ∀ s, (f s).objects = s.objects)
    (hcache : ∀ s, (f s).allBlocks = s.allBlocks) (hstored : ∀ s, (f s).vblocks = s.vblocks) :
    Safe (frame S) (modify f) := by
  refine .modify fun s hs _ => ?_
  have hevolve : Evolves s (f s) := Evolves.of_objects (hobjects s)
  refine ⟨⟨?_, ?_, ?_⟩, hevolve, trivial⟩
  · intro p o ho
    rw [hobjects] at ho
    obtain ⟨hbacked, hprev⟩ := hs.objects p o ho
    exact ⟨hbacked, hprev.evolve hevolve rfl (.refl _)⟩
  · rw [hcache]
    exact hs.cache.evolve hevolve
  · rw [hstored]
    exact hs.stored

theorem newObject_spec (hb : Backed S b) :
    Spec (frame S) P (newObject b) (fun p s => Is p b s) := by
  intro s hs _
  have hget : ∀ (q : Ptr) o, s.objects[q]? = some o →
      (s.objects ++ [⟨b, none, none, 0, false⟩])[q]? = some o := by
    intro q o ho
    have hlt : q < s.objects.length := (List.getElem?_eq_some_iff.mp ho).1
    rw [List.getElem?_append_left hlt]
    exact ho
  have hevolve : Evolves s { s with objects := s.objects ++ [⟨b, none, none, 0, false⟩] } :=
    fun q o ho => ⟨o, hget q o ho, .refl _, id⟩
  refine ⟨⟨?_, hs.cache.evolve hevolve, hs.stored⟩, hevolve, ?_⟩
  · intro q o ho
    have ho' : (s.objects ++ [⟨b, none, none, 0, false⟩])[q]? = some o := ho
    rw [List.getElem?_append] at ho'
    split at ho'
    · obtain ⟨hbacked, hprev⟩ := hs.objects q o ho'
      exact ⟨hbacked, hprev.evolve hevolve rfl (.refl _)⟩
    · obtain ⟨hlt, rfl⟩ := List.getElem?_eq_some_iff.mp ho'
      rw [getElem_singleton]
      exact ⟨hb, fun q hq => by cases hq⟩
  · refine ⟨⟨b, none, none, 0, false⟩, ?_, .refl _⟩
    show (s.objects ++ [⟨b, none, none, 0, false⟩])[s.objects.length]? = _
    rw [List.getElem?_append_right le_rfl, Nat.sub_self]
    rfl

theorem modifyObject_safe {f : BlockObject → BlockObject} (hblock : ∀ o, (f o).block = o.block)
    (hprev : ∀ o, (f o).prevBlock = o.prevBlock ∨ (f o).prevBlock = none) :
    Safe (frame S) (modifyObject p f) := by
  refine modifyObject_spec fun s o hs _ ho => ?_
  obtain ⟨hbacked, hok⟩ := hs.objects p o ho
  refine ⟨?_, ?_, ?_, ?_, ?_⟩
  · rw [hblock]
  · rw [hblock]
    exact hbacked.locked
  · rw [hblock]
    exact hbacked.committed
  · rw [hblock]
    exact id
  · intro q hq
    rcases hprev o with h | h
    · exact hok q (h ▸ hq)
    · rw [h] at hq
      cases hq

theorem setBlockFlag_spec {env : StoreEnv} {f : BlockFlag}
    (hlocked : f = .locked → ∀ s o, Inv S s → P s → s.objects[p]? = some o → Lockable S o.block)
    (hcommitted : f = .committed → ∀ s o, Inv S s → P s → s.objects[p]? = some o →
      Committable S o.block) :
    Spec (frame S) P (setBlockFlag env p f) (fun _ _ => True) := by
  refine modifyObject_spec fun s o hs hp ho => ?_
  obtain ⟨hbacked, hok⟩ := hs.objects p o ho
  refine ⟨rfl, ?_, ?_, ?_, hok⟩
  · intro hflag
    rcases (XvBlock.mem_setBlockFlag _ _ _).mp hflag with hf | hflag
    · exact hlocked hf.symm s o hs hp ho
    · exact hbacked.locked hflag
  · intro hflag
    rcases (XvBlock.mem_setBlockFlag _ _ _).mp hflag with hf | hflag
    · exact hcommitted hf.symm s o hs hp ho
    · exact hbacked.committed hflag
  · exact fun hflag => (XvBlock.mem_setBlockFlag _ _ _).mpr (.inr hflag)

theorem setBlockFlag_safe {env : StoreEnv} {f : BlockFlag} (hlocked : f ≠ .locked)
    (hcommitted : f ≠ .committed) : Safe (frame S) (setBlockFlag env p f) :=
  setBlockFlag_spec (fun h => absurd h hlocked) fun h => absurd h hcommitted

theorem removeBlockFlag_safe {f : BlockFlag} (hf : f ≠ .committed) :
    Safe (frame S) (removeBlockFlag p f) := by
  refine modifyObject_spec fun s o hs _ ho => ?_
  obtain ⟨hbacked, hok⟩ := hs.objects p o ho
  refine ⟨rfl, ?_, ?_, ?_, hok⟩
  · exact fun hflag => hbacked.locked (mem_of_mem_erase hflag)
  · exact fun hflag => hbacked.committed (mem_of_mem_erase hflag)
  · exact fun hflag => mem_erase.mpr ⟨hf.symm, hflag⟩

def Valid (p : Ptr) (s : ChainAccount) : Prop := ∃ o, s.objects[p]? = some o

theorem stable_valid (p : Ptr) : Stable (frame S) (Valid p) := by
  rintro s t hst ⟨o, ho⟩
  obtain ⟨o', ho', -⟩ := hst p o ho
  exact ⟨o', ho'⟩

theorem stable_valids (l : List Ptr) : Stable (frame S) (fun s => ∀ p ∈ l, Valid p s) :=
  fun s t hst h p hp => stable_valid (S := S) p s t hst (h p hp)

theorem At.valid {h : UInt64} (hat : At p h s) : Valid p s := by
  obtain ⟨o, ho, -⟩ := hat
  exact ⟨o, ho⟩

theorem Is.valid (his : Is p x s) : Valid p s := by
  obtain ⟨o, ho, -⟩ := his
  exact ⟨o, ho⟩

theorem resetPrevBlock_spec (p prev : Ptr) :
    Spec (frame S) (Valid prev) (resetPrevBlock p prev) (fun _ _ => True) := by
  refine Spec.bind (object_read p) fun o => Spec.bind (object_read prev) fun d => ?_
  refine Spec.ite (fun hfits => Spec.bind (Q := fun _ _ => True) (modifyObject_spec ?_)
    fun _ => (Safe.pure _).spec) fun _ => (Safe.pure _).spec
  rintro s o' hs ⟨hd, ho, d', hd'⟩ ho'
  obtain ⟨hbacked, -⟩ := hs.objects p o' ho'
  rw [getD_of_getElem? ho'] at ho
  rw [getD_of_getElem? hd'] at hd
  subst ho hd
  refine ⟨rfl, hbacked.locked, hbacked.committed, id, ?_⟩
  rintro q hq
  cases hq
  exact ⟨d, hd', hfits⟩

theorem checkBlockFlag_read {F : Frame ChainAccount} (p : Ptr) (f : BlockFlag) :
    Spec F P (checkBlockFlag p f)
      (fun r s => r = (s.objects.getD p default).block.checkBlockFlag f ∧ P s) :=
  .read (fun s : ChainAccount => (s.objects.getD p default).block.checkBlockFlag f) fun _ => rfl

theorem Inv.viewsAt (hs : Inv S s) {height : UInt64}
    (hp : p ∈ ((s.allBlocks.find? height).getD .empty).values) : At p height s := by
  cases hviews : s.allBlocks.find? height with
  | none =>
    rw [hviews] at hp
    exact absurd hp (not_mem_values_empty p)
  | some views =>
    rw [hviews] at hp
    exact hs.cache (height, views) (find?_eq_some_iff.mp hviews) p hp

theorem CacheOk.insert {height : UInt64} {views : SortedMap UInt64 Ptr} (hm : CacheOk s m)
    (hviews : ∀ p ∈ views.values, At p height s) : CacheOk s (m.insert height views) := by
  intro e he p hp
  rcases mem_insertList he with rfl | hold
  · exact hviews p hp
  · exact hm e hold p hp

def Linked (p q : Ptr) (s : ChainAccount) : Prop := ∃ x y, Is p x s ∧ Is q y s ∧ ChildOf x y

def LockableAt (S : List XvBlock) (p : Ptr) (s : ChainAccount) : Prop :=
  ∃ x, Is p x s ∧ Lockable S x

theorem stable_linked (p q : Ptr) : Stable (frame S) (Linked p q) := by
  rintro s t hst ⟨x, y, hx, hy, hchild⟩
  exact ⟨x, y, stable_is (S := S) p x s t hst hx, stable_is (S := S) q y s t hst hy, hchild⟩

theorem stable_lockableAt (p : Ptr) : Stable (frame S) (LockableAt S p) := by
  rintro s t hst ⟨x, hx, hlock⟩
  exact ⟨x, stable_is (S := S) p x s t hst hx, hlock⟩

section
variable {s : ChainAccount} {p q : Ptr} {o : BlockObject}

theorem Linked.valid_left (h : Linked p q s) : Valid p s := by
  obtain ⟨x, y, hx, -, -⟩ := h
  exact hx.valid

theorem Linked.valid_right (h : Linked p q s) : Valid q s := by
  obtain ⟨x, y, -, hy, -⟩ := h
  exact hy.valid

theorem Inv.linked (hs : Inv S s) (ho : s.objects[p]? = some o) (hq : o.prevBlock = some q) :
    Linked p q s := by
  obtain ⟨o', ho', hchild⟩ := (hs.objects p o ho).2 q hq
  exact ⟨o.block, o'.block, ⟨o, ho, .refl _⟩, ⟨o', ho', .refl _⟩, hchild⟩

theorem Linked.lockable (h : Linked p q s) (hs : Inv S s) (ho : s.objects[q]? = some o) :
    Lockable S o.block := by
  obtain ⟨x, y, ⟨op, hop, hx⟩, ⟨oq, hoq, hy⟩, hchild⟩ := h
  obtain rfl := mem_unique ho hoq
  exact (hs.objects p op hop).1.lockable (hchild.congr hx.symm hy.symm)

theorem Linked.lockableAt (h : Linked p q s) (hs : Inv S s) : LockableAt S q s := by
  obtain ⟨o, ho⟩ := h.valid_right
  exact ⟨o.block, ⟨o, ho, .refl _⟩, h.lockable hs ho⟩

theorem lockableAt_of_flag (hs : Inv S s) (ho : s.objects[p]? = some o)
    (hflag : o.block.checkBlockFlag .locked) : LockableAt S p s :=
  ⟨o.block, ⟨o, ho, .refl _⟩, (hs.objects p o ho).1.locked (of_decide_eq_true hflag)⟩

theorem Linked.committable (h : Linked p q s) (hlock : LockableAt S p s) (hs : Inv S s)
    (ho : s.objects[q]? = some o) : Committable S o.block := by
  obtain ⟨x, y, ⟨op, hop, hx⟩, ⟨oq, hoq, hy⟩, hchild⟩ := h
  obtain ⟨z, ⟨op', hop', hz⟩, hlock⟩ := hlock
  obtain rfl := mem_unique ho hoq
  obtain rfl := mem_unique hop hop'
  exact (hs.objects p op hop).1.committable (hchild.congr hx.symm hy.symm) (hlock.congr hz.symm)

end

theorem Inv.linked_getD {q : Ptr} (hs : Inv S s)
    (hq : (s.objects.getD p default).prevBlock = some q) : Linked p q s := by
  cases ho : s.objects[p]? with
  | none =>
    rw [getD_eq_getElem?_getD, ho] at hq
    cases hq
  | some o =>
    rw [getD_of_getElem? ho] at hq
    exact hs.linked ho hq

end ChainAccount
end TopChain.Store
