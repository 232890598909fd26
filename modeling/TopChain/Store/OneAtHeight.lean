import TopChain.Store.Restart

/-!
# One locked or committed block per height

Rule 2 of `store_block`: "only allow one block at same height for the locked or committed block".
-/
namespace TopChain.Store

open Set List TopChain.Base TopChain.Lib TopChain.Lib.Guarantee SortedMap

/-- A hash belongs to one view of its height, and only blocks of one view of a height may be locked
or committed. -/
structure OneView (S : List XvBlock) : Prop where
  unique : ∀ x ∈ S, ∀ y ∈ S, x.height = y.height → x.blockHash = y.blockHash → x.viewid = y.viewid
  raised : ∀ x ∈ S, ∀ y ∈ S, Raisable S x → Raisable S y → x.height = y.height → x.viewid = y.viewid

section
variable {S : List XvBlock} {b x y : XvBlock} {view : UInt64}

theorem OneView.ownViews (h : OneView S) : OwnViews S := by
  refine ⟨h.unique, ?_⟩
  intro x hx y hy hraise hraise' hheight hne
  exact absurd (h.raised x hx y hy hraise hraise' hheight) hne

theorem OneView.viewid_eq (h : OneView S) (hx : Backed S x) (hy : Backed S y)
    (hraise : Raisable S x)
    (hraise' : Raisable S y) (hheight : x.height = y.height) : x.viewid = y.viewid := by
  obtain ⟨x', hx', hsame⟩ := hx.known
  obtain ⟨y', hy', hsame'⟩ := hy.known
  rw [← hsame.viewid, ← hsame'.viewid]
  apply h.raised x' hx' y' hy' (hraise.congr hsame.symm) (hraise'.congr hsame'.symm)
  rw [hsame.height, hsame'.height, hheight]

theorem OneView.of_slot (h : OneView S) (hb : Backed S b) (hslot : SlotFor S b view) :
    view = b.viewid := by
  obtain hown | ⟨hraise, x, hx, hraise', hheight, rfl⟩ := hslot
  · exact hown
  · exact h.viewid_eq (backed_of_mem hx) hb hraise' hraise hheight

end

namespace ChainAccount
variable {S : List XvBlock} {env : StoreEnv} {s t u : ChainAccount} {W : Set Ptr}
    {height view : UInt64}

def Has (height view : UInt64) (s : ChainAccount) : Prop :=
  ∃ p, (viewsOf s height).find? view = some p

def Secure (height view : UInt64) (s : ChainAccount) : Prop :=
  ∀ view', Has height view' s → Has height view s

def AllRaised (height : UInt64) (s : ChainAccount) : Prop :=
  ∀ view p, (viewsOf s height).find? view = some p → Raised p s

/-- A raised block is alone at its height, and a watched one is raised where all others are. -/
structure GoodAt (env : StoreEnv) (W : Set Ptr) (height : UInt64) (s : ChainAccount) : Prop where
  alone : ∀ view p, (viewsOf s height).find? view = some p → Raised p s →
    ∀ view', Has height view' s → view' = view
  covered : ∀ d, dbBlock env s height = some d → d.height = height → Secure height d.viewid s
  watched : ∀ q ∈ W, At q height s → Raised q s → AllRaised height s

variable {p : Ptr}

theorem At.grows (h : At p height s) (hst : Grows s t) : At p height t :=
  stable_at (S := []) p height s t hst.evolves h

theorem Has.of_views (h : Has height view s) (hviews : viewsOf t height = viewsOf s height) :
    Has height view t := by
  unfold Has
  rw [hviews]
  exact h

theorem Secure.of_views (h : Secure height view s) (hviews : viewsOf t height = viewsOf s height) :
    Secure height view t :=
  fun view' hhas => (h view' (hhas.of_views hviews.symm)).of_views hviews

theorem not_has_of_empty (hempty : viewsOf s height = .empty) : ¬ Has height view s := by
  unfold Has
  rw [hempty]
  rintro ⟨p, hp⟩
  cases hp

theorem GoodAt.of_empty (hempty : viewsOf s height = .empty) : GoodAt env W height s where
  alone _ p hp := absurd ⟨p, hp⟩ (not_has_of_empty hempty)
  covered _ _ _ _ hhas := absurd hhas (not_has_of_empty hempty)
  watched _ _ _ _ _ p hp := absurd ⟨p, hp⟩ (not_has_of_empty hempty)

theorem GoodAt.keep (h : GoodAt env W height s) (hs : Inv S s) (hgrows : Grows s t)
    (hback : ∀ p, At p height s ∨ p ∈ W → At p height t → Raised p t → At p height s ∧ Raised p s)
    (hviews : viewsOf t height = viewsOf s height)
    (hdb : dbBlock env t height = dbBlock env s height) :
    GoodAt env W height t where
  alone view p hp hraised view' hhas := by
    rw [hviews] at hp
    have hat : At p height s := hs.viewsAt (mem_values_of_find? hp)
    exact h.alone view p hp (hback p (.inl hat) (hat.grows hgrows) hraised).2 view'
      (hhas.of_views hviews.symm)
  covered d hd hheight := by
    rw [hdb] at hd
    exact (h.covered d hd hheight).of_views hviews
  watched q hq hat hraised view p hp := by
    rw [hviews] at hp
    obtain ⟨hat', hraised'⟩ := hback q (.inr hq) hat hraised
    exact (h.watched q hq hat' hraised' view p hp).grows hgrows

structure Stage where
  opened : Set Ptr
  watched : Set Ptr

def Stage.Closed (i : Stage) (height : UInt64) (s : ChainAccount) : Prop :=
  ∀ p ∈ i.opened, ¬ At p height s

theorem Stage.Closed.back {i j : Stage} (h : j.Closed height t) (hst : Grows s t)
    (hopened : i.opened ⊆ j.opened) : i.Closed height s :=
  fun p hp hat => h p (hopened hp) (hat.grows hst)

structure OneAt (S : List XvBlock) (env : StoreEnv) (i : Stage) (s : ChainAccount) : Prop where
  shape : Shape S False s
  lastCert : ∀ b, s.lastCert = some b → Backed S b
  heights : ∀ height, i.Closed height s → GoodAt env i.watched height s

/-- What may be locked or committed is as secure as before, and whatever enters the cache is locked
or committed. -/
structure Onward (S : List XvBlock) (s t : ChainAccount) : Prop where
  grows : Grows s t
  secure : ∀ x ∈ S, Raisable S x → Secure x.height x.viewid s → Secure x.height x.viewid t
  enters : ∀ height view p, (viewsOf t height).find? view = some p →
    (viewsOf s height).find? view = some p ∨ Raised p t

theorem Onward.refl (s : ChainAccount) : Onward S s s :=
  ⟨.refl s, fun _ _ _ h => h, fun _ _ _ h => .inl h⟩

theorem Onward.trans (h : Onward S s t) (h' : Onward S t u) : Onward S s u where
  grows := h.grows.trans h'.grows
  secure x hx hraise hsecure := h'.secure x hx hraise (h.secure x hx hraise hsecure)
  enters height view p hp := by
    rcases h'.enters height view p hp with hp | hraised
    · rcases h.enters height view p hp with hp | hraised
      · exact .inl hp
      · exact .inr (hraised.grows h'.grows)
    · exact .inr hraised

theorem Onward.of_views (hgrows : Grows s t)
    (hviews : ∀ height, viewsOf t height = viewsOf s height) :
    Onward S s t where
  grows := hgrows
  secure _ _ _ hsecure := hsecure.of_views (hviews _)
  enters height view p hp := by
    rw [hviews] at hp
    exact .inl hp

/-- The block is never raised, or its height is open, or the cache has its view. -/
def Writable (S : List XvBlock) (i : Stage) (p : Ptr) (s : ChainAccount) : Prop :=
  ∃ x ∈ S, Is p x s ∧ (Raisable S x →
    (∃ q ∈ i.opened, At q x.height s) ∨ Secure x.height x.viewid s)

theorem Writable.onward {i : Stage} (h : Writable S i p s) (hst : Onward S s t) :
    Writable S i p t := by
  obtain ⟨x, hx, his, hwritable⟩ := h
  refine ⟨x, hx, stable_is (S := S) p x s t hst.grows.evolves his, fun hraise => ?_⟩
  rcases hwritable hraise with ⟨q, hq, hat⟩ | hsecure
  · exact .inl ⟨q, hq, hat.grows hst.grows⟩
  · exact .inr (hst.secure x hx hraise hsecure)

def oneAt (S : List XvBlock) (env : StoreEnv) : Walk S Stage where
  inv := OneAt S env
  rel := Onward S
  refl := Onward.refl
  trans := Onward.trans
  base h := h.shape.inv
  keyed hown _ _ h := h.shape.keyed hown
  grows h := h.grows
  savable := Writable S
  savable_mono hst h := h.onward hst
  owes _ _ := True
  owes_mono _ h := h
  done _ _ _ := True
  done_mono _ h := h

structure Calm (s t : ChainAccount) : Prop where
  grows : Grows s t
  back : ∀ p height, At p height t → Raised p t → At p height s ∧ Raised p s

theorem Calm.refl (s : ChainAccount) : Calm s s := ⟨.refl s, fun _ _ hat hraised => ⟨hat, hraised⟩⟩

theorem Calm.trans (h : Calm s t) (h' : Calm t u) : Calm s u where
  grows := h.grows.trans h'.grows
  back p height hat hraised := by
    obtain ⟨hat', hraised'⟩ := h'.back p height hat hraised
    exact h.back p height hat' hraised'

theorem raised_of_object (h : t.objects[p]? = s.objects[p]?) (hat : At p height t)
    (hraised : Raised p t) : At p height s ∧ Raised p s := by
  obtain ⟨o, ho, hheight⟩ := hat
  obtain ⟨o', ho', hflag⟩ := hraised
  rw [h] at ho ho'
  exact ⟨⟨o, ho, hheight⟩, ⟨o', ho', hflag⟩⟩

theorem Calm.of_objects (h : t.objects = s.objects) : Calm s t :=
  ⟨.of_objects h, fun _ _ => raised_of_object (by rw [h])⟩

theorem Calm.raised (h : Calm s t) (hraised : Raised p t) : Raised p s := by
  obtain ⟨o, ho, hflag⟩ := hraised
  exact (h.back p o.block.height ⟨o, ho, rfl⟩ ⟨o, ho, hflag⟩).2

theorem calm_modify {f : BlockObject → BlockObject} (hf : Mild f)
    (hback : ∀ o g, g = .locked ∨ g = .committed → g ∈ (f o).block.flags → g ∈ o.block.flags) :
    Calm s { s with objects := s.objects.modify p f } := by
  refine ⟨grows_modify hf, fun q height hat hraised => ?_⟩
  -- the object before the change
  have hold : ∀ o', (s.objects.modify p f)[q]? = some o' → ∃ o, s.objects[q]? = some o ∧
      o'.block.height = o.block.height ∧
      ∀ g, g = .locked ∨ g = .committed → g ∈ o'.block.flags → g ∈ o.block.flags := by
    intro o' ho'
    rw [getElem?_modify_map] at ho'
    obtain ⟨o, ho, rfl⟩ := Option.map_eq_some_iff.mp ho'
    refine ⟨o, ho, ?_⟩
    split
    · exact ⟨(hf.same o).height, hback o⟩
    · exact ⟨rfl, fun _ _ h => h⟩
  constructor
  · obtain ⟨o', ho', hheight⟩ := hat
    obtain ⟨o, ho, heq, -⟩ := hold o' ho'
    exact ⟨o, ho, heq.symm.trans hheight⟩
  · obtain ⟨o', ho', hflag⟩ := hraised
    obtain ⟨o, ho, -, hkept⟩ := hold o' ho'
    exact ⟨o, ho, hflag.imp (hkept _ (.inl rfl)) (hkept _ (.inr rfl))⟩

theorem GoodAt.calm (h : GoodAt env W height s) (hs : Inv S s) (hcalm : Calm s t)
    (hviews : viewsOf t height = viewsOf s height)
    (hdb : dbBlock env t height = dbBlock env s height) :
    GoodAt env W height t :=
  h.keep hs hcalm.grows (fun p _ => hcalm.back p height) hviews hdb

structure Still (s t : ChainAccount) : Prop extends Calm s t where
  cache : t.allBlocks = s.allBlocks
  stored : t.vblocks = s.vblocks

theorem Still.views (h : Still s t) (height : UInt64) : viewsOf t height = viewsOf s height := by
  unfold viewsOf
  rw [h.cache]

theorem Still.dbBlock (h : Still s t) (height : UInt64) :
    dbBlock env t height = dbBlock env s height := by
  unfold ChainAccount.dbBlock
  rw [h.stored]

def still (S : List XvBlock) (env : StoreEnv) (i : Stage) : Frame ChainAccount where
  inv := OneAt S env i
  rel := Still
  refl s := ⟨.refl s, rfl, rfl⟩
  trans h h' := ⟨h.toCalm.trans h'.toCalm, h'.cache.trans h.cache, h'.stored.trans h.stored⟩

theorem OneAt.still {i : Stage} (h : OneAt S env i s) (hshape : Shape S False t)
    (hstill : Still s t)
    (hlast : ∀ b, t.lastCert = some b → Backed S b) : OneAt S env i t := by
  refine ⟨hshape, hlast, fun height hclosed => ?_⟩
  exact (h.heights height (hclosed.back hstill.grows subset_rfl)).calm h.shape.inv hstill.toCalm
    (hstill.views height) (hstill.dbBlock height)

section
variable {i : Stage} {P : ChainAccount → Prop} {p : Ptr} {f : BlockObject → BlockObject}

theorem of_still {α : Type} {m : StoreM α} {Q : α → ChainAccount → Prop}
    (h : Spec (still S env i) P m Q) : Spec ((oneAt S env).frame i) P m Q := by
  intro s hs hp
  obtain ⟨hone, hstill, hq⟩ := h s hs hp
  exact ⟨hone, .of_views hstill.grows hstill.views, hq⟩

theorem modifyObject_still
    (hshape : Spec ((shape S False).frame ()) P (modifyObject p f) (fun _ _ => True)) (hf : Mild f)
    (hback : ∀ o g, g = .locked ∨ g = .committed → g ∈ (f o).block.flags → g ∈ o.block.flags) :
    Spec (still S env i) P (modifyObject p f) (fun _ _ => True) := by
  intro s hs hp
  have hstill : Still s { s with objects := s.objects.modify p f } :=
    ⟨calm_modify hf hback, rfl, rfl⟩
  exact ⟨hs.still (hshape s hs.shape hp).1 hstill hs.lastCert, hstill, trivial⟩

theorem modifyObject_still_safe (hblock : ∀ o, (f o).block = o.block)
    (hprev : ∀ o, (f o).prevBlock = o.prevBlock ∨ (f o).prevBlock = none) :
    Safe (still S env i) (modifyObject p f) := by
  refine modifyObject_still (modifyObject_shape_safe hblock hprev) (.of_block hblock) ?_
  intro o g _ hg
  rw [hblock] at hg
  exact hg

theorem modify_still {g : ChainAccount → ChainAccount} (hobjects : ∀ s, (g s).objects = s.objects)
    (hcache : ∀ s, (g s).allBlocks = s.allBlocks) (hstored : ∀ s, (g s).vblocks = s.vblocks)
    (hlast : ∀ s b, (g s).lastCert = some b → s.lastCert = some b ∨ Backed S b) :
    Safe (still S env i) (modify g) := by
  refine .modify fun s hs _ => ?_
  have hstill : Still s (g s) := ⟨.of_objects (hobjects s), hcache s, hstored s⟩
  refine ⟨hs.still (hs.shape.of_same (hobjects s) (hcache s) (hstored s)) hstill ?_,
    hstill, trivial⟩
  exact fun b hb => (hlast s b hb).elim (hs.lastCert b) id

theorem modifyMeta_still (g : AcctMeta → AcctMeta) : Safe (still S env i) (modifyMeta g) :=
  modify_still (fun _ => rfl) (fun _ => rfl) (fun _ => rfl) fun _ _ h => .inl h

theorem exhaust_still : Safe (still S env i) (modify fun s => { s with exhausted := true }) :=
  modify_still (fun _ => rfl) (fun _ => rfl) (fun _ => rfl) fun _ _ h => .inl h

theorem setLastCert_still {b : XvBlock} (hb : Backed S b) :
    Safe (still S env i) (modify fun s => { s with lastCert := some b }) :=
  modify_still (fun _ => rfl) (fun _ => rfl) (fun _ => rfl) fun _ _ h =>
    .inr (Option.some.inj h ▸ hb)

theorem flag_still {f : BlockFlag} (hlocked : f ≠ .locked) (hcommitted : f ≠ .committed) :
    Safe (still S env i) (setBlockFlag env p f) := by
  refine modifyObject_still (setBlockFlag_shape (setBlockFlag_safe hlocked hcommitted)) mild_set ?_
  intro o g hg hmem
  rcases (XvBlock.mem_setBlockFlag _ _ g).mp hmem with rfl | hold
  · exact absurd hg (not_or.mpr ⟨hlocked, hcommitted⟩)
  · exact hold

theorem unflag_still {f : BlockFlag} (hf : f = .stored ∨ f = .executed) :
    Safe (still S env i) (removeBlockFlag p f) :=
  modifyObject_still (removeBlockFlag_shape p hf) (mild_remove hf) fun _ _ _ hg =>
    Finset.mem_of_mem_erase hg

theorem resetPrevBlock_still (p q : Ptr) :
    Spec (still S env i) (Valid q) (resetPrevBlock p q) (fun _ _ => True) := by
  intro s hs hq
  have hshape : Shape S False (resetPrevBlock p q s).2 := (links_shape () p q s hs.shape hq).1
  rcases resetPrevBlock_cases p q s with h | h
  · rw [h]
    exact ⟨hs, (still S env i).refl s, trivial⟩
  · rw [h] at hshape ⊢
    have hstill : Still s { s with objects := s.objects.modify p fun o =>
          { o with prevBlock := some q } } :=
      ⟨calm_modify (.of_block fun _ => rfl) fun _ _ _ hg => hg, rfl, rfl⟩
    exact ⟨hs.still hshape hstill hs.lastCert, hstill, trivial⟩

theorem closeBlock_still (p : Ptr) : Safe (still S env i) (closeBlock p) :=
  modifyObject_still_safe (fun _ => rfl) fun _ => .inr rfl

theorem links_one : (oneAt S env).Links := fun _ p q => of_still (resetPrevBlock_still p q)

end

theorem dbBlock_insert (b : XvBlock) (height : UInt64) :
    dbBlock env { s with vblocks := s.vblocks.insert b.height b } height =
      if height = b.height then some b else dbBlock env s height := by
  unfold dbBlock
  by_cases heq : height = b.height
  · rw [if_pos heq, heq, find?_insert_self]
    rfl
  · rw [if_neg heq, find?_insert_of_ne _ _ heq]

theorem OneAt.write {i : Stage} (h : OneAt S env i s) {o : BlockObject}
    (ho : s.objects[p]? = some o) (hraised : Raised p s) (hwritable : Writable S i p s) :
    OneAt S env i { s with vblocks := s.vblocks.insert o.block.height o.block } := by
  obtain ⟨o', ho', hflag⟩ := hraised
  obtain rfl := Option.mem_unique ho ho'
  obtain ⟨x, hx, ⟨o', ho'', hsame⟩, hsecure⟩ := hwritable
  obtain rfl := Option.mem_unique ho ho''
  have hraise : Raisable S x := ((h.shape.inv.objects p o ho).1.raisable hflag).congr hsame
  refine ⟨h.shape.write ho hflag, h.lastCert, fun height hclosed => ?_⟩
  have hgood : GoodAt env i.watched height s := h.heights height hclosed
  refine ⟨hgood.alone, fun d hd hheight => ?_, hgood.watched⟩
  rw [dbBlock_insert] at hd
  split at hd
  · rename_i heq
    obtain rfl := Option.some.inj hd
    rw [← hsame.height, ← heq, ← hsame.viewid] at hsecure
    refine (hsecure hraise).resolve_left ?_
    rintro ⟨q, hq, hat⟩
    exact hclosed q hq hat
  · exact hgood.covered d hd hheight

theorem writes_one (env : StoreEnv) : (oneAt S env).Writes env where
  flag _ _ _ hlocked hcommitted := of_still (flag_still hlocked hcommitted)
  unflag _ _ _ hf := of_still (unflag_still hf)
  acctMeta _ g := of_still (modifyMeta_still g)
  lastCert _ _ hb := of_still (setLastCert_still hb)
  write i p := by
    refine object_bind p fun s hs hpre => ?_
    obtain ⟨⟨⟨o, ho⟩, hwritable⟩, hraised⟩ := hpre
    rw [getD_of_getElem? ho]
    refine Spec.ite (fun _ => ?_) fun _ => (Safe.pure _).spec
    refine Spec.bind (Q := fun _ _ => True) (Spec.modify fun t ht heq => ?_) fun _ =>
      Safe.bind (of_still (modifyObject_still_safe (fun _ => rfl) fun _ => .inl rfl))
        fun _ => Safe.pure _
    subst heq
    exact ⟨ht.write ho hraised hwritable, .of_views (.of_objects rfl) fun _ => rfl, trivial⟩

structure Dropped (height : UInt64) (s t : ChainAccount) : Prop extends Calm s t where
  stored : t.vblocks = s.vblocks
  lastCert : t.lastCert = s.lastCert
  views : ∀ view p, (viewsOf t height).find? view = some p → (viewsOf s height).find? view = some p
  others : ∀ height', height' ≠ height → viewsOf t height' = viewsOf s height'

theorem Dropped.refl (height : UInt64) (s : ChainAccount) : Dropped height s s :=
  ⟨.refl s, rfl, rfl, fun _ _ h => h, fun _ _ => rfl⟩

theorem Dropped.trans (h : Dropped height s t) (h' : Dropped height t u) : Dropped height s u where
  toCalm := h.toCalm.trans h'.toCalm
  stored := h'.stored.trans h.stored
  lastCert := h'.lastCert.trans h.lastCert
  views view p hp := h.views view p (h'.views view p hp)
  others height' hne := (h'.others height' hne).trans (h.others height' hne)

theorem Dropped.dbBlock (h : Dropped height s t) (height' : UInt64) :
    dbBlock env t height' = dbBlock env s height' := by
  unfold ChainAccount.dbBlock
  rw [h.stored]

def dropping (S : List XvBlock) (height : UInt64) : Frame ChainAccount where
  inv := Shape S False
  rel := Dropped height
  refl := Dropped.refl height
  trans := Dropped.trans

def Left (height : UInt64) (e : UInt64 × Ptr) (s : ChainAccount) : Prop :=
  (viewsOf s height).find? e.1 = some e.2 → Raised e.2 s

theorem stable_left (e : UInt64 × Ptr) : Stable (dropping S height) (Left height e) :=
  fun _ _ hst h hfind => (h (hst.views e.1 e.2 hfind)).grows hst.grows

theorem dropView_drops (height view : UInt64) (p : Ptr) :
    Spec (dropping S height) (fun _ => True) (dropView height view p)
      (fun _ s => (viewsOf s height).find? view = none) := by
  intro s hs _
  have hclosed : Shape S False (closeBlock p s).2 := (closeBlock_shape () p s hs trivial).1
  have hcalm : Calm s (closeBlock p s).2 :=
    calm_modify (.of_block fun _ => rfl) fun _ _ _ hg => hg
  have hviews : ∀ height', viewsOf (dropView height view p s).2 height' =
      if height' = height then (viewsOf s height).erase view else viewsOf s height' :=
    fun height' => viewsOf_insert (s := (closeBlock p s).2) s.allBlocks height height' _
  refine ⟨hclosed.drop view False.elim, ⟨hcalm.trans (.of_objects rfl), rfl, rfl, ?_, ?_⟩, ?_⟩
  · intro view' q hq
    rw [hviews, if_pos rfl, find?_erase] at hq
    split at hq
    · cases hq
    · exact hq
  · intro height' hne
    rw [hviews, if_neg hne]
  · show (viewsOf (dropView height view p s).2 height).find? view = none
    rw [hviews, if_pos rfl, find?_erase_self]

theorem dropView_left {P : ChainAccount → Prop} (e : UInt64 × Ptr) :
    Spec (dropping S height) P (dropView height e.1 e.2) (fun _ => Left height e) := by
  refine (dropView_drops height e.1 e.2).conseq (fun _ _ _ => trivial) fun _ t _ hnone hfind => ?_
  rw [hnone] at hfind
  cases hfind

theorem raised_of_flag {f : BlockFlag} (hf : f = .locked ∨ f = .committed)
    (h : (s.objects.getD p default).block.checkBlockFlag f) : Raised p s := by
  rw [getD_eq_getElem?_getD] at h
  cases ho : s.objects[p]? with
  | none =>
    rw [ho] at h
    cases of_decide_eq_true h
  | some o =>
    rw [ho] at h
    refine ⟨o, ho, ?_⟩
    rcases hf with rfl | rfl
    · exact .inl (of_decide_eq_true h)
    · exact .inr (of_decide_eq_true h)

theorem dropWithout_drops {flag : BlockFlag} (hflag : flag = .locked ∨ flag = .committed)
    (l : List (UInt64 × Ptr)) :
    Spec (dropping S height) (fun _ => True) (dropWithout height flag l)
      (fun _ s => ∀ e ∈ l, Left height e s) := by
  induction l with
  | nil => exact .pure fun _ _ _ e he => by cases he
  | cons e l ih =>
    have hrest : Spec (dropping S height) (Left height e) (dropWithout height flag l)
        (fun _ s => ∀ e' ∈ e :: l, Left height e' s) :=
      (ih.frame (stable_left e)).conseq (fun _ _ h => ⟨trivial, h⟩) fun _ s _ h =>
        forall_mem_cons.mpr ⟨h.2, h.1⟩
    refine checkBlockFlag_bind e.2 flag fun s hs _ => .ite (fun _ => ?_) fun hkept => ?_
    · simpa only [dropView, bind_assoc] using (dropView_left e).bind fun _ => hrest
    · refine .at (fun _ => raised_of_flag hflag ?_) hrest
      simpa using hkept

def Lists (height : UInt64) (l : List (UInt64 × Ptr)) (s : ChainAccount) : Prop :=
  ∀ view p, (viewsOf s height).find? view = some p → (view, p) ∈ l

theorem stable_lists (l : List (UInt64 × Ptr)) : Stable (dropping S height) (Lists height l) :=
  fun _ _ hst h view p hp => h view p (hst.views view p hp)

theorem lists_entries (height : UInt64) (s : ChainAccount) :
    Lists height (viewsOf s height).entries s :=
  fun _ _ => find?_eq_some_iff.mp

theorem Lists.allRaised {l : List (UInt64 × Ptr)} (h : Lists height l s)
    (hleft : ∀ e ∈ l, Left height e s) : AllRaised height s :=
  fun view p hp => hleft (view, p) (h view p hp) hp

theorem cleanCandidates_drops {o : BlockObject} (ho : s.objects[p]? = some o)
    (hraised : Raised p s) :
    Spec (dropping S o.block.height) (· = s) (cleanCandidates p)
      (fun _ => AllRaised o.block.height) := by
  obtain ⟨o', ho', hflag⟩ := hraised
  obtain rfl := Option.mem_unique ho ho'
  have hdrop : ∀ flag, flag = .locked ∨ flag = .committed → Spec (dropping S o.block.height) (· = s)
        (dropWithout o.block.height flag (viewsOf s o.block.height).entries)
        (fun _ => AllRaised o.block.height) := fun flag hf =>
    ((dropWithout_drops hf _).frame (stable_lists _)).conseq
      (fun t _ heq => ⟨trivial, heq ▸ lists_entries _ t⟩) fun _ _ _ h => h.2.allRaised h.1
  refine object_bind p ?_
  rintro t ht rfl
  rw [getD_of_getElem? ho]
  refine viewsAt_bind o.block.height ?_
  rintro s hs rfl
  refine .ite (fun _ => hdrop _ (.inr rfl)) fun hcommitted => ?_
  refine .ite (fun _ => hdrop _ (.inl rfl)) fun hlocked => ?_
  exact (hflag.elim (fun h => hlocked (decide_eq_true h)) fun h =>
    hcommitted (decide_eq_true h)).elim

/-- Two blocks of a height that may be raised are of one view, genesis is raised, and only certified
blocks are stored ("has mark as enum_xvblock_flag_authenticated"). -/
structure Trusted (S : List XvBlock) (env : StoreEnv) : Prop extends OneView S where
  genesis : env.genesisBlock ∈ S
  genesisFlags : .locked ∈ env.genesisBlock.flags ∨ .committed ∈ env.genesisBlock.flags
  delivered : ∀ b, env.checks.isDeliver b false = true → .authenticated ∈ b.flags

section
variable (henv : Trusted S env) {i j : Stage}

include henv

theorem Trusted.key_eq (hs : Shape S False s) (hp : (viewsOf s height).find? view = some p)
    (hraised : Raised p s) {x : XvBlock} (hx : Backed S x) (hraise : Raisable S x)
    (hheight : x.height = height) : view = x.viewid := by
  obtain ⟨o, ho, hat⟩ := hs.inv.viewsAt (mem_values_of_find? hp)
  obtain ⟨o', ho', hunder⟩ := hs.keyed henv.ownViews height view p hp
  obtain ⟨o'', ho'', hflag⟩ := hraised
  obtain rfl := Option.mem_unique ho ho'
  obtain rfl := Option.mem_unique ho ho''
  have hbacked : Backed S o.block := (hs.inv.objects p o ho).1
  rw [← hunder]
  exact henv.viewid_eq hbacked hx (hbacked.raisable hflag) hraise (hat.trans hheight.symm)

theorem Trusted.secure (hs : Shape S False s) (hall : AllRaised height s) {x : XvBlock}
    (hx : Backed S x) (hraise : Raisable S x) (hheight : x.height = height) :
    Secure height x.viewid s := by
  rintro view ⟨p, hp⟩
  rw [← henv.key_eq hs hp (hall view p hp) hx hraise hheight]
  exact ⟨p, hp⟩

theorem Trusted.dbBlock (hs : OneAt S env i s) {d : XvBlock} (hd : dbBlock env s height = some d) :
    .locked ∈ d.flags ∨ .committed ∈ d.flags := by
  rcases dbBlock_cases hd with hfind | ⟨-, rfl⟩
  · exact hs.shape.database d (mem_values_of_find? hfind)
  · exact henv.genesisFlags

theorem Trusted.goodAt (hs : OneAt S env i s) (hshape : Shape S False t) (hall : AllRaised height t)
    (hdb : ChainAccount.dbBlock env t height = ChainAccount.dbBlock env s height) :
    GoodAt env W height t where
  alone view p hp hraised view' hhas := by
    obtain ⟨q, hq⟩ := hhas
    obtain ⟨o, ho, hat⟩ := hshape.inv.viewsAt (mem_values_of_find? hp)
    have hbacked : Backed S o.block := (hshape.inv.objects p o ho).1
    obtain ⟨o', ho', hflag⟩ := id hraised
    obtain rfl := Option.mem_unique ho ho'
    have hraise : Raisable S o.block := hbacked.raisable hflag
    rw [henv.key_eq hshape hp hraised hbacked hraise hat,
      henv.key_eq hshape hq (hall view' q hq) hbacked hraise hat]
  covered d hd hheight := by
    rw [hdb] at hd
    have hbacked : Backed S d := hs.shape.inv.backed_of_dbBlock henv.genesis hd
    exact henv.secure hshape hall hbacked (hbacked.raisable (henv.dbBlock hs hd)) hheight
  watched _ _ _ _ := hall

omit henv in
theorem raise_one {P : ChainAccount → Prop} {f : BlockFlag}
    (hshape : Spec ((shape S False).frame ()) P (setBlockFlag env p f) (fun _ _ => True))
    (hopened : i.opened ⊆ j.opened) (hp : p ∈ j.opened) (hwatched : j.watched = i.watched) :
    (oneAt S env).Moves i j P (setBlockFlag env p f) (fun _ _ => True) := by
  intro s hs hpre
  obtain ⟨hshape', hgrows, -⟩ := hshape s hs.shape hpre
  refine ⟨⟨hshape', hs.lastCert, fun height hclosed => ?_⟩, .of_views hgrows fun _ => rfl,
    trivial⟩
  rw [hwatched]
  refine (hs.heights height (hclosed.back hgrows hopened)).keep hs.shape.inv hgrows
    (fun q _ hat => raised_of_object ?_ hat) rfl rfl
  -- another block of the height is as it was
  exact List.getElem?_modify_ne _ _ fun heq => hclosed p hp (heq ▸ hat)

theorem Dropped.one (hs : OneAt S env j s) (hshape : Shape S False t) (hdrop : Dropped height s t)
    (hall : AllRaised height t) (hclosed : ∀ height', height' ≠ height → i.Closed height' t →
      GoodAt env i.watched height' s) : OneAt S env i t ∧ Onward S s t := by
  refine ⟨⟨hshape, ?_, fun height' hclosed' => ?_⟩, ⟨hdrop.grows, ?_, ?_⟩⟩
  · rw [hdrop.lastCert]
    exact hs.lastCert
  · by_cases heq : height' = height
    · subst heq
      exact henv.goodAt hs hshape hall (hdrop.dbBlock height')
    · exact (hclosed height' heq hclosed').calm hs.shape.inv hdrop.toCalm (hdrop.others height' heq)
        (hdrop.dbBlock height')
  · intro x hx hraise hsecure
    by_cases heq : x.height = height
    · rw [heq]
      exact henv.secure hshape hall (backed_of_mem hx) hraise heq
    · exact hsecure.of_views (hdrop.others x.height heq)
  · intro height' view p hp
    by_cases heq : height' = height
    · subst heq
      exact .inl (hdrop.views view p hp)
    · rw [hdrop.others height' heq] at hp
      exact .inl hp

def liftsOne : (oneAt S env).Lifts env where
  during _ i p := ⟨insert p i.opened, i.watched⟩
  ready {_ _ p _} hs hp := by
    obtain ⟨o, ho⟩ := hp
    obtain ⟨x, hx, hsame⟩ := (hs.shape.inv.objects p o ho).1.known
    exact ⟨x, hx, ⟨o, ho, hsame.symm⟩, fun _ => .inl ⟨p, mem_insert p _, o, ho, hsame.height.symm⟩⟩
  lock i p := raise_one (lock_shape () p) (subset_insert p _) (mem_insert p _) rfl
  commit i p := raise_one (commit_shape () p) (subset_insert p _) (mem_insert p _) rfl
  promote i p := raise_one (commit_shape () p) subset_rfl (mem_insert p _) rfl
  next _ p q :=
    of_still (resetNextBlock_safe (modifyObject_still_safe (fun _ => rfl) fun _ => .inl rfl))
  clean c i p := by
    rintro s hs ⟨-, hraised⟩
    obtain ⟨o, ho, -⟩ := id hraised
    obtain ⟨hshape, hdrop, hall⟩ := cleanCandidates_drops ho hraised s hs.shape rfl
    have hgood : ∀ height', height' ≠ o.block.height → i.Closed height' (cleanCandidates p s).2 →
        GoodAt env i.watched height' s := by
      intro height' hne hclosed
      refine hs.heights height' fun q hq hat => ?_
      rcases mem_insert_iff.mp hq with rfl | hq
      · obtain ⟨o', ho', hheight⟩ := hat
        obtain rfl := Option.mem_unique ho ho'
        exact hne hheight.symm
      · exact hclosed q hq (hat.grows hdrop.grows)
    obtain ⟨hone, honward⟩ := hdrop.one henv hs hshape hall hgood
    exact ⟨hone, honward, trivial⟩

omit henv in
theorem GoodAt.withLoaded {b : XvBlock} (h : GoodAt env W height s) (hs : Inv S s)
    (hb : ChainAccount.dbBlock env s b.height = some b)
    (hview : (viewsOf s b.height).find? b.viewid = none)
    (hflag : .locked ∈ b.flags ∨ .committed ∈ b.flags) : GoodAt env W height (withLoaded s b) := by
  have hget := Walk.getElem?_withLoaded s b
  by_cases heq : height = b.height
  · subst heq
    have honly : ∀ view p, (viewsOf (ChainAccount.withLoaded s b) b.height).find? view = some p →
        view = b.viewid ∧ p = s.objects.length := by
      intro view p hp
      rw [viewsOf_withLoaded, if_pos rfl] at hp
      by_cases hown : view = b.viewid
      · rw [hown, find?_insert_self] at hp
        exact ⟨hown, (Option.some.inj hp).symm⟩
      · rw [find?_insert_of_ne _ _ hown] at hp
        obtain ⟨q, hq⟩ := h.covered b hb rfl view ⟨p, hp⟩
        rw [hview] at hq
        cases hq
    refine ⟨?_, ?_, ?_⟩
    · rintro view p hp - view' ⟨q, hq⟩
      exact (honly view' q hq).1.trans (honly view p hp).1.symm
    · intro d hd _ view' ⟨q, hq⟩
      obtain rfl := Option.mem_unique hb hd
      exact ⟨q, (honly view' q hq).1 ▸ hq⟩
    · intro _ _ _ _ view p hp
      rw [(honly view p hp).2]
      exact ⟨_, hget, hflag⟩
  · refine h.keep hs (grows_append _) (fun p _ hat => raised_of_object ?_ hat) ?_ rfl
    · obtain ⟨o, ho, hheight⟩ := hat
      have hne : p ≠ s.objects.length := by
        rintro rfl
        obtain rfl := Option.mem_unique hget ho
        exact heq hheight.symm
      have hlt : p < (s.objects ++ [_]).length := (List.getElem?_eq_some_iff.mp ho).1
      rw [length_append, length_singleton] at hlt
      exact List.getElem?_append_left (Nat.lt_of_le_of_ne (Nat.lt_succ_iff.mp hlt) hne)
    · rw [viewsOf_withLoaded, if_neg heq]

theorem cached_one (hs : OneAt S env i s) (hp : p ∈ (viewsOf s height).values) :
    Writable S i p s := by
  obtain ⟨view, hentry⟩ := mem_values.mp hp
  have hfind : (viewsOf s height).find? view = some p := find?_eq_some_iff.mpr hentry
  obtain ⟨o, ho, hat⟩ := hs.shape.inv.viewsAt hp
  obtain ⟨o', ho', hunder⟩ := hs.shape.keyed henv.ownViews height view p hfind
  obtain rfl := Option.mem_unique ho ho'
  obtain ⟨x, hx, hsame⟩ := (hs.shape.inv.objects p o ho).1.known
  refine ⟨x, hx, ⟨o, ho, hsame.symm⟩, fun _ => .inr fun _ _ => ⟨p, ?_⟩⟩
  rw [hsame.height, hat, hsame.viewid, hunder]
  exact hfind

theorem saves_one : (oneAt S env).Saves env :=
  (writes_one env).saves (fun _ _ _ => trivial) (fun _ => of_still exhaust_still) fun hs hp =>
    cached_one henv hs hp

theorem loads_one : (oneAt S env).Loads env where
  enter {i s b} hs hb hview := by
    obtain ⟨hshape, hgrows, -⟩ := (loads_shape henv.genesis False.elim).enter
      (i := ()) hs.shape hb hview
    have hget := Walk.getElem?_withLoaded s b
    have hbacked : Backed S b := hs.shape.inv.backed_of_dbBlock henv.genesis hb
    have hflag : .locked ∈ b.flags ∨ .committed ∈ b.flags := henv.dbBlock hs hb
    have hraised : Raised s.objects.length (withLoaded s b) := ⟨_, hget, hflag⟩
    have hhas : Has b.height b.viewid (withLoaded s b) := by
      refine ⟨s.objects.length, ?_⟩
      rw [viewsOf_withLoaded, if_pos rfl, find?_insert_self]
    refine ⟨⟨hshape, hs.lastCert, fun height hclosed => ?_⟩, ⟨hgrows, ?_, ?_⟩, ?_⟩
    · exact (hs.heights height (hclosed.back hgrows subset_rfl)).withLoaded hs.shape.inv
        hb hview hflag
    · intro x hx hraise hsecure
      by_cases heq : x.height = b.height
      · rw [heq, henv.viewid_eq (backed_of_mem hx) hbacked hraise (hbacked.raisable hflag) heq]
        exact fun _ _ => hhas
      · refine hsecure.of_views ?_
        rw [viewsOf_withLoaded, if_neg heq]
    · intro height view p hp
      rw [viewsOf_withLoaded] at hp
      split at hp
      · rename_i heq
        by_cases hown : view = b.viewid
        · rw [hown, find?_insert_self] at hp
          exact .inr (Option.some.inj hp ▸ hraised)
        · rw [find?_insert_of_ne _ _ hown] at hp
          exact .inl (heq ▸ hp)
      · exact .inl hp
    · obtain ⟨x, hx, hsame⟩ := hbacked.known
      refine ⟨x, hx, ⟨_, hget, hsame.symm⟩, fun _ => .inr ?_⟩
      rw [hsame.height, hsame.viewid]
      exact fun _ _ => hhas
  loadedMeta _ p target := (Walk.loadedMeta_safe (writes_one env) p target).spec

theorem loadBlock_one (n : Nat) : (oneAt S env).LoadSpec (loadBlock env n) :=
  Walk.loadBlock_spec (saves_one henv) links_one (loads_one henv)
    (fun _ fuel hload => Walk.raises (liftsOne henv) (saves_one henv) hload fuel) n

theorem loadBlockObject_one (fuel : Nat) (height : UInt64) :
    Spec ((oneAt S env).frame i) (fun _ => True) (loadBlockObject (loadBlock env fuel) height)
      (fun r s => ∀ p, r = some p → At p height s ∧ (oneAt S env).savable i p s) :=
  Walk.loadBlockObject_spec (saves_one henv) (loadBlock_one henv fuel) height

theorem connectBlock_one (fuel : Nat) (this : Ptr) (reenter : Nat) :
    Spec ((oneAt S env).frame i) (Valid this)
      (connectBlock env (loadBlock env fuel) fuel this reenter) (fun _ _ => True) :=
  Walk.connectBlock_spec (loadBlock_one henv fuel) links_one
    (Walk.raises (liftsOne henv) (saves_one henv) (loadBlock_one henv fuel) fuel) this reenter

theorem saveBlock_one (fuel : Nat) (p : Ptr) :
    Spec ((oneAt S env).frame i) ((oneAt S env).Ready i p)
      (saveBlock env (loadBlock env fuel) fuel p)
      (fun _ _ => True) :=
  (Walk.saveBlock_spec (saves_one henv) (loadBlock_one henv fuel) fuel False p).conseq
    (fun _ _ h => ⟨h, False.elim⟩) fun _ _ _ _ => trivial

omit henv in
theorem OneAt.emptied (h : OneAt S env i s) {m : SortedMap UInt64 (SortedMap UInt64 Ptr)}
    (hshape : Shape S False { s with allBlocks := m })
    (hviews : ∀ height, viewsOf { s with allBlocks := m } height = viewsOf s height ∨
      viewsOf { s with allBlocks := m } height = .empty) :
    OneAt S env i { s with allBlocks := m } ∧ Onward S s { s with allBlocks := m } := by
  refine ⟨⟨hshape, h.lastCert, fun height hclosed => ?_⟩, ⟨.of_objects rfl, ?_, ?_⟩⟩
  · rcases hviews height with hsame | hempty
    · exact (h.heights height hclosed).calm h.shape.inv (.of_objects rfl) hsame rfl
    · exact .of_empty hempty
  · intro x _ _ hsecure
    rcases hviews x.height with hsame | hempty
    · exact hsecure.of_views hsame
    · exact fun _ hhas => absurd hhas (not_has_of_empty hempty)
  · intro height view p hp
    rcases hviews height with hsame | hempty
    · rw [hsame] at hp
      exact .inl hp
    · exact absurd ⟨p, hp⟩ (not_has_of_empty hempty)

omit henv in
theorem emptied_one {height : UInt64} {t : ChainAccount}
    {m : SortedMap UInt64 (SortedMap UInt64 Ptr)} (hm : Emptied height t m)
    (hold : height ≠ 0 ∨ (viewsOf t height).values = []) :
    Spec ((oneAt S env).frame i) (· = t) (setBlocks m) (fun _ _ => True) := by
  rintro s hs rfl
  obtain ⟨hone, honward⟩ := hs.emptied (hs.shape.emptied hm hold) fun height' => by
    rw [hm]
    split
    · exact .inr rfl
    · exact .inl rfl
  exact ⟨hone, honward, trivial⟩

omit henv in
theorem forget_one : Safe ((oneAt S env).frame i) (setBlocks .empty) := by
  intro s hs _
  have hshape : Shape S False { s with allBlocks := .empty } := by
    refine hs.shape.setBlocks ?_ ?_ fun h => h.elim
    · exact fun e he => by cases he
    · exact fun _ _ _ _ h => by cases h
  obtain ⟨hone, honward⟩ := hs.emptied hshape fun _ => .inr rfl
  exact ⟨hone, honward, trivial⟩

theorem cleanBlocks_one (fuel keep : Nat) :
    Safe ((oneAt S env).frame i) (cleanBlocks env fuel keep) :=
  Walk.cleanBlocks_safe (saves_one henv) (loadBlock_one henv fuel)
    (fun p => of_still (closeBlock_still p))
    (fun height t => emptied_one (emptied_erase height t)) keep

end
end ChainAccount
end TopChain.Store
