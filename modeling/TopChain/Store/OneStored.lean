import TopChain.Store.OneAtHeight

/-!
# Storing and restarting with one block per height

`store_block` looks at the database only when the cache has no block of the height.
-/
namespace TopChain.Store.ChainAccount

open Set Option List TopChain.Base TopChain.Lib TopChain.Lib.Guarantee SortedMap

def prepareSlot (env : StoreEnv) (fuel : Nat) (height : UInt64) : StoreM Unit := do
  if (← viewsAt height).entries.isEmpty then
    setBlocks ((← get).allBlocks.insert height .empty)
    let m := (← get).acctMeta
    if height ≤ m.highestCommitBlockHeight ∨ height ≤ m.highestExecuteBlockHeight ∨
        height ≤ m.highestConnectBlockHeight then
      let _ ← loadBlock env fuel height 0

def takeSlot (env : StoreEnv) (fuel : Nat) (this : Ptr) (b : XvBlock) : StoreM Bool := do
  match ← findSlot b with
  | .refused => return true
  | .free none => storeNew env fuel this
  | .free (some view) =>
    match (← viewsAt b.height).find? view with
    | some existing => storeInSlot env fuel view existing this
    | none => return false

def Seen (env : StoreEnv) (fuel : Nat) (b : XvBlock) (s : ChainAccount) : Prop :=
  (dbBlock env (prepareSlot env fuel b.height s).2 b.height).all (fun d =>
    ((viewsOf (prepareSlot env fuel b.height s).2 b.height).find? d.viewid).isSome) = true

variable {S : List XvBlock} {env : StoreEnv} {s t : ChainAccount} {this : Ptr} {b : XvBlock}

theorem storeBlock_run (fuel : Nat) (this : Ptr) (s : ChainAccount) : storeBlock env fuel this s =
      if !(env.checks.isInputReady (s.objects.getD this default).block true &&
        env.checks.isOutputReady (s.objects.getD this default).block true &&
        env.checks.isDeliver (s.objects.getD this default).block false) then (false, s)
      else takeSlot env fuel this (s.objects.getD this default).block
        (prepareSlot env fuel (s.objects.getD this default).block.height s).2 := by
  have hobject : ∀ f : BlockObject → StoreM Bool,
      (object this >>= f) s = f (s.objects.getD this default) s := fun _ => rfl
  rw [storeBlock, hobject]
  generalize (s.objects.getD this default).block = b
  split
  · rfl
  rw [prepareSlot, Walk.viewsAt_bind_run, Walk.viewsAt_bind_run]
  split
  · let low : Prop := b.height ≤ s.acctMeta.highestCommitBlockHeight ∨
      b.height ≤ s.acctMeta.highestExecuteBlockHeight ∨
        b.height ≤ s.acctMeta.highestConnectBlockHeight
    show (if low then _ else _ : StoreM Bool) _ =
      takeSlot env fuel this b ((if low then _ else _ : StoreM Unit) _).2
    split
    · rfl
    · rfl
  · rfl

def Stage.none : Stage := ⟨∅, ∅⟩

def Stage.storing (this : Ptr) : Stage := ⟨∅, {this}⟩

theorem OneAt.forget (h : OneAt S env (.storing this) s) : OneAt S env .none s := by
  refine ⟨h.shape, h.lastCert, fun height hclosed => ?_⟩
  obtain ⟨halone, hcovered, -⟩ := h.heights height hclosed
  exact ⟨halone, hcovered, fun q hq => absurd hq (notMem_empty q)⟩

theorem OneAt.watch (h : OneAt S env .none s) (hnot : ¬ Raised this s) :
    OneAt S env (.storing this) s := by
  refine ⟨h.shape, h.lastCert, fun height hclosed => ?_⟩
  obtain ⟨halone, hcovered, -⟩ := h.heights height hclosed
  refine ⟨halone, hcovered, fun q hq _ hraised => ?_⟩
  obtain rfl := mem_singleton_iff.mp hq
  exact absurd hraised hnot

/-- The raised blocks of the height are of the block's view, and so is that of the database. -/
structure Fits (env : StoreEnv) (b : XvBlock) (s : ChainAccount) : Prop where
  raised : ∀ view p, (viewsOf s b.height).find? view = some p → Raised p s → view = b.viewid
  stored : ∀ d, dbBlock env s b.height = some d → d.height = b.height →
    d.viewid = b.viewid ∨ Has b.height d.viewid s

theorem Fits.congr {b' : XvBlock} (h : Fits env b s) (hsame : SameBody b b') : Fits env b' s := by
  obtain ⟨hraised, hstored⟩ := h
  rw [hsame.height, hsame.viewid] at hraised hstored
  exact ⟨hraised, hstored⟩

def withPut (s : ChainAccount) (this : Ptr) (b : XvBlock) : ChainAccount :=
  { s with allBlocks := s.allBlocks.insert b.height ((viewsOf s b.height).insert b.viewid this) }

theorem viewsOf_withPut (this : Ptr) (b : XvBlock) (height : UInt64) :
    viewsOf (withPut s this b) height =
      if height = b.height then (viewsOf s b.height).insert b.viewid this else viewsOf s height :=
  viewsOf_insert s.allBlocks b.height height _

theorem has_withPut (s : ChainAccount) (this : Ptr) (b : XvBlock) :
    Has b.height b.viewid (withPut s this b) := by
  refine ⟨this, ?_⟩
  rw [viewsOf_withPut, if_pos rfl, find?_insert_self]

theorem find?_withPut {view : UInt64} {p : Ptr}
    (hp : (viewsOf (withPut s this b) b.height).find? view = some p) :
    view = b.viewid ∧ p = this ∨ view ≠ b.viewid ∧ (viewsOf s b.height).find? view = some p := by
  rw [viewsOf_withPut, if_pos rfl] at hp
  by_cases hview : view = b.viewid
  · rw [hview, find?_insert_self] at hp
    exact .inl ⟨hview, (Option.some.inj hp).symm⟩
  · rw [find?_insert_of_ne _ _ hview] at hp
    exact .inr ⟨hview, hp⟩

theorem GoodAt.withPut (h : GoodAt env {this} b.height s) (hat : At this b.height s)
    (hfits : Fits env b s) : GoodAt env ∅ b.height (withPut s this b) where
  alone view p hp hraised view' hhas := by
    obtain ⟨q, hq⟩ := hhas
    rcases find?_withPut hp with ⟨rfl, rfl⟩ | ⟨hne, hold⟩
    · -- the others are locked or committed as well, so of the same view
      have hall : AllRaised b.height s := h.watched p rfl hat hraised
      rcases find?_withPut hq with ⟨hview', -⟩ | ⟨-, hold'⟩
      · exact hview'
      · exact hfits.raised view' q hold' (hall view' q hold')
    · exact absurd (hfits.raised view p hold hraised) hne
  covered d hd hheight _ _ := by
    by_cases hview : d.viewid = b.viewid
    · rw [hview]
      exact has_withPut s this b
    · obtain ⟨q, hq⟩ := (hfits.stored d hd hheight).resolve_left hview
      refine ⟨q, ?_⟩
      rw [viewsOf_withPut, if_pos rfl, find?_insert_of_ne _ _ hview]
      exact hq
  watched q hq := absurd hq (notMem_empty q)

theorem OneAt.withPut (h : OneAt S env (.storing this) s) {o : BlockObject}
    (ho : s.objects[this]? = some o) (hfits : Fits env o.block s) :
    OneAt S env .none (withPut s this o.block) := by
  refine ⟨h.shape.put ⟨o, ho, rfl⟩ fun _ => ⟨o, ho, rfl⟩, h.lastCert, fun height hclosed => ?_⟩
  by_cases heq : height = o.block.height
  · rw [heq]
    exact (h.heights _ fun p hp => absurd hp (notMem_empty p)).withPut ⟨o, ho, rfl⟩ hfits
  · refine (h.forget.heights height hclosed).calm h.shape.inv (.of_objects rfl) ?_ rfl
    rw [viewsOf_withPut, if_neg heq]

theorem ready_withPut (h : Inv S s) {o : BlockObject} (ho : s.objects[this]? = some o) :
    (oneAt S env).Ready .none this (withPut s this o.block) := by
  obtain ⟨x, hx, hsame⟩ := (h.objects this o ho).1.known
  refine ⟨⟨o, ho⟩, x, hx, ⟨o, ho, hsame.symm⟩, fun _ => .inr fun _ _ => ?_⟩
  rw [hsame.height, hsame.viewid]
  exact has_withPut s this o.block

def Fitting (env : StoreEnv) (this : Ptr) (b : XvBlock) (s : ChainAccount) : Prop :=
  Is this b s ∧ Fits env b s

theorem stable_fitting : Stable (still S env (.storing this)) (Fitting env this b) := by
  rintro s t hst ⟨his, hfits⟩
  refine ⟨stable_is (S := S) this b s t hst.grows.evolves his, fun view p hp hraised => ?_,
    fun d hd hheight => ?_⟩
  · rw [hst.views] at hp
    exact hfits.raised view p hp (hst.raised hraised)
  · rw [hst.dbBlock] at hd
    exact (hfits.stored d hd hheight).imp id fun hhas => hhas.of_views (hst.views b.height)

theorem fitting_any {α : Type} {P : ChainAccount → Prop} {m : StoreM α}
    {Q : α → ChainAccount → Prop}
    (h : Spec (still S env (.storing this)) P m Q) :
    Spec .any (fun s => OneAt S env (.storing this) s ∧ P s ∧ Fitting env this b s) m
      (fun _ s => OneAt S env (.storing this) s ∧ Fitting env this b s) :=
  (h.carry stable_fitting fun _ _ hp => hp).any

theorem put_any {α : Type} {o : BlockObject} {f : Unit → StoreM α}
    (hone : OneAt S env (.storing this) s) (ho : s.objects[this]? = some o)
    (hfits : Fits env o.block s)
    (hf : ∀ u, Spec ((oneAt S env).frame .none) ((oneAt S env).Ready .none this) (f u)
      (fun _ _ => True)) :
    Spec .any (· = s) (setBlocks (s.allBlocks.insert o.block.height
      ((viewsOf s o.block.height).insert o.block.viewid this)) >>= f)
        (fun _ => OneAt S env .none) := by
  rintro t - rfl
  obtain ⟨hinv, -, -⟩ := hf () (withPut t this o.block) (hone.withPut ho hfits)
    (ready_withPut hone.shape.inv ho)
  exact ⟨trivial, trivial, hinv⟩

/-- A search refuses because of a raised block, or leaves none but raised ones. -/
def Searched (height : UInt64) (l : List (UInt64 × Ptr)) (r : Slot) (s : ChainAccount) : Prop :=
  (r = .refused ∧ ∃ e ∈ l, Raised e.2 s) ∨ (r ≠ .refused ∧ ∀ e ∈ l, Left height e s)

theorem searched_cons {height : UInt64} {l : List (UInt64 × Ptr)} {m : StoreM Slot}
    (h : Spec (dropping S height) (fun _ => True) m (Searched height l)) (e : UInt64 × Ptr) :
    Spec (dropping S height) (Left height e) m (Searched height (e :: l)) := by
  refine (h.frame (stable_left e)).conseq (fun _ _ h => ⟨trivial, h⟩) fun r s _ h => ?_
  rcases h.1 with ⟨hr, e', he', hraised⟩ | ⟨hr, hleft⟩
  · exact .inl ⟨hr, e', mem_cons_of_mem e he', hraised⟩
  · exact .inr ⟨hr, forall_mem_cons.mpr ⟨h.2, hleft⟩⟩

section
variable (height : UInt64) (l : List (UInt64 × Ptr)) (found : Option UInt64)
include height l found

theorem slotForCommit_drops :
    Spec (dropping S height) (fun _ => True) (slotForCommit height l found)
      (Searched height l) := by
  induction l generalizing found with
  | nil => exact .pure fun s _ _ => .inr ⟨nofun, forall_mem_nil _⟩
  | cons e l ih =>
    refine checkBlockFlag_bind e.2 .committed fun s _ _ => .ite (fun hflag => ?_) fun _ => ?_
    · exact .at (fun _ => raised_of_flag (.inr rfl) hflag) (searched_cons (ih _) e)
    · exact .bind (dropView_left e) fun _ => searched_cons (ih found) e

theorem slotForLock_drops :
    Spec (dropping S height) (fun _ => True) (slotForLock height l found) (Searched height l) := by
  induction l generalizing found with
  | nil => exact .pure fun s _ _ => .inr ⟨nofun, forall_mem_nil _⟩
  | cons e l ih =>
    refine checkBlockFlag_bind e.2 .committed fun s _ _ => .ite (fun hflag => ?_) fun _ => ?_
    · refine .pure fun t _ ht => .inl ⟨rfl, e, mem_cons_self, ?_⟩
      subst ht
      exact raised_of_flag (.inr rfl) hflag
    refine checkBlockFlag_bind e.2 .locked fun s _ _ => .ite (fun hflag => ?_) fun _ => ?_
    · exact .at (fun _ => raised_of_flag (.inl rfl) hflag) (searched_cons (ih _) e)
    · exact .bind (dropView_left e) fun _ => searched_cons (ih found) e

end

theorem slotForCert_run (viewid : UInt64) (l : List (UInt64 × Ptr)) (found : Option UInt64)
    (s : ChainAccount) :
    (slotForCert viewid l found s).2 = s ∧
      ((slotForCert viewid l found s).1 ≠ .refused → ∀ e ∈ l, ¬ Raised e.2 s) := by
  induction l generalizing found with
  | nil => exact ⟨rfl, fun _ => forall_mem_nil _⟩
  | cons e l ih =>
    have hstep : slotForCert viewid (e :: l) found s =
        if (s.objects.getD e.2 default).block.checkBlockFlag .locked ∨
            (s.objects.getD e.2 default).block.checkBlockFlag .committed then (.refused, s)
        else slotForCert viewid l
          (if (s.objects.getD e.2 default).block.viewid = viewid then some e.1 else found) s := by
      show (if _ then _ else _ : StoreM Slot) s = _
      split <;> rfl
    rw [hstep]
    split
    · exact ⟨rfl, fun h => absurd rfl h⟩
    · rename_i hnot
      refine ⟨(ih _).1, fun hr => forall_mem_cons.mpr ⟨?_, (ih _).2 hr⟩⟩
      rintro ⟨o, ho, hflag⟩
      rw [getD_of_getElem? ho] at hnot
      exact hnot (hflag.imp decide_eq_true decide_eq_true)

section
variable (henv : Trusted S env) (fuel : Nat)

include henv

theorem Trusted.fits {i : Stage} (hs : OneAt S env i s) (hb : Backed S b) (hraise : Raisable S b) :
    Fits env b s where
  raised _ _ hp hraised := henv.key_eq hs.shape hp hraised hb hraise rfl
  stored d hd hheight := by
    have hbacked : Backed S d := hs.shape.inv.backed_of_dbBlock henv.genesis hd
    exact .inl (henv.viewid_eq hbacked hb (hbacked.raisable (henv.dbBlock hs hd)) hraise hheight)

theorem storeNew_one :
    Spec .any (fun s => OneAt S env (.storing this) s ∧ Fitting env this b s)
      (storeNew env fuel this) (fun _ => OneAt S env .none) := by
  have hR : Stable ((oneAt S env).frame .none) ((oneAt S env).Ready .none this) :=
    (oneAt S env).stable_ready this
  -- what follows once the block is in the cache
  have hrest : Spec ((oneAt S env).frame .none) ((oneAt S env).Ready .none this) (do
      modifyObject this fun o => { o with modifiedCount := o.modifiedCount + 1 }
      connectBlock env (loadBlock env fuel) fuel this 1
      if (← object this).modifiedCount ≠ 0 then
        let _ ← saveBlock env (loadBlock env fuel) fuel this
      cleanBlocks env fuel maxCachedBlocks
      return true) (fun _ _ => True) := by
    have htouch : Safe ((oneAt S env).frame .none)
        (modifyObject this fun o => { o with modifiedCount := o.modifiedCount + 1 }) :=
      of_still (modifyObject_still_safe (fun _ => rfl) fun _ => .inl rfl)
    have hclean : Safe ((oneAt S env).frame .none) (do
        cleanBlocks env fuel maxCachedBlocks
        return true) :=
      .bind (cleanBlocks_one henv fuel _) fun _ => .pure _
    refine .seq hR htouch.spec fun _ => .seq hR ?_ fun _ => ?_
    · exact (connectBlock_one henv fuel this 1).pre fun _ _ h => h.1
    · refine .seq hR (object_read this).weaken fun o => .ite (fun _ => ?_) fun _ => hclean.spec
      exact .bind (saveBlock_one henv fuel this) fun _ => hclean.spec
  refine object_bind this fun s _ hpre => ?_
  obtain ⟨hone, ⟨o, ho, hsame⟩, hfits⟩ := hpre
  rw [getD_of_getElem? ho]
  refine viewsAt_bind o.block.height ?_
  rintro t - rfl
  cases (viewsOf t o.block.height).find? o.block.viewid with
  | some _ => exact .at (P := OneAt S env .none) hone.forget (.pure fun _ _ h => h)
  | none =>
    refine .get_bind ?_
    rintro s - rfl
    exact put_any hone ho (hfits.congr hsame.symm) fun _ => hrest

theorem replaceBlock_one (existing : Ptr) :
    Spec .any (fun s => OneAt S env (.storing this) s ∧ Fitting env this b s)
      (replaceBlock env fuel b.viewid existing this) (fun _ => OneAt S env .none) := by
  have hR : Stable ((oneAt S env).frame .none) ((oneAt S env).Ready .none this) :=
    (oneAt S env).stable_ready this
  refine object_bind existing fun s _ hpre => ?_
  extract_lets save relink keepStored
  have hsave : ∀ u, Spec ((oneAt S env).frame .none) ((oneAt S env).Ready .none this) (save u)
      (fun _ _ => True) := fun _ => saveBlock_one henv fuel this
  have hrelink : ∀ u, Spec .any (fun s => OneAt S env (.storing this) s ∧
    Fitting env this b s) (relink u)
      (fun _ => OneAt S env .none) := by
    intro _
    refine object_bind this fun s _ hpre => ?_
    obtain ⟨hone, ⟨o, ho, hsame⟩, hfits⟩ := hpre
    rw [getD_of_getElem? ho, ← hsame.viewid]
    refine Spec.get_bind ?_
    rintro t - rfl
    refine viewsAt_bind o.block.height ?_
    rintro s - rfl
    refine put_any hone ho (hfits.congr hsame.symm) fun _ => ?_
    have hclose : Safe ((oneAt S env).frame .none) (closeBlock existing) :=
      of_still (closeBlock_still existing)
    refine Spec.seq hR hclose.spec fun _ => ?_
    refine Spec.get_bind fun t _ h => Spec.at h ?_
    cases t.allBlocks.after? o.block.height with
    | none => exact hsave ()
    | some e =>
      refine Spec.ite (fun _ => Spec.bind (Spec.forM hR fun q _ => ?_) hsave) fun _ => hsave ()
      exact Spec.bind ((links_one _ q this).pre fun _ _ h => h.1) fun _ => (Safe.pure _).spec
  have hkeep : ∀ u, Spec .any (fun s => OneAt S env (.storing this) s ∧ Fitting env this b s)
      (keepStored u) (fun _ => OneAt S env .none) := by
    intro _
    have hstored : Safe (still S env (.storing this)) (setBlockFlag env this .stored) :=
      flag_still (by decide) (by decide)
    refine Spec.ite (fun _ => Spec.bind ((fitting_any hstored).pre ?_) hrelink) fun _ => hrelink ()
    exact fun _ _ h => ⟨h.1, trivial, h.2⟩
  cases hprev : (s.objects.getD existing default).prevBlock with
  | none =>
    have hunlink : Safe (still S env (.storing this))
        (modifyObject this fun o => { o with prevBlock := none }) :=
      modifyObject_still_safe (fun _ => rfl) fun _ => .inr rfl
    exact Spec.at ⟨hpre.1, trivial, hpre.2⟩ (Spec.bind (fitting_any hunlink) hkeep)
  | some q =>
    have hvalid : Valid q s := (hpre.1.shape.inv.linked_getD hprev).valid_right
    exact Spec.at ⟨hpre.1, hvalid, hpre.2⟩ (Spec.bind (fitting_any (resetPrevBlock_still this q))
      fun _ => hkeep ())

/-- A block of another hash is replaced only by one that has a committed child. -/
theorem storeInSlot_one (existing : Ptr) :
    Spec .any (fun s => (OneAt S env (.storing this) s ∧ Fitting env this b s) ∧
        (viewsOf s b.height).find? b.viewid = some existing)
      (storeInSlot env fuel b.viewid existing this) (fun _ => OneAt S env .none) := by
  have hreplace : Spec .any (fun s => OneAt S env (.storing this) s ∧ Fitting env this b s)
      (do replaceBlock env fuel b.viewid existing this; return true) (fun _ => OneAt S env .none) :=
    Spec.bind (replaceBlock_one henv fuel existing) fun _ => Spec.pure fun _ _ h => h
  have hkept : ∀ r : Bool, Spec .any (OneAt S env (.storing this)) (pure r : StoreM Bool)
      (fun _ => OneAt S env .none) := fun _ => Spec.pure fun _ _ h => h.forget
  refine Spec.ite (fun heq => ?_) fun _ => ?_
  · subst heq
    have hsave : Spec ((oneAt S env).frame .none)
      (fun s => (viewsOf s b.height).find? b.viewid = some this)
        (do if (← object this).modifiedCount = 0 then return true
            else
              let _ ← saveBlock env (loadBlock env fuel) fuel this
              return true) (fun _ _ => True) := by
      refine Spec.bind (object_read this) fun o =>
        Spec.ite (fun _ => (Safe.pure _).spec) fun _ => ?_
      refine Spec.bind ((saveBlock_one henv fuel this).pre fun s hs h => ?_) fun _ =>
        (Safe.pure _).spec
      have hmem := mem_values_of_find? h.2
      exact ⟨(hs.shape.inv.viewsAt hmem).valid, cached_one henv hs hmem⟩
    exact hsave.any.conseq (fun _ _ h => ⟨h.1.1.forget, h.2⟩) fun _ _ _ h => h.1
  refine object_bind existing fun s _ hpre => ?_
  refine object_bind this ?_
  rintro t - rfl
  obtain ⟨⟨hone, ⟨o, ho, hsame⟩, hfits⟩, hfind⟩ := hpre
  obtain ⟨x, hx, hheight⟩ := hone.shape.inv.viewsAt (mem_values_of_find? hfind)
  rw [getD_of_getElem? ho, getD_of_getElem? hx]
  refine Spec.ite (fun _ => ?_) fun _ => Spec.ite (fun _ => Spec.at hone (hkept _)) fun _ =>
    Spec.at (P := fun s => OneAt S env (.storing this) s ∧ Fitting env this b s)
      ⟨hone, ⟨o, ho, hsame⟩, hfits⟩ hreplace
  have his : Stable ((oneAt S env).frame (.storing this)) (Is this b) :=
    (oneAt S env).stable (stable_is this b)
  refine Spec.at (P := fun s => OneAt S env (.storing this) s ∧ True ∧ Is this b s)
    ⟨hone, trivial, ⟨o, ho, hsame⟩⟩ (Spec.bind ((Walk.isReplaceExistingBlock_spec (saves_one henv)
      (loadBlock_one henv fuel) (hheight.trans hsame.height.symm)).frame his).any fun r => ?_)
  refine Spec.ite (fun hr => hreplace.pre ?_) fun _ => (hkept _).pre fun _ _ h => h.1
  rintro s - ⟨hone', hchild, his'⟩
  obtain ⟨c, hc, -, hchild⟩ := hchild hr
  obtain ⟨o', ho', hsame'⟩ := id his'
  have hbacked : Backed S o'.block := (hone'.shape.inv.objects this o' ho').1
  have hlock : Lockable S o'.block :=
    hc.lockable (hchild.congr (.refl c) (hsame.trans hsame'.symm))
  exact ⟨hone', his', (henv.fits hone' hbacked (.inl hlock)).congr hsame'⟩

omit henv in
theorem Dropped.refused {height : UInt64} (hs : OneAt S env .none s) (hshape : Shape S False t)
    (hdrop : Dropped height s t) {e : UInt64 × Ptr} (he : (viewsOf s height).find? e.1 = some e.2)
    (hraised : Raised e.2 s) : OneAt S env .none t := by
  have hback : ∀ view, Has height view t → Has height view s :=
    fun view ⟨p, hp⟩ => ⟨p, hdrop.views view p hp⟩
  refine ⟨hshape, ?_, fun height' hclosed => ?_⟩
  · rw [hdrop.lastCert]
    exact hs.lastCert
  have hgood : GoodAt env ∅ height' s := hs.heights height' (hclosed.back hdrop.grows subset_rfl)
  by_cases heq : height' = height
  · subst heq
    refine ⟨fun view p hp hraised' view' hhas => ?_, fun d hd hheight view' hhas => ?_,
      fun q hq => absurd hq (notMem_empty q)⟩
    · exact hgood.alone view p (hdrop.views view p hp) (hdrop.raised hraised') view'
        (hback view' hhas)
    · rw [hdrop.dbBlock] at hd
      have hstored := hgood.covered d hd hheight view' (hback view' hhas)
      rw [hgood.alone e.1 e.2 he hraised d.viewid hstored,
        ← hgood.alone e.1 e.2 he hraised view' (hback view' hhas)]
      exact hhas
  · exact hgood.calm hs.shape.inv hdrop.toCalm (hdrop.others height' heq) (hdrop.dbBlock height')

omit henv in
theorem findSlot_drops (hflag : .locked ∈ b.flags ∨ .committed ∈ b.flags) :
    Spec (dropping S b.height) (· = s) (findSlot b) (fun r t =>
      (r = .refused ∧ ∃ e : UInt64 × Ptr, (viewsOf s b.height).find? e.1 = some e.2 ∧
        Raised e.2 t) ∨
      (r ≠ .refused ∧ AllRaised b.height t)) := by
  have hlists : Stable (dropping S b.height) (Lists b.height (viewsOf s b.height).entries) :=
    stable_lists _
  refine viewsAt_bind b.height ?_
  rintro t ht rfl
  refine Spec.at (P := fun t' => True ∧ Lists b.height (viewsOf t b.height).entries t')
    ⟨trivial, lists_entries _ t⟩ ((Spec.frame (Q := Searched b.height (viewsOf t b.height).entries)
      ?_ hlists).conseq (fun _ _ h => h) fun r t' _ h => ?_)
  · refine Spec.ite (fun _ => slotForCommit_drops b.height _ none) fun hcommitted => ?_
    have hlocked : b.checkBlockFlag .locked :=
      decide_eq_true (hflag.resolve_right fun h => hcommitted (decide_eq_true h))
    exact Spec.ite (fun _ => slotForLock_drops b.height _ none) fun hnot => absurd hlocked hnot
  rcases h.1 with ⟨hr, e, he, hraised⟩ | ⟨hr, hleft⟩
  · exact .inl ⟨hr, e, find?_eq_some_iff.mpr he, hraised⟩
  · exact .inr ⟨hr, h.2.allRaised hleft⟩

theorem findSlot_raised (hb : Backed S b) (hflag : .locked ∈ b.flags ∨ .committed ∈ b.flags)
    (hs : OneAt S env .none s) (his : Is this b s) :
    ((findSlot b s).1 = .refused → OneAt S env .none (findSlot b s).2) ∧
    ((findSlot b s).1 ≠ .refused → OneAt S env (.storing this) (findSlot b s).2 ∧
      Fitting env this b (findSlot b s).2) := by
  obtain ⟨hshape, hdrop, hslot⟩ := findSlot_drops hflag s hs.shape rfl
  rcases hslot with ⟨hr, e, he, hraised⟩ | ⟨hr, hall⟩
  · exact ⟨fun _ => hdrop.refused hs hshape he (hdrop.raised hraised), fun hne => absurd hr hne⟩
  refine ⟨fun heq => absurd heq hr, fun _ => ?_⟩
  have hgood : ∀ height', height' ≠ b.height →
      (Stage.storing this).Closed height' (findSlot b s).2 →
      GoodAt env {this} height' s := by
    intro height' hne hclosed
    obtain ⟨halone, hcovered, -⟩ := hs.heights height' fun p hp => absurd hp (notMem_empty p)
    refine ⟨halone, hcovered, fun q hq hat => ?_⟩
    obtain rfl := mem_singleton_iff.mp hq
    obtain ⟨o, ho, hheight⟩ := hat
    obtain ⟨o', ho', hsame⟩ := his
    obtain rfl := mem_unique ho ho'
    exact absurd (hheight.symm.trans hsame.height) hne
  obtain ⟨hone, -⟩ := hdrop.one henv hs hshape hall hgood
  exact ⟨hone, stable_is (S := S) this b s _ hdrop.grows.evolves his,
    henv.fits hone hb (hb.raisable hflag)⟩

omit henv in
theorem findSlot_cert (hauth : .authenticated ∈ b.flags) (hlocked : .locked ∉ b.flags)
    (hcommitted : .committed ∉ b.flags) (s : ChainAccount) :
    (findSlot b s).2 = s ∧ ((findSlot b s).1 ≠ .refused →
      ∀ view p, (viewsOf s b.height).find? view = some p → ¬ Raised p s) := by
  have hnotCommitted : ¬ b.checkBlockFlag .committed := fun h => hcommitted (of_decide_eq_true h)
  have hnotLocked : ¬ b.checkBlockFlag .locked := fun h => hlocked (of_decide_eq_true h)
  have hcert : b.checkBlockFlag .authenticated := decide_eq_true hauth
  have hslot : findSlot b s = slotForCert b.viewid (viewsOf s b.height).entries none s := by
    rw [findSlot, Walk.viewsAt_bind_run, if_neg hnotCommitted, if_neg hnotLocked, if_pos hcert]
  rw [hslot]
  obtain ⟨hsame, hfree⟩ := slotForCert_run b.viewid (viewsOf s b.height).entries none s
  exact ⟨hsame, fun hr view p hp => hfree hr (view, p) (find?_eq_some_iff.mp hp)⟩

theorem takeSlot_one (hb : Backed S b)
    (hrefused : (findSlot b s).1 = .refused → OneAt S env .none (findSlot b s).2)
    (hfree : (findSlot b s).1 ≠ .refused → OneAt S env (.storing this) (findSlot b s).2 ∧
      Fitting env this b (findSlot b s).2) (hshape : Shape S False s) :
    OneAt S env .none (takeSlot env fuel this b s).2 := by
  have hslot : Walk.SlotOk S b (findSlot b s).1 :=
    (Walk.findSlot_spec (w := shape S False) (i := ()) dropView_shape hb s hshape trivial).2.2
  rw [takeSlot, Walk.bind_run]
  generalize findSlot b s = r at hrefused hfree hslot ⊢
  obtain ⟨r, t⟩ := r
  cases r with
  | refused => exact hrefused rfl
  | free view =>
    obtain ⟨hone, hfit⟩ := hfree nofun
    cases view with
    | none => exact (storeNew_one henv fuel t trivial ⟨hone, hfit⟩).2.2
    | some view =>
      obtain rfl : view = b.viewid := henv.of_slot hb (hslot view rfl henv.ownViews)
      dsimp only
      rw [Walk.viewsAt_bind_run]
      cases hfind : (viewsOf t b.height).find? b.viewid with
      | none => exact hone.forget
      | some existing => exact (storeInSlot_one henv fuel existing t trivial
          ⟨⟨hone, hfit⟩, hfind⟩).2.2

theorem prepareSlot_one (i : Stage) (height : UInt64) :
    Safe ((oneAt S env).frame i) (prepareSlot env fuel height) := by
  refine viewsAt_bind height fun s _ _ => Spec.ite (fun hempty => ?_) fun _ => (Safe.pure ()).spec
  refine Spec.get_bind ?_
  rintro t - rfl
  refine Spec.bind (emptied_one (emptied_insert height t) (.inr ?_)) fun _ => ?_
  · exact values_nil (isEmpty_iff.mp hempty)
  refine Spec.get_bind fun u _ _ => Spec.ite (fun _ => ?_) fun _ => (Safe.pure ()).spec
  exact (Safe.bind (loadBlock_one henv fuel i height 0).safe fun _ => Safe.pure ()).spec

end

def StoreOk (env : StoreEnv) (fuel : Nat) (this : Ptr) (s : ChainAccount) : Prop :=
  (.locked ∈ (s.objects.getD this default).block.flags ∨
    .committed ∈ (s.objects.getD this default).block.flags) ∨
  Seen env fuel (s.objects.getD this default).block s

instance instDecidableStoreOk (env : StoreEnv) (fuel : Nat) (this : Ptr) (s : ChainAccount) :
    Decidable (StoreOk env fuel this s) :=
  inferInstanceAs (Decidable ((_ ∨ _) ∨ (_ = true)))

theorem Seen.has {fuel : Nat} (h : Seen env fuel b s) {d : XvBlock}
    (hd : dbBlock env (prepareSlot env fuel b.height s).2 b.height = some d) :
    Has b.height d.viewid (prepareSlot env fuel b.height s).2 := by
  unfold Seen at h
  rw [hd] at h
  exact isSome_iff_exists.mp h

theorem storeBlock_one (henv : Trusted S env) (fuel : Nat) (hs : OneAt S env .none s)
    (hthis : Valid this s) (hok : StoreOk env fuel this s) :
    OneAt S env .none (storeBlock env fuel this s).2 := by
  obtain ⟨o, ho⟩ := hthis
  unfold StoreOk at hok
  rw [storeBlock_run]
  rw [getD_of_getElem? ho] at hok ⊢
  have hb : Backed S o.block := (hs.shape.inv.objects this o ho).1
  split
  · exact hs
  rename_i hchecks
  by_cases hflag : .locked ∈ o.block.flags ∨ .committed ∈ o.block.flags
  · obtain ⟨hone, honward, -⟩ := prepareSlot_one henv fuel .none o.block.height s hs trivial
    have his : Is this o.block (prepareSlot env fuel o.block.height s).2 :=
      stable_is (S := S) this o.block s _ honward.grows.evolves ⟨o, ho, .refl _⟩
    obtain ⟨hrefused, hfree⟩ := findSlot_raised henv hb hflag hone his
    exact takeSlot_one henv fuel hb hrefused hfree hone.shape
  · -- a block with its certificate is watched from the start
    obtain ⟨hlocked, hcommitted⟩ := not_or.mp hflag
    have hauth : .authenticated ∈ o.block.flags := by
      apply henv.delivered
      cases hdeliver : env.checks.isDeliver o.block false with
      | true => rfl
      | false =>
        rw [hdeliver, Bool.and_false] at hchecks
        exact absurd rfl hchecks
    have hwatch : OneAt S env (.storing this) s := by
      refine hs.watch ?_
      rintro ⟨o', ho', hraised⟩
      obtain rfl := mem_unique ho ho'
      exact hflag hraised
    obtain ⟨hone, honward, -⟩ := prepareSlot_one henv fuel
      (.storing this) o.block.height s hwatch trivial
    have his : Is this o.block (prepareSlot env fuel o.block.height s).2 :=
      stable_is (S := S) this o.block s _ honward.grows.evolves ⟨o, ho, .refl _⟩
    obtain ⟨hsame, hfree⟩ := findSlot_cert hauth hlocked hcommitted
      (prepareSlot env fuel o.block.height s).2
    refine takeSlot_one henv fuel hb ?_ ?_ hone.shape
    · rw [hsame]
      exact fun _ => hone.forget
    · rw [hsame]
      refine fun hr => ⟨hone, his, fun view p hp hraised => absurd hraised (hfree hr view p hp), ?_⟩
      exact fun d hd _ => .inr ((hok.resolve_left hflag).has hd)

theorem newObject_one (hs : OneAt S env .none s) (hb : Backed S b) :
    OneAt S env .none (newObject b s).2 ∧ Valid s.objects.length (newObject b s).2 := by
  have hgrows : Grows s (newObject b s).2 := grows_append _
  refine ⟨⟨hs.shape.newObject hb fun h => h.elim, hs.lastCert, fun height hclosed => ?_⟩, ?_⟩
  · refine (hs.heights height (hclosed.back hgrows subset_rfl)).keep hs.shape.inv hgrows
      (fun p hp => raised_of_object ?_) rfl rfl
    obtain ⟨o, ho, -⟩ := hp.resolve_right (notMem_empty p)
    exact List.getElem?_append_left (List.getElem?_eq_some_iff.mp ho).1
  · exact (newObject_spec (P := fun _ => True) hb s hs.shape.inv trivial).2.2.valid

def initLocked (env : StoreEnv) (fuel : Nat) (found : Reopening) : StoreM Unit := do
  initCommitted env fuel found
  initLock env fuel found

theorem reopen_run (fuel : Nat) (found : Reopening) (s : ChainAccount) :
    reopen env fuel found s = initCert env fuel
      (initLocked env fuel found (readBack found s)).2 := by
  have hmodify : ∀ f : PUnit → StoreM Unit,
      (modify (readBack found) >>= f : StoreM Unit) s = f ⟨⟩ (readBack found s) := fun _ => rfl
  rw [reopen, hmodify, Walk.bind_run, Walk.bind_run, initLocked, Walk.bind_run]

section
variable (henv : Trusted S env) (fuel : Nat) (found : Reopening) {i : Stage}

theorem keepLastCert_one : Safe ((oneAt S env).frame i) keepLastCert :=
  Walk.keepLastCert_safe fun {_ p o _} hs _ ho _ =>
    (of_still (setLastCert_still (hs.shape.inv.objects p o ho).1)).pre fun _ _ _ => trivial

theorem modifyMeta_one (g : AcctMeta → AcctMeta) : Safe ((oneAt S env).frame i) (modifyMeta g) :=
  of_still (modifyMeta_still g)

theorem maintainConnect_one (p : Ptr) : Safe ((oneAt S env).frame i) (maintainConnect env p) := by
  refine .bind (object_read p).safe fun o => .get_bind fun s => .ite ?_ (.pure ())
  refine .ite (.ite (modifyMeta_one _) (.pure ())) (.ite ?_ (.pure ()))
  exact .bind (modifyMeta_one _) fun _ => of_still (flag_still (by decide) (by decide))

theorem readBack_one (hs : OneAt S env .none s) : OneAt S env .none (readBack found s) := by
  refine ⟨hs.shape.readBack found, fun b hb => ?_, fun height _ => .of_empty rfl⟩
  exact hs.lastCert b (lastCert_of_readBack hb)

include henv

theorem close_one : Safe ((oneAt S env).frame i) (close env fuel) := by
  refine .bind keepLastCert_one fun _ => Walk.closeBlocks_safe (saves_one henv)
    (fun p => ?_) forget_one
  have hR : Stable ((oneAt S env).frame i) ((oneAt S env).Ready i p) := (oneAt S env).stable_ready p
  have hclose : Safe ((oneAt S env).frame i) (closeBlock p) := of_still (closeBlock_still p)
  refine .seq hR (maintainConnect_one p).spec fun _ => .seq hR (object_read p).weaken fun o => ?_
  refine .ite (fun _ => ?_) fun _ => hclose.spec
  exact .bind (saveBlock_one henv fuel p) fun _ => hclose.spec

theorem load_one (height : UInt64) :
    Safe ((oneAt S env).frame i) (loadBlockObject (loadBlock env fuel) height) :=
  (loadBlockObject_one henv fuel height).safe

theorem checkMeta_one : Safe ((oneAt S env).frame i) (checkMeta env fuel found) := by
  refine .bind (.get_bind fun s => ?_) fun _ => ?_
  · cases s.lastCert with
    | none => exact .pure ()
    | some b =>
      refine .get_bind fun t => .ite (.bind (modifyMeta_one _) fun _ => ?_) (.pure ())
      refine .bind (load_one henv fuel _) fun r =>
        .ite_bind (a := ()) (modifyMeta_one _) fun _ => ?_
      exact .bind (load_one henv fuel _) fun r => .ite (modifyMeta_one _) (.pure ())
  · unfold checkExecuted
    cases found.blockchain with
    | none => exact .pure ()
    | some e =>
      refine .get_bind fun t => .ite (.bind (modifyMeta_one _) fun _ => ?_) (.pure ())
      refine .get_bind fun u => .bind (load_one henv fuel _) fun r => ?_
      exact .ite_bind (a := ()) (modifyMeta_one _) fun _ => modifyMeta_one _

theorem reloadConnect_one (n : Nat) : Safe ((oneAt S env).frame i) (reloadConnect env fuel n) := by
  induction n with
  | zero => exact .pure ()
  | succ n ih =>
    refine .get_bind fun s => .ite ?_ (.pure ())
    refine .bind (modifyMeta_one _) fun _ => .get_bind fun t => ?_
    refine .bind (loadBlock_one henv fuel _ _ _).safe fun r => ?_
    cases r with
    | some p => exact .bind (object_read p).safe fun o => modifyMeta_one _
    | none => exact ih

theorem lookUp_one {h : ChainAccount → UInt64} {f : Ptr → StoreM Unit} {g : StoreM Unit}
    (hf : ∀ p, Safe ((oneAt S env).frame i) (f p)) (hg : Safe ((oneAt S env).frame i) g) :
    Safe ((oneAt S env).frame i) (do
      match ← loadBlockObject (loadBlock env fuel) (h (← get)) with
      | some p => f p
      | none => g) := by
  refine .get_bind fun s => .bind (load_one henv fuel _) fun r => ?_
  cases r with
  | some p => exact hf p
  | none => exact hg

theorem preloadFull_one (p : Ptr) : Safe ((oneAt S env).frame i)
    (preloadFull env fuel found p) := by
  refine .bind (object_read p).safe fun o => .ite ?_ (.pure ())
  exact .bind (load_one henv fuel _) fun _ => .pure ()

theorem initConnect_one : Safe ((oneAt S env).frame i) (initConnect env fuel) := by
  refine lookUp_one henv fuel (h := fun s => s.acctMeta.highestConnectBlockHeight) (fun p => ?_) ?_
  · refine .bind (object_read p).safe fun o => .get_bind fun s => ?_
    exact .ite (modifyMeta_one _) (.pure ())
  · exact .bind (modifyMeta_one _) fun _ => reloadConnect_one henv fuel 256

theorem initLocked_one : Safe ((oneAt S env).frame i) (initLocked env fuel found) := by
  have hpreload := preloadFull_one henv fuel found (i := i)
  have hexecuted : Safe ((oneAt S env).frame i) (initExecuted env fuel found) := by
    refine .bind (checkMeta_one henv fuel found) fun _ =>
      .bind (initConnect_one henv fuel) fun _ => ?_
    refine .bind ?_ fun _ => ?_
    · exact lookUp_one henv fuel (h := fun s => s.acctMeta.highestFullBlockHeight)
        (fun _ => .pure ()) (modifyMeta_one _)
    · exact lookUp_one henv fuel (h := fun s => s.acctMeta.highestExecuteBlockHeight) hpreload
        (.pure ())
  refine .bind (.bind hexecuted fun _ => ?_) fun _ => ?_
  · exact lookUp_one henv fuel (h := fun s => s.acctMeta.highestCommitBlockHeight) hpreload
      (modifyMeta_one _)
  · exact lookUp_one henv fuel (h := fun s => s.acctMeta.highestLockBlockHeight) hpreload
      (modifyMeta_one _)

end

def CertOk (env : StoreEnv) (fuel : Nat) (s : ChainAccount) : Prop :=
  s.lastCert.all (fun b => decide (StoreOk env fuel s.objects.length (newObject b s).2)) = true

theorem initCert_one (henv : Trusted S env) (fuel : Nat) (hs : OneAt S env .none s)
    (hok : CertOk env fuel s) : OneAt S env .none (initCert env fuel s).2 := by
  unfold CertOk at hok
  have hstore : Spec .any (· = s) (initCert env fuel) (fun _ => OneAt S env .none) := by
    refine .get_bind ?_
    rintro t - rfl
    refine .ite (fun _ => .get_bind ?_) fun _ => .at hs (.pure fun _ _ h => h)
    rintro s - rfl
    cases hcert : s.lastCert with
    | none => exact .at hs (.pure fun _ _ h => h)
    | some b =>
      refine .ite (fun _ => ?_) fun _ => .at hs (.pure fun _ _ h => h)
      rw [hcert] at hok
      obtain ⟨hone, hvalid⟩ := newObject_one hs (hs.lastCert b hcert)
      rintro t - rfl
      exact ⟨trivial, trivial, storeBlock_one henv fuel hone hvalid (of_decide_eq_true hok)⟩
  exact (hstore s trivial rfl).2.2

/-- A block with only its certificate sees what the database has at its height. -/
def Sees (env : StoreEnv) (fuel : Nat) (s : ChainAccount) : AccountCall → Prop
  | .call (.storeBlock b) => StoreOk env fuel s.objects.length (newObject b s).2
  | .call (.storeObject p) => StoreOk env fuel p s
  | .call (.executeBlock p) => p ∈ (viewsOf s (s.objects.getD p default).block.height).values
  | .call _ => True
  | .saveBlock p => p ∈ (viewsOf s (s.objects.getD p default).block.height).values
  | .restart found =>
    CertOk env fuel (initLocked env fuel found (readBack found (close env fuel s).2)).2

instance instDecidableSees (env : StoreEnv) (fuel : Nat) (s : ChainAccount) (c : AccountCall) :
    Decidable (Sees env fuel s c) :=
  match c with
  | .call (.storeBlock b) => instDecidableStoreOk env fuel s.objects.length (newObject b s).2
  | .call (.storeObject p) => instDecidableStoreOk env fuel p s
  | .call (.loadBlockObject _) => .isTrue trivial
  | .call (.executeBlock p) =>
    inferInstanceAs (Decidable (p ∈ (viewsOf s (s.objects.getD p default).block.height).values))
  | .call (.cleanBlocks _) => .isTrue trivial
  | .saveBlock p =>
    inferInstanceAs (Decidable (p ∈ (viewsOf s (s.objects.getD p default).block.height).values))
  | .restart _ => inferInstanceAs (Decidable (_ = true))

theorem accountCall_one (henv : Trusted S env) (fuel : Nat) (c : AccountCall)
    (hs : OneAt S env .none s)
    (hsees : Sees env fuel s c) (hblock : ∀ b ∈ c.block?, b ∈ S) :
    OneAt S env .none (accountCall env fuel c s).2 := by
  -- a block that the cache has may be saved and executed
  have hready : ∀ p, p ∈ (viewsOf s (s.objects.getD p default).block.height).values →
      (oneAt S env).Ready .none p s := fun p hp =>
    ⟨(hs.shape.inv.viewsAt hp).valid, cached_one henv hs hp⟩
  cases c with
  | call c =>
    cases c with
    | storeBlock b =>
      obtain ⟨hone, hvalid⟩ := newObject_one hs (backed_of_mem (hblock b rfl))
      exact storeBlock_one henv fuel hone hvalid hsees
    | storeObject p =>
      have hstore : Spec .any (· = s) (call env fuel (.storeObject p))
          (fun _ => OneAt S env .none) := by
        refine Spec.get_bind ?_
        rintro t - rfl
        refine Spec.ite (fun hlt => ?_) fun _ => Spec.at hs (Spec.pure fun _ _ h => h)
        rintro s - rfl
        exact ⟨trivial, trivial, storeBlock_one henv fuel hs (valid_of_lt hlt) hsees⟩
      exact (hstore s trivial rfl).2.2
    | loadBlockObject height =>
      exact (Safe.bind (load_one henv fuel height) (fun _ => Safe.pure ()) s hs trivial).1
    | executeBlock p =>
      have hexecute : Spec ((oneAt S env).frame .none) ((oneAt S env).Ready .none p)
          (call env fuel (.executeBlock p)) (fun _ _ => True) := by
        refine Spec.get_bind fun t _ h => Spec.at h
          (Spec.ite (fun _ => ?_) fun _ => (Safe.pure ()).spec)
        exact Spec.bind ((saves_one henv).execute .none p) fun _ => Safe.pure ()
      exact (hexecute s hs (hready p hsees)).1
    | cleanBlocks keep => exact (cleanBlocks_one henv fuel keep s hs trivial).1
  | saveBlock p =>
    have hsave : Spec ((oneAt S env).frame .none) ((oneAt S env).Ready .none p)
        (accountCall env fuel (.saveBlock p)) (fun _ _ => True) := by
      refine Spec.get_bind fun t _ h => Spec.at h
        (Spec.ite (fun _ => ?_) fun _ => (Safe.pure ()).spec)
      exact Spec.bind (saveBlock_one henv fuel p) fun _ => Safe.pure ()
    exact (hsave s hs (hready p hsees)).1
  | restart found =>
    have hback : OneAt S env .none (readBack found (close env fuel s).2) :=
      readBack_one found (close_one henv fuel s hs trivial).1
    have hlocked := (initLocked_one henv fuel found (i := .none) _ hback trivial).1
    rw [accountCall, Walk.bind_run, reopen_run]
    exact initCert_one henv fuel hlocked hsees

theorem one_init (henv : Trusted S env) : OneAt S env .none (init env) := by
  have hempty : OneAt S env .none emptyAccount := by
    refine ⟨shape_empty, ?_, fun height _ => .of_empty rfl⟩
    exact fun b hb => by cases hb
  have hload := (load_one henv 1 0 emptyAccount hempty trivial).1
  exact (modifyMeta_one
    (fun m => { m with highestConnectBlockHash := env.genesisBlock.blockHash }) _
    hload trivial).1

theorem values_eq_singleton {m : SortedMap UInt64 Ptr} {view : UInt64} {p : Ptr}
    (hp : m.find? view = some p) (honly : ∀ view' q, m.find? view' = some q → view' = view) :
    m.values = [p] := by
  have hsingle : m = SortedMap.empty.insert view p := by
    refine ext_find? fun view' => ?_
    by_cases heq : view' = view
    · rw [heq, hp, find?_insert_self]
    · rw [find?_insert_of_ne _ _ heq]
      cases hfind : m.find? view' with
      | none => rfl
      | some q => exact absurd (honly view' q hfind) heq
  rw [hsingle]
  rfl

/-- A locked or committed block is alone at its height in the cache, when two blocks of a height
that may be locked or committed are of one view, and what is stored sees what the database has. -/
theorem raised_block_alone (env : StoreEnv)
    (hdelivered : ∀ b, env.checks.isDeliver b false = true → .authenticated ∈ b.flags)
    (hgenesis : .locked ∈ env.genesisBlock.flags ∨ .committed ∈ env.genesisBlock.flags) (fuel : Nat)
    (cs : List AccountCall) (hone : OneView (env.genesisBlock :: cs.filterMap AccountCall.block?))
    (hcs : Run.Meets (live env fuel) (Sees env fuel) (init env) cs) (height : UInt64) (p : Ptr)
    (hp : p ∈ (viewsOf (lifetime env fuel cs) height).values)
    (hraised : Raised p (lifetime env fuel cs)) :
    (viewsOf (lifetime env fuel cs) height).values = [p] := by
  have henv : Trusted (env.genesisBlock :: cs.filterMap AccountCall.block?) env :=
    ⟨hone, mem_cons_self, hgenesis, hdelivered⟩
  have hrun := lifetime_inv (I := OneAt _ env .none) (one_init henv)
    (fun s c hs hc => accountCall_one henv fuel c hs hc) hcs
  obtain ⟨view, hentry⟩ := mem_values.mp hp
  have hfind := SortedMap.find?_eq_some_iff.mpr hentry
  have hgood := hrun.heights height fun q hq => absurd hq (notMem_empty q)
  exact values_eq_singleton hfind fun view' q hq => hgood.alone view p hfind hraised view' ⟨q, hq⟩

/-- A chain is stored, the account is closed and opened, and goes on; a block beside a committed one
is refused. -/
def sampleWhole : List AccountCall :=
  (sampleChain.take 4).map (.call ∘ .storeBlock) ++ [.restart sampleReopening,
    .call (.storeBlock sampleLate)] ++ (sampleChain.drop 4).map (.call ∘ .storeBlock) ++
    [.call (.cleanBlocks 0), .saveBlock 8, .call (.loadBlockObject 1)]

theorem raised_block_alone_sample :
    Raised 12 (lifetime (sampleEnv true) 9 sampleWhole) ∧
    (viewsOf (lifetime (sampleEnv true) 9 sampleWhole) 1).values = [12] := by
  have hraised : Raised 12 (lifetime (sampleEnv true) 9 sampleWhole) :=
    raised_of_flag (.inl rfl) (by decide +kernel)
  refine ⟨hraised, raised_block_alone (sampleEnv true) ?_ (.inl (by decide)) 9 sampleWhole ⟨?_, ?_⟩
    (by decide +kernel) 1 12 (by decide +kernel) hraised⟩
  · exact fun b hb => of_decide_eq_true hb
  · decide +kernel
  · decide +kernel

/-- After a restart a block with only its certificate is stored beside a locked one. -/
def sampleReturn : List AccountCall :=
  [.call (.storeBlock (sampleBlock 2 2 "b" "c" {.authenticated, .locked})),
    .call (.storeBlock (sampleBlock 4 4 "x" "e" {.authenticated, .locked})),
    .restart { sampleReopening with blockchain := none },
    .call (.storeBlock (sampleBlock 2 9 "b" "z" {.authenticated})), .call (.loadBlockObject 2)]

def lockedAt (s : ChainAccount) (height : UInt64) : List (UInt64 × Bool) :=
  (viewsOf s height).entries.map fun e =>
    (e.1, (s.objects.getD e.2 default).block.checkBlockFlag .locked)

theorem locked_block_beside_other :
    lockedAt (lifetime (sampleEnv true) 9 sampleReturn) 2 = [(2, true), (9, false)] := by
  decide +kernel

end TopChain.Store.ChainAccount
