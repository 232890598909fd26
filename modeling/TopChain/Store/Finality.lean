import TopChain.Store.CacheShape

/-!
# Finality of committed blocks in the block store

All commits rest on the blocks passed to the account.
-/
namespace TopChain.Store

open List TopChain.Base TopChain.Lib TopChain.Lib.Guarantee SortedMap

instance instDecidableChildOf (c x : XvBlock) : Decidable (ChildOf c x) :=
  inferInstanceAs (Decidable (_ ∧ _))

instance instDecidableSameBody (a b : XvBlock) : Decidable (SameBody a b) :=
  inferInstanceAs (Decidable (_ = _))

instance instDecidableLockable (S : List XvBlock) (x : XvBlock) : Decidable (Lockable S x) :=
  inferInstanceAs (Decidable (_ ∨ _))

instance instDecidableCommittable (S : List XvBlock) (x : XvBlock) : Decidable (Committable S x) :=
  inferInstanceAs (Decidable (_ ∨ _))

instance instDecidableRaisable (S : List XvBlock) (x : XvBlock) : Decidable (Raisable S x) :=
  inferInstanceAs (Decidable (_ ∨ _))

/-- What the blocks commit: those that come committed, and the parents of those that come locked or
have a child. -/
def commits (S : List XvBlock) : List (UInt64 × String) :=
  (S.filter fun b => .committed ∈ b.flags).map (fun b => (b.height, b.blockHash)) ++
    (S.filter fun c => Lockable S c).map fun c => (c.height - 1, c.lastBlockHash)

/-- No two commits at one height. -/
def Agree (S : List XvBlock) : Prop :=
  ∀ e ∈ commits S, ∀ e' ∈ commits S, e.1 = e'.1 → e.2 = e'.2

instance instDecidableAgree (S : List XvBlock) : Decidable (Agree S) :=
  inferInstanceAs (Decidable (∀ e ∈ commits S, ∀ e' ∈ commits S, e.1 = e'.1 → e.2 = e'.2))

/-- No block of another hash at the height comes locked or committed, or has a child. -/
structure Unrivalled (S : List XvBlock) (height : UInt64) (hash : String) : Prop where
  raised : ∀ b ∈ S, .locked ∈ b.flags ∨ .committed ∈ b.flags → b.height = height →
    b.blockHash = hash
  parent : ∀ c ∈ S, c.height = height + 1 → c.lastBlockHash = hash

variable {S : List XvBlock} {b x y : XvBlock}

theorem Unrivalled.blockHash_eq {hash : String} (h : Unrivalled S x.height hash)
    (hx : Raisable S x) : x.blockHash = hash := by
  have hown : ∀ b ∈ S, SameBody b x → .locked ∈ b.flags ∨ .committed ∈ b.flags →
      x.blockHash = hash := fun b hb hsame hflag =>
    hsame.blockHash.symm.trans (h.raised b hb hflag hsame.height)
  have hchild : ∀ c ∈ S, ChildOf c x → x.blockHash = hash := fun c hc hchild =>
    hchild.1.trans (h.parent c hc hchild.2.symm)
  obtain (⟨b, hb, hsame, hflag⟩ | ⟨c, hc, hof⟩) | (⟨b, hb, hsame, hflag⟩ | ⟨c, hc, hof, -⟩) := hx
  · exact hown b hb hsame (.inl hflag)
  · exact hchild c hc hof
  · exact hown b hb hsame (.inr hflag)
  · exact hchild c hc hof

theorem Committable.mem_commits (h : Committable S x) : (x.height, x.blockHash) ∈ commits S := by
  obtain ⟨b, hb, hsame, hflag⟩ | ⟨c, hc, hchild, hlock⟩ := h
  · refine mem_append_left _ (mem_map.mpr ⟨b, ?_, ?_⟩)
    · exact mem_filter.mpr ⟨hb, decide_eq_true hflag⟩
    · rw [hsame.height, hsame.blockHash]
  · refine mem_append_right _ (mem_map.mpr ⟨c, ?_, ?_⟩)
    · exact mem_filter.mpr ⟨hc, decide_eq_true hlock⟩
    · rw [← hchild.2, hchild.1, UInt64.add_sub_cancel]

theorem Agree.blockHash_eq (hS : Agree S) (hx : Committable S x) (hy : Committable S y)
    (hheight : x.height = y.height) : x.blockHash = y.blockHash :=
  hS _ hx.mem_commits _ hy.mem_commits hheight

namespace ChainAccount
variable {env : StoreEnv} {s t : ChainAccount} {p : Ptr} {height view : UInt64} {hash : String}

/-- The calls of the block store. -/
inductive StoreCall where
  | storeBlock (b : XvBlock)
  | storeObject (p : Ptr)
  | loadBlockObject (height : UInt64)
  | executeBlock (p : Ptr)
  | cleanBlocks (keep : Nat)

def call (env : StoreEnv) (fuel : Nat) : StoreCall → StoreM Unit
  | .storeBlock b => do
    let p ← newObject b
    let _ ← storeBlock env fuel p
  | .storeObject p => do
    if p < (← get).objects.length then
      let _ ← storeBlock env fuel p
  | .loadBlockObject height => do
    let _ ← loadBlockObject (loadBlock env fuel) height
  | .executeBlock p => do
    if p < (← get).objects.length then
      let _ ← executeBlock env p
  | .cleanBlocks keep => cleanBlocks env fuel keep

def after (env : StoreEnv) (fuel : Nat) (cs : List StoreCall) : ChainAccount :=
  ((cs.forM (call env fuel)).run (init env)).2

theorem after_append (fuel : Nat) (cs cs' : List StoreCall) :
    after env fuel (cs ++ cs') = ((cs'.forM (call env fuel)).run (after env fuel cs)).2 := by
  have happend : (cs ++ cs').forM (call env fuel) =
      (do cs.forM (call env fuel); cs'.forM (call env fuel)) := forM_append
  unfold after
  rw [happend]
  rfl

theorem after_concat (fuel : Nat) (cs : List StoreCall) (c : StoreCall) :
    after env fuel (cs ++ [c]) = ((call env fuel c).run (after env fuel cs)).2 := by
  rw [after_append]
  rfl

theorem valid_of_lt (h : p < s.objects.length) : Valid p s :=
  ⟨s.objects[p], List.getElem?_eq_getElem h⟩

section
variable {root : Prop} (hgenesis : env.genesisBlock ∈ S)
    (hroot : root → RootFlags S env) (fuel : Nat)

include hgenesis hroot

theorem call_safe (c : StoreCall) (hc : ∀ b, c = .storeBlock b → b ∈ S) :
    Safe ((shape S root).frame ()) (call env fuel c) := by
  have hstore : ∀ p, Spec ((shape S root).frame ()) (Valid p)
      (do let _ ← storeBlock env fuel p) (fun _ _ => True) := fun p =>
    Spec.bind (storeBlock_shape hgenesis hroot fuel p) fun _ => (Safe.pure ()).spec
  cases c with
  | storeBlock b =>
    have hb : b ∈ S := hc b rfl
    refine Spec.bind (Q := fun p => Valid p) (fun s hs _ => ⟨?_, grows_append _, ?_⟩) hstore
    · exact hs.newObject (backed_of_mem hb) fun h hheight => (hroot h).flags b hb hheight
    · exact (newObject_spec (P := fun _ => True) (backed_of_mem hb) s hs.inv trivial).2.2.valid
  | storeObject p =>
    refine Spec.get_bind fun s _ _ => Spec.ite (fun hlt => ?_) fun _ => (Safe.pure ()).spec
    exact Spec.at (valid_of_lt hlt) (hstore p)
  | loadBlockObject height =>
    exact Safe.bind (loadBlockObject_shape hgenesis hroot fuel height).safe fun _ => Safe.pure ()
  | executeBlock p =>
    refine Spec.get_bind fun s _ _ => Spec.ite (fun hlt => ?_) fun _ => (Safe.pure ()).spec
    exact Spec.at (valid_of_lt hlt) (Spec.bind (executeBlock_shape p) fun _ => Safe.pure ())
  | cleanBlocks keep => exact cleanBlocks_shape hgenesis hroot fuel keep

end

def emptyAccount : ChainAccount := ⟨[], .empty, default, .empty, none, false⟩

theorem shape_empty : Shape S False emptyAccount where
  inv := by
    refine ⟨fun p o ho => ?_, fun e he => ?_, fun b hb => ?_⟩
    · cases ho
    · cases he
    · cases hb
  keyed _ := fun _ _ _ h => by cases h
  rooted h := h.elim
  database b hb := by cases hb

theorem shape_init (hgenesis : env.genesisBlock ∈ S) : Shape S False (init env) := by
  have hload := (loadBlockObject_shape hgenesis False.elim 1 0 _ shape_empty trivial).1
  exact hload.of_same rfl rfl rfl

theorem shape_init_rooted (hgenesis : env.genesisBlock ∈ S) (hroot : RootFlags S env) :
    Shape S True (init env) := by
  have hheight : env.genesisBlock.height = 0 := hroot.height
  have hconsensused : Consensused env.genesisBlock := hroot.flags _ hgenesis hheight
  have hdb : dbBlock env emptyAccount env.genesisBlock.height = some env.genesisBlock := by
    rw [hheight]
    rfl
  have hview : (viewsOf emptyAccount env.genesisBlock.height).find?
      env.genesisBlock.viewid = none :=
    rfl
  have hentered : Shape S True (withLoaded emptyAccount env.genesisBlock) := by
    obtain ⟨hshape, -, -⟩ := (loads_shape hgenesis False.elim).enter (i := ()) shape_empty hdb hview
    refine ⟨hshape.inv, hshape.keyed, fun _ => ⟨?_, fun p o ho _ => ?_, fun b hb => ?_⟩,
      hshape.database⟩
    · rw [viewsOf_withLoaded, if_pos hheight.symm]
      exact values_insert_ne_nil _ _ _
    · have ho' : [(⟨env.genesisBlock, none, none, 0, false⟩ : BlockObject)][p]? = some o := ho
      obtain rfl := mem_singleton.mp (mem_of_getElem? ho')
      exact hconsensused
    · cases hb
  -- the rest of `load_block` keeps the shape
  have hrest : Spec ((shape S True).frame ()) (Valid 0)
      (do connectBlock env (loadBlock env 0) 0 0 1; loadedMeta env 0 env.genesisBlock.height)
      (fun _ _ => True) :=
    .bind (connectBlock_shape hgenesis (fun _ => hroot) 0 0 1) fun _ =>
      (Walk.loadedMeta_safe (writes_shape env) _ _).spec
  have hend := (hrest _ hentered (Walk.at_withLoaded emptyAccount env.genesisBlock).valid).1
  have hrun := Walk.loadBlock_enter 0 1 hdb hview
  rw [hheight] at hrun
  have hinit : (init env).objects = (loadBlock env 1 0 1 emptyAccount).2.objects ∧
      (init env).allBlocks = (loadBlock env 1 0 1 emptyAccount).2.allBlocks ∧
      (init env).vblocks = (loadBlock env 1 0 1 emptyAccount).2.vblocks := ⟨rfl, rfl, rfl⟩
  rw [hrun] at hinit
  rw [hheight] at hend
  exact hend.of_same hinit.1 hinit.2.1 hinit.2.2

theorem shape_after {root : Prop} (hgenesis : env.genesisBlock ∈ S) (hroot : root → RootFlags S env)
    (hinit : Shape S root (init env)) (fuel : Nat) (cs : List StoreCall)
    (hcs : ∀ b, .storeBlock b ∈ cs → b ∈ S) : Shape S root (after env fuel cs) := by
  have hrun : Spec ((shape S root).frame ()) (fun _ => True) (cs.forM (call env fuel))
      (fun _ _ => True) :=
    .forM (fun _ _ _ _ => trivial) fun c hc =>
      call_safe hgenesis hroot fuel c fun b hb => hcs b (hb ▸ hc)
  exact (hrun _ hinit trivial).1

theorem inv_after (hgenesis : env.genesisBlock ∈ S) (fuel : Nat) (cs : List StoreCall)
    (hcs : ∀ b, .storeBlock b ∈ cs → b ∈ S) : Inv S (after env fuel cs) :=
  (shape_after hgenesis False.elim (shape_init hgenesis) fuel cs hcs).inv

def IsCommitted (x : XvBlock) (height : UInt64) (hash : String) : Prop :=
  .committed ∈ x.flags ∧ x.height = height ∧ x.blockHash = hash

instance instDecidableIsCommitted (x : XvBlock) (height : UInt64) (hash : String) :
    Decidable (IsCommitted x height hash) :=
  inferInstanceAs (Decidable (_ ∧ _))

/-- A committed block of the height has this hash, in the cache or in the database. -/
def CommittedAt (s : ChainAccount) (height : UInt64) (hash : String) : Prop :=
  (∃ p ∈ ((s.allBlocks.find? height).getD .empty).values,
    IsCommitted (s.objects.getD p default).block height hash) ∨
  ∃ b ∈ s.vblocks.values, IsCommitted b height hash

instance instDecidableCommittedAt (s : ChainAccount) (height : UInt64) (hash : String) :
    Decidable (CommittedAt s height hash) :=
  inferInstanceAs (Decidable (_ ∨ _))

theorem Inv.committable (hs : Inv S s) (hp : Valid p s)
    (h : .committed ∈ (s.objects.getD p default).block.flags) :
    Committable S (s.objects.getD p default).block := by
  obtain ⟨o, ho⟩ := hp
  rw [getD_of_getElem? ho] at h ⊢
  exact (hs.objects p o ho).1.committed h

theorem CommittedAt.committable (h : CommittedAt s height hash) (hs : Inv S s) :
    ∃ x, Committable S x ∧ x.height = height ∧ x.blockHash = hash := by
  obtain ⟨p, hp, hflag, hheight, hhash⟩ | ⟨b, hb, hflag, hheight, hhash⟩ := h
  · exact ⟨_, hs.committable (hs.viewsAt hp).valid hflag, hheight, hhash⟩
  · exact ⟨b, (hs.stored b hb).committed hflag, hheight, hhash⟩

/-- The cache has the committed block in the slot of its height and view. -/
structure Held (height view : UInt64) (p : Ptr) (hash : String) (s : ChainAccount) : Prop where
  slot : ∃ views, s.allBlocks.find? height = some views ∧ views.find? view = some p
  object : ∃ o, s.objects[p]? = some o ∧ IsCommitted o.block height hash

def heldFrame (height view : UInt64) (p : Ptr) (hash : String) : Frame ChainAccount where
  inv := Held height view p hash
  rel s t := t.vblocks = s.vblocks
  refl _ := rfl
  trans h h' := h'.trans h

section

theorem checkBlockFlag_heldFrame (q : Ptr) (f : BlockFlag) :
    Spec (heldFrame height view p hash) (fun _ => True) (checkBlockFlag q f)
      (fun r s => r = (s.objects.getD q default).block.checkBlockFlag f ∧ True) :=
  .read (fun s : ChainAccount => (s.objects.getD q default).block.checkBlockFlag f) fun _ => rfl

theorem closeBlock_heldFrame (q : Ptr) : Safe (heldFrame height view p hash) (closeBlock q) := by
  refine .modify fun s hs _ => ⟨⟨hs.slot, ?_⟩, rfl, trivial⟩
  obtain ⟨o, ho, hcommitted⟩ := hs.object
  refine ⟨if q = p then { o with prevBlock := none, nextBlock := none, closed := true } else o,
    ?_, ?_⟩
  · rw [List.getElem?_modify, ho]
    split <;> rfl
  · split <;> exact hcommitted

theorem dropView_heldFrame {view' : UInt64} (hview : view' ≠ view) (q : Ptr) :
    Safe (heldFrame height view p hash) (dropView height view' q) := by
  refine Safe.bind (closeBlock_heldFrame q) fun _ => ?_
  refine Spec.get_bind fun s _ _ => ?_
  refine Spec.read_bind (fun t : ChainAccount => (t.allBlocks.find? height).getD .empty)
    (fun _ => rfl) ?_
  rintro t - rfl
  refine Spec.modify ?_
  rintro s hs rfl
  refine ⟨⟨?_, hs.object⟩, rfl, trivial⟩
  obtain ⟨views, hviews, hp⟩ := hs.slot
  refine ⟨views.erase view', ?_, ?_⟩
  · rw [hviews]
    exact find?_insert_self _ _ _
  · rw [find?_erase_of_ne views hview.symm]
    exact hp

variable {l : List (UInt64 × Ptr)}

theorem slotForLock_heldFrame (hmem : (view, p) ∈ l) (hkeys : ∀ e ∈ l, e.1 = view → e.2 = p)
    (found : Option UInt64) :
    Spec (heldFrame height view p hash) (fun _ => True) (slotForLock height l found)
      (fun r _ => r = .refused) := by
  induction l generalizing found with
  | nil => cases hmem
  | cons e l ih =>
    refine checkBlockFlag_bind e.2 .committed fun s hs _ =>
      .ite (fun _ => .pure fun _ _ _ => rfl) fun hnot => ?_
    -- not the held one, which is committed
    have hne : e.1 ≠ view := by
      intro heq
      obtain ⟨o, ho, hflag, -⟩ := hs.object
      rw [hkeys e mem_cons_self heq, getD_of_getElem? ho] at hnot
      exact hnot (decide_eq_true hflag)
    have hrest : ∀ found, Spec (heldFrame height view p hash) (fun _ => True)
        (slotForLock height l found) (fun r _ => r = .refused) := by
      refine ih ?_ fun e' he' => hkeys e' (mem_cons_of_mem e he')
      rcases mem_cons.mp hmem with rfl | hmem
      · exact absurd rfl hne
      · exact hmem
    refine .of_true (.bind (Q := fun _ _ => True) ?_ fun _ => .ite (fun _ => hrest _) fun _ => ?_)
    · exact (checkBlockFlag_heldFrame e.2 .locked).weaken
    · exact .bind (dropView_heldFrame hne e.2) fun _ => hrest _

theorem slotForCert_heldFrame (hmem : (view, p) ∈ l) (viewid : UInt64) (found : Option UInt64) :
    Spec (heldFrame height view p hash) (fun _ => True) (slotForCert viewid l found)
      (fun r _ => r = .refused) := by
  induction l generalizing found with
  | nil => cases hmem
  | cons e l ih =>
    refine object_bind e.2
      fun s hs _ => .ite (fun _ => .pure fun _ _ _ => rfl) fun hnot => .of_true ?_
    refine ih ?_ _
    rcases mem_cons.mp hmem with rfl | hmem
    · obtain ⟨o, ho, hflag, -⟩ := hs.object
      rw [getD_of_getElem? ho] at hnot
      exact absurd (.inr (decide_eq_true hflag)) hnot
    · exact hmem

theorem findSlot_heldFrame (hheight : b.height = height) (hcommitted : .committed ∉ b.flags)
    (hauth : .authenticated ∈ b.flags) :
    Spec (heldFrame height view p hash) (fun _ => True) (findSlot b) (fun r _ => r = .refused) := by
  refine .read_bind (fun s : ChainAccount => (s.allBlocks.find? b.height).getD .empty)
    (fun _ => rfl) fun s hs _ => ?_
  obtain ⟨views, hviews, hp⟩ := hs.slot
  have hmem : (view, p) ∈ views.entries := find?_eq_some_iff.mp hp
  rw [hheight, hviews]
  refine .ite (fun h => absurd (of_decide_eq_true h) hcommitted) fun _ =>
    .of_true (.ite (fun _ => ?_) fun _ => .ite (fun _ => ?_) fun h =>
      absurd (decide_eq_true hauth) h)
  · refine slotForLock_heldFrame hmem (fun e he heq => ?_) none
    exact eq_of_mem_entries (heq ▸ he) hmem
  · exact slotForCert_heldFrame hmem b.viewid none

end

theorem storeBlock_heldFrame (hagree : Agree S)
    (hdeliver : ∀ b, env.checks.isDeliver b false = true → .authenticated ∈ b.flags)
    (fuel : Nat) (this : Ptr) :
    Spec (heldFrame height view p hash)
      (fun s => Inv S s ∧ ∃ o, s.objects[this]? = some o ∧ o.block.height = height ∧
        o.block.blockHash ≠ hash)
      (storeBlock env fuel this) (fun _ _ => True) := by
  refine object_bind this fun s hheld hpre => ?_
  obtain ⟨hs, o, ho, hheight, hhash⟩ := hpre
  rw [getD_of_getElem? ho]
  refine Spec.ite (fun _ => (Safe.pure _).spec) fun hchecks => ?_
  have hauth : .authenticated ∈ o.block.flags := by
    refine hdeliver o.block ?_
    simp only [Bool.not_eq_true', Bool.and_eq_false_iff, not_or, Bool.not_eq_false] at hchecks
    exact hchecks.2
  have hcommitted : .committed ∉ o.block.flags := by
    intro hflag
    obtain ⟨o', ho', hflag', hheight', hhash'⟩ := hheld.object
    have hsame : o.block.blockHash = o'.block.blockHash :=
      hagree.blockHash_eq ((hs.objects this o ho).1.committed hflag)
        ((hs.objects p o' ho').1.committed hflag') (hheight.trans hheight'.symm)
    exact hhash (hsame.trans hhash')
  refine Spec.read_bind (fun s : ChainAccount => (s.allBlocks.find? o.block.height).getD .empty)
    (fun _ => rfl) ?_
  rintro t ht rfl
  obtain ⟨views, hviews, hp⟩ := hheld.slot
  rw [hheight, hviews]
  refine Spec.ite (fun hempty => ?_) fun _ => ?_
  · have hmem : (view, p) ∈ views.entries := find?_eq_some_iff.mp hp
    replace hempty : views.entries = [] := isEmpty_iff.mp hempty
    rw [hempty] at hmem
    cases hmem
  · refine Spec.of_true (Spec.bind
      (findSlot_heldFrame hheight hcommitted hauth) fun r => Spec.of_fact ?_)
    rintro rfl
    exact Safe.pure _

theorem newObject_heldFrame (hb : b ∈ S) :
    Spec (heldFrame height view p hash) (Inv S) (newObject b) (fun q s => Inv S s ∧ Is q b s) := by
  intro s hheld hs
  obtain ⟨hinv, -, his⟩ := newObject_spec (P := fun _ => True) (backed_of_mem hb) s hs trivial
  refine ⟨⟨hheld.slot, ?_⟩, rfl, hinv, his⟩
  obtain ⟨o, ho, hcommitted⟩ := hheld.object
  have hlt : p < s.objects.length := (List.getElem?_eq_some_iff.mp ho).1
  exact ⟨o, (List.getElem?_append_left hlt).trans ho, hcommitted⟩

/-- The call hands the block to the store. -/
def Stores (s : ChainAccount) (b : XvBlock) : StoreCall → Prop
  | .storeBlock x => x = b
  | .storeObject p => ∃ o, s.objects[p]? = some o ∧ o.block = b
  | .loadBlockObject _ => False
  | .executeBlock _ => False
  | .cleanBlocks _ => False

theorem call_heldFrame (hagree : Agree S)
    (hdeliver : ∀ b, env.checks.isDeliver b false = true → .authenticated ∈ b.flags)
    (fuel : Nat) {c : StoreCall} (hc : ∀ b, c = .storeBlock b → b ∈ S)
    (hheight : b.height = height) (hhash : b.blockHash ≠ hash) :
    Spec (heldFrame height view p hash) (fun s => Inv S s ∧ Stores s b c) (call env fuel c)
      (fun _ _ => True) := by
  cases c with
  | storeBlock x =>
    rintro s hheld ⟨hs, hx⟩
    obtain rfl : x = b := hx
    have hstore : Spec (heldFrame height view p hash) (Inv S) (call env fuel (.storeBlock x))
        (fun _ _ => True) := by
      refine Spec.bind (newObject_heldFrame (hc x rfl)) fun q => ?_
      refine Spec.bind (Q := fun _ _ => True) ?_ fun _ => Safe.pure ()
      refine (storeBlock_heldFrame hagree hdeliver fuel q).pre ?_
      rintro t - ⟨ht, o, ho, hsame⟩
      exact ⟨ht, o, ho, hsame.height.trans hheight, hsame.blockHash ▸ hhash⟩
    exact hstore s hheld hs
  | storeObject q =>
    refine Spec.get_bind fun s _ hpre => Spec.ite (fun _ => ?_) fun _ => (Safe.pure ()).spec
    obtain ⟨hs, o, ho, rfl⟩ := hpre
    refine Spec.bind (Q := fun _ _ => True) ?_ fun _ => Safe.pure ()
    refine (storeBlock_heldFrame hagree hdeliver fuel q).pre ?_
    rintro t - rfl
    exact ⟨hs, o, ho, hheight, hhash⟩
  | loadBlockObject _ => exact fun _ _ h => h.2.elim
  | executeBlock _ => exact fun _ _ h => h.2.elim
  | cleanBlocks _ => exact fun _ _ h => h.2.elim

def sampleEnv (flagCounts : Bool) : StoreEnv where
  checks := ⟨fun _ _ => true, fun _ _ => true, fun _ _ => true,
    fun b _ => b.checkBlockFlag .authenticated⟩
  blockClass _ := .light
  genesisBlock := { (default : XvBlock) with
    blockHash := "genesis", flags := {.authenticated, .locked, .committed} }
  flagCounts := flagCounts
  setVblock _ := true
  executeBlock _ := true
  storeUnits _ := none

def sampleBlock (height viewid : UInt64) (lastBlockHash blockHash : String)
    (flags : Finset BlockFlag) : XvBlock :=
  { (default : XvBlock) with height, viewid, lastBlockHash, blockHash, flags }

def sampleChain : List XvBlock :=
  [sampleBlock 1 1 "genesis" "b" {.authenticated}, sampleBlock 2 2 "b" "c" {.authenticated},
    sampleBlock 3 3 "c" "d" {.authenticated}, sampleBlock 4 4 "d" "e" {.authenticated},
    sampleBlock 5 5 "e" "f" {.authenticated}]

def sampleLate : XvBlock := sampleBlock 1 9 "genesis" "z" {.authenticated}

def sampleFork : XvBlock := sampleBlock 1 4 "genesis" "a" {.authenticated, .locked, .committed}

def sampleHigh : XvBlock := sampleBlock 7 7 "x" "g" {.authenticated, .locked, .committed}

end ChainAccount
end TopChain.Store
