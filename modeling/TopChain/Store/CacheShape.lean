import TopChain.Store.StoreWalk

/-!
# The shape of the block cache

What holds of the cache whatever the meta data say.
-/
namespace TopChain.Store.ChainAccount

open Option TopChain.Base TopChain.Lib TopChain.Lib.Guarantee SortedMap

/-- Authenticated, locked and committed. -/
def Consensused (b : XvBlock) : Prop :=
  .authenticated ∈ b.flags ∧ .locked ∈ b.flags ∧ .committed ∈ b.flags

instance instDecidableConsensused (b : XvBlock) : Decidable (Consensused b) :=
  inferInstanceAs (Decidable (_ ∧ _))

/-- Height 0 is cached, and all that is at this height is consensused. -/
structure Rooted (s : ChainAccount) : Prop where
  first : (viewsOf s 0).values ≠ []
  objects : ∀ (p : Ptr) o, s.objects[p]? = some o → o.block.height = 0 → Consensused o.block
  stored : ∀ b ∈ s.vblocks.values, b.height = 0 → Consensused b

/-- What every call keeps: the blocks are backed by those given, and under their own keys. -/
structure Shape (S : List XvBlock) (root : Prop) (s : ChainAccount) : Prop where
  inv : Inv S s
  keyed : OwnViews S → Keyed s
  rooted : root → Rooted s
  database : ∀ b ∈ s.vblocks.values, .locked ∈ b.flags ∨ .committed ∈ b.flags

variable {S : List XvBlock} {root : Prop} {env : StoreEnv} {s t : ChainAccount}

theorem viewsOf_insert (m : SortedMap UInt64 (SortedMap UInt64 Ptr)) (height height' : UInt64)
    (views : SortedMap UInt64 Ptr) :
    viewsOf { s with allBlocks := m.insert height views } height' =
      if height' = height then views else viewsOf { s with allBlocks := m } height' := by
  unfold viewsOf
  split
  · rename_i heq
    subst heq
    rw [find?_insert_self]
    rfl
  · rename_i hne
    rw [find?_insert_of_ne m views hne]

theorem viewsOf_withLoaded (b : XvBlock) (height : UInt64) :
    viewsOf (withLoaded s b) height = if height = b.height
      then (viewsOf s b.height).insert b.viewid s.objects.length else viewsOf s height :=
  viewsOf_insert (s := { s with objects := s.objects ++ [⟨b, none, none, 0, false⟩] })
    s.allBlocks b.height height _

theorem viewsOf_erase (m : SortedMap UInt64 (SortedMap UInt64 Ptr)) (height height' : UInt64) :
    viewsOf { s with allBlocks := m.erase height } height' =
      if height' = height then .empty else viewsOf { s with allBlocks := m } height' := by
  show ((m.erase height).find? height').getD .empty = _
  rw [find?_erase]
  split <;> rfl

variable {p : Ptr} {f : BlockObject → BlockObject}

theorem Under.grows {view : UInt64} (h : Under view p s) (hst : Grows s t) : Under view p t := by
  obtain ⟨o, ho, hview⟩ := h
  obtain ⟨o', ho', hsame, -⟩ := hst p o ho
  exact ⟨o', ho', hsame.viewid.trans hview⟩

theorem Keyed.grows (h : Keyed s) (hst : Grows s t) (hcache : t.allBlocks = s.allBlocks) :
    Keyed t := by
  intro height view p hp
  refine (h height view p ?_).grows hst
  unfold viewsOf at hp ⊢
  rw [← hcache]
  exact hp

theorem Keyed.insert {height view : UInt64} (h : Keyed s) (hp : Under view p s) :
    Keyed { s with allBlocks := s.allBlocks.insert height ((viewsOf s height).insert view p) } := by
  intro height' view' q hq
  rw [viewsOf_insert] at hq
  split at hq
  · by_cases hview : view' = view
    · subst hview
      rw [find?_insert_self] at hq
      obtain rfl := Option.some.inj hq
      exact hp
    · rw [find?_insert_of_ne _ _ hview] at hq
      exact h height view' q hq
  · exact h height' view' q hq

theorem Consensused.grows {b b' : XvBlock} (h : Consensused b)
    (hflags : ∀ f, f ≠ .stored → f ≠ .executed → f ∈ b.flags → f ∈ b'.flags) : Consensused b' :=
  ⟨hflags _ (by decide) (by decide) h.1, hflags _ (by decide) (by decide) h.2.1,
    hflags _ (by decide) (by decide) h.2.2⟩

theorem Shape.of_same (hs : Shape S root s) (hobjects : t.objects = s.objects)
    (hcache : t.allBlocks = s.allBlocks) (hstored : t.vblocks = s.vblocks) : Shape S root t where
  inv := by
    obtain ⟨hinv, -, -⟩ := modify_safe (S := S) (f := fun u => { u with
      acctMeta := t.acctMeta, lastCert := t.lastCert, exhausted := t.exhausted })
      (fun _ => rfl) (fun _ => rfl) (fun _ => rfl) s hs.inv trivial
    obtain ⟨objects, allBlocks, acctMeta, vblocks, lastCert, exhausted⟩ := t
    obtain rfl : objects = s.objects := hobjects
    obtain rfl : allBlocks = s.allBlocks := hcache
    obtain rfl : vblocks = s.vblocks := hstored
    exact hinv
  keyed hown := (hs.keyed hown).grows (.of_objects hobjects) hcache
  rooted hroot := by
    obtain ⟨hfirst, hobj, hdb⟩ := hs.rooted hroot
    refine ⟨?_, ?_, ?_⟩
    · unfold viewsOf at hfirst ⊢
      rw [hcache]
      exact hfirst
    · rw [hobjects]
      exact hobj
    · rw [hstored]
      exact hdb
  database := hstored ▸ hs.database

/-- The change keeps the body and every flag but `stored` and `executed`. -/
structure Mild (f : BlockObject → BlockObject) : Prop where
  same : ∀ o, SameBody (f o).block o.block
  flags : ∀ o g, g ≠ .stored → g ≠ .executed → g ∈ o.block.flags → g ∈ (f o).block.flags

theorem Mild.of_block (hblock : ∀ o, (f o).block = o.block) : Mild f := by
  refine ⟨fun o => ?_, fun o g _ _ hg => ?_⟩
  · rw [hblock]
  · rw [hblock]
    exact hg

theorem mild_set {f : BlockFlag} {count : BlockObject → Nat} :
    Mild fun o => { o with block := o.block.setBlockFlag f, modifiedCount := count o } :=
  ⟨fun _ => rfl, fun _ g _ _ hg => (XvBlock.mem_setBlockFlag _ _ g).mpr (.inr hg)⟩

theorem mild_remove {f : BlockFlag} (hf : f = .stored ∨ f = .executed) :
    Mild fun o => { o with block := { o.block with flags := o.block.flags.erase f } } := by
  refine ⟨fun _ => rfl, fun o g hstored hexecuted hg => Finset.mem_erase.mpr ⟨?_, hg⟩⟩
  rcases hf with rfl | rfl
  · exact hstored
  · exact hexecuted

theorem grows_modify (hf : Mild f) : Grows s { s with objects := s.objects.modify p f } := by
  intro q o ho
  refine ⟨if p = q then f o else o, ?_, ?_⟩
  · rw [getElem?_modify_map, ho]
    rfl
  · split
    · exact ⟨hf.same o, hf.flags o⟩
    · exact ⟨.refl _, fun _ _ _ h => h⟩

theorem Shape.modifyObject (hs : Shape S root s) (hf : Mild f)
    (hinv : Inv S { s with objects := s.objects.modify p f }) :
    Shape S root { s with objects := s.objects.modify p f } where
  inv := hinv
  keyed hown := (hs.keyed hown).grows (grows_modify hf) rfl
  rooted hroot := by
    obtain ⟨hfirst, hobj, hdb⟩ := hs.rooted hroot
    refine ⟨hfirst, fun q o' ho' hheight => ?_, hdb⟩
    have hmap : (s.objects[q]?).map (fun o => if p = q then f o else o) = some o' :=
      (getElem?_modify_map p q f).symm.trans ho'
    obtain ⟨o, ho, rfl⟩ := map_eq_some_iff.mp hmap
    split at hheight
    · rename_i hpq
      rw [if_pos hpq]
      exact (hobj q o ho ((hf.same o).height.symm.trans hheight)).grows (hf.flags o)
    · rename_i hpq
      rw [if_neg hpq]
      exact hobj q o ho hheight
  database := hs.database

theorem Shape.setBlocks (hs : Shape S root s) {m : SortedMap UInt64 (SortedMap UInt64 Ptr)}
    (hcache : CacheOk s m) (hkeyed : OwnViews S → Keyed { s with allBlocks := m })
    (hfirst : root → (viewsOf { s with allBlocks := m } 0).values ≠ []) :
    Shape S root { s with allBlocks := m } where
  inv := ⟨hs.inv.objects, hcache, hs.inv.stored⟩
  keyed := hkeyed
  rooted hroot := ⟨hfirst hroot, (hs.rooted hroot).objects, (hs.rooted hroot).stored⟩
  database := hs.database

theorem values_insert_ne_nil (m : SortedMap UInt64 Ptr) (view : UInt64) (p : Ptr) :
    (m.insert view p).values ≠ [] := by
  intro h
  have hmem : p ∈ (m.insert view p).values :=
    mem_values_of_find? (find?_insert_self m view p)
  rw [h] at hmem
  cases hmem

theorem Shape.put (hs : Shape S root s) {height view : UInt64} (hp : At p height s)
    (hview : OwnViews S → Under view p s) :
    Shape S root { s with
      allBlocks := s.allBlocks.insert height ((viewsOf s height).insert view p) } := by
  refine hs.setBlocks ?_ ?_ ?_
  · refine hs.inv.cache.insert fun q hq => ?_
    rcases mem_values_insert hq with rfl | hq
    · exact hp
    · exact hs.inv.viewsAt hq
  · exact fun hown => (hs.keyed hown).insert (hview hown)
  · intro hroot
    rw [viewsOf_insert]
    split
    · exact values_insert_ne_nil _ _ _
    · exact (hs.rooted hroot).first

theorem Shape.write (hs : Shape S root s) {o : BlockObject} (ho : s.objects[p]? = some o)
    (hflag : .locked ∈ o.block.flags ∨ .committed ∈ o.block.flags) :
    Shape S root { s with vblocks := s.vblocks.insert o.block.height o.block } where
  inv := by
    refine ⟨hs.inv.objects, hs.inv.cache, fun b hb => ?_⟩
    rcases mem_values_insert hb with rfl | hold
    · exact (hs.inv.objects p o ho).1
    · exact hs.inv.stored b hold
  keyed := hs.keyed
  rooted hroot := by
    obtain ⟨hfirst, hobj, hdb⟩ := hs.rooted hroot
    refine ⟨hfirst, hobj, fun b hb => ?_⟩
    rcases mem_values_insert hb with rfl | hold
    · exact hobj p o ho
    · exact hdb b hold
  database b hb := by
    rcases mem_values_insert hb with rfl | hold
    · exact hflag
    · exact hs.database b hold

def shape (S : List XvBlock) (root : Prop) : Walk S Unit where
  inv _ := Shape S root
  rel := Grows
  refl := Grows.refl
  trans := Grows.trans
  base h := h.inv
  keyed hown _ _ h := h.keyed hown
  grows h := h
  savable _ _ _ := True
  savable_mono _ h := h
  owes _ _ := True
  owes_mono _ h := h
  done _ _ _ := True
  done_mono _ h := h

theorem modifyObject_shape {P : ChainAccount → Prop}
    (hspec : Spec (frame S) P (modifyObject p f) (fun _ _ => True)) (hf : Mild f) :
    Spec ((shape S root).frame ()) P (modifyObject p f) (fun _ _ => True) :=
  fun s hs hp => ⟨hs.modifyObject hf (hspec s hs.inv hp).1, grows_modify hf, trivial⟩

theorem modifyObject_shape_safe (hblock : ∀ o, (f o).block = o.block)
    (hprev : ∀ o, (f o).prevBlock = o.prevBlock ∨ (f o).prevBlock = none) :
    Safe ((shape S root).frame ()) (modifyObject p f) :=
  modifyObject_shape (modifyObject_safe hblock hprev) (.of_block hblock)

theorem setBlockFlag_shape {P : ChainAccount → Prop} {f : BlockFlag}
    (hspec : Spec (frame S) P (setBlockFlag env p f) (fun _ _ => True)) :
    Spec ((shape S root).frame ()) P (setBlockFlag env p f) (fun _ _ => True) :=
  modifyObject_shape hspec mild_set

theorem writeVblock_shape (p : Ptr) :
    Spec ((shape S root).frame ()) (Raised p) (writeVblock env p) (fun _ _ => True) := by
  refine object_bind p ?_
  rintro s hs ⟨o, ho, hflag⟩
  rw [getD_of_getElem? ho]
  refine Spec.ite (fun _ => ?_) fun _ => (Safe.pure _).spec
  refine Spec.bind (Q := fun _ _ => True) (Spec.modify ?_) fun _ =>
    Safe.bind (modifyObject_shape_safe (fun _ => rfl) fun _ => .inl rfl) fun _ => Safe.pure _
  rintro t ht rfl
  exact ⟨ht.write ho hflag, .of_objects rfl, trivial⟩

theorem removeBlockFlag_shape (p : Ptr) {f : BlockFlag} (hf : f = .stored ∨ f = .executed) :
    Safe ((shape S root).frame ()) (removeBlockFlag p f) := by
  refine modifyObject_shape (removeBlockFlag_safe ?_) (mild_remove hf)
  rcases hf with rfl | rfl <;> decide

theorem writes_shape (env : StoreEnv) : (shape S root).Writes env where
  flag _ _ _ hlocked hcommitted := setBlockFlag_shape (setBlockFlag_safe hlocked hcommitted)
  unflag _ p _ hf := removeBlockFlag_shape p hf
  acctMeta _ _ := .modify fun _ hs _ => ⟨hs.of_same rfl rfl rfl, .of_objects rfl, trivial⟩
  lastCert _ _ _ := .modify fun _ hs _ => ⟨hs.of_same rfl rfl rfl, .of_objects rfl, trivial⟩
  write _ p := (writeVblock_shape p).pre fun _ _ h => h.2

theorem saves_shape (env : StoreEnv) : (shape S root).Saves env :=
  (writes_shape env).saves (fun _ _ _ => trivial)
    (fun _ => .modify fun _ hs _ => ⟨hs.of_same rfl rfl rfl, .of_objects rfl, trivial⟩)
    fun _ _ => trivial

theorem resetPrevBlock_cases (p q : Ptr) (s : ChainAccount) :
    (resetPrevBlock p q s).2 = s ∨ (resetPrevBlock p q s).2 =
      { s with objects := s.objects.modify p fun o => { o with prevBlock := some q } } := by
  have hstep : resetPrevBlock p q s =
      if (s.objects.getD q default).block.blockHash =
        (s.objects.getD p default).block.lastBlockHash ∧
          (s.objects.getD q default).block.height + 1 = (s.objects.getD p default).block.height then
        (true, { s with objects := s.objects.modify p fun o => { o with prevBlock := some q } })
      else (false, s) := by
    show (if _ then _ else _ : StoreM Bool) s = _
    split <;> rfl
  rw [hstep]
  split
  · exact .inr rfl
  · exact .inl rfl

theorem links_shape : (shape S root).Links := by
  intro _ p q s hs hq
  have hinv : Inv S (resetPrevBlock p q s).2 := (resetPrevBlock_spec p q s hs.inv hq).1
  rcases resetPrevBlock_cases p q s with h | h
  · rw [h]
    exact ⟨hs, .refl s, trivial⟩
  · rw [h] at hinv ⊢
    have hmild : Mild fun o => { o with prevBlock := some q } := .of_block fun _ => rfl
    exact ⟨hs.modifyObject hmild hinv, grows_modify hmild, trivial⟩

theorem grows_append (b : BlockObject) : Grows s { s with objects := s.objects ++ [b] } := by
  intro q o ho
  have hlt : q < s.objects.length := (List.getElem?_eq_some_iff.mp ho).1
  exact ⟨o, (List.getElem?_append_left hlt).trans ho, .refl _, fun _ _ _ h => h⟩

theorem Shape.newObject (hs : Shape S root s) {b : XvBlock} (hb : Backed S b)
    (hroot : root → b.height = 0 → Consensused b) :
    Shape S root { s with objects := s.objects ++ [⟨b, none, none, 0, false⟩] } where
  inv := (newObject_spec (P := fun _ => True) hb s hs.inv trivial).1
  keyed hown := (hs.keyed hown).grows (grows_append _) rfl
  rooted h := by
    obtain ⟨hfirst, hobj, hdb⟩ := hs.rooted h
    refine ⟨hfirst, fun q o ho hheight => ?_, hdb⟩
    have ho' : (s.objects ++ [⟨b, none, none, 0, false⟩])[q]? = some o := ho
    rw [List.getElem?_append] at ho'
    split at ho'
    · exact hobj q o ho' hheight
    · obtain ⟨hlt, rfl⟩ := List.getElem?_eq_some_iff.mp ho'
      rw [List.getElem_singleton] at hheight ⊢
      exact hroot h hheight
  database := hs.database

structure RootFlags (S : List XvBlock) (env : StoreEnv) : Prop where
  height : env.genesisBlock.height = 0
  flags : ∀ b ∈ S, b.height = 0 → Consensused b

theorem Rooted.dbBlock (h : Rooted s) (hgenesis : Consensused env.genesisBlock) {target : UInt64}
    {b : XvBlock} (hb : dbBlock env s target = some b)
    (hheight : b.height = 0) : Consensused b := by
  rcases dbBlock_cases hb with hfind | ⟨-, rfl⟩
  · exact h.stored b (mem_values_of_find? hfind) hheight
  · exact hgenesis

section
variable (hgenesis : env.genesisBlock ∈ S) (hroot : root → RootFlags S env)

include hgenesis hroot

theorem loads_shape : (shape S root).Loads env where
  enter {_ s b} hs hb hview := by
    have hbacked : Backed S b := hs.inv.backed_of_dbBlock hgenesis hb
    have hnew := hs.newObject hbacked fun h hheight => (hs.rooted h).dbBlock
      ((hroot h).flags _ hgenesis (hroot h).height) hb hheight
    have hget := Walk.getElem?_withLoaded s b
    refine ⟨hnew.put (p := s.objects.length) ?_ ?_, grows_append _, trivial⟩
    · exact ⟨_, hget, rfl⟩
    · exact fun _ => ⟨_, hget, rfl⟩
  loadedMeta _ p target := (Walk.loadedMeta_safe (writes_shape env) p target).spec

end

theorem Keyed.erase (h : Keyed s) (height view : UInt64) :
    Keyed { s with allBlocks := s.allBlocks.insert height ((viewsOf s height).erase view) } := by
  intro height' view' q hq
  rw [viewsOf_insert] at hq
  split at hq
  · rw [find?_erase] at hq
    split at hq
    · cases hq
    · exact h height view' q hq
  · exact h height' view' q hq

/-- No views are left at one height. -/
def Emptied (height : UInt64) (s : ChainAccount) (m : SortedMap UInt64 (SortedMap UInt64 Ptr)) :
    Prop :=
  ∀ height', viewsOf { s with allBlocks := m } height' =
    if height' = height then .empty else viewsOf s height'

theorem emptied_insert (height : UInt64) (s : ChainAccount) :
    Emptied height s (s.allBlocks.insert height .empty) :=
  fun height' => viewsOf_insert s.allBlocks height height' .empty

theorem emptied_erase (height : UInt64) (s : ChainAccount) :
    Emptied height s (s.allBlocks.erase height) :=
  viewsOf_erase s.allBlocks height

theorem Emptied.mem_values {height height' : UInt64} {m : SortedMap UInt64 (SortedMap UInt64 Ptr)}
    (hm : Emptied height s m) (hp : p ∈ (viewsOf { s with allBlocks := m } height').values) :
    p ∈ (viewsOf s height').values := by
  rw [hm] at hp
  split at hp
  · exact absurd hp (not_mem_values_empty p)
  · exact hp

theorem Shape.emptied (hs : Shape S root s) {height : UInt64}
    {m : SortedMap UInt64 (SortedMap UInt64 Ptr)} (hm : Emptied height s m)
    (hold : height ≠ 0 ∨ (viewsOf s height).values = []) :
    Shape S root { s with allBlocks := m } := by
  refine hs.setBlocks ?_ ?_ fun h => ?_
  · intro e he p hp
    have hviews : viewsOf { s with allBlocks := m } e.1 = e.2 := by
      unfold viewsOf
      rw [find?_eq_some_iff.mpr he]
      rfl
    exact hs.inv.viewsAt (hm.mem_values (hviews ▸ hp))
  · intro hown height' view q hq
    rw [hm] at hq
    split at hq
    · cases hq
    · exact hs.keyed hown height' view q hq
  · have hheight : (0 : UInt64) ≠ height := by
      rintro rfl
      rcases hold with hne | hnil
      · exact hne rfl
      · exact (hs.rooted h).first hnil
    rw [hm, if_neg hheight]
    exact (hs.rooted h).first

theorem values_nil {m : SortedMap UInt64 Ptr} (h : m.entries = []) : m.values = [] := by
  rw [SortedMap.values, h]
  rfl

theorem Shape.drop (hs : Shape S root s) {height : UInt64} (view : UInt64)
    (hheight : root → height ≠ 0) :
    Shape S root { s with
      allBlocks := s.allBlocks.insert height ((viewsOf s height).erase view) } := by
  refine hs.setBlocks ?_ (fun hown => (hs.keyed hown).erase height view) fun h => ?_
  · exact hs.inv.cache.insert fun q hq => hs.inv.viewsAt (mem_values_filter hq)
  · rw [viewsOf_insert, if_neg (hheight h).symm]
    exact (hs.rooted h).first

section
variable (i : Unit)
include i

theorem closeBlock_shape (p : Ptr) : Safe ((shape S root).frame i) (closeBlock p) :=
  modifyObject_shape_safe (fun _ => rfl) fun _ => .inr rfl

theorem dropView_shape (height view : UInt64) (p : Ptr) :
    Spec ((shape S root).frame i) (fun s => At p height s ∧
        ¬ ((s.objects.getD p default).block.checkBlockFlag .locked ∧
          (s.objects.getD p default).block.checkBlockFlag .committed))
      (dropView height view p) (fun _ _ => True) := by
  rintro s hs ⟨⟨o, ho, hat⟩, hlacks⟩
  have hheight : root → height ≠ 0 := by
    rintro h rfl
    obtain ⟨-, hlocked, hcommitted⟩ := (hs.rooted h).objects p o ho hat
    rw [getD_of_getElem? ho] at hlacks
    exact hlacks ⟨decide_eq_true hlocked, decide_eq_true hcommitted⟩
  have hclose := closeBlock_shape i p s hs trivial
  exact ⟨hclose.1.drop view hheight, hclose.2.1, trivial⟩

theorem lock_shape (p : Ptr) :
    Spec ((shape S root).frame i) (LockableAt S p) (setBlockFlag env p .locked)
      (fun _ _ => True) := by
  refine setBlockFlag_shape (setBlockFlag_spec (fun _ s o _ h ho => ?_) fun h =>
    absurd h (by decide))
  obtain ⟨x, ⟨o', ho', hsame⟩, hlock⟩ := h
  obtain rfl := mem_unique ho ho'
  exact hlock.congr hsame.symm

theorem commit_shape (p : Ptr) :
    (shape S root).Moves i () (CommittableAt S p) (setBlockFlag env p .committed)
      (fun _ _ => True) := by
  refine setBlockFlag_shape (setBlockFlag_spec
    (fun h => absurd h (by decide)) fun _ s o _ h ho => ?_)
  obtain ⟨x, ⟨o', ho', hsame⟩, hcommit⟩ := h
  obtain rfl := mem_unique ho ho'
  exact hcommit.congr hsame.symm

theorem emptied_shape {height : UInt64} {t : ChainAccount}
    {m : SortedMap UInt64 (SortedMap UInt64 Ptr)} (hm : Emptied height t m)
    (hold : height ≠ 0 ∨ (viewsOf t height).values = []) :
    Spec ((shape S root).frame i) (· = t) (setBlocks m) (fun _ _ => True) := by
  rintro s hs rfl
  exact ⟨hs.emptied hm hold, .of_objects rfl, trivial⟩

theorem put_shape (view : UInt64) (p : Ptr) (t : ChainAccount) (o : BlockObject)
    (ho : t.objects[p]? = some o) (hview : OwnViews S → view = o.block.viewid) :
    (shape S root).Moves i () (· = t) (setBlocks (t.allBlocks.insert o.block.height
      ((viewsOf t o.block.height).insert view p))) (fun _ _ => True) := by
  rintro s hs rfl
  exact ⟨hs.put ⟨o, ho, rfl⟩ fun hown => ⟨o, ho, (hview hown).symm⟩, .of_objects rfl, trivial⟩

end

def storesShape (env : StoreEnv) : (shape S root).Stores env where
  during _ _ _ := ()
  ready _ _ := trivial
  lock := lock_shape
  commit := commit_shape
  promote := commit_shape
  next _ p q := resetNextBlock_safe (modifyObject_shape_safe (fun _ => rfl) fun _ => .inl rfl)
  clean _ _ p := Walk.clean_moves dropView_shape p fun _ h _ => h
  leave h _ := h
  free _ _ := trivial
  close := closeBlock_shape
  unlink _ _ := modifyObject_shape_safe (fun _ => rfl) fun _ => .inr rfl
  keepStored _ p := (writes_shape env).flag () p .stored (by decide) (by decide)
  touched _ _ := True
  touched_mono _ h := h
  touch _ _ := Safe.spec (by exact modifyObject_shape_safe (fun _ => rfl) fun _ => .inl rfl)
  settled _ _ _ _ := trivial
  drop := dropView_shape
  blank i height t h := emptied_shape i (emptied_insert height t) (.inr (values_nil h))
  erase i height t := emptied_shape i (emptied_erase height t)
  put := put_shape

section
variable (hgenesis : env.genesisBlock ∈ S) (hroot : root → RootFlags S env)

include hgenesis hroot

theorem loadBlock_shape (n : Nat) : (shape S root).LoadSpec (loadBlock env n) :=
  Walk.loadBlock_spec (saves_shape env) links_shape (loads_shape hgenesis hroot)
    (fun _ fuel hload => Walk.raises (storesShape env).toLifts (saves_shape env) hload fuel) n

theorem loadBlockObject_shape (fuel : Nat) (height : UInt64) :
    Spec ((shape S root).frame ()) (fun _ => True) (loadBlockObject (loadBlock env fuel) height)
      (fun r s => ∀ p, r = some p → At p height s) :=
  (Walk.loadBlockObject_spec (saves_shape env) (loadBlock_shape hgenesis hroot fuel) height).conseq
    (fun _ _ h => h) fun _ _ _ h p hp => (h p hp).1

theorem connectBlock_shape (fuel : Nat) (this : Ptr) (reenter : Nat) :
    Spec ((shape S root).frame ()) (Valid this)
      (connectBlock env (loadBlock env fuel) fuel this reenter) (fun _ _ => True) :=
  Walk.connectBlock_spec (loadBlock_shape hgenesis hroot fuel) links_shape
    (Walk.raises (storesShape env).toLifts (saves_shape env)
      (loadBlock_shape hgenesis hroot fuel) fuel)
    this reenter

theorem storeBlock_shape (fuel : Nat) (this : Ptr) :
    Spec ((shape S root).frame ()) (Valid this) (storeBlock env fuel this) (fun _ _ => True) :=
  Walk.storeBlock_spec (storesShape env) (saves_shape env)
    (loadBlock_shape hgenesis hroot fuel) links_shape
    (Walk.raises (storesShape env).toLifts (saves_shape env)
      (loadBlock_shape hgenesis hroot fuel) fuel) this

theorem cleanBlocks_shape (fuel keep : Nat) :
    Safe ((shape S root).frame ()) (cleanBlocks env fuel keep) :=
  Walk.cleanBlocks_safe (saves_shape env) (loadBlock_shape hgenesis hroot fuel)
    (closeBlock_shape ())
    (fun height t => emptied_shape () (emptied_erase height t)) keep

end

theorem executeBlock_shape (p : Ptr) :
    Spec ((shape S root).frame ()) (Valid p) (executeBlock env p) (fun _ _ => True) :=
  ((saves_shape env).execute () p).pre fun _ _ h => ⟨h, trivial⟩

end TopChain.Store.ChainAccount
