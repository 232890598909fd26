import TopChain.Store.Finality

/-!
# Deleting and asking for blocks by key

`delete_block` relies on the cache keeping each block under its own key.
-/
namespace TopChain.Store.ChainAccount

open List TopChain.Base TopChain.Lib TopChain.Lib.Guarantee SortedMap

variable {S : List XvBlock} {env : StoreEnv} {s t : ChainAccount} {b : XvBlock}

def dropEmptyHeight (height : UInt64) : StoreM Unit := do
  if (← viewsAt height).entries.isEmpty then
    setBlocks ((← get).allBlocks.erase height)

def deleteBlock (b : XvBlock) : StoreM Bool := do
  if !b.checkBlockFlag .locked then
    match (← viewsAt b.height).find? b.viewid with
    | some p => dropView b.height b.viewid p
    | none => pure ()
    dropEmptyHeight b.height
  return true

inductive CacheCall where
  | store (c : StoreCall)
  | deleteBlock (b : XvBlock)

def cacheCall (env : StoreEnv) (fuel : Nat) : CacheCall → StoreM Unit
  | .store c => call env fuel c
  | .deleteBlock b => do
    let _ ← deleteBlock b

def afterCalls (env : StoreEnv) (fuel : Nat) (cs : List CacheCall) : ChainAccount :=
  ((cs.forM (cacheCall env fuel)).run (init env)).2

theorem dropEmptyHeight_viewsOf (height height' : UInt64) (s : ChainAccount) :
    viewsOf (dropEmptyHeight height s).2 height' = viewsOf s height' := by
  show viewsOf
    ((if (viewsOf s height).entries.isEmpty = true then _ else _ : StoreM Unit) s).2 _ = _
  split
  · rename_i hempty
    show viewsOf { s with allBlocks := s.allBlocks.erase height } height' = _
    rw [viewsOf_erase]
    split
    · rename_i heq
      subst heq
      refine ext_find? fun view => ?_
      unfold SortedMap.find?
      rw [isEmpty_iff.mp hempty]
      rfl
    · rfl
  · rfl

theorem dropView_viewsOf (height view : UInt64) (p : Ptr) (height' : UInt64) (s : ChainAccount) :
    viewsOf (dropView height view p s).2 height' =
      if height' = height then (viewsOf s height).erase view else viewsOf s height' :=
  viewsOf_insert (s := { s with objects := s.objects.modify p fun o => { o with
    prevBlock := none, nextBlock := none, closed := true } }) s.allBlocks height height' _

theorem deleteBlock_locked (h : .locked ∈ b.flags) (s : ChainAccount) :
    (deleteBlock b s).2 = s := by
  show ((if _ then _ else _ : StoreM Bool) s).2 = s
  rw [if_neg]
  · rfl
  · rw [XvBlock.checkBlockFlag, decide_eq_true h]
    exact Bool.false_ne_true

section
variable (h : .locked ∉ b.flags)

include h

theorem deleteBlock_cert : (deleteBlock b s).2 = (dropEmptyHeight b.height
    (match (viewsOf s b.height).find? b.viewid with
      | none => s
      | some p => (dropView b.height b.viewid p s).2)).2 := by
  have hcert : (!b.checkBlockFlag .locked) = true := by
    rw [XvBlock.checkBlockFlag, decide_eq_false h]
    rfl
  unfold deleteBlock
  rw [if_pos hcert, Walk.viewsAt_bind_run]
  cases (viewsOf s b.height).find? b.viewid <;> rfl

theorem deleteBlock_viewsOf (height view : UInt64) :
    (viewsOf (deleteBlock b s).2 height).find? view =
      if height = b.height ∧ view = b.viewid then none else (viewsOf s height).find? view := by
  rw [deleteBlock_cert h, dropEmptyHeight_viewsOf]
  cases hfind : (viewsOf s b.height).find? b.viewid with
  | none =>
    dsimp only
    split
    · rename_i hkey
      rw [hkey.1, hkey.2, hfind]
    · rfl
  | some p =>
    rw [dropView_viewsOf]
    by_cases hheight : height = b.height
    · rw [if_pos hheight, SortedMap.find?_erase, hheight]
      by_cases hview : view = b.viewid
      · rw [if_pos hview, if_pos ⟨rfl, hview⟩]
      · rw [if_neg hview, if_neg fun hkey => hview hkey.2]
    · rw [if_neg hheight, if_neg fun hkey => hheight hkey.1]

end

theorem deleteBlock_shape (b : XvBlock) : Safe ((shape S False).frame ()) (deleteBlock b) := by
  have hempty : Safe ((shape S False).frame ()) (dropEmptyHeight b.height) := by
    refine viewsAt_bind b.height
      fun s hs _ => Spec.ite (fun hempty => Spec.get_bind ?_) fun _ => (Safe.pure ()).spec
    rintro t ht rfl
    exact emptied_shape () (emptied_erase b.height t) (.inr (values_nil (isEmpty_iff.mp hempty)))
  intro s hs _
  by_cases h : .locked ∈ b.flags
  · rw [deleteBlock_locked h]
    exact ⟨hs, .refl s, trivial⟩
  rw [deleteBlock_cert h]
  cases (viewsOf s b.height).find? b.viewid with
  | none => exact hempty s hs trivial
  | some p =>
    have hclose := closeBlock_shape () p s hs trivial
    have hdrop : Shape S False (dropView b.height b.viewid p s).2 :=
      hclose.1.drop b.viewid False.elim
    have hend := hempty _ hdrop trivial
    exact ⟨hend.1, hclose.2.1.trans hend.2.1, trivial⟩

theorem shape_afterCalls (hgenesis : env.genesisBlock ∈ S) (fuel : Nat) (cs : List CacheCall)
    (hcs : ∀ b, .store (.storeBlock b) ∈ cs → b ∈ S) : Shape S False (afterCalls env fuel cs) := by
  have hrun : Spec ((shape S False).frame ()) (fun _ => True) (cs.forM (cacheCall env fuel))
      (fun _ _ => True) := by
    refine Spec.forM (fun _ _ _ _ => trivial) fun c hc => ?_
    cases c with
    | store c =>
      refine call_safe hgenesis False.elim fuel c fun b hb => hcs b ?_
      rw [← hb]
      exact hc
    | deleteBlock b => exact Safe.bind (deleteBlock_shape b) fun _ => Safe.pure ()
  exact (hrun _ (shape_init hgenesis) trivial).1

/-- Every cached block is under its own height and view. -/
def OwnKeys (s : ChainAccount) : Prop :=
  ∀ height view p, (viewsOf s height).find? view = some p →
    ∃ o, s.objects[p]? = some o ∧ o.block.height = height ∧ o.block.viewid = view

theorem Shape.ownKeys {root : Prop} (hs : Shape S root s) (hown : OwnViews S) : OwnKeys s := by
  intro height view p hfind
  obtain ⟨o, ho, hview⟩ := hs.keyed hown height view p hfind
  obtain ⟨o', ho', hheight⟩ := hs.inv.viewsAt (mem_values_of_find? hfind)
  obtain rfl := Option.mem_unique ho ho'
  exact ⟨o, ho, hheight, hview⟩

/-- When a hash has one view and no block with a committed child competes for the slot of another
view, the cache keeps every block under its own key, and a deletion takes out the entry asked for.
-/
theorem blocks_under_own_keys (hgenesis : env.genesisBlock ∈ S) (hown : OwnViews S) (fuel : Nat)
    (cs : List CacheCall) (hcs : ∀ b, .store (.storeBlock b) ∈ cs → b ∈ S) :
    OwnKeys (afterCalls env fuel cs) ∧
    ∀ b, .locked ∉ b.flags → ∀ height view,
      (viewsOf (deleteBlock b (afterCalls env fuel cs)).2 height).find? view =
        if height = b.height ∧ view = b.viewid then none
        else (viewsOf (afterCalls env fuel cs) height).find? view :=
  ⟨(shape_afterCalls hgenesis fuel cs hcs).ownKeys hown,
    fun _ hb height view => deleteBlock_viewsOf hb height view⟩

theorem blocks_under_own_keys_sample :
    OwnViews ((sampleEnv true).genesisBlock :: sampleLate :: sampleChain) ∧
    OwnKeys (afterCalls (sampleEnv true) 9
      ((sampleLate :: sampleChain).map (fun b => .store (.storeBlock b)) ++
        [.deleteBlock sampleLate, .store (.cleanBlocks 0), .store (.loadBlockObject 1)])) := by
  have hown : OwnViews ((sampleEnv true).genesisBlock :: sampleLate :: sampleChain) := by
    refine ⟨?_, ?_⟩ <;> decide +kernel
  refine ⟨hown, (blocks_under_own_keys ?_ hown 9 _ ?_).1⟩
  · exact mem_cons_self
  · intro b hb
    simp only [mem_append, mem_map, CacheCall.store.injEq, StoreCall.storeBlock.injEq,
      exists_eq_right, mem_cons, reduceCtorEq, not_mem_nil, or_false] at hb
    exact mem_cons_of_mem _ (mem_cons.mpr hb)

def sampleRivals : List XvBlock :=
  [sampleBlock 1 5 "genesis" "l" {.authenticated, .locked},
    sampleBlock 2 9 "m" "n" {.authenticated, .locked, .committed},
    sampleBlock 1 7 "genesis" "m" {.authenticated, .locked}]

def sampleCertOnly : XvBlock := sampleBlock 1 5 "genesis" "c" {.authenticated}

def keysAt (s : ChainAccount) (height : UInt64) : List (UInt64 × UInt64) :=
  (viewsOf s height).entries.map fun e => (e.1, (s.objects.getD e.2 default).block.viewid)

theorem replaced_block_under_wrong_key :
    keysAt (afterCalls (sampleEnv true) 9 (sampleRivals.map fun b => .store (.storeBlock b))) 1 =
      [(5, 7)] ∧
    keysAt (afterCalls (sampleEnv true) 9 (sampleRivals.map (fun b => .store (.storeBlock b)) ++
      [.deleteBlock sampleCertOnly])) 1 = [] := by
  decide +kernel

def getLatestBlock (env : StoreEnv) (fuel : Nat) (f : BlockFlag) : StoreM Ptr := do
  match ← queryLatestBlock f with
  | some p => return p
  | none => getGenesisBlock env fuel

def getLatestLockedBlock (env : StoreEnv) (fuel : Nat) : StoreM Ptr :=
  getLatestBlock env fuel .locked

def getLatestCommittedBlock (env : StoreEnv) (fuel : Nat) : StoreM Ptr :=
  getLatestBlock env fuel .committed

structure LatestBlocks where
  cert : Option Ptr
  lock : Option Ptr
  commit : Option Ptr

def LatestBlocks.take (l : LatestBlocks) (p : Ptr) (b : XvBlock) : LatestBlocks where
  cert := if l.cert = none ∧ b.checkBlockFlag .authenticated then some p else l.cert
  lock := if l.lock = none ∧ b.checkBlockFlag .locked then some p else l.lock
  commit := if l.commit = none ∧ b.checkBlockFlag .committed then some p else l.commit

def scanViews : List Ptr → LatestBlocks → StoreM LatestBlocks
  | [], l => return l
  | p :: rest, l => do
    let l := l.take p (← object p).block
    if l.cert ≠ none ∧ l.lock ≠ none ∧ l.commit ≠ none then return l
    else scanViews rest l

def scanHeights : List (SortedMap UInt64 Ptr) → LatestBlocks → StoreM LatestBlocks
  | [], l => return l
  | views :: rest, l => do
    let l ← scanViews views.values.reverse l
    scanHeights rest l

/-- Genesis stands for a missing commit, the commit for a missing lock, the lock for a certificate.
-/
def LatestBlocks.complete (env : StoreEnv) (fuel : Nat) (l : LatestBlocks) :
    StoreM (Ptr × Ptr × Ptr) := do
  let commit ← match l.commit with
    | some p => pure p
    | none => getGenesisBlock env fuel
  let lock := l.lock.getD commit
  return (l.cert.getD lock, lock, commit)

def getLatestBlocksList (env : StoreEnv) (fuel : Nat) : StoreM (Ptr × Ptr × Ptr) := do
  let l ← scanHeights (← get).allBlocks.values.reverse ⟨none, none, none⟩
  l.complete env fuel

def firstFlagged (s : ChainAccount) (f : BlockFlag) (l : List Ptr) : Option Ptr :=
  l.find? fun p => (s.objects.getD p default).block.checkBlockFlag f

theorem firstWith_eq (f : BlockFlag) (l : List Ptr) (s : ChainAccount) :
    firstWith f l s = (firstFlagged s f l, s) := by
  induction l with
  | nil => rfl
  | cons p l ih =>
    unfold firstFlagged
    show (if (s.objects.getD p default).block.checkBlockFlag f = true then _ else _ :
        StoreM _) s = _
    rw [find?_cons]
    cases (s.objects.getD p default).block.checkBlockFlag f with
    | true => rfl
    | false => exact ih

def LatestBlocks.scan (l : LatestBlocks) (s : ChainAccount) (ps : List Ptr) : LatestBlocks where
  cert := l.cert.or (firstFlagged s .authenticated ps)
  lock := l.lock.or (firstFlagged s .locked ps)
  commit := l.commit.or (firstFlagged s .committed ps)

theorem take_or (x : Option Ptr) (s : ChainAccount) (f : BlockFlag) (p : Ptr) (ps : List Ptr) :
    (if x = none ∧ (s.objects.getD p default).block.checkBlockFlag f then some p else x).or
      (firstFlagged s f ps) = x.or (firstFlagged s f (p :: ps)) := by
  unfold firstFlagged
  rw [find?_cons]
  cases x with
  | some q => rw [if_neg (fun h => by cases h.1)]; rfl
  | none =>
    cases (s.objects.getD p default).block.checkBlockFlag f with
    | true => rfl
    | false => rfl

theorem LatestBlocks.scan_take (l : LatestBlocks) (s : ChainAccount) (p : Ptr) (ps : List Ptr) :
    (l.take p (s.objects.getD p default).block).scan s ps = l.scan s (p :: ps) := by
  unfold LatestBlocks.scan LatestBlocks.take
  rw [take_or, take_or, take_or]

theorem LatestBlocks.scan_full {l : LatestBlocks}
    (h : l.cert ≠ none ∧ l.lock ≠ none ∧ l.commit ≠ none) (s : ChainAccount) (ps : List Ptr) :
    l.scan s ps = l := by
  obtain ⟨cert, lock, commit⟩ := l
  obtain ⟨hcert, hlock, hcommit⟩ := h
  obtain ⟨c, rfl⟩ := Option.ne_none_iff_exists'.mp hcert
  obtain ⟨k, rfl⟩ := Option.ne_none_iff_exists'.mp hlock
  obtain ⟨m, rfl⟩ := Option.ne_none_iff_exists'.mp hcommit
  rfl

theorem scanViews_eq (ps : List Ptr) (l : LatestBlocks) (s : ChainAccount) :
    scanViews ps l s = (l.scan s ps, s) := by
  induction ps generalizing l with
  | nil =>
    show (l, s) = _
    unfold LatestBlocks.scan firstFlagged
    simp
  | cons p ps ih =>
    show (if _ then _ else _ : StoreM LatestBlocks) s = _
    rw [← LatestBlocks.scan_take]
    split
    · rename_i hfull
      rw [LatestBlocks.scan_full hfull]
      rfl
    · exact ih _

theorem LatestBlocks.scan_append (l : LatestBlocks) (s : ChainAccount) (ps qs : List Ptr) :
    (l.scan s ps).scan s qs = l.scan s (ps ++ qs) := by
  unfold LatestBlocks.scan firstFlagged
  simp only [find?_append, Option.or_assoc]

theorem scanHeights_eq (views : List (SortedMap UInt64 Ptr)) (l : LatestBlocks) (s : ChainAccount) :
    scanHeights views l s = (l.scan s (views.map fun v => v.values.reverse).flatten, s) := by
  induction views generalizing l with
  | nil =>
    show (l, s) = _
    unfold LatestBlocks.scan firstFlagged
    simp
  | cons v views ih =>
    show scanHeights views (scanViews v.values.reverse l s).1 (scanViews v.values.reverse l s).2 = _
    rw [scanViews_eq, ih, LatestBlocks.scan_append]
    rfl

def fromTop (s : ChainAccount) : List Ptr :=
  (s.allBlocks.values.map SortedMap.values).flatten.reverse

theorem scanHeights_fromTop (s : ChainAccount) :
    scanHeights s.allBlocks.values.reverse ⟨none, none, none⟩ s =
      (⟨firstFlagged s .authenticated (fromTop s), firstFlagged s .locked (fromTop s),
        firstFlagged s .committed (fromTop s)⟩, s) := by
  rw [scanHeights_eq]
  have horder : (s.allBlocks.values.reverse.map fun v => v.values.reverse).flatten = fromTop s := by
    unfold fromTop
    rw [reverse_flatten, map_map, map_reverse]
    rfl
  rw [horder]
  rfl

theorem Rooted.firstFlagged (hs : Inv S s) (h : Rooted s) {f : BlockFlag}
    (hf : f = .authenticated ∨ f = .locked ∨ f = .committed) :
    ∃ p, firstFlagged s f (fromTop s) = some p := by
  obtain ⟨p, hp⟩ := exists_mem_of_ne_nil _ h.first
  obtain ⟨o, ho, hheight⟩ := hs.viewsAt hp
  obtain ⟨hauth, hlocked, hcommitted⟩ := h.objects p o ho hheight
  have hflag : (s.objects.getD p default).block.checkBlockFlag f := by
    rw [getD_of_getElem? ho]
    rcases hf with rfl | rfl | rfl
    · exact decide_eq_true hauth
    · exact decide_eq_true hlocked
    · exact decide_eq_true hcommitted
  have hmem : p ∈ fromTop s := by
    unfold fromTop
    rw [mem_reverse, mem_flatten]
    cases hviews : s.allBlocks.find? 0 with
    | none =>
      unfold viewsOf at hp
      rw [hviews] at hp
      exact absurd hp (not_mem_values_empty p)
    | some views =>
      unfold viewsOf at hp
      rw [hviews] at hp
      exact ⟨views.values, mem_map_of_mem (mem_values_of_find? hviews), hp⟩
  cases hfind : ChainAccount.firstFlagged s f (fromTop s) with
  | some q => exact ⟨q, rfl⟩
  | none => exact absurd hflag (find?_eq_none.mp hfind p hmem)

theorem getLatestBlock_eq {fuel : Nat} {f : BlockFlag} {p : Ptr}
    (h : firstFlagged s f (fromTop s) = some p) : (getLatestBlock env fuel f s).1 = p := by
  have hquery : queryLatestBlock f s = (some p, s) := by
    show firstWith f (fromTop s) s = _
    rw [firstWith_eq, h]
  have hrun : getLatestBlock env fuel f s = (p, s) := by
    unfold getLatestBlock
    rw [Walk.bind_run, hquery]
    rfl
  rw [hrun]

theorem getLatestBlocksList_eq {fuel : Nat} {cert lock commit : Ptr}
    (hcert : firstFlagged s .authenticated (fromTop s) = some cert)
    (hlock : firstFlagged s .locked (fromTop s) = some lock)
    (hcommit : firstFlagged s .committed (fromTop s) = some commit) :
    (getLatestBlocksList env fuel s).1 = (cert, lock, commit) := by
  have hscan := scanHeights_fromTop s
  rw [hcert, hlock, hcommit] at hscan
  show (LatestBlocks.complete env fuel (scanHeights s.allBlocks.values.reverse
    ⟨none, none, none⟩ s).1
    (scanHeights s.allBlocks.values.reverse ⟨none, none, none⟩ s).2).1 = _
  rw [hscan]
  rfl

def passedIn (cs : List StoreCall) : List XvBlock :=
  cs.filterMap fun
    | .storeBlock b => some b
    | _ => none

/-- In every state that storing and loading lead to, the list names what the three getters return.
-/
theorem latest_blocks_list_agrees (hheight : env.genesisBlock.height = 0)
    (hgenesis : Consensused env.genesisBlock) (fuel : Nat) (cs : List StoreCall)
    (hcs : ∀ b, .storeBlock b ∈ cs → b.height = 0 → Consensused b) :
    (getLatestBlocksList env fuel (after env fuel cs)).1 =
      ((getLatestCertBlock env fuel (after env fuel cs)).1,
        (getLatestLockedBlock env fuel (after env fuel cs)).1,
        (getLatestCommittedBlock env fuel (after env fuel cs)).1) := by
  have hmem : ∀ b, .storeBlock b ∈ cs → b ∈ env.genesisBlock :: passedIn cs := fun b hb =>
    mem_cons_of_mem _ (mem_filterMap.mpr ⟨_, hb, rfl⟩)
  have hroot : RootFlags (env.genesisBlock :: passedIn cs) env := by
    refine ⟨hheight, fun b hb hzero => ?_⟩
    rcases mem_cons.mp hb with rfl | hb
    · exact hgenesis
    · obtain ⟨c, hc, heq⟩ := mem_filterMap.mp hb
      cases c with
      | storeBlock x =>
        obtain rfl := Option.some.inj heq
        exact hcs x hc hzero
      | _ => cases heq
  have hshape : Shape (env.genesisBlock :: passedIn cs) True (after env fuel cs) :=
    shape_after mem_cons_self (fun _ => hroot) (shape_init_rooted mem_cons_self hroot) fuel
      cs hmem
  have hrooted : Rooted (after env fuel cs) := hshape.rooted trivial
  obtain ⟨cert, hcert⟩ := hrooted.firstFlagged hshape.inv (.inl rfl)
  obtain ⟨lock, hlock⟩ := hrooted.firstFlagged hshape.inv (.inr (.inl rfl))
  obtain ⟨commit, hcommit⟩ := hrooted.firstFlagged hshape.inv (.inr (.inr rfl))
  have hcertBlock : (getLatestCertBlock env fuel (after env fuel cs)).1 = cert :=
    getLatestBlock_eq hcert
  have hlockedBlock : (getLatestLockedBlock env fuel (after env fuel cs)).1 = lock :=
    getLatestBlock_eq hlock
  have hcommittedBlock : (getLatestCommittedBlock env fuel (after env fuel cs)).1 = commit :=
    getLatestBlock_eq hcommit
  rw [getLatestBlocksList_eq hcert hlock hcommit, hcertBlock, hlockedBlock, hcommittedBlock]

theorem latest_blocks_list_agrees_sample :
    (getLatestBlocksList (sampleEnv true) 9 (after (sampleEnv true) 9
      (sampleChain.map .storeBlock))).1 =
        (5, 4, 3) ∧
      (getLatestCertBlock (sampleEnv true) 9
        (after (sampleEnv true) 9 (sampleChain.map .storeBlock))).1 = 5 := by
  have hpassed : ∀ b, StoreCall.storeBlock b ∈ sampleChain.map .storeBlock → b.height = 0 →
      Consensused b := by
    intro b hb
    obtain ⟨x, hx, heq⟩ := mem_map.mp hb
    obtain rfl := StoreCall.storeBlock.inj heq
    exact (show ∀ x ∈ sampleChain, x.height = 0 → Consensused x by decide +kernel) x hx
  have hconsensused : Consensused (sampleEnv true).genesisBlock := by decide
  have hagrees := latest_blocks_list_agrees rfl hconsensused 9 _ hpassed
  have hlist : (getLatestBlocksList (sampleEnv true) 9
      (after (sampleEnv true) 9 (sampleChain.map .storeBlock))).1 = (5, 4, 3) := by
    decide +kernel
  exact ⟨hlist, (Prod.mk.inj (hagrees.symm.trans hlist)).1⟩

end TopChain.Store.ChainAccount
