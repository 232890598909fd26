import TopChain.Store.HeightOrder

/-!
# The order of the heights over restarts

`close` leaves the heights ordered.
-/
namespace TopChain.Store.ChainAccount

open Option List TopChain.Base TopChain.Lib TopChain.Lib.Guarantee SortedMap

def Unsaved.none : Unsaved := ⟨∅, ∅⟩

variable {S : List XvBlock} {env : StoreEnv} {s t : ChainAccount} {W : Unsaved}

theorem Heights.ordered (h : Heights S .none ∅ s) : s.acctMeta.Ordered where
  execute_le := h.execute_le
  connect_le := h.connect_le.resolve_right fun ⟨p, hp, _⟩ => Set.notMem_empty p hp
  commit_le := h.commit_le
  lock_le := h.lock_le

def ToSave (S : List XvBlock) (W : Unsaved) (p : Ptr) (C : Prop) (s : ChainAccount) : Prop :=
  Valid p s ∧ (C → (heights S).owes p s) ∧
    (0 < (s.objects.getD p default).modifiedCount ∨ (heights S).inv W s)

section
variable (henv : Dependable S env)

include henv

theorem maintainConnect_moves {p : Ptr} (hp : Valid p s) :
    (heights S).Moves W (Unsaved.during ((heights S).owes p s) W p) (· = s) (maintainConnect env p)
      (fun _ => ToSave S W p ((heights S).owes p s)) := by
  obtain ⟨o, ho⟩ := hp
  have hkeep : (heights S).Moves W (Unsaved.during ((heights S).owes p s) W p) (· = s) (pure ())
      (fun _ => ToSave S W p ((heights S).owes p s)) := by
    rintro t ht rfl
    exact ⟨⟨ht.1, ht.2.during _ p⟩, .refl t, ⟨o, ho⟩, id, .inr ht⟩
  refine Walk.Moves.read_bind (fun s : ChainAccount => s.objects.getD p default) (fun _ => rfl) ?_
  rintro t ht rfl
  rw [getD_of_getElem? ho]
  refine Walk.Moves.get_bind ?_
  rintro s hs rfl
  have hok : ObjectOk s.acctMeta o := hs.2.objects p o ho (Set.notMem_empty p)
  refine Walk.Moves.ite (fun _ => Walk.Moves.ite (fun hconnected => ?_) fun _ =>
    Walk.Moves.ite (fun hnext => ?_) fun _ => hkeep) fun _ => hkeep
  · refine Walk.Moves.ite (fun hlt => ?_) fun _ => hkeep
    exact absurd (hok.joined (of_decide_eq_true hconnected)) (not_le.mpr hlt)
  · obtain ⟨hsucc, hflag, -⟩ := hnext
    have howes : (heights S).owes p s := ⟨o, ho, of_decide_eq_true hflag⟩
    have hle : s.acctMeta.highestConnectBlockHeight ≤ o.block.height := by
      rw [hsucc]
      exact hs.2.le_next
    rintro t ht rfl
    let u : ChainAccount := { t with acctMeta := { t.acctMeta with
      highestConnectBlockHeight := o.block.height
      highestConnectBlockHash := o.block.blockHash } }
    obtain ⟨hu, hmeta⟩ : Advances S (Unsaved.during ((heights S).owes p t) W p) ∅ t u.acctMeta :=
      (ht.2.during _ p).connectTo ht.1.inv henv.bounded ho hle (.inr (.inr ⟨howes, rfl⟩))
    have hshape : Shape S False u := ht.1.of_same rfl rfl rfl
    obtain ⟨hshape', hgrows, -⟩ := (writes_shape env).flag () p .connected (by decide) (by decide) u
      hshape trivial
    have hraised : Forward t u := .of_same rfl hmeta
    have hforward : Forward t (setBlockFlag env p .connected u).2 :=
      hraised.trans ⟨hgrows, .refl _, fun q hq => hq.setBlockFlag henv.counts p .connected⟩
    have hobject : u.objects[p]? = some o := ho
    have hget : (setBlockFlag env p .connected u).2.objects[p]? = _ :=
      Walk.getElem?_setBlockFlag hobject .connected
    refine ⟨⟨hshape', hu.setBlockFlag henv.counts ?_ fun h => absurd h (by decide)⟩, hforward,
      ⟨_, hget⟩, fun howes => (heights S).owes_mono hforward howes, .inl ?_⟩
    · intro _ _ x hx
      obtain rfl := mem_unique ho hx
      exact le_refl _
    · show 0 < ((setBlockFlag env p .connected u).2.objects.getD p default).modifiedCount
      rw [getD_of_getElem? hget, henv.counts]
      exact Nat.succ_pos _

theorem closeOne_heights (fuel : Nat) (p : Ptr) :
    Spec ((heights S).frame W) ((heights S).Ready W p) (closeOne env fuel p) (fun _ _ => True) := by
  intro s hs hready
  have hclose : Safe ((heights S).frame W) (closeBlock p) :=
    (storesHeights env henv.counts).close W p
  suffices hmoves : (heights S).Moves W W (· = s) (closeOne env fuel p) (fun _ _ => True) from
    hmoves s hs rfl
  refine Walk.Moves.bind (maintainConnect_moves henv hready.1) fun _ => ?_
  refine Walk.Moves.read_bind (fun s : ChainAccount => s.objects.getD p default) (fun _ => rfl)
    fun t ht h => Walk.Moves.ite (fun _ => ?_) fun hzero => ?_
  · refine Walk.Moves.at ⟨h.1, h.2.1⟩ (Walk.Moves.bind (Walk.saveBlock_leaves
      (storesHeights env henv.counts) henv.saves (loadBlock_heights henv fuel) _ p) fun _ => hclose)
  · -- nothing is left to be saved
    rintro u - rfl
    exact hclose u (h.2.2.resolve_left hzero) trivial

omit henv in
theorem keepLastCert_heights : Safe ((heights S).frame .none) keepLastCert := by
  refine Walk.keepLastCert_safe fun {s p o height} hs hcached ho hcommitted => .modify ?_
  rintro t - rfl
  refine ⟨⟨hs.1.of_same rfl rfl rfl, { hs.2 with lastCert := ?_ }⟩, .of_same rfl (.refl _), trivial⟩
  intro b hb
  obtain rfl := Option.some.inj hb
  refine ⟨(hs.1.inv.objects p o ho).1, hs.2.authenticated p o ho, ⟨?_, fun hflag => ?_⟩,
    (hs.2.objects p o ho (Set.notMem_empty _)).joined⟩
  · exact (hs.2.cached height p hcached o ho).1.resolve_right (Set.notMem_empty _)
  · exact absurd hflag hcommitted

theorem close_heights (fuel : Nat) : Safe ((heights S).frame .none) (close env fuel) := by
  refine .bind keepLastCert_heights fun _ =>
    Walk.closeBlocks_safe henv.saves (closeOne_heights henv fuel) ?_
  refine .modify fun s hs _ => ⟨⟨hs.1.setBlocks ?_ ?_ fun h => h.elim,
    hs.2.setBlocks ?_⟩, .of_same rfl (.refl _), trivial⟩
  · exact fun e he => by cases he
  · exact fun _ _ _ _ h => by cases h
  · exact fun _ p hp => absurd hp (not_mem_values_empty p)

end

def Loaded (env : StoreEnv) (fuel : Nat) (height : AcctMeta → UInt64) (s : ChainAccount) : Prop :=
  (loadBlockObject (loadBlock env fuel) (height s.acctMeta) s).1.isSome

instance instDecidableLoaded (env : StoreEnv) (fuel : Nat) (height : AcctMeta → UInt64)
    (s : ChainAccount) : Decidable (Loaded env fuel height s) :=
  inferInstanceAs (Decidable (_ = true))

/-- `init` finds the blocks it asks for, and the account is not ahead of the connected block. -/
structure Finds (env : StoreEnv) (fuel : Nat) (found : Reopening) (s : ChainAccount) : Prop where
  executed : ∀ e ∈ found.blockchain, e.1 ≤ s.acctMeta.highestConnectBlockHeight
  connect : Loaded env fuel (·.highestConnectBlockHeight)
    ((checkMeta env fuel found) (readBack found s)).2
  commit : Loaded env fuel (·.highestCommitBlockHeight)
    ((initExecuted env fuel found) (readBack found s)).2
  lock : Loaded env fuel (·.highestLockBlockHeight)
    ((initCommitted env fuel found) (readBack found s)).2

section
variable (henv : Dependable S env) (fuel : Nat) (found : Reopening)

theorem modifyMeta_same {g : AcctMeta → AcctMeta}
    (hexecute : ∀ m, (g m).highestExecuteBlockHeight = m.highestExecuteBlockHeight)
    (hconnect : ∀ m, (g m).highestConnectBlockHeight = m.highestConnectBlockHeight)
    (hcommit : ∀ m, (g m).highestCommitBlockHeight = m.highestCommitBlockHeight)
    (hlock : ∀ m, (g m).highestLockBlockHeight = m.highestLockBlockHeight)
    (hcert : ∀ m, (g m).highestCertBlockHeight = m.highestCertBlockHeight) :
    Safe ((heights S).frame W) (modifyMeta g) := by
  refine modifyMeta_heights fun s h _ => ⟨h.raiseMeta (hexecute _)
    (hconnect _) ?_ ?_ ?_ ?_, trivial⟩
  · exact le_of_eq (hcommit _).symm
  · exact le_of_eq (hcert _).symm
  · rw [hcommit, hlock]
    exact h.commit_le
  · rw [hlock, hcert]
    exact h.lock_le

theorem checkLastCert_heights : Safe ((heights S).frame W) (checkLastCert env fuel) := by
  refine Spec.get_bind fun s hs _ => ?_
  cases hcert : s.lastCert with
  | none => exact (Safe.pure ()).spec
  | some b =>
    refine Spec.get_bind ?_
    rintro t ht rfl
    refine Spec.ite (fun hlt => ?_) fun _ => (Safe.pure ()).spec
    exact absurd (ht.2.lastCert b hcert).2.recorded.cert (not_le.mpr hlt)

theorem readBack_heights (hs : (heights S).inv W s) : (heights S).inv W (readBack found s) := by
  refine ⟨hs.1.readBack found, { hs.2 with cached := ?_, database := ?_, lastCert := ?_ }⟩
  · exact fun _ p hp => absurd hp (not_mem_values_empty p)
  · exact fun b hb => hs.2.database b (mem_values_filter hb)
  · exact fun b hb => hs.2.lastCert b (lastCert_of_readBack hb)

include henv

theorem checkExecuted_heights : Spec ((heights S).frame .none)
      (fun s => ∀ e ∈ found.blockchain, e.1 ≤ s.acctMeta.highestConnectBlockHeight)
      (checkExecuted env fuel found) (fun _ _ => True) := by
  unfold checkExecuted
  cases hchain : found.blockchain with
  | none => exact (Safe.pure ()).spec
  | some e =>
    refine Spec.get_bind fun s hs hle => Spec.ite (fun hlt => ?_) fun _ => (Safe.pure ()).spec
    have hconnect : e.1 ≤ s.acctMeta.highestConnectBlockHeight := hle e rfl
    have hcommit : e.1 ≤ s.acctMeta.highestCommitBlockHeight :=
      le_trans hconnect hs.2.ordered.connect_le
    refine Spec.bind (Q := fun _ _ => True) (modifyMeta_heights ?_) fun _ =>
      Spec.get_bind fun t _ _ => ?_
    · rintro t h rfl
      refine ⟨h.setMeta ⟨le_refl _, le_max_left _ _, le_refl _⟩ hconnect (.inl ?_)
        (le_max_right _ _)
        ?_ h.bounded, trivial⟩
      · exact le_trans h.ordered.connect_le (le_max_left _ _)
      · exact max_le h.lock_le (max_le (le_trans h.commit_le h.lock_le)
          (le_trans hcommit (le_trans h.commit_le h.lock_le)))
    refine Spec.of_true (Spec.bind (loadBlockObject_heights henv fuel _).weaken fun r =>
      Spec.ite (fun _ => ?_) fun _ => ?_)
    · -- the lock height may pass the certificate height, which follows at once
      intro u hu _
      have hboth := hu.2.raiseMeta (m := { u.acctMeta with
        highestLockBlockHeight := max u.acctMeta.highestLockBlockHeight
          (t.acctMeta.highestCommitBlockHeight + 1)
        highestCertBlockHeight := max u.acctMeta.highestCertBlockHeight
          (max u.acctMeta.highestLockBlockHeight (t.acctMeta.highestCommitBlockHeight + 1)) })
        rfl rfl (le_refl _) (le_max_left _ _) (le_trans hu.2.commit_le (le_max_left _ _))
        (le_max_right _ _)
      exact ⟨⟨hu.1.of_same rfl rfl rfl, hboth.1⟩, .of_same rfl hboth.2, trivial⟩
    · refine modifyMeta_heights fun u h _ =>
        ⟨h.raiseMeta rfl rfl (le_refl _) (le_max_left _ _) h.commit_le
        (le_max_right _ _), trivial⟩

theorem loaded_heights {height : AcctMeta → UInt64} (h : Loaded env fuel height s) :
    Spec ((heights S).frame W) (· = s) (loadBlockObject (loadBlock env fuel) (height s.acctMeta))
      (fun r _ => r.isSome) := by
  rintro t ht rfl
  obtain ⟨hinv, hrel, -⟩ := loadBlockObject_heights henv fuel (height t.acctMeta) t ht trivial
  exact ⟨hinv, hrel, h⟩

theorem preloadFull_heights (p : Ptr) : Safe ((heights S).frame W)
    (preloadFull env fuel found p) := by
  refine .bind (object_read p).safe fun o => .ite ?_ (.pure ())
  exact .bind (loadBlockObject_heights henv fuel _).safe fun _ => .pure ()

theorem initConnect_heights :
    Spec ((heights S).frame W) (Loaded env fuel (·.highestConnectBlockHeight))
      (initConnect env fuel)
      (fun _ _ => True) := by
  refine Spec.get_bind fun s _ h => Spec.bind (loaded_heights henv fuel h) fun r => Spec.of_fact ?_
  intro hr
  cases r with
  | none => cases hr
  | some p =>
    refine Safe.bind (object_read p).safe fun o => Safe.get_bind fun t => Safe.ite ?_ (Safe.pure ())
    exact modifyMeta_same (fun _ => rfl) (fun _ => rfl) (fun _ => rfl) (fun _ => rfl) fun _ => rfl

theorem initFull_heights : Safe ((heights S).frame W) (initFull env fuel) := by
  refine .get_bind fun s => .bind (loadBlockObject_heights henv fuel _).safe fun r => ?_
  cases r with
  | some _ => exact .pure ()
  | none =>
    exact modifyMeta_same (fun _ => rfl) (fun _ => rfl) (fun _ => rfl) (fun _ => rfl) fun _ => rfl

theorem initExecute_heights : Safe ((heights S).frame W) (initExecute env fuel found) := by
  refine .get_bind fun s => .bind (loadBlockObject_heights henv fuel _).safe fun r => ?_
  cases r with
  | some p => exact preloadFull_heights henv fuel found p
  | none => exact .pure ()

theorem preloaded_heights {height : AcctMeta → UInt64} {failed : StoreM Unit} :
    Spec ((heights S).frame W) (Loaded env fuel height)
      (do match ← loadBlockObject (loadBlock env fuel) (height (← get).acctMeta) with
          | some p => preloadFull env fuel found p
          | none => failed)
      (fun _ _ => True) := by
  refine .get_bind fun s _ h => .bind (loaded_heights henv fuel h) fun r => .of_fact ?_
  intro hr
  cases r with
  | none => cases hr
  | some p => exact preloadFull_heights henv fuel found p

theorem initCert_heights : Safe ((heights S).frame W) (initCert env fuel) := by
  refine Spec.get_bind fun s hs _ => Spec.ite (fun _ => ?_) fun _ => (Safe.pure ()).spec
  refine Spec.get_bind ?_
  rintro t ht rfl
  cases hcert : t.lastCert with
  | none => exact (Safe.pure ()).spec
  | some b =>
    obtain ⟨hbacked, hkept⟩ := ht.2.lastCert b hcert
    refine Spec.ite (fun _ => ?_) fun _ => (Safe.pure ()).spec
    refine Spec.at (P := fun s => ObjectOk s.acctMeta ⟨b, none, none, 0, false⟩) hkept.object ?_
    exact storeNewObject_heights henv fuel hbacked hkept.authenticated

theorem checkMeta_heights : Spec ((heights S).frame .none)
      (fun s => ∀ e ∈ found.blockchain, e.1 ≤ s.acctMeta.highestConnectBlockHeight)
      (checkMeta env fuel found) (fun _ _ => True) :=
  .seq (fun _ _ hst h e he => le_trans (h e he) hst.le.connect) (checkLastCert_heights fuel).spec
    fun _ => checkExecuted_heights henv fuel found

theorem initExecuted_heights (hs : (heights S).inv .none s)
    (hexecuted : ∀ e ∈ found.blockchain, e.1 ≤ s.acctMeta.highestConnectBlockHeight)
    (hconnect : Loaded env fuel (·.highestConnectBlockHeight) (checkMeta env fuel found s).2) :
    (heights S).inv .none (initExecuted env fuel found s).2 := by
  have hchecked := (checkMeta_heights henv fuel found s hs hexecuted).1
  have hrest : Spec ((heights S).frame .none) (Loaded env fuel (·.highestConnectBlockHeight))
      (do initConnect env fuel
          initFull env fuel
          initExecute env fuel found) (fun _ _ => True) :=
    Spec.bind (initConnect_heights henv fuel) fun _ =>
      Safe.bind (initFull_heights henv fuel) fun _ =>
      initExecute_heights henv fuel found
  rw [initExecuted, Walk.bind_run]
  exact (hrest (checkMeta env fuel found s).2 hchecked hconnect).1

theorem initCommitted_heights (hs : (heights S).inv .none (initExecuted env fuel found s).2)
    (hcommit : Loaded env fuel (·.highestCommitBlockHeight) (initExecuted env fuel found s).2) :
    (heights S).inv .none (initCommitted env fuel found s).2 := by
  rw [initCommitted, Walk.bind_run]
  exact (preloaded_heights henv fuel found (initExecuted env fuel found s).2 hs hcommit).1

theorem reopen_heights (hs : (heights S).inv .none s) (hfinds : Finds env fuel found s) :
    (heights S).inv .none (reopen env fuel found s).2 := by
  have hback := readBack_heights found hs
  have hexecuted := initExecuted_heights henv fuel found hback hfinds.executed hfinds.connect
  have hcommitted := initCommitted_heights henv fuel found hexecuted hfinds.commit
  have hrest : Spec ((heights S).frame .none) (Loaded env fuel (·.highestLockBlockHeight))
      (do initLock env fuel found
          initCert env fuel) (fun _ _ => True) :=
    .bind (preloaded_heights henv fuel found) fun _ => initCert_heights henv fuel
  have hrun : reopen env fuel found s = (do
      initCommitted env fuel found
      initLock env fuel found
      initCert env fuel : StoreM Unit) (readBack found s) := by
    rw [reopen, Walk.bind_run]
    rfl
  rw [hrun, Walk.bind_run]
  exact (hrest (initCommitted env fuel found (readBack found s)).2 hcommitted hfinds.lock).1

end

theorem finds_iff (env : StoreEnv) (fuel : Nat) (found : Reopening) (s : ChainAccount) :
    Finds env fuel found s ↔
      (∀ e ∈ found.blockchain, e.1 ≤ s.acctMeta.highestConnectBlockHeight) ∧
      Loaded env fuel (·.highestConnectBlockHeight)
        (checkMeta env fuel found (readBack found s)).2 ∧
      Loaded env fuel (·.highestCommitBlockHeight)
        (initExecuted env fuel found (readBack found s)).2 ∧
      Loaded env fuel (·.highestLockBlockHeight)
        (initCommitted env fuel found (readBack found s)).2 :=
  ⟨fun ⟨he, hconnect, hcommit, hlock⟩ => ⟨he, hconnect, hcommit, hlock⟩,
    fun ⟨he, hconnect, hcommit, hlock⟩ => ⟨he, hconnect, hcommit, hlock⟩⟩

instance instDecidableFinds (env : StoreEnv) (fuel : Nat) (found : Reopening) (s : ChainAccount) :
    Decidable (Finds env fuel found s) :=
  decidable_of_iff _ (finds_iff env fuel found s).symm

instance instDecidableFresh (b : XvBlock) : Decidable (Fresh b) :=
  inferInstanceAs (Decidable (_ ∧ _))

/-- Stored blocks are fresh, and a restart finds the blocks at the heights that were saved. -/
def CallOk (env : StoreEnv) (fuel : Nat) (s : ChainAccount) : AccountCall → Prop
  | .call (.storeBlock b) => Fresh b
  | .call _ => True
  | .saveBlock _ => True
  | .restart found => Finds env fuel found (close env fuel s).2

instance instDecidableCallOk (env : StoreEnv) (fuel : Nat) (s : ChainAccount) (c : AccountCall) :
    Decidable (CallOk env fuel s c) :=
  match c with
  | .call (.storeBlock b) => instDecidableFresh b
  | .call (.storeObject _) => .isTrue trivial
  | .call (.loadBlockObject _) => .isTrue trivial
  | .call (.executeBlock _) => .isTrue trivial
  | .call (.cleanBlocks _) => .isTrue trivial
  | .saveBlock _ => .isTrue trivial
  | .restart found => instDecidableFinds env fuel found (close env fuel s).2

theorem heights_empty : (heights S).inv .none emptyAccount := by
  refine ⟨shape_empty, ?_⟩
  refine ⟨le_refl _, .inl (le_refl _), le_refl _, le_refl _, by decide, ?_, ?_, ?_, ?_, ?_⟩
  · exact fun p o ho => by cases ho
  · exact fun p o ho => by cases ho
  · exact fun _ p hp => absurd hp (not_mem_values_empty p)
  · exact fun b hb => by cases hb
  · exact fun b hb => by cases hb

theorem heights_init (henv : Dependable S env) : (heights S).inv .none (init env) := by
  have hload := (loadBlockObject_heights henv 1 0 emptyAccount heights_empty trivial).1
  have hhash : Safe ((heights S).frame .none) (modifyMeta fun m => { m with
      highestConnectBlockHash := env.genesisBlock.blockHash }) :=
    modifyMeta_same (fun _ => rfl) (fun _ => rfl) (fun _ => rfl) (fun _ => rfl) fun _ => rfl
  exact (hhash _ hload trivial).1

theorem accountCall_heights (henv : Dependable S env) (fuel : Nat) (c : AccountCall)
    (hs : (heights S).inv .none s) (hc : CallOk env fuel s c) (hblock : ∀ b ∈ c.block?, b ∈ S) :
    (heights S).inv .none (accountCall env fuel c s).2 := by
  cases c with
  | call c =>
    refine (call_heights henv fuel c ?_ s hs trivial).1
    rintro b rfl
    exact ⟨hblock b rfl, hc⟩
  | saveBlock p =>
    have hsave : Safe ((heights S).frame .none) (accountCall env fuel (.saveBlock p)) := by
      refine Spec.get_bind fun s _ _ => Spec.ite (fun hlt => ?_) fun _ => (Safe.pure ()).spec
      refine Spec.at ⟨valid_of_lt hlt, False.elim⟩ (Spec.bind (saveBlock_heights henv fuel False p)
        fun _ => (Safe.pure ()).spec)
    exact (hsave s hs trivial).1
  | restart found =>
    rw [accountCall, Walk.bind_run]
    exact reopen_heights henv fuel found (close_heights henv fuel s hs trivial).1 hc

theorem dependable_of_meets {fuel : Nat} {cs : List AccountCall}
    (hwrite : ∀ b, env.setVblock b = true)
    (hcounts : env.flagCounts = true) (hauth : .authenticated ∈ env.genesisBlock.flags)
    (hheight : env.genesisBlock.height ≠ Word.top)
    (hcs : Run.Meets (live env fuel) (CallOk env fuel) (init env) cs) :
    Dependable (env.genesisBlock :: cs.filterMap AccountCall.block?) env where
  write := hwrite
  counts := hcounts
  genesis := mem_cons_self
  authenticated := hauth
  bounded := by
    intro x hx
    rcases mem_cons.mp hx with rfl | hx
    · exact hheight
    obtain ⟨c, hc, hblock⟩ := mem_filterMap.mp hx
    have hfresh : ∀ c ∈ cs, ∀ b ∈ c.block?, Fresh b := by
      refine hcs.forall_mem fun s c hok b hb => ?_
      cases c with
      | call c =>
        cases c with
        | storeBlock x =>
          obtain rfl : x = b := Option.some.inj hb
          exact hok
        | storeObject _ => cases hb
        | loadBlockObject _ => cases hb
        | executeBlock _ => cases hb
        | cleanBlocks _ => cases hb
      | saveBlock _ => cases hb
      | restart _ => cases hb
    exact (hfresh c hc x hblock).2.1

/-- The heights are ordered after every call, and at the asserts of `close`, when the surroundings
are dependable, blocks come with their certificates and without the flags of another store, and
every restart finds what it asks for. -/
theorem meta_heights_ordered (env : StoreEnv) (hwrite : ∀ b, env.setVblock b = true)
    (hcounts : env.flagCounts = true) (hauth : .authenticated ∈ env.genesisBlock.flags)
    (hheight : env.genesisBlock.height ≠ Word.top) (fuel : Nat) (cs : List AccountCall)
    (hcs : Run.Meets (live env fuel) (CallOk env fuel) (init env) cs) :
    (lifetime env fuel cs).acctMeta.Ordered ∧
      (close env fuel (lifetime env fuel cs)).2.acctMeta.Ordered := by
  have henv := dependable_of_meets hwrite hcounts hauth hheight hcs
  have hrun := lifetime_inv (I := (heights _).inv .none) (heights_init henv)
    (fun s c hs hc => accountCall_heights henv fuel c hs hc) hcs
  exact ⟨hrun.2.ordered, (close_heights henv fuel _ hrun trivial).1.2.ordered⟩

def sampleLife : List AccountCall :=
  (sampleChain.take 4).map (.call ∘ .storeBlock) ++ [.restart sampleReopening] ++
    (sampleChain.drop 4).map (.call ∘ .storeBlock) ++
    [.call (.cleanBlocks 0), .saveBlock 3, .call (.loadBlockObject 2), .restart sampleReopening]

theorem meta_heights_ordered_sample :
    (lifetime (sampleEnv true) 9 sampleLife).acctMeta.highestCommitBlockHeight = 3 ∧
    (lifetime (sampleEnv true) 9 sampleLife).acctMeta.Ordered :=
  ⟨by decide +kernel, (meta_heights_ordered (sampleEnv true) (fun _ => rfl) rfl (by decide)
    (by decide) 9 sampleLife (by decide +kernel)).1⟩

def sampleLoss : List AccountCall :=
  (sampleChain.take 4).map (.call ∘ .storeBlock) ++
    [.restart { sampleReopening with present := fun height => height ≠ 2 }]

def sampleFailing : StoreEnv := { sampleEnv true with setVblock := fun b => b.height ≠ 2 }

def sampleCommits : List AccountCall :=
  [.call (.storeBlock (sampleBlock 2 2 "b" "c" {.authenticated, .locked, .committed})),
    .call (.storeBlock (sampleBlock 1 1 "genesis" "b" {.authenticated, .locked, .committed}))]

theorem missing_block_breaks_order :
    ((lifetime (sampleEnv true) 9 sampleLoss).acctMeta.highestConnectBlockHeight <
        (lifetime (sampleEnv true) 9 sampleLoss).acctMeta.highestExecuteBlockHeight ∧
      (lifetime (sampleEnv true) 9 sampleLoss).acctMeta.highestCommitBlockHeight <
        (lifetime (sampleEnv true) 9 sampleLoss).acctMeta.highestConnectBlockHeight ∧
      (close (sampleEnv true) 9 (lifetime (sampleEnv true) 9
        sampleLoss)).2.acctMeta.highestCommitBlockHeight <
        (close (sampleEnv true) 9 (lifetime (sampleEnv true) 9
          sampleLoss)).2.acctMeta.highestConnectBlockHeight) ∧
    (lifetime sampleFailing 9 sampleCommits).acctMeta.highestCommitBlockHeight <
      (lifetime sampleFailing 9 sampleCommits).acctMeta.highestConnectBlockHeight := by
  decide +kernel

end TopChain.Store.ChainAccount
