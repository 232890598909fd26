import TopChain.Store.FlagEvidence

/-!
# A walk through the functions of the block store

`load_block`, `connect_block`, `process_block` and `save_block` call each other.
-/
namespace TopChain.Store

open List TopChain.Base TopChain.Lib TopChain.Lib.Guarantee SortedMap

section
variable (S : List XvBlock)

def Raisable (x : XvBlock) : Prop := Lockable S x ∨ Committable S x

/-- A hash has one view, and blocks that may be raised in two views have no committable children. -/
structure OwnViews : Prop where
  unique : ∀ x ∈ S, ∀ y ∈ S, x.height = y.height → x.blockHash = y.blockHash → x.viewid = y.viewid
  apart : ∀ x ∈ S, ∀ y ∈ S, Raisable S x → Raisable S y → x.height = y.height →
    x.viewid ≠ y.viewid → ∀ c ∈ S, ChildOf c x → ¬ Committable S c

def SlotFor (b : XvBlock) (view : UInt64) : Prop :=
  view = b.viewid ∨
    (Raisable S b ∧ ∃ x ∈ S, Raisable S x ∧ x.height = b.height ∧ x.viewid = view)

end

section
variable {S : List XvBlock} {b c x y : XvBlock} {view : UInt64}

theorem SameBody.viewid (h : SameBody x y) : x.viewid = y.viewid := h.field (·.viewid) fun _ => rfl

theorem Raisable.congr (h : Raisable S x) (hxy : SameBody x y) : Raisable S y :=
  h.imp (·.congr hxy) (·.congr hxy)

theorem Backed.raisable (h : Backed S x) (hflag : .locked ∈ x.flags ∨ .committed ∈ x.flags) :
    Raisable S x :=
  hflag.imp h.locked h.committed

theorem OwnViews.of_blockHash (h : OwnViews S) (hb : Backed S b) (hx : Backed S x)
    (hheight : x.height = b.height) (hhash : x.blockHash = b.blockHash) : x.viewid = b.viewid := by
  obtain ⟨b', hb', hsame⟩ := hb.known
  obtain ⟨x', hx', hsame'⟩ := hx.known
  rw [← hsame.viewid, ← hsame'.viewid]
  refine h.unique x' hx' b' hb' ?_ ?_
  · rw [hsame'.height, hsame.height, hheight]
  · rw [hsame'.blockHash, hsame.blockHash, hhash]

theorem OwnViews.of_child (h : OwnViews S) (hb : Backed S b) (hslot : SlotFor S b view)
    (hc : Backed S c) (hcommit : .committed ∈ c.flags) (hchild : ChildOf c b) :
    view = b.viewid := by
  obtain hown | ⟨hraise, x, hx, hraise', hheight, rfl⟩ := hslot
  · exact hown
  obtain ⟨b', hb', hsame⟩ := hb.known
  obtain ⟨c', hc', hsame'⟩ := hc.known
  by_contra hne
  refine h.apart b' hb' x hx (hraise.congr hsame.symm) hraise' ?_ ?_ c' hc' ?_ ?_
  · rw [hsame.height, hheight]
  · rw [hsame.viewid]
    exact fun heq => hne heq.symm
  · exact hchild.congr hsame'.symm hsame.symm
  · exact (hc.committed hcommit).congr hsame'.symm

end

namespace ChainAccount

def viewsOf (s : ChainAccount) (height : UInt64) : SortedMap UInt64 Ptr :=
  (s.allBlocks.find? height).getD .empty

theorem viewsAt_bind {F : Frame ChainAccount} {P : ChainAccount → Prop} {β : Type}
    {k : SortedMap UInt64 Ptr → StoreM β} {R : β → ChainAccount → Prop} (height : UInt64)
    (hk : ∀ s, F.inv s → P s → Spec F (· = s) (k (viewsOf s height)) R) :
    Spec F P (viewsAt height >>= k) R :=
  .read_bind (viewsOf · height) (fun _ => rfl) hk

variable {s : ChainAccount}

theorem viewsOf_of_mem {e : UInt64 × SortedMap UInt64 Ptr} (he : e ∈ s.allBlocks.entries) :
    viewsOf s e.1 = e.2 := by
  unfold viewsOf
  rw [find?_eq_some_iff.mpr he]
  rfl

def dbBlock (env : StoreEnv) (s : ChainAccount) (target : UInt64) : Option XvBlock :=
  s.vblocks.find? target <|> (if target = 0 then some env.genesisBlock else none)

variable {b : XvBlock}

theorem dbBlock_cases {env : StoreEnv} {target : UInt64} (h : dbBlock env s target = some b) :
    s.vblocks.find? target = some b ∨ target = 0 ∧ b = env.genesisBlock := by
  unfold dbBlock at h
  cases hfind : s.vblocks.find? target with
  | some x =>
    rw [hfind] at h
    exact .inl h
  | none =>
    rw [hfind] at h
    replace h : (if target = 0 then some env.genesisBlock else none) = some b := h
    split at h
    · rename_i hzero
      exact .inr ⟨hzero, (Option.some.inj h).symm⟩
    · cases h

theorem Inv.backed_of_dbBlock {S : List XvBlock} {env : StoreEnv} {target : UInt64} (hs : Inv S s)
    (hgenesis : env.genesisBlock ∈ S) (h : dbBlock env s target = some b) : Backed S b := by
  rcases dbBlock_cases h with hfind | ⟨-, rfl⟩
  · exact hs.stored b (mem_values_of_find? hfind)
  · exact backed_of_mem hgenesis

def withLoaded (s : ChainAccount) (b : XvBlock) : ChainAccount :=
  { s with
    objects := s.objects ++ [⟨b, none, none, 0, false⟩]
    allBlocks := s.allBlocks.insert b.height
      ((viewsOf s b.height).insert b.viewid s.objects.length) }

def Under (view : UInt64) (p : Ptr) (s : ChainAccount) : Prop :=
  ∃ o, s.objects[p]? = some o ∧ o.block.viewid = view

/-- Every cached block is under its own view. -/
def Keyed (s : ChainAccount) : Prop :=
  ∀ height view p, (viewsOf s height).find? view = some p → Under view p s

/-- The block is locked or committed. -/
def Raised (p : Ptr) (s : ChainAccount) : Prop :=
  ∃ o, s.objects[p]? = some o ∧ (.locked ∈ o.block.flags ∨ .committed ∈ o.block.flags)

theorem Raised.grows {p : Ptr} {t : ChainAccount} (h : Raised p s) (hst : Grows s t) :
    Raised p t := by
  obtain ⟨o, ho, hflag⟩ := h
  obtain ⟨o', ho', -, hflags⟩ := hst p o ho
  exact ⟨o', ho', hflag.imp (hflags _ (by decide) (by decide)) (hflags _ (by decide) (by decide))⟩

def CommittableAt (S : List XvBlock) (p : Ptr) (s : ChainAccount) : Prop :=
  ∃ x, Is p x s ∧ Committable S x

structure Walk (S : List XvBlock) (ι : Type) where
  inv : ι → ChainAccount → Prop
  rel : ChainAccount → ChainAccount → Prop
  refl : ∀ s, rel s s
  trans : ∀ {s t u}, rel s t → rel t u → rel s u
  base : ∀ {i s}, inv i s → Inv S s
  keyed : OwnViews S → ∀ {i s}, inv i s → Keyed s
  grows : ∀ {s t}, rel s t → Grows s t
  savable : ι → Ptr → ChainAccount → Prop
  savable_mono : ∀ {i p s t}, rel s t → savable i p s → savable i p t
  owes : Ptr → ChainAccount → Prop
  owes_mono : ∀ {p s t}, rel s t → owes p s → owes p t
  done : Prop → Ptr → ChainAccount → Prop
  done_mono : ∀ {c p s t}, rel s t → done c p s → done c p t

namespace Walk
variable {S : List XvBlock} {ι : Type} (w : Walk S ι) {env : StoreEnv} {i j k : ι}

def frame (i : ι) : Frame ChainAccount where
  inv := w.inv i
  rel := w.rel
  refl := w.refl
  trans := w.trans

theorem stable {R : ChainAccount → Prop} (h : Stable (ChainAccount.frame S) R) :
    Stable (w.frame i) R :=
  fun s t hst hs => h s t (w.grows hst).evolves hs

theorem stable_valid (p : Ptr) : Stable (w.frame i) (Valid p) :=
  w.stable (ChainAccount.stable_valid p)

theorem stable_raised (p : Ptr) : Stable (w.frame i) (Raised p) :=
  fun _ _ hst h => h.grows (w.grows hst)

def Ready (i : ι) (p : Ptr) (s : ChainAccount) : Prop := Valid p s ∧ w.savable i p s

theorem stable_ready (p : Ptr) : Stable (w.frame i) (w.Ready i p) :=
  (w.stable_valid p).and fun _ _ hst hs => w.savable_mono hst hs

def Owing (c : Prop) (i : ι) (p : Ptr) (s : ChainAccount) : Prop :=
  w.Ready i p s ∧ (c → w.owes p s)

theorem stable_owing (c : Prop) (p : Ptr) : Stable (w.frame i) (w.Owing c i p) :=
  (w.stable_ready p).and fun _ _ hst hs hc => w.owes_mono hst (hs hc)

theorem stable_done (c : Prop) (p : Ptr) : Stable (w.frame i) (w.done c p) :=
  fun _ _ hst hs => w.done_mono hst hs

def Moves {α : Type} (i j : ι) (P : ChainAccount → Prop) (m : StoreM α)
    (Q : α → ChainAccount → Prop) : Prop :=
  ∀ s, w.inv i s → P s → w.inv j (m s).2 ∧ w.rel s (m s).2 ∧ Q (m s).1 (m s).2

section
variable {w} {α β : Type} {P : ChainAccount → Prop} {Q : α → ChainAccount → Prop}
  {R : β → ChainAccount → Prop} {m : StoreM α} {f : α → StoreM β}

theorem Moves.spec (h : w.Moves i i P m Q) : Spec (w.frame i) P m Q := h

theorem Moves.of_spec (h : Spec (w.frame i) P m Q) : w.Moves i i P m Q := h

theorem Moves.bind (hm : w.Moves i j P m Q) (hf : ∀ a, w.Moves j k (Q a) (f a) R) :
    w.Moves i k P (m >>= f) R := by
  intro s hs hp
  obtain ⟨hinv, hrel, hq⟩ := hm s hs hp
  obtain ⟨hinv', hrel', hr⟩ := hf _ _ hinv hq
  exact ⟨hinv', w.trans hrel hrel', hr⟩

theorem Moves.carry {R : ChainAccount → Prop} (h : w.Moves i j P m Q) (hR : Stable (w.frame i) R)
    {P' : ChainAccount → Prop} (hP : ∀ s, w.inv i s → P' s → P s ∧ R s) :
    w.Moves i j P' m (fun _ => R) := by
  intro s hs hp
  obtain ⟨hinv, hrel, -⟩ := h s hs (hP s hs hp).1
  exact ⟨hinv, hrel, hR s _ hrel (hP s hs hp).2⟩

theorem Moves.at (hs : P s) (h : w.Moves i j P m Q) : w.Moves i j (· = s) m Q := by
  rintro t ht rfl
  exact h t ht hs

theorem Moves.keep {R : ChainAccount → Prop} (h : w.Moves i j (· = s) m Q)
    (hR : Stable (w.frame i) R) (hs : R s) : w.Moves i j (· = s) m (fun _ => R) :=
  h.carry hR fun _ _ ht => ⟨ht, ht ▸ hs⟩

theorem Moves.read_bind {g : α → StoreM β} (f : ChainAccount → α) (hm : ∀ s, m s = (f s, s))
    (hg : ∀ s, w.inv i s → P s → w.Moves i j (· = s) (g (f s)) R) : w.Moves i j P (m >>= g) R := by
  intro s hs hp
  show w.inv j ((g (m s).1) (m s).2).2 ∧ w.rel s ((g (m s).1) (m s).2).2 ∧
    R ((g (m s).1) (m s).2).1 ((g (m s).1) (m s).2).2
  rw [hm s]
  exact hg s hs hp s hs rfl

theorem Moves.get_bind {f : ChainAccount → StoreM β}
    (hf : ∀ s, w.inv i s → P s → w.Moves i j (· = s) (f s) R) : w.Moves i j P (get >>= f) R :=
  fun s hs hp => hf s hs hp s hs rfl

theorem Moves.ite {c : Prop} [Decidable c] {n : StoreM α} (hm : c → w.Moves i j P m Q)
    (hn : ¬ c → w.Moves i j P n Q) : w.Moves i j P (if c then m else n) Q := by
  split
  · exact hm ‹_›
  · exact hn ‹_›

end

def LoadSpec (load : UInt64 → Nat → StoreM (Option Ptr)) : Prop :=
  ∀ i height reenter, Spec (w.frame i) (fun _ => True) (load height reenter)
    (fun r s => ∀ p, r = some p → At p height s ∧ w.savable i p s)

structure Saves (env : StoreEnv) : Prop where
  save : ∀ c i p, Spec (w.frame i) (w.Owing c i p) (saveToXdb env p) (fun _ => w.done c p)
  execute : ∀ i p, Spec (w.frame i) (w.Ready i p) (executeBlock env p) (fun _ _ => True)
  exhaust : ∀ i, Safe (w.frame i) (modify fun s => { s with exhausted := true })
  cached : ∀ {i s height p}, w.inv i s → p ∈ (viewsOf s height).values → w.savable i p s

theorem firstWith_read (f : BlockFlag) (l : List Ptr) (s : ChainAccount) :
    (firstWith f l s).2 = s ∧ ∀ p, (firstWith f l s).1 = some p →
      p ∈ l ∧ (s.objects.getD p default).block.checkBlockFlag f := by
  induction l with
  | nil => exact ⟨rfl, fun p hp => by cases hp⟩
  | cons q l ih =>
    have hstep : firstWith f (q :: l) s =
        if (s.objects.getD q default).block.checkBlockFlag f then (some q, s)
        else firstWith f l s := by
      show (if (s.objects.getD q default).block.checkBlockFlag f = true then _ else _ :
        StoreM _) s = _
      split <;> rfl
    rw [hstep]
    split
    case isTrue hflag =>
      refine ⟨rfl, fun p hp => ?_⟩
      cases hp
      exact ⟨mem_cons_self, hflag⟩
    case isFalse =>
      exact ⟨ih.1, fun p hp => ⟨mem_cons_of_mem q (ih.2 p hp).1, (ih.2 p hp).2⟩⟩

theorem queryBlock_read (height : UInt64) (f : BlockFlag) (s : ChainAccount) :
    (queryBlock height f s).2 = s ∧ ∀ p, (queryBlock height f s).1 = some p →
      p ∈ (viewsOf s height).values ∧ (s.objects.getD p default).block.checkBlockFlag f := by
  obtain ⟨hs, hp⟩ := firstWith_read f (viewsOf s height).values.reverse s
  exact ⟨hs, fun p h => ⟨mem_reverse.mp (hp p h).1, (hp p h).2⟩⟩

variable {w} {load : UInt64 → Nat → StoreM (Option Ptr)}

section
variable (hsaves : w.Saves env)

include hsaves

theorem queryBlock_spec {P : ChainAccount → Prop} (height : UInt64) (f : BlockFlag) :
    Spec (w.frame i) P (queryBlock height f)
      (fun r s => P s ∧ ∀ p, r = some p → At p height s ∧ w.savable i p s) := by
  intro s hs hp
  obtain ⟨hsame, hfound⟩ := queryBlock_read height f s
  rw [hsame]
  refine ⟨hs, w.refl s, hp, fun p h => ?_⟩
  exact ⟨(w.base hs).viewsAt (hfound p h).1, hsaves.cached hs (hfound p h).1⟩

variable (hload : w.LoadSpec load) (fuel : Nat)

include hload

theorem loadBlockObject_spec (height : UInt64) :
    Spec (w.frame i) (fun _ => True) (loadBlockObject load height)
      (fun r s => ∀ p, r = some p → At p height s ∧ w.savable i p s) := by
  refine .bind (queryBlock_spec hsaves height .locked) fun r => ?_
  cases r with
  | some p => exact .pure fun s _ h => h.2
  | none => exact (hload i height 1).pre fun _ _ _ => trivial

theorem executeHistory_safe (n : Nat) (k : UInt64) :
    Safe (w.frame i) (executeHistory env load n k) := by
  induction n generalizing k with
  | zero => exact Safe.bind (hsaves.exhaust i) fun _ => Safe.pure _
  | succ n ih =>
    refine Safe.get_bind fun s => Safe.ite (Safe.pure _) ?_
    refine Spec.bind (loadBlockObject_spec hsaves hload _) fun r => ?_
    cases r with
    | none => exact (ih (k + 1)).spec
    | some p =>
      refine Spec.bind (Q := fun _ _ => True) ?_ fun _ => Safe.ite (ih (k + 1)) (Safe.pure _)
      exact (hsaves.execute i p).pre fun s _ h => ⟨(h p rfl).1.valid, (h p rfl).2⟩

theorem saveAndExecute_spec (c : Prop) (p : Ptr) :
    Spec (w.frame i) (w.Owing c i p) (saveAndExecute env load fuel p) (fun _ => w.done c p) := by
  have hdone : Stable (w.frame i) (w.done c p) := w.stable_done c p
  have hsave : Spec (w.frame i) (w.Owing c i p) (saveToXdb env p)
      (fun _ s => w.done c p s ∧ w.Ready i p s) :=
    ((hsaves.save c i p).frame (w.stable_ready p)).pre fun _ _ h => ⟨h, h.1⟩
  refine .bind hsave fun r => .ite (fun _ => ?_) fun _ => .pure fun _ _ h => h.1
  refine .bind ((hsaves.execute i p).carry hdone fun _ _ h => ⟨h.2, h.1⟩) fun _ => ?_
  refine .get_bind fun s _ h => .at h (.ite (fun _ => ?_) fun _ => ?_)
  · exact (executeHistory_safe hsaves hload _ _).spec.carry hdone fun _ _ h => ⟨trivial, h⟩
  · exact .pure fun _ _ h => h

theorem saveBlock_spec (c : Prop) (p : Ptr) :
    Spec (w.frame i) (w.Owing c i p) (saveBlock env load fuel p) (fun _ => w.done c p) := by
  have hself := saveAndExecute_spec (i := i) hsaves hload fuel c p
  refine .seq (w.stable_owing c p) (object_read p).weaken fun o =>
    .ite (fun _ => ?_) fun _ => hself
  refine .bind (queryBlock_spec hsaves 0 .committed) fun r => ?_
  cases r with
  | none => exact hself.pre fun _ _ h => h.1
  | some g =>
    have hboth : Stable (w.frame i) (fun s => w.Owing c i p s ∧ w.Ready i g s) :=
      (w.stable_owing c p).and (w.stable_ready g)
    have hthen : Spec (w.frame i) (fun s => w.Owing c i p s ∧ w.Ready i g s)
        (saveAndExecute env load fuel p) (fun _ => w.done c p) := hself.pre fun _ _ h => h.1
    refine .pre (P := fun s => w.Owing c i p s ∧ w.Ready i g s) ?_
      fun s _ h => ⟨h.1, (h.2 g rfl).1.valid, (h.2 g rfl).2⟩
    refine .seq hboth (checkBlockFlag_read g .stored).weaken fun r =>
      .ite (fun _ => ?_) fun _ => hthen
    refine .seq hboth ?_ fun _ => hthen
    exact (saveAndExecute_spec hsaves hload fuel False g).weaken.pre fun _ _ h => ⟨h.2, False.elim⟩

end

/-! ## The functions that write

For an invariant that does not speak of the meta data. -/

structure Writes (w : Walk S ι) (env : StoreEnv) : Prop where
  flag : ∀ i p f, f ≠ .locked → f ≠ .committed → Safe (w.frame i) (setBlockFlag env p f)
  unflag : ∀ i p f, f = .stored ∨ f = .executed → Safe (w.frame i) (removeBlockFlag p f)
  acctMeta : ∀ i g, Safe (w.frame i) (modifyMeta g)
  lastCert : ∀ i b, Backed S b → Safe (w.frame i) (modify fun s => { s with lastCert := some b })
  write : ∀ i p, Spec (w.frame i) (fun s => w.Ready i p s ∧ Raised p s) (writeVblock env p)
    (fun _ _ => True)

section
variable (hwrites : w.Writes env)

include hwrites

theorem connectMore_safe (l : List (UInt64 × SortedMap UInt64 Ptr)) :
    Safe (w.frame i) (connectMore env l) := by
  induction l with
  | nil => exact .pure ()
  | cons e l ih =>
    refine .get_bind fun s => ?_
    split
    · exact .pure ()
    · refine .bind (object_read _).safe fun o => .ite ?_ (.pure ())
      refine .bind (hwrites.acctMeta i _) fun _ => .bind ?_ fun _ => ih
      exact hwrites.flag i _ .connected (by decide) (by decide)

theorem raiseConnect_safe (p : Ptr) : Safe (w.frame i) (raiseConnect env p) := by
  refine .bind (object_read p).safe fun o => .get_bind fun s => ?_
  refine .ite (.bind (hwrites.acctMeta i _) fun _ => .get_bind fun s => ?_) (.pure ())
  exact connectMore_safe hwrites _

omit hwrites in
theorem isConnected_read {F : Frame ChainAccount} {P : ChainAccount → Prop} (o : BlockObject)
    (m : AcctMeta) : Spec F P (isConnected env o m) (fun _ => P) := by
  refine .ite (fun _ => .pure fun _ _ h => h) fun _ =>
    .ite (fun _ => .pure fun _ _ h => h) fun _ => ?_
  split
  · exact .bind (checkBlockFlag_read _ _) fun _ => .pure fun _ _ h => h.2
  · exact .bind (.pure fun _ _ h => h) fun _ => .pure fun _ _ h => h

section
variable (p : Ptr)
include p

theorem markConnected_safe : Safe (w.frame i) (markConnected env p) := by
  refine .bind (object_read p).safe fun o => .ite (.pure ()) ?_
  exact .get_bind fun s => .bind (isConnected_read o _) fun _ =>
    .ite (hwrites.flag i p .connected (by decide) (by decide)) (.pure ())

theorem updateMeta_safe (b : XvBlock) : Safe (w.frame i) (updateMeta env p b) := by
  refine .ite_bind (a := ()) (hwrites.acctMeta i _) fun _ => ?_
  refine .ite_bind (a := ()) (hwrites.acctMeta i _) fun _ => ?_
  exact .ite (.bind (hwrites.acctMeta i _) fun _ => raiseConnect_safe hwrites p) (.pure ())

theorem saveToXdb_spec : Spec (w.frame i) (w.Ready i p) (saveToXdb env p) (fun _ _ => True) := by
  refine object_bind p fun s hs hready => ?_
  obtain ⟨o, ho⟩ := hready.1
  have hbacked : Backed S o.block := ((w.base hs).objects p o ho).1
  rw [getD_of_getElem? ho]
  -- the flags the block had on entry are kept until it is written
  let R : ChainAccount → Prop := fun s => w.Ready i p s ∧
    (.locked ∈ o.block.flags ∨ .committed ∈ o.block.flags → Raised p s)
  have hR : Stable (w.frame i) R :=
    (w.stable_ready p).and fun s t hst h hflag => w.stable_raised (i := i) p s t hst (h hflag)
  have hwrite : (.locked ∈ o.block.flags ∨ .committed ∈ o.block.flags) →
      Spec (w.frame i) R (writeVblock env p) (fun _ _ => True) := fun hflag =>
    (hwrites.write i p).pre fun s _ h => ⟨h.1, h.2 hflag⟩
  refine Spec.at (P := R) ⟨hready, fun hflag => ⟨o, ho, hflag⟩⟩ ?_
  refine Spec.ite_seq (a := ()) hR (fun _ => (markConnected_safe hwrites p).spec) fun _ => ?_
  refine Spec.ite (fun _ => ?_) fun hcert => ?_
  · -- only the certificate is kept
    refine (Safe.get_bind fun s => ?_).spec
    exact Safe.ite (Safe.bind (hwrites.acctMeta i _) fun _ =>
        Safe.bind (hwrites.lastCert i _ hbacked)
      fun _ => Safe.pure _) (Safe.pure _)
  have hflag : .locked ∈ o.block.flags ∨ .committed ∈ o.block.flags := by
    by_contra hnone
    obtain ⟨hlocked, hcommitted⟩ := not_or.mp hnone
    refine hcert ?_
    rw [XvBlock.checkBlockFlag, XvBlock.checkBlockFlag, decide_eq_false hlocked,
      decide_eq_false hcommitted]
    rfl
  refine Spec.ite (fun _ => ?_) fun _ => ?_
  · refine Spec.seq hR (hwrites.flag i p .stored (by decide) (by decide)).spec fun _ => ?_
    refine Spec.seq hR (hwrite hflag) fun r => ?_
    refine (Safe.ite (Safe.bind (updateMeta_safe hwrites p _) fun _ => Safe.pure _) ?_).spec
    exact Safe.bind (hwrites.unflag i p .stored (.inl rfl)) fun _ => Safe.pure _
  · refine Spec.seq hR (object_read p).weaken fun o' => ?_
    refine Spec.ite (fun _ => (Safe.pure _).spec) fun _ => Spec.seq hR (hwrite hflag) fun r => ?_
    exact (Safe.ite (Safe.bind (updateMeta_safe hwrites p _) fun _ => Safe.pure _)
      (Safe.pure _)).spec

theorem unloadSubblockFromContainer_safe :
    Safe (w.frame i) (unloadSubblockFromContainer env p) := by
  refine .bind (object_read p).safe fun o => .ite ?_ (.pure _)
  split
  · exact .pure _
  · exact .bind (hwrites.flag i p .unpacked (by decide) (by decide)) fun _ => .pure _
  · exact .pure _

theorem executeBlock_spec :
    Spec (w.frame i) (w.Ready i p) (executeBlock env p) (fun _ _ => True) := by
  have hR : Stable (w.frame i) (w.Ready i p) := w.stable_ready p
  refine Spec.seq hR (object_read p).weaken fun o => ?_
  refine Spec.ite (fun _ => (Safe.pure _).spec) fun _ => Spec.ite (fun _ => ?_) fun _ => ?_
  · refine (Safe.get_bind fun s => ?_).spec
    exact Safe.ite_bind (a := ()) (hwrites.acctMeta i _) fun _ => Safe.pure _
  · refine Spec.seq hR (unloadSubblockFromContainer_safe hwrites p).spec fun r => ?_
    refine Spec.ite (fun _ => (Safe.pure _).spec) fun _ => ?_
    refine Spec.get_bind fun s hs hp => Spec.at hp
      (Spec.ite (fun _ => ?_) fun _ => (Safe.pure _).spec)
    refine Spec.seq hR (hwrites.flag i p .executed (by decide) (by decide)).spec fun _ => ?_
    refine Spec.seq hR (saveToXdb_spec hwrites p) fun r => ?_
    refine (Safe.ite (Safe.bind (hwrites.acctMeta i _) fun _ => Safe.pure _) ?_).spec
    exact Safe.bind (hwrites.unflag i p .executed (.inr rfl)) fun _ => Safe.pure _

theorem loadedMeta_safe (target : UInt64) : Safe (w.frame i) (loadedMeta env p target) := by
  refine .bind (object_read p).safe fun o => .ite ?_ (.ite ?_ (.ite ?_ (.pure _)))
  · refine .bind (hwrites.acctMeta i _) fun _ => .bind (markConnected_safe hwrites p) fun _ => ?_
    exact .bind (raiseConnect_safe hwrites p) fun _ => .pure _
  · exact .bind (hwrites.acctMeta i _) fun _ => .pure _
  · exact .bind (hwrites.acctMeta i _) fun _ => .pure _

end

theorem Writes.saves (hdone : ∀ c p s, w.done c p s)
    (hexhaust : ∀ i, Safe (w.frame i) (modify fun s => { s with exhausted := true }))
    (hcached : ∀ {i s height p}, w.inv i s → p ∈ (viewsOf s height).values → w.savable i p s) :
    w.Saves env where
  save c _ p := (saveToXdb_spec hwrites p).conseq (fun _ _ h => h.1) fun _ s _ _ => hdone c p s
  execute _ p := executeBlock_spec hwrites p
  exhaust := hexhaust
  cached := hcached

end

/-- The two halves of `process_block`. -/
structure Raises (w : Walk S ι) (env : StoreEnv) (load : UInt64 → Nat → StoreM (Option Ptr))
    (fuel : Nat) : Prop where
  lockPrev : ∀ i this prev (c c' : Prop) [Decidable c] [Decidable c'] (k : Unit → StoreM Bool),
    (∀ u, Spec (w.frame i) (Linked this prev) (k u) (fun _ _ => True)) →
    Spec (w.frame i) (Linked this prev) (if c then do
        setBlockFlag env prev .locked
        if ← checkBlockFlag this .locked then setBlockFlag env prev .committed
        let _ ← resetNextBlock prev this
        let _ ← saveBlock env load fuel prev
        let u ← cleanCandidates prev
        k u
      else if c' then do
        let _ ← resetNextBlock prev this
        k ()
      else k ()) (fun _ _ => True)
  commitPrev : ∀ i prev prevPrev (c c' : Prop) [Decidable c] [Decidable c'],
    Spec (w.frame i) (fun s => Linked prev prevPrev s ∧ LockableAt S prev s) (if c then do
        setBlockFlag env prevPrev .committed
        let _ ← resetNextBlock prevPrev prev
        let _ ← saveBlock env load fuel prevPrev
        cleanCandidates prevPrev
        return true
      else if c' then do
        let _ ← resetNextBlock prevPrev prev
        return true
      else return true) (fun _ _ => True)

def Links (w : Walk S ι) : Prop :=
  ∀ i p q, Spec (w.frame i) (Valid q) (resetPrevBlock p q) (fun _ _ => True)

section
variable (hload : w.LoadSpec load) {fuel : Nat} (hlinks : w.Links)
  (hraises : w.Raises env load fuel)

include hraises

theorem processBlock_safe (this : Ptr) : Safe (w.frame i) (processBlock env load fuel this) := by
  refine object_bind this fun s hs _ => ?_
  cases hprev : (s.objects.getD this default).prevBlock with
  | none => exact (Safe.pure _).spec
  | some prev =>
    have hlinked : Stable (w.frame i) (Linked this prev) := w.stable (stable_linked this prev)
    refine Spec.at ((w.base hs).linked_getD hprev) ?_
    refine Spec.seq hlinked (object_read prev).weaken fun o => ?_
    refine Spec.get_bind fun s _ hlink => Spec.at hlink ?_
    refine hraises.lockPrev i this prev _ _ _ fun _ => ?_
    refine object_bind prev fun s hs hlink => ?_
    cases hprevPrev : (s.objects.getD prev default).prevBlock with
    | none => exact (Safe.pure _).spec
    | some prevPrev =>
      -- the block below has a child, so its own parent may be committed
      have hR : Stable (w.frame i) (fun s => Linked prev prevPrev s ∧ LockableAt S prev s) :=
        (w.stable (stable_linked prev prevPrev)).and (w.stable (stable_lockableAt prev))
      refine Spec.at (P := fun s => Linked prev prevPrev s ∧ LockableAt S prev s)
        ⟨(w.base hs).linked_getD hprevPrev, hlink.lockableAt (w.base hs)⟩ ?_
      refine Spec.seq hR (object_read prevPrev).weaken fun o => ?_
      refine Spec.get_bind fun s _ h =>
        Spec.at (P := fun s => Linked prev prevPrev s ∧ LockableAt S prev s) h ?_
      exact hraises.commitPrev i prev prevPrev _ _

include hlinks

theorem linkToPrev_spec (this : Ptr) (l : List Ptr) :
    Spec (w.frame i) (fun s => ∀ q ∈ l, Valid q s) (linkToPrev env load fuel this l)
      (fun _ _ => True) := by
  induction l with
  | nil => exact (Safe.pure ()).spec
  | cons q l ih =>
    have hR : Stable (w.frame i) (fun s => ∀ q' ∈ q :: l, Valid q' s) :=
      w.stable (stable_valids (q :: l))
    refine Spec.seq hR ((hlinks i this q).pre fun s _ h => h q mem_cons_self)
      fun r => Spec.ite (fun _ => ?_) fun _ => ?_
    · exact (Safe.bind (processBlock_safe hraises this) fun _ => Safe.pure ()).spec
    · exact ih.pre fun s _ h q' hq' => h q' (mem_cons_of_mem q hq')

theorem linkToNext_spec (this : Ptr) (l : List Ptr) :
    Spec (w.frame i) (Valid this) (linkToNext env load fuel this l) (fun _ _ => True) := by
  induction l with
  | nil => exact (Safe.pure ()).spec
  | cons q l ih =>
    refine Spec.seq (w.stable_valid this) (hlinks i q this) fun r =>
      Spec.ite (fun _ => ?_) fun _ => ih
    exact Spec.seq (w.stable_valid this) (processBlock_safe hraises q).spec fun _ => ih

omit hlinks in
theorem processAll_safe (l : List Ptr) : Safe (w.frame i) (processAll env load fuel l) := by
  induction l with
  | nil => exact .pure ()
  | cons q l ih => exact .bind (processBlock_safe hraises q) fun _ => ih

omit hlinks hraises in
theorem prevMissing_safe (this : Ptr) : Safe (w.frame i) (prevMissing this) := by
  refine .bind (object_read this).safe fun o => ?_
  cases o.prevBlock with
  | none => exact .pure _
  | some q => exact .bind (object_read q).safe fun _ => .pure _

include hload

theorem connectBlock_spec (this : Ptr) (reenter : Nat) :
    Spec (w.frame i) (Valid this) (connectBlock env load fuel this reenter) (fun _ _ => True) := by
  have hR : Stable (w.frame i) (Valid this) := w.stable_valid this
  refine Spec.seq hR (object_read this).weaken fun o => ?_
  extract_lets height above below
  have habove : ∀ u, Spec (w.frame i) (Valid this) (above u) (fun _ _ => True) := by
    intro _
    refine Spec.get_bind fun s hs h => Spec.at h ?_
    cases s.allBlocks.after? height with
    | none => exact (Safe.pure ()).spec
    | some e =>
      refine Spec.ite (fun _ => ?_) fun _ => (Safe.pure ()).spec
      refine Spec.seq hR (linkToNext_spec hlinks hraises this _) fun _ => ?_
      refine (Safe.get_bind fun s => ?_).spec
      cases s.allBlocks.after? e.1 with
      | none => exact Safe.pure ()
      | some e' => exact Safe.ite (processAll_safe hraises _) (Safe.pure ())
  have hbelow : ∀ u, Spec (w.frame i) (Valid this) (below u) (fun _ _ => True) := by
    intro _
    refine Spec.seq hR (prevMissing_safe this).spec fun r =>
      Spec.ite (fun _ => ?_) fun _ => habove ()
    refine Spec.bind (((hload i _ _).frame hR).pre fun _ _ h => ⟨trivial, h⟩) fun r => ?_
    cases r with
    | none => exact (habove ()).pre fun _ _ h => h.2
    | some q =>
      refine Spec.bind ((hlinks i this q).carry hR
        fun s _ h => ⟨(h.1 q rfl).1.valid, h.2⟩) fun r => Spec.ite (fun _ => ?_) fun _ => habove ()
      exact Spec.seq hR (processBlock_safe hraises this).spec fun _ => habove ()
  refine Spec.ite (fun _ => ?_) fun _ => habove ()
  refine Spec.get_bind fun s hs h => ?_
  cases hbefore : s.allBlocks.before? height with
  | none => exact Spec.at h (hbelow ())
  | some e =>
    refine Spec.ite (fun _ => ?_) fun _ => Spec.at h (hbelow ())
    have hmem : e ∈ s.allBlocks.entries :=
      mem_reverse.mp (mem_of_find?_eq_some hbefore)
    refine Spec.bind ((linkToPrev_spec hlinks hraises this _).carry hR ?_) hbelow
    rintro t - rfl
    exact ⟨fun q hq => ((w.base hs).cache e hmem q (mem_reverse.mp hq)).valid, h⟩

end

structure Loads (w : Walk S ι) (env : StoreEnv) : Prop where
  enter : ∀ {i s b}, w.inv i s → dbBlock env s b.height = some b →
    (viewsOf s b.height).find? b.viewid = none →
    w.inv i (withLoaded s b) ∧ w.rel s (withLoaded s b) ∧
      w.savable i s.objects.length (withLoaded s b)
  loadedMeta : ∀ i p target, Spec (w.frame i) (fun s => At p target s ∧ w.savable i p s)
    (loadedMeta env p target) (fun _ _ => True)

theorem loadedMeta_result {p q : Ptr} {target : UInt64} :
    (loadedMeta env p target s).1 = some q → q = p := by
  show ((if _ then _ else _ : StoreM (Option Ptr)) s).1 = some q → _
  split
  · exact fun h => (Option.some.inj h).symm
  · split
    · exact fun h => (Option.some.inj h).symm
    · split
      · exact fun h => (Option.some.inj h).symm
      · exact fun h => by cases h

theorem getElem?_withLoaded (s : ChainAccount) (b : XvBlock) :
    (withLoaded s b).objects[s.objects.length]? = some ⟨b, none, none, 0, false⟩ := by
  show (s.objects ++ [_])[s.objects.length]? = _
  rw [List.getElem?_append_right le_rfl, Nat.sub_self]
  rfl

theorem at_withLoaded (s : ChainAccount) (b : XvBlock) :
    At s.objects.length b.height (withLoaded s b) :=
  ⟨_, getElem?_withLoaded s b, rfl⟩

theorem bind_run {α β : Type} (m : StoreM α) (f : α → StoreM β) (s : ChainAccount) :
    (m >>= f) s = f (m s).1 (m s).2 := rfl

theorem get_bind_run {α : Type} (f : ChainAccount → StoreM α) (s : ChainAccount) :
    (get >>= f : StoreM α) s = f s s := rfl

theorem viewsAt_bind_run {α : Type} (height : UInt64) (f : SortedMap UInt64 Ptr → StoreM α)
    (s : ChainAccount) : (viewsAt height >>= f : StoreM α) s = f (viewsOf s height) s := rfl

theorem loadBlock_enter (n reenter : Nat) (hb : dbBlock env s b.height = some b)
    (hview : (viewsOf s b.height).find? b.viewid = none) :
    loadBlock env (n + 1) b.height reenter s =
      (do connectBlock env (loadBlock env n) n s.objects.length reenter
          loadedMeta env s.objects.length b.height : StoreM _) (withLoaded s b) := by
  unfold dbBlock at hb
  rw [loadBlock, get_bind_run, hb]
  dsimp only
  rw [if_neg (not_ne_iff.mpr rfl), viewsAt_bind_run, hview]
  rfl

theorem loadBlock_none (n : Nat) (target : UInt64) (reenter : Nat)
    (h : ∀ b, dbBlock env s target = some b → b.height = target →
      (viewsOf s target).find? b.viewid ≠ none) :
    loadBlock env (n + 1) target reenter s = (none, s) := by
  rw [loadBlock, get_bind_run]
  cases hb : (s.vblocks.find? target <|> (if target = 0 then some env.genesisBlock else none)) with
  | none => rfl
  | some b =>
    dsimp only
    by_cases hheight : b.height = target
    · rw [if_neg (not_ne_iff.mpr hheight), viewsAt_bind_run]
      cases hview : (viewsOf s target).find? b.viewid with
      | some _ => rfl
      | none => exact absurd hview (h b hb hheight)
    · rw [if_pos hheight]
      rfl

theorem loadBlock_spec (hsaves : w.Saves env) (hlinks : w.Links) (hloads : w.Loads env)
    (hraises : ∀ load fuel, w.LoadSpec load → w.Raises env load fuel) (n : Nat) :
    w.LoadSpec (loadBlock env n) := by
  induction n with
  | zero =>
    intro i height reenter
    refine Spec.bind (hsaves.exhaust i) fun _ => Spec.pure fun s _ _ q hq => ?_
    cases hq
  | succ n ih =>
    intro i target reenter s hs _
    by_cases hfound : ∃ b, dbBlock env s target = some b ∧ b.height = target ∧
        (viewsOf s target).find? b.viewid = none
    · obtain ⟨b, hb, rfl, hview⟩ := hfound
      rw [loadBlock_enter n reenter hb hview]
      obtain ⟨hinv, hrel, hsavable⟩ := hloads.enter hs hb hview
      have hR : Stable (w.frame i) (fun t => At s.objects.length b.height t ∧
          w.savable i s.objects.length t) :=
        (w.stable (stable_at _ _)).and fun _ _ hst h => w.savable_mono hst h
      have hconnect := connectBlock_spec (i := i) ih hlinks
        (hraises _ n ih) s.objects.length reenter
      have hmeta := ((hloads.loadedMeta i s.objects.length b.height).frame hR).pre
        fun _ _ h => ⟨h, h⟩
      obtain ⟨hinv', hrel', -, hpost⟩ := Spec.bind (hconnect.carry hR fun _ _ h => ⟨h.1.valid, h⟩)
        (fun _ => hmeta) _ hinv ⟨at_withLoaded s b, hsavable⟩
      refine ⟨hinv', w.trans hrel hrel', fun q hq => ?_⟩
      obtain rfl := loadedMeta_result hq
      exact hpost
    · rw [loadBlock_none n target reenter fun b hb hheight hview => hfound ⟨b, hb, hheight, hview⟩]
      exact ⟨hs, w.refl s, fun q hq => by cases hq⟩

/-- Until a raised block is saved and its height cleaned, the account is at the index `during`. -/
structure Lifts (w : Walk S ι) (env : StoreEnv) where
  during : Prop → ι → Ptr → ι
  ready : ∀ {c i p s}, w.inv (during c i p) s → Valid p s → w.savable (during c i p) p s
  lock : ∀ i p, w.Moves i (during False i p) (LockableAt S p) (setBlockFlag env p .locked)
    (fun _ _ => True)
  commit : ∀ i p, w.Moves i (during True i p) (CommittableAt S p) (setBlockFlag env p .committed)
    (fun _ => w.owes p)
  promote : ∀ i p, w.Moves (during False i p) (during True i p) (CommittableAt S p)
    (setBlockFlag env p .committed) (fun _ => w.owes p)
  next : ∀ i p q, Safe (w.frame i) (resetNextBlock p q)
  clean : ∀ c i p, w.Moves (during c i p) i (fun s => w.done c p s ∧ Raised p s) (cleanCandidates p)
    (fun _ _ => True)

theorem getElem?_setBlockFlag {p : Ptr} {o : BlockObject} (ho : s.objects[p]? = some o)
    (f : BlockFlag) :
    (setBlockFlag env p f s).2.objects[p]? = some { o with
      block := o.block.setBlockFlag f
      modifiedCount := if env.flagCounts then o.modifiedCount + 1 else o.modifiedCount } := by
  show (s.objects.modify p _)[p]? = _
  rw [getElem?_modify_map, ho, Option.map_some, if_pos rfl]

theorem raised_setBlockFlag {p : Ptr} {f : BlockFlag} (hf : f = .locked ∨ f = .committed)
    (hp : Valid p s) : Raised p (setBlockFlag env p f s).2 := by
  obtain ⟨o, ho⟩ := hp
  refine ⟨_, getElem?_setBlockFlag ho f, ?_⟩
  rcases hf with rfl | rfl
  · exact .inl (Finset.mem_insert_self _ _)
  · exact .inr (Finset.mem_insert_self _ _)

section
variable (hlifts : w.Lifts env) (hsaves : w.Saves env) (hload : w.LoadSpec load) (fuel : Nat)

include hlifts hsaves hload

theorem raise_moves {R : ChainAccount → Prop} {f : Unit → StoreM Bool} {p : Ptr} {c : Prop}
    (next : Ptr) (hR : ∀ j, Stable (w.frame j) R) (hvalid : ∀ s, R s → Valid p s)
    (hf : ∀ u, Spec (w.frame i) R (f u) (fun _ _ => True)) :
    w.Moves (hlifts.during c i p) i (fun s => R s ∧ Raised p s ∧ (c → w.owes p s)) (do
      let _ ← resetNextBlock p next
      let _ ← saveBlock env load fuel p
      let u ← cleanCandidates p
      f u) (fun _ _ => True) := by
  have hraised : ∀ j, Stable (w.frame j) (fun s => R s ∧ Raised p s) := fun j =>
    (hR j).and (w.stable_raised p)
  have hall : Stable (w.frame (hlifts.during c i p))
      (fun s => R s ∧ Raised p s ∧ (c → w.owes p s)) :=
    (hR _).and ((w.stable_raised p).and fun _ _ hst h hc => w.owes_mono hst (h hc))
  have hsave : w.Moves (hlifts.during c i p) (hlifts.during c i p)
      (fun s => R s ∧ Raised p s ∧ (c → w.owes p s)) (saveBlock env load fuel p)
      (fun _ s => w.done c p s ∧ R s ∧ Raised p s) := by
    refine Moves.of_spec (((saveBlock_spec hsaves hload fuel c p).frame (hraised _)).pre ?_)
    intro s hs h
    exact ⟨⟨⟨hvalid s h.1, hlifts.ready hs (hvalid s h.1)⟩, h.2.2⟩, h.1, h.2.1⟩
  have hclean : w.Moves (hlifts.during c i p) i (fun s => w.done c p s ∧ R s ∧ Raised p s)
      (cleanCandidates p) (fun _ => R) :=
    (hlifts.clean c i p).carry (hR _) fun _ _ h => ⟨⟨h.1, h.2.2⟩, h.2.1⟩
  refine Moves.bind (Moves.of_spec ((hlifts.next _ p next).spec.carry hall fun _ _ h =>
    ⟨trivial, h⟩))
    fun _ => ?_
  exact hsave.bind fun _ => hclean.bind fun u => Moves.of_spec (hf u)

theorem raises : w.Raises env load fuel where
  lockPrev i this prev c c' _ _ f hf := by
    have hR : ∀ j, Stable (w.frame j) (Linked this prev) :=
      fun j => w.stable (stable_linked this prev)
    have hraise := fun c : Prop => raise_moves (c := c) hlifts hsaves hload fuel this hR
      (fun _ h => h.valid_right) hf
    refine Spec.ite (fun _ => ?_) fun _ => Spec.ite (fun _ => ?_) fun _ => hf ()
    · have hlock : w.Moves i (hlifts.during False i prev) (Linked this prev)
          (setBlockFlag env prev .locked) (fun _ s => Linked this prev s ∧ Raised prev s) := by
        intro s hs h
        obtain ⟨hinv, hrel, -⟩ := hlifts.lock i prev s hs (h.lockableAt (w.base hs))
        exact ⟨hinv, hrel, hR i s _ hrel h, raised_setBlockFlag (.inl rfl) h.valid_right⟩
      refine (hlock.bind fun _ => Moves.read_bind
        (fun s : ChainAccount => (s.objects.getD this default).block.checkBlockFlag .locked)
        (fun _ => rfl) fun s hs h => ?_).spec
      refine Moves.ite (fun hflag => ?_) fun _ => Moves.at ⟨h.1, h.2, False.elim⟩ (hraise False)
      obtain ⟨o, ho⟩ := h.1.valid_left
      rw [getD_of_getElem? ho] at hflag
      have hcommit : CommittableAt S prev s := by
        obtain ⟨o', ho'⟩ := h.1.valid_right
        exact ⟨o'.block, ⟨o', ho', .refl _⟩,
          h.1.committable (lockableAt_of_flag (w.base hs) ho hflag) (w.base hs) ho'⟩
      refine Moves.bind (Q := fun _ s => Linked this prev s ∧ Raised prev s ∧
        (True → w.owes prev s)) ?_ fun _ => hraise True
      rintro t ht rfl
      obtain ⟨hinv, hrel, howes⟩ := hlifts.promote i prev t ht hcommit
      exact ⟨hinv, hrel, hR i t _ hrel h.1, raised_setBlockFlag (.inr rfl) h.1.valid_right,
        fun _ => howes⟩
    · exact Spec.seq (hR i) (hlifts.next i prev this).spec fun _ => hf ()
  commitPrev i prev prevPrev c c' _ _ := by
    have hR : ∀ j, Stable (w.frame j) (fun s => Linked prev prevPrev s ∧ LockableAt S prev s) :=
      fun j => (w.stable (stable_linked prev prevPrev)).and (w.stable (stable_lockableAt prev))
    refine Spec.ite (fun _ => ?_) fun _ => Spec.ite (fun _ => ?_) fun _ => (Safe.pure _).spec
    · refine Moves.bind (Q := fun _ s => (Linked prev prevPrev s ∧ LockableAt S prev s) ∧
        Raised prevPrev s ∧ (True → w.owes prevPrev s)) ?_ fun _ =>
          raise_moves hlifts hsaves hload fuel prev hR (fun _ h => h.1.valid_right)
            fun _ => (Safe.pure _).spec
      intro s hs h
      obtain ⟨o, ho⟩ := h.1.valid_right
      obtain ⟨hinv, hrel, howes⟩ := hlifts.commit i prevPrev s hs
        ⟨o.block, ⟨o, ho, .refl _⟩, h.1.committable h.2 (w.base hs) ho⟩
      exact ⟨hinv, hrel, hR i s _ hrel h, raised_setBlockFlag (.inr rfl) h.1.valid_right,
        fun _ => howes⟩
    · exact (Safe.bind (hlifts.next i prevPrev prev) fun _ => Safe.pure _).spec

end

def Drops (w : Walk S ι) : Prop :=
  ∀ i height view p, Spec (w.frame i) (fun s => At p height s ∧
      ¬ ((s.objects.getD p default).block.checkBlockFlag .locked ∧
        (s.objects.getD p default).block.checkBlockFlag .committed))
    (dropView height view p) (fun _ _ => True)

/-- What the changes of objects and of the cache keep, for an invariant that lets any object be
written at any time. -/
structure Stores (w : Walk S ι) (env : StoreEnv) extends w.Lifts env where
  leave : ∀ {c i p s}, w.inv (during c i p) s → w.done c p s → w.inv i s
  free : ∀ {i p s}, w.inv i s → Valid p s → w.savable i p s
  close : ∀ i p, Safe (w.frame i) (closeBlock p)
  unlink : ∀ i p, Safe (w.frame i) (modifyObject p fun o => { o with prevBlock := none })
  keepStored : ∀ i p, Safe (w.frame i) (setBlockFlag env p .stored)
  touched : Ptr → ChainAccount → Prop
  touched_mono : ∀ {p s t}, w.rel s t → touched p s → touched p t
  touch : ∀ i p, Spec (w.frame i) (Valid p)
    (modifyObject p fun o => { o with modifiedCount := o.modifiedCount + 1 }) (fun _ => touched p)
  settled : ∀ {c i p s}, w.inv i s → touched p s → (s.objects.getD p default).modifiedCount = 0 →
    (c → w.owes p s) → w.done c p s
  drop : w.Drops
  blank : ∀ i height t, (viewsOf t height).entries = [] →
    Spec (w.frame i) (· = t) (setBlocks (t.allBlocks.insert height .empty)) (fun _ _ => True)
  erase : ∀ i height t, height ≠ 0 ∨ (viewsOf t height).values = [] →
    Spec (w.frame i) (· = t) (setBlocks (t.allBlocks.erase height)) (fun _ _ => True)
  put : ∀ i view p t o, t.objects[p]? = some o → (OwnViews S → view = o.block.viewid) →
    w.Moves i (during (w.owes p t) i p) (· = t) (setBlocks (t.allBlocks.insert o.block.height
      ((viewsOf t o.block.height).insert view p))) (fun _ _ => True)

section
variable (hdrop : w.Drops)

include hdrop

theorem dropWithout_spec (height : UInt64) {flag : BlockFlag}
    (hflag : flag = .locked ∨ flag = .committed) (l : List (UInt64 × Ptr)) :
    Spec (w.frame i) (fun s => ∀ e ∈ l, At e.2 height s) (dropWithout height flag l)
      (fun _ _ => True) := by
  induction l with
  | nil => exact (Safe.pure ()).spec
  | cons e l ih =>
    have hR : Stable (w.frame i) (fun s => ∀ e' ∈ e :: l, At e'.2 height s) :=
      fun s t hst h e' he' => w.stable (i := i) (stable_at e'.2 height) s t hst (h e' he')
    have hrest : Spec (w.frame i) (fun s => ∀ e' ∈ e :: l, At e'.2 height s)
        (dropWithout height flag l) (fun _ _ => True) :=
      ih.pre fun s _ h e' he' => h e' (mem_cons_of_mem e he')
    refine checkBlockFlag_bind e.2 flag fun s hs h => Spec.ite (fun hnot => ?_) fun _ =>
      Spec.at h hrest
    have hlacks : ¬ ((s.objects.getD e.2 default).block.checkBlockFlag .locked ∧
        (s.objects.getD e.2 default).block.checkBlockFlag .committed) := by
      rintro ⟨hlocked, hcommitted⟩
      rcases hflag with rfl | rfl
      · rw [hlocked] at hnot
        cases hnot
      · rw [hcommitted] at hnot
        cases hnot
    have hdrop : Spec (w.frame i) (· = s) (dropView height e.1 e.2)
        (fun _ t => ∀ e' ∈ e :: l, At e'.2 height t) :=
      Spec.at ⟨⟨h e mem_cons_self, hlacks⟩, h⟩ ((hdrop i height e.1 e.2).carry hR fun _ _ h => h)
    simpa only [dropView, bind_assoc] using hdrop.bind fun _ => hrest

theorem cleanCandidates_safe (p : Ptr) : Safe (w.frame i) (cleanCandidates p) := by
  refine Safe.bind (object_read p).safe fun o => ?_
  refine viewsAt_bind o.block.height fun s hs _ => ?_
  have hat : ∀ e ∈ (viewsOf s o.block.height).entries, At e.2 o.block.height s :=
    fun e he => (w.base hs).viewsAt (mem_map_of_mem he)
  refine Spec.at (P := fun t => ∀ e ∈ (viewsOf s o.block.height).entries, At e.2 o.block.height t)
    hat ?_
  exact Spec.ite (fun _ => dropWithout_spec hdrop _ (.inr rfl) _)
    fun _ => Spec.ite (fun _ => dropWithout_spec hdrop _ (.inl rfl) _) fun _ => (Safe.pure ()).spec

theorem clean_moves {c : Prop} (p : Ptr) (hleave : ∀ s, w.inv j s → w.done c p s → w.inv i s) :
    w.Moves j i (fun s => w.done c p s ∧ Raised p s) (cleanCandidates p) (fun _ _ => True) :=
  fun s hs h => cleanCandidates_safe hdrop p s (hleave s hs h.1) trivial

end

section
variable (hdrop : w.Drops) {b : XvBlock}

def EntriesOk (S : List XvBlock) (height : UInt64) (l : List (UInt64 × Ptr)) (s : ChainAccount) :
    Prop :=
  ∀ e ∈ l, At e.2 height s ∧ (OwnViews S → Under e.1 e.2 s)

theorem stable_under (view : UInt64) (p : Ptr) : Stable (w.frame i) (Under view p) := by
  rintro s t hst ⟨o, ho, hview⟩
  obtain ⟨o', ho', hsame, -⟩ := w.grows hst p o ho
  exact ⟨o', ho', hsame.viewid.trans hview⟩

theorem stable_entriesOk (height : UInt64) (l : List (UInt64 × Ptr)) :
    Stable (w.frame i) (EntriesOk S height l) :=
  fun s t hst h e he => ⟨w.stable (i := i) (stable_at e.2 height) s t hst (h e he).1,
    fun hown => stable_under (i := i) e.1 e.2 s t hst ((h e he).2 hown)⟩

variable {e : UInt64 × Ptr} {l : List (UInt64 × Ptr)}

theorem EntriesOk.tail {height : UInt64} (h : EntriesOk S height (e :: l) s) :
    EntriesOk S height l s :=
  fun e' he' => h e' (mem_cons_of_mem e he')

theorem EntriesOk.slotFor (h : EntriesOk S b.height (e :: l) s) (hs : Inv S s)
    (hraise : Raisable S b)
    (hflag : (s.objects.getD e.2 default).block.checkBlockFlag .locked ∨
      (s.objects.getD e.2 default).block.checkBlockFlag .committed)
    (hown : OwnViews S) :
    SlotFor S b e.1 := by
  obtain ⟨⟨o, ho, hheight⟩, hunder⟩ := h e mem_cons_self
  obtain ⟨o', ho', hview⟩ := hunder hown
  obtain rfl := Option.mem_unique ho ho'
  rw [getD_of_getElem? ho] at hflag
  obtain ⟨x, hx, hsame⟩ := (hs.objects e.2 o ho).1.known
  have hraise' : Raisable S o.block :=
    (hs.objects e.2 o ho).1.raisable (hflag.imp of_decide_eq_true of_decide_eq_true)
  refine .inr ⟨hraise, x, hx, hraise'.congr hsame.symm, ?_, ?_⟩
  · rw [hsame.height, hheight]
  · rw [hsame.viewid, hview]

def SlotFound (S : List XvBlock) (b : XvBlock) (found : Option UInt64) : Prop :=
  ∀ view, found = some view → OwnViews S → SlotFor S b view

theorem SlotFound.none : SlotFound S b none := fun _ h => by cases h

theorem SlotFound.some {view : UInt64} (h : OwnViews S → SlotFor S b view) :
    SlotFound S b (some view) := by
  intro view' heq
  obtain rfl := Option.some.inj heq
  exact h

def SlotOk (S : List XvBlock) (b : XvBlock) (r : Slot) : Prop :=
  ∀ view, r = .free (some view) → OwnViews S → SlotFor S b view

variable {found : Option UInt64}

theorem SlotFound.free (h : SlotFound S b found) : SlotOk S b (.free found) :=
  fun view heq => h view (Slot.free.inj heq)

theorem SlotOk.refused : SlotOk S b .refused := fun _ h => by cases h

include hdrop

theorem drop_entry {t : ChainAccount} {height : UInt64} {f : Unit → StoreM Slot}
    {Q : Slot → ChainAccount → Prop} (h : EntriesOk S height (e :: l) t)
    (hnot : ¬ (t.objects.getD e.2 default).block.checkBlockFlag .committed)
    (hf : ∀ u, Spec (w.frame i) (EntriesOk S height l) (f u) Q) :
    Spec (w.frame i) (· = t) (do let u ← dropView height e.1 e.2; f u) Q := by
  refine .bind ((hdrop i height e.1 e.2).carry (stable_entriesOk height l) ?_) hf
  rintro s - rfl
  exact ⟨⟨(h e mem_cons_self).1, fun hboth => hnot hboth.2⟩, h.tail⟩

theorem slotForCommit_spec (hraise : Raisable S b) (l : List (UInt64 × Ptr))
    (hfound : SlotFound S b found) :
    Spec (w.frame i) (EntriesOk S b.height l) (slotForCommit b.height l found)
      (fun r _ => SlotOk S b r) := by
  induction l generalizing found with
  | nil => exact .pure fun _ _ _ => hfound.free
  | cons e l ih =>
    refine checkBlockFlag_bind e.2 .committed fun s hs h => .ite (fun hflag => ?_) fun hnot => ?_
    · exact .at h.tail (ih (.some fun hown => h.slotFor (w.base hs) hraise (.inr hflag) hown))
    · exact drop_entry hdrop h hnot fun _ => ih hfound

theorem slotForLock_spec (hraise : Raisable S b) (l : List (UInt64 × Ptr))
    (hfound : SlotFound S b found) :
    Spec (w.frame i) (EntriesOk S b.height l) (slotForLock b.height l found)
      (fun r _ => SlotOk S b r) := by
  induction l generalizing found with
  | nil => exact .pure fun _ _ _ => hfound.free
  | cons e l ih =>
    refine checkBlockFlag_bind e.2 .committed fun s _ h =>
      .ite (fun _ => .pure fun _ _ _ => .refused) fun hnot => ?_
    refine checkBlockFlag_bind e.2 .locked ?_
    rintro t ht rfl
    refine .ite (fun hflag => ?_) fun _ => ?_
    · exact .at h.tail (ih (.some fun hown => h.slotFor (w.base ht) hraise (.inl hflag) hown))
    · exact drop_entry hdrop h hnot fun _ => ih hfound

omit hdrop in
theorem slotForCert_spec (l : List (UInt64 × Ptr)) (hfound : SlotFound S b found) :
    Spec (w.frame i) (EntriesOk S b.height l) (slotForCert b.viewid l found)
      (fun r _ => SlotOk S b r) := by
  induction l generalizing found with
  | nil => exact .pure fun _ _ _ => hfound.free
  | cons e l ih =>
    refine object_bind e.2
      fun s hs h => .ite (fun _ => .pure fun _ _ _ => .refused) fun _ => .at h.tail ?_
    split
    · rename_i hview
      refine ih (.some fun hown => .inl ?_)
      obtain ⟨o, ho, hunder⟩ := (h e mem_cons_self).2 hown
      rw [getD_of_getElem? ho] at hview
      exact hunder.symm.trans hview
    · exact ih hfound

theorem findSlot_spec (hb : Backed S b) :
    Spec (w.frame i) (fun _ => True) (findSlot b) (fun r _ => SlotOk S b r) := by
  refine viewsAt_bind b.height fun s hs _ => ?_
  have hentries : EntriesOk S b.height (viewsOf s b.height).entries s := fun e he =>
    ⟨(w.base hs).viewsAt (mem_map_of_mem he),
      fun hown => w.keyed hown hs b.height e.1 e.2 (find?_eq_some_iff.mpr he)⟩
  refine .at hentries (.ite (fun hflag => ?_) fun _ => .ite (fun hflag => ?_) fun _ =>
    .ite (fun _ => ?_) fun _ => ?_)
  · exact slotForCommit_spec hdrop (hb.raisable (.inr (of_decide_eq_true hflag))) _ .none
  · exact slotForLock_spec hdrop (hb.raisable (.inl (of_decide_eq_true hflag))) _ .none
  · exact slotForCert_spec _ .none
  · exact .pure fun _ _ _ => SlotFound.none.free

end

section
variable (hsaves : w.Saves env) {fuel : Nat} (hload : w.LoadSpec (loadBlock env fuel))
  (hclose : ∀ p, Safe (w.frame i) (closeBlock p))
  (herase : ∀ height t, height ≠ 0 ∨ (viewsOf t height).values = [] →
    Spec (w.frame i) (· = t) (setBlocks (t.allBlocks.erase height)) (fun _ _ => True))

include hsaves hload hclose herase

theorem cleanBlocksFrom_safe (keep : Nat) (l : List UInt64) :
    Safe (w.frame i) (cleanBlocksFrom env fuel keep l) := by
  induction l with
  | nil => exact Safe.pure ()
  | cons height l ih =>
    refine Spec.get_bind fun s hs _ => Spec.ite (fun _ => (Safe.pure ()).spec) fun _ => ?_
    refine viewsAt_bind height ?_
    rintro t ht rfl
    cases hviews : (viewsOf t height).values with
    | nil => exact Spec.bind (herase height t (.inr hviews)) fun _ => ih.spec
    | cons p others =>
      have hR : Stable (w.frame i) (fun s => ∀ q ∈ p :: others, w.Ready i q s) :=
        fun s t hst h q hq => w.stable_ready (i := i) q s t hst (h q hq)
      have hready : ∀ q ∈ p :: others, w.Ready i q t := by
        intro q hq
        rw [← hviews] at hq
        exact ⟨((w.base ht).viewsAt hq).valid, hsaves.cached ht hq⟩
      refine Spec.ite (fun hold => ?_) fun _ => ih.spec
      refine Spec.at (P := fun s => ∀ q ∈ p :: others, w.Ready i q s) hready ?_
      refine Spec.bind (Spec.forM hR fun q hq => ?_) fun _ => Spec.get_bind fun s hs _ =>
        Spec.bind (herase height s (.inl hold.1)) fun _ => ih.spec
      refine Spec.seq hR (object_read q).weaken fun o => ?_
      refine Spec.ite (fun _ => ?_) fun _ => (hclose q).spec
      exact Spec.bind ((saveBlock_spec hsaves hload fuel False q).pre fun s _ h =>
        ⟨h q hq, False.elim⟩) fun _ => (hclose q).spec

theorem cleanBlocks_safe (keep : Nat) : Safe (w.frame i) (cleanBlocks env fuel keep) :=
  .get_bind fun _ => cleanBlocksFrom_safe hsaves hload hclose herase keep _

end

section
variable (hstores : w.Stores env) (hsaves : w.Saves env) {fuel : Nat}
  (hload : w.LoadSpec (loadBlock env fuel))

include hstores hsaves hload

theorem saveBlock_valid (c : Prop) (p : Ptr) :
    Spec (w.frame i) (fun s => Valid p s ∧ (c → w.owes p s))
      (saveBlock env (loadBlock env fuel) fuel p) (fun _ => w.done c p) :=
  (saveBlock_spec hsaves hload fuel c p).pre fun _ hs h => ⟨⟨h.1, hstores.free hs h.1⟩, h.2⟩

theorem saveBlock_leaves (c : Prop) (p : Ptr) :
    w.Moves (hstores.during c i p) i (fun s => Valid p s ∧ (c → w.owes p s))
      (saveBlock env (loadBlock env fuel) fuel p) (fun _ _ => True) := by
  intro s hs h
  obtain ⟨hinv, hrel, hdone⟩ := saveBlock_valid hstores hsaves hload c p s hs h
  exact ⟨hstores.leave hinv hdone, hrel, trivial⟩

omit hstores in
theorem isReplaceExistingBlock_spec {existing this : XvBlock}
    (hheight : existing.height = this.height) :
    Spec (w.frame i) (fun _ => True) (isReplaceExistingBlock env fuel existing this)
      (fun r _ => r = true → ∃ c, Backed S c ∧ .committed ∈ c.flags ∧ ChildOf c this) := by
  refine .ite (fun _ => .pure fun _ _ _ h => by cases h) fun _ => ?_
  refine .bind (loadBlockObject_spec hsaves hload _) fun r => ?_
  cases r with
  | none => exact .pure fun _ _ _ h => by cases h
  | some p =>
    refine object_bind p fun s hs h => .pure fun _ _ _ hr => ?_
    obtain ⟨⟨o, ho, hat⟩, -⟩ := h p rfl
    rw [getD_of_getElem? ho] at hr
    obtain ⟨hflag, hlast⟩ := of_decide_eq_true hr
    refine ⟨o.block, ((w.base hs).objects p o ho).1, of_decide_eq_true hflag, hlast.symm, ?_⟩
    rw [hat, hheight]

variable (hlinks : w.Links)

include hlinks

theorem replaceBlock_spec (view : UInt64) (existing this : Ptr)
    (hview : OwnViews S → view = b.viewid) :
    Spec (w.frame i) (Is this b) (replaceBlock env fuel view existing this) (fun _ _ => True) := by
  have hR : ∀ j, Stable (w.frame j) (Is this b) := fun j => w.stable (stable_is this b)
  -- what the object owes when it takes the slot
  have howing : ∀ c j, Stable (w.frame j) (fun s => Is this b s ∧ (c → w.owes this s)) :=
    fun c j => (hR j).and fun _ _ hst h hc => w.owes_mono hst (h hc)
  refine object_bind existing fun s hs h => ?_
  extract_lets save relink keepStored
  have hsave : ∀ c u, w.Moves (hstores.during c i this) i
      (fun s => Is this b s ∧ (c → w.owes this s)) (save u) (fun _ _ => True) :=
    fun c _ s hs h => saveBlock_leaves hstores hsaves hload c this s hs ⟨h.1.valid, h.2⟩
  have hrelink : ∀ u, Spec (w.frame i) (Is this b) (relink u) (fun _ _ => True) := by
    intro _
    refine object_bind this fun s hs h => ?_
    obtain ⟨o, ho, hsame⟩ := h
    rw [getD_of_getElem? ho]
    refine Spec.get_bind ?_
    rintro t ht rfl
    refine viewsAt_bind o.block.height ?_
    rintro s hs rfl
    have hput := (hstores.put i view this s o ho fun hown =>
      (hview hown).trans hsame.viewid.symm).keep (howing (w.owes this s) i) ⟨⟨o, ho, hsame⟩, id⟩
    have hclose : w.Moves (hstores.during (w.owes this s) i this)
        (hstores.during (w.owes this s) i this)
        (fun t => Is this b t ∧ (w.owes this s → w.owes this t)) (closeBlock existing)
        (fun _ t => Is this b t ∧ (w.owes this s → w.owes this t)) :=
      (hstores.close _ existing).spec.carry (howing _ _) fun _ _ h => ⟨trivial, h⟩
    refine (hput.bind fun _ => hclose.bind fun _ => Moves.get_bind fun t _ h =>
      Moves.at (P := fun t => Is this b t ∧ (w.owes this s → w.owes this t)) h ?_).spec
    cases t.allBlocks.after? o.block.height with
    | none => exact hsave _ ()
    | some e =>
      refine Moves.ite (fun _ => ?_) fun _ => hsave _ ()
      refine Moves.bind (Moves.of_spec (Spec.forM (howing _ _) fun q _ => ?_)) (hsave _)
      exact Spec.bind ((hlinks _ q this).pre fun _ _ h => h.1.valid) fun _ => (Safe.pure _).spec
  have hkeep : ∀ u, Spec (w.frame i) (Is this b) (keepStored u) (fun _ _ => True) := fun _ =>
    Spec.ite_seq (a := ()) (hR i) (fun _ => (hstores.keepStored i this).spec) hrelink
  cases hprev : (s.objects.getD existing default).prevBlock with
  | none => exact Spec.at h (Spec.seq (hR i) (hstores.unlink i this).spec hkeep)
  | some q =>
    refine Spec.at (P := fun s => Is this b s ∧ Valid q s)
      ⟨h, ((w.base hs).linked_getD hprev).valid_right⟩ ?_
    exact Spec.bind ((hlinks i this q).carry (hR i) fun _ _ h => ⟨h.2, h.1⟩) fun _ => hkeep ()

theorem storeInSlot_spec (view : UInt64) (existing this : Ptr) (hb : Backed S b)
    (hslot : OwnViews S → SlotFor S b view) :
    Spec (w.frame i) (fun s => Is this b s ∧ At existing b.height s ∧
        (OwnViews S → Under view existing s))
      (storeInSlot env fuel view existing this) (fun _ _ => True) := by
  have hreplace : (OwnViews S → view = b.viewid) → Spec (w.frame i) (Is this b)
      (do replaceBlock env fuel view existing this; return true) (fun _ _ => True) := fun hview =>
    Spec.bind (replaceBlock_spec hstores hsaves hload hlinks view existing this hview) fun _ =>
      (Safe.pure _).spec
  refine Spec.ite (fun _ => ?_) fun _ => ?_
  · refine Spec.pre (P := Valid this) ?_ fun _ _ h => h.1.valid
    refine Spec.seq (w.stable_valid this) (object_read this).weaken fun o => ?_
    refine Spec.ite (fun _ => (Safe.pure _).spec) fun _ => ?_
    exact Spec.bind ((saveBlock_valid hstores hsaves hload False this).pre fun _ _ h =>
      ⟨h, False.elim⟩) fun _ => (Safe.pure _).spec
  refine object_bind existing fun s hs hpre => ?_
  refine object_bind this ?_
  rintro t ht rfl
  obtain ⟨⟨o, ho, hsame⟩, ⟨x, hx, hheight⟩, hunder⟩ := hpre
  rw [getD_of_getElem? ho, getD_of_getElem? hx]
  refine Spec.at (P := Is this b) ⟨o, ho, hsame⟩ ?_
  refine Spec.ite (fun _ => ?_) fun hhash => Spec.ite (fun _ => (Safe.pure _).spec) fun _ =>
    hreplace fun hown => ?_
  · refine Spec.bind (((isReplaceExistingBlock_spec hsaves hload
      (hheight.trans hsame.height.symm)).frame (w.stable (stable_is this b))).pre
        fun _ _ h => ⟨trivial, h⟩) fun r => Spec.ite (fun hr => ?_) fun _ => (Safe.pure _).spec
    intro t ht hpost
    obtain ⟨c, hc, hflag, hchild⟩ := hpost.1 hr
    refine hreplace (fun hown => ?_) t ht hpost.2
    exact hown.of_child hb (hslot hown) hc hflag (hchild.congr (.refl c) hsame)
  · -- the same block in another state
    obtain ⟨x', hx', hview⟩ := hunder hown
    obtain rfl := Option.mem_unique hx hx'
    rw [← hview]
    refine hown.of_blockHash hb ((w.base ht).objects existing x hx).1 hheight ?_
    rw [not_ne_iff.mp hhash, hsame.blockHash]

variable (hraises : w.Raises env (loadBlock env fuel) fuel)

include hraises

theorem storeNew_spec (this : Ptr) :
    Spec (w.frame i) (Valid this) (storeNew env fuel this) (fun _ _ => True) := by
  refine object_bind this fun s hs h => ?_
  obtain ⟨o, ho⟩ := h
  rw [getD_of_getElem? ho]
  refine viewsAt_bind o.block.height ?_
  rintro t ht rfl
  extract_lets clean
  have hclean : ∀ u, Safe (w.frame i) (clean u) := fun _ =>
    Safe.bind (cleanBlocks_safe hsaves hload (hstores.close i) (hstores.erase i) _)
      fun _ => Safe.pure _
  cases (viewsOf t o.block.height).find? o.block.viewid with
  | some _ => exact (Safe.pure _).spec
  | none =>
    refine Spec.get_bind ?_
    rintro s hs rfl
    -- what the object owes when it takes the slot
    let R : ChainAccount → Prop := fun t => Valid this t ∧ (w.owes this s → w.owes this t)
    have hR : ∀ j, Stable (w.frame j) R := fun j =>
      (w.stable_valid this).and fun _ _ hst h howes => w.owes_mono hst (h howes)
    let j : ι := hstores.during (w.owes this s) i this
    have hput : w.Moves i j (· = s) _ (fun _ => R) :=
      (hstores.put i o.block.viewid this s o ho fun _ => rfl).keep (hR i) ⟨⟨o, ho⟩, id⟩
    have htouched : Stable (w.frame j) (fun s => hstores.touched this s ∧ R s) :=
      Stable.and (fun _ _ hst h => hstores.touched_mono hst h) (hR _)
    have htouch := (hstores.touch j this).frame (hR j)
    have hconnect := connectBlock_spec (i := j) hload hlinks hraises this 1
    refine (hput.bind fun _ => Moves.bind (Moves.of_spec
        (htouch.pre fun _ _ h => ⟨h.1, h⟩)) fun _ =>
      Moves.bind (Moves.of_spec (hconnect.carry htouched fun _ _ h => ⟨h.2.1, h⟩)) fun _ =>
      Moves.read_bind (fun s : ChainAccount => s.objects.getD this default) (fun _ => rfl)
        fun t ht h => Moves.ite (fun _ => ?_) fun hzero => ?_).spec
    · exact Moves.at h.2 (Moves.bind (saveBlock_leaves hstores hsaves hload _ this)
          fun _ => hclean ())
    · -- nothing is left to be saved
      rintro _ - rfl
      exact hclean () _ (hstores.leave ht (hstores.settled ht h.1
        (not_ne_iff.mp hzero) h.2.2)) trivial

theorem storeBlock_spec (this : Ptr) :
    Spec (w.frame i) (Valid this) (storeBlock env fuel this) (fun _ _ => True) := by
  refine object_bind this fun s hs h => ?_
  obtain ⟨o, ho⟩ := h
  rw [getD_of_getElem? ho]
  have hb : Backed S o.block := ((w.base hs).objects this o ho).1
  have hR : Stable (w.frame i) (Is this o.block) := w.stable (stable_is this o.block)
  refine Spec.at (P := Is this o.block) ⟨o, ho, .refl _⟩
    (Spec.ite (fun _ => (Safe.pure _).spec) fun _ => ?_)
  refine viewsAt_bind o.block.height fun s hs h => ?_
  extract_lets slot
  have hslot : ∀ u, Spec (w.frame i) (Is this o.block) (slot u) (fun _ _ => True) := by
    intro _
    refine Spec.bind (((findSlot_spec hstores.drop hb).frame hR).pre fun _ _ h => ⟨trivial, h⟩)
      fun r => ?_
    rcases r with _ | (_ | view)
    · exact (Safe.pure _).spec
    · exact (storeNew_spec hstores hsaves hload hlinks hraises this).pre fun _ _ h => h.2.valid
    · refine viewsAt_bind o.block.height fun s hs h => ?_
      cases hfind : (viewsOf s o.block.height).find? view with
      | none => exact (Safe.pure _).spec
      | some existing =>
        refine Spec.at ⟨h.2, ?_, ?_⟩ (storeInSlot_spec hstores hsaves hload hlinks
          view existing this
          hb (h.1 view rfl))
        · exact (w.base hs).viewsAt (mem_values_of_find? hfind)
        · exact fun hown => w.keyed hown hs _ view existing hfind
  refine Spec.ite (fun hempty => ?_) fun _ => Spec.at h (hslot ())
  refine Spec.get_bind ?_
  rintro t ht rfl
  refine Spec.bind ((hstores.blank i o.block.height t (isEmpty_iff.mp hempty)).carry hR ?_)
    fun _ => Spec.get_bind fun s _ h => Spec.at h ?_
  · rintro t - rfl
    exact ⟨rfl, h⟩
  · refine Spec.ite (fun _ => ?_) fun _ => hslot ()
    exact Spec.seq hR (hload i _ _).safe.spec fun _ => hslot ()

end
end Walk
end ChainAccount
end TopChain.Store
