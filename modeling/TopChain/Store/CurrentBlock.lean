import TopChain.Store.CacheQueries

/-!
# The current block and the connected chain

`get_latest_current_block` is what a proposer builds on.
-/
namespace TopChain.Store.ChainAccount

open List TopChain.Base TopChain.Lib TopChain.Lib.Guarantee Word SortedMap

def blockOf (s : ChainAccount) (p : Ptr) : XvBlock := (s.objects.getD p default).block

/-- A cached block is linked to the connected one by the hashes of its parents. -/
inductive LinkedToConnected (s : ChainAccount) : Ptr → Prop where
  | connected {p : Ptr} (hp : p ∈ (viewsOf s s.acctMeta.highestConnectBlockHeight).values)
      (hhash : (blockOf s p).blockHash = s.acctMeta.highestConnectBlockHash) :
      LinkedToConnected s p
  | child {p q : Ptr} {height : UInt64} (hp : p ∈ (viewsOf s height).values)
      (hparent : ChildOf (blockOf s p) (blockOf s q))
      (hq : LinkedToConnected s q) : LinkedToConnected s p

/-- The blocks from the connected height on that the database has are cached, and so is the
connected block. The cache keeps blocks under their heights, and none is higher than the highest
certificate, as in every state that is reached. -/
structure Warm (env : StoreEnv) (s : ChainAccount) : Prop where
  keyed : ∀ e ∈ s.allBlocks.entries, ∀ p ∈ e.2.values,
    (blockOf s p).height = e.1
  room : ∀ e ∈ s.allBlocks.entries, ∀ p ∈ e.2.values, e.1.toNat + 3 < 2 ^ 64
  certs : ∀ e ∈ s.allBlocks.entries, ∀ p ∈ e.2.values, e.1 ≤ s.acctMeta.highestCertBlockHeight
  connected : ∃ p ∈ (viewsOf s s.acctMeta.highestConnectBlockHeight).values,
    (blockOf s p).blockHash = s.acctMeta.highestConnectBlockHash ∧
      (blockOf s p).checkBlockFlag .authenticated
  loaded : ∀ e ∈ s.vblocks.entries, s.acctMeta.highestConnectBlockHeight ≤ e.1 →
    (viewsOf s e.1).find? e.2.viewid ≠ none
  genesis : s.acctMeta.highestConnectBlockHeight = 0 →
    (viewsOf s 0).find? env.genesisBlock.viewid ≠ none

/-- The comparisons of hashes that link a block of the next two heights, or of the connected one. -/
def Joins (s : ChainAccount) (b : XvBlock) : Prop :=
  (b.height = s.acctMeta.highestConnectBlockHeight ∧
    b.blockHash = s.acctMeta.highestConnectBlockHash) ∨
  (b.height = s.acctMeta.highestConnectBlockHeight + 1 ∧
    b.lastBlockHash = s.acctMeta.highestConnectBlockHash) ∨
  (b.height = s.acctMeta.highestConnectBlockHeight + 2 ∧
    ∃ q ∈ (viewsOf s (s.acctMeta.highestConnectBlockHeight + 1)).values,
      (blockOf s q).blockHash = b.lastBlockHash ∧
        (blockOf s q).lastBlockHash = s.acctMeta.highestConnectBlockHash)

variable {env : StoreEnv} {s : ChainAccount} {n : Nat}

variable {height : UInt64}

theorem mem_entries_of_viewsOf {p : Ptr} (hp : p ∈ (viewsOf s height).values) :
    (height, viewsOf s height) ∈ s.allBlocks.entries := by
  unfold viewsOf at hp ⊢
  cases hviews : s.allBlocks.find? height with
  | none =>
    rw [hviews] at hp
    exact absurd hp (not_mem_values_empty p)
  | some views => exact find?_eq_some_iff.mp hviews

theorem LinkedToConnected.mem {p : Ptr} (h : LinkedToConnected s p) :
    ∃ height, p ∈ (viewsOf s height).values := by
  cases h with
  | connected hp _ => exact ⟨_, hp⟩
  | child hp _ _ => exact ⟨_, hp⟩

namespace Warm

variable (h : Warm env s)

include h

theorem height_eq {p : Ptr} (hp : p ∈ (viewsOf s height).values) : (blockOf s p).height = height :=
  h.keyed _ (mem_entries_of_viewsOf hp) p hp

theorem connect_room : s.acctMeta.highestConnectBlockHeight.toNat + 3 < 2 ^ 64 := by
  obtain ⟨p, hp, -⟩ := h.connected
  exact h.room _ (mem_entries_of_viewsOf hp) p hp

/-! ## Links and comparisons -/

/-- A parent is one lower, since no cached height is near the end of the word. -/
theorem child_height {p q : Ptr} (hq : LinkedToConnected s q)
    (hparent : ChildOf (blockOf s p) (blockOf s q)) :
    (blockOf s p).height.toNat =
      (blockOf s q).height.toNat + 1 := by
  obtain ⟨k, hk⟩ := hq.mem
  have hroom : k.toNat + 3 < 2 ^ 64 := h.room _ (mem_entries_of_viewsOf hk) q hk
  rw [← hparent.2, toNat_add_one, h.height_eq hk]
  exact Nat.mod_eq_of_lt (by omega)

theorem connect_le {p : Ptr} (hp : LinkedToConnected s p) :
    s.acctMeta.highestConnectBlockHeight.toNat ≤
      (blockOf s p).height.toNat := by
  induction hp with
  | connected hp _ => rw [h.height_eq hp]
  | child hp hparent hq ih =>
    rw [h.child_height hq hparent]
    exact ih.trans (Nat.le_succ _)

theorem hash_of_linked {p : Ptr} (hp : LinkedToConnected s p)
    (hheight : (blockOf s p).height.toNat =
      s.acctMeta.highestConnectBlockHeight.toNat) :
    (blockOf s p).blockHash = s.acctMeta.highestConnectBlockHash := by
  cases hp with
  | connected _ hhash => exact hhash
  | child hp hparent hq =>
    have hle := h.connect_le hq
    rw [h.child_height hq hparent] at hheight
    omega

theorem lastHash_of_linked {p : Ptr} (hp : LinkedToConnected s p)
    (hheight : (blockOf s p).height.toNat =
      s.acctMeta.highestConnectBlockHeight.toNat + 1) :
    (blockOf s p).lastBlockHash = s.acctMeta.highestConnectBlockHash := by
  cases hp with
  | connected hp _ =>
    rw [h.height_eq hp] at hheight
    omega
  | child hp hparent hq =>
    rw [h.child_height hq hparent] at hheight
    rw [← hparent.1]
    exact h.hash_of_linked hq (by omega)

theorem joins_of_linked {p : Ptr} (hp : LinkedToConnected s p)
    (hheight : (blockOf s p).height.toNat ≤
      s.acctMeta.highestConnectBlockHeight.toNat + 2) :
    Joins s (blockOf s p) := by
  have hroom := h.connect_room
  have hle := h.connect_le hp
  have hone : (s.acctMeta.highestConnectBlockHeight + 1).toNat =
      s.acctMeta.highestConnectBlockHeight.toNat + 1 := by
    rw [toNat_add_one]
    omega
  have htwo : (s.acctMeta.highestConnectBlockHeight + 2).toNat =
      s.acctMeta.highestConnectBlockHeight.toNat + 2 := by
    rw [toNat_add_two]
    omega
  by_cases h0 : (blockOf s p).height.toNat =
      s.acctMeta.highestConnectBlockHeight.toNat
  · exact .inl ⟨eq_nat.mpr h0, h.hash_of_linked hp h0⟩
  by_cases h1 : (blockOf s p).height.toNat =
      s.acctMeta.highestConnectBlockHeight.toNat + 1
  · exact .inr (.inl ⟨eq_nat.mpr (h1.trans hone.symm), h.lastHash_of_linked hp h1⟩)
  have h2 : (blockOf s p).height.toNat =
      s.acctMeta.highestConnectBlockHeight.toNat + 2 := by omega
  refine .inr (.inr ⟨eq_nat.mpr (h2.trans htwo.symm), ?_⟩)
  cases hp with
  | connected hp _ =>
    rw [h.height_eq hp] at h0
    exact absurd rfl h0
  | @child _ q _ hp hparent hq =>
    have hchild := h.child_height hq hparent
    obtain ⟨k, hk⟩ := hq.mem
    obtain rfl : s.acctMeta.highestConnectBlockHeight + 1 = k := by
      rw [eq_nat, hone, ← h.height_eq hk]
      omega
    exact ⟨q, hk, hparent.1, h.lastHash_of_linked hq (by omega)⟩

theorem linked_of_joins {p : Ptr} (hp : p ∈ (viewsOf s height).values)
    (hjoins : Joins s (blockOf s p)) : LinkedToConnected s p := by
  obtain ⟨c, hc, hhash, -⟩ := h.connected
  rcases hjoins with ⟨hheight, heq⟩ | ⟨hheight, hlast⟩ | ⟨hheight, q, hq, hparent, hlast⟩
  · obtain rfl := (h.height_eq hp).symm.trans hheight
    exact .connected hp heq
  · exact .child hp ⟨hhash.trans hlast.symm, by rw [h.height_eq hc, hheight]⟩ (.connected hc hhash)
  · refine .child hp ⟨hparent, by rw [h.height_eq hq, hheight, UInt64.add_assoc]; rfl⟩ ?_
    refine .child hq ⟨hhash.trans hlast.symm, ?_⟩ (.connected hc hhash)
    rw [h.height_eq hc, h.height_eq hq]

theorem linked_iff_joins {p : Ptr} (hp : p ∈ (viewsOf s height).values)
    (hheight : height.toNat ≤ s.acctMeta.highestConnectBlockHeight.toNat + 2) :
    LinkedToConnected s p ↔ Joins s (blockOf s p) :=
  ⟨fun hlinked => h.joins_of_linked hlinked (by rwa [h.height_eq hp]), h.linked_of_joins hp⟩

end Warm

/-! ## The blocks the query looks at -/

/-- The block that `query_block` finds at a height of the cache: the last view that is certified,
or else the last one that is locked. -/
def topAt (s : ChainAccount) (height : UInt64) : Option Ptr :=
  match firstFlagged s .authenticated (viewsOf s height).values.reverse with
  | some p => some p
  | none => firstFlagged s .locked (viewsOf s height).values.reverse

theorem mem_of_firstFlagged {f : BlockFlag} {l : List Ptr} {p : Ptr}
    (h : firstFlagged s f l = some p) : p ∈ l :=
  mem_of_find?_eq_some h

theorem mem_of_topAt {p : Ptr} (h : topAt s height = some p) : p ∈ (viewsOf s height).values := by
  unfold topAt at h
  split at h
  · next hfirst => exact mem_reverse.mp (mem_of_firstFlagged (h ▸ hfirst))
  · exact mem_reverse.mp (mem_of_firstFlagged h)

theorem Warm.cached_of_dbBlock (h : Warm env s) {b : XvBlock}
    (hle : s.acctMeta.highestConnectBlockHeight ≤ height) (hb : dbBlock env s height = some b) :
    (viewsOf s height).find? b.viewid ≠ none := by
  rcases dbBlock_cases hb with hfind | ⟨rfl, rfl⟩
  · exact h.loaded (height, b) (find?_eq_some_iff.mp hfind) hle
  · refine h.genesis ?_
    rw [eq_nat]
    exact Nat.le_zero.mp hle

theorem Warm.blockAbove_run (h : Warm env s)
    (hle : s.acctMeta.highestConnectBlockHeight ≤ height) :
    blockAbove env (n + 1) height s = (topAt s height, s) := by
  have hload : loadBlock env (n + 1) height 1 s = (none, s) :=
    Walk.loadBlock_none n height 1 fun b hb _ => h.cached_of_dbBlock hle hb
  have hquery : ∀ f, queryBlock height f s =
      (firstFlagged s f (viewsOf s height).values.reverse, s) := fun f => firstWith_eq f _ s
  rw [blockAbove, Walk.bind_run, hquery, topAt]
  cases firstFlagged s .authenticated (viewsOf s height).values.reverse with
  | some p => rfl
  | none =>
    dsimp only
    rw [loadBlockObject, Walk.bind_run, hquery]
    cases firstFlagged s .locked (viewsOf s height).values.reverse with
    | some p => rfl
    | none => exact hload

theorem firstFlagged_fromTop {f : BlockFlag} {c : Ptr} (hc : c ∈ (viewsOf s height).values)
    (hflag : (s.objects.getD c default).block.checkBlockFlag f) :
    ∃ p height', firstFlagged s f (fromTop s) = some p ∧ height ≤ height' ∧
      p ∈ (viewsOf s height').values := by
  obtain ⟨below, above, hsplit⟩ := append_of_mem (mem_entries_of_viewsOf hc)
  have hsorted := s.allBlocks.sorted
  rw [hsplit, pairwise_append, pairwise_cons] at hsorted
  obtain ⟨-, ⟨habove, -⟩, -⟩ := hsorted
  have hview : ∀ e ∈ above, ∀ p ∈ e.2.values, p ∈ (viewsOf s e.1).values := by
    intro e he p hp
    have hmem : e ∈ s.allBlocks.entries := by
      rw [hsplit]
      exact mem_append_right _ (mem_cons_of_mem _ he)
    unfold viewsOf
    rw [find?_eq_some_iff.mpr hmem]
    exact hp
  have hfromTop : fromTop s = (above.map fun e => e.2.values).flatten.reverse ++
      ((viewsOf s height).values.reverse ++ (below.map fun e => e.2.values).flatten.reverse) := by
    unfold fromTop SortedMap.values
    rw [hsplit]
    simp [Function.comp_def]
  unfold firstFlagged
  rw [hfromTop, find?_append]
  cases hfind : ((above.map fun e => e.2.values).flatten.reverse).find? fun p =>
      (s.objects.getD p default).block.checkBlockFlag f with
  | some p =>
    obtain ⟨l, hl, hp⟩ := mem_flatten.mp (mem_reverse.mp (mem_of_find?_eq_some hfind))
    obtain ⟨e, he, rfl⟩ := mem_map.mp hl
    exact ⟨p, e.1, rfl, le_of_lt (habove e he), hview e he p hp⟩
  | none =>
    rw [find?_append]
    cases hfind' : ((viewsOf s height).values.reverse).find? fun p =>
        (s.objects.getD p default).block.checkBlockFlag f with
    | some p => exact ⟨p, height, rfl, le_refl height, mem_reverse.mp (mem_of_find?_eq_some hfind')⟩
    | none => exact absurd hflag (find?_eq_none.mp hfind' c (mem_reverse.mpr hc))

/-- The heights at which the latest certificate is returned without a look at the blocks. -/
def Usual (m : AcctMeta) : Prop :=
  m.highestCertBlockHeight ≤ 1 ∨
    (m.highestCommitBlockHeight = m.highestConnectBlockHeight ∧
      m.highestLockBlockHeight = m.highestCommitBlockHeight + 1 ∧
      m.highestCertBlockHeight = m.highestLockBlockHeight + 1)

/-- A committed block that does not follow `b` speaks against it. -/
def Outvoted (b above : XvBlock) : Prop :=
  b.blockHash ≠ above.lastBlockHash ∧ above.checkBlockFlag .committed

instance decidableOutvoted (b above : XvBlock) : Decidable (Outvoted b above) :=
  inferInstanceAs (Decidable (_ ∧ _))

/-- What the query leaves to chance. At the usual heights the latest certificate joins the connected
block; elsewhere the block one or two above it does, whichever is not contradicted from above, or
else the one found at the connected height. -/
@[mk_iff]
structure Follows (s : ChainAccount) : Prop where
  latest : Usual s.acctMeta → ∀ p ∈ firstFlagged s .authenticated (fromTop s),
    Joins s (blockOf s p)
  connect : ¬ Usual s.acctMeta → ∀ c ∈ topAt s s.acctMeta.highestConnectBlockHeight,
    (∀ p ∈ topAt s (s.acctMeta.highestConnectBlockHeight + 1),
      (blockOf s p).checkBlockFlag .locked ∧
        ∃ q ∈ topAt s (s.acctMeta.highestConnectBlockHeight + 2),
          diverged (blockOf s p) (blockOf s q)) →
    Joins s (blockOf s c)
  next : ¬ Usual s.acctMeta → ∀ p ∈ topAt s (s.acctMeta.highestConnectBlockHeight + 1),
    ((blockOf s p).checkBlockFlag .locked →
      ∀ q ∈ topAt s (s.acctMeta.highestConnectBlockHeight + 2),
        ¬ diverged (blockOf s p) (blockOf s q) ∧
          ∃ r ∈ topAt s (s.acctMeta.highestConnectBlockHeight + 3),
            Outvoted (blockOf s q) (blockOf s r)) →
    Joins s (blockOf s p)
  nextNext : ¬ Usual s.acctMeta → ∀ p ∈ topAt s (s.acctMeta.highestConnectBlockHeight + 1),
    (blockOf s p).checkBlockFlag .locked →
    ∀ q ∈ topAt s (s.acctMeta.highestConnectBlockHeight + 2),
      ¬ diverged (blockOf s p) (blockOf s q) →
      (∀ r ∈ topAt s (s.acctMeta.highestConnectBlockHeight + 3),
        ¬ Outvoted (blockOf s q) (blockOf s r)) →
      Joins s (blockOf s q)

instance decidableUsual (m : AcctMeta) : Decidable (Usual m) :=
  inferInstanceAs (Decidable (_ ∨ _))

instance decidableJoins (s : ChainAccount) (b : XvBlock) : Decidable (Joins s b) :=
  inferInstanceAs (Decidable (_ ∨ _))

instance decidableFollows (s : ChainAccount) : Decidable (Follows s) :=
  decidable_of_iff _ (follows_iff s).symm

theorem Warm.usual (h : Warm env s) (husual : Usual s.acctMeta) : ∃ p height,
    getLatestCurrentBlock env (n + 1) s = (p, s) ∧
      firstFlagged s .authenticated (fromTop s) = some p ∧ p ∈ (viewsOf s height).values ∧
      height.toNat ≤ s.acctMeta.highestConnectBlockHeight.toNat + 2 := by
  obtain ⟨c, hc, -, hflag⟩ := h.connected
  obtain ⟨p, height, hfirst, hle, hp⟩ := firstFlagged_fromTop hc hflag
  have hquery : queryLatestBlock .authenticated s = (some p, s) := by
    have hrun : queryLatestBlock .authenticated s = firstWith .authenticated (fromTop s) s := rfl
    rw [hrun, firstWith_eq, hfirst]
  have hroom := h.connect_room
  have hcert := le_nat.mp (h.certs _ (mem_entries_of_viewsOf hp) p hp)
  refine ⟨p, height, ?_, hfirst, hp, ?_⟩
  · unfold Usual at husual
    rw [getLatestCurrentBlock, Walk.get_bind_run, if_pos husual, getLatestCertBlock, Walk.bind_run,
      hquery]
    rfl
  · rcases husual with hone | ⟨hcommit, hlock, hheight⟩
    · have hone' := le_nat.mp hone
      change _ ≤ 1 at hone'
      change height.toNat ≤ _ at hcert
      omega
    · rw [hheight, hlock, hcommit, toNat_add_one, toNat_add_one] at hcert
      change height.toNat ≤ _ at hcert
      omega

theorem Warm.exists_topAt (h : Warm env s) :
    ∃ c, topAt s s.acctMeta.highestConnectBlockHeight = some c := by
  obtain ⟨p, hp, -, hflag⟩ := h.connected
  cases hfirst : firstFlagged s .authenticated
      (viewsOf s s.acctMeta.highestConnectBlockHeight).values.reverse with
  | none => exact absurd hflag (find?_eq_none.mp hfirst p (mem_reverse.mpr hp))
  | some c => exact ⟨c, by rw [topAt, hfirst]⟩

theorem Warm.connect_le_add (h : Warm env s) {n : UInt64} (hn : n.toNat ≤ 3) :
    s.acctMeta.highestConnectBlockHeight ≤ s.acctMeta.highestConnectBlockHeight + n := by
  have hroom := h.connect_room
  rw [le_nat, UInt64.toNat_add, Nat.mod_eq_of_lt (by omega)]
  exact Nat.le_add_right _ _

/-- Elsewhere the query goes up from the connected block, one height after the other. -/
theorem Warm.getLatestCurrentBlock_run (h : Warm env s) (husual : ¬ Usual s.acctMeta) {c : Ptr}
    (hc : topAt s s.acctMeta.highestConnectBlockHeight = some c) :
    getLatestCurrentBlock env (n + 1) s =
      ((match topAt s (s.acctMeta.highestConnectBlockHeight + 1) with
        | none => c
        | some p =>
          if (!(blockOf s p).checkBlockFlag .locked) = true then p
          else match topAt s (s.acctMeta.highestConnectBlockHeight + 2) with
            | none => p
            | some q =>
              if diverged (blockOf s p) (blockOf s q) = true then c
              else match topAt s (s.acctMeta.highestConnectBlockHeight + 3) with
                | none => q
                | some r => if Outvoted (blockOf s q) (blockOf s r) then p else q), s) := by
  unfold Usual at husual
  rw [getLatestCurrentBlock, Walk.get_bind_run, if_neg husual]
  dsimp only
  rw [Walk.bind_run, h.blockAbove_run (le_refl _), hc]
  dsimp only
  rw [Walk.bind_run, h.blockAbove_run (h.connect_le_add (by decide))]
  cases topAt s (s.acctMeta.highestConnectBlockHeight + 1) with
  | none => rfl
  | some p =>
    have hlocked : checkBlockFlag p .locked s = ((blockOf s p).checkBlockFlag .locked, s) := rfl
    dsimp only
    rw [Walk.bind_run, hlocked]
    split
    · rfl
    rw [Walk.bind_run, h.blockAbove_run (h.connect_le_add (by decide))]
    cases topAt s (s.acctMeta.highestConnectBlockHeight + 2) with
    | none => rfl
    | some q =>
      have hread : ∀ x, object x s = (s.objects.getD x default, s) := fun _ => rfl
      dsimp only
      rw [Walk.bind_run, hread, Walk.bind_run, hread]
      by_cases hdiverged : diverged (blockOf s p) (blockOf s q) = true
      · rw [if_pos hdiverged]
        exact congrFun (if_pos hdiverged) s
      rw [if_neg hdiverged]
      refine (congrFun (if_neg hdiverged) s).trans ?_
      rw [Walk.bind_run, h.blockAbove_run (h.connect_le_add (by decide))]
      cases topAt s (s.acctMeta.highestConnectBlockHeight + 3) with
      | none => rfl
      | some r =>
        dsimp only
        rw [Walk.bind_run, hread]
        dsimp only
        rw [Walk.bind_run, hread]
        by_cases hout : Outvoted (blockOf s q) (blockOf s r)
        · rw [if_pos hout]
          exact congrFun (if_pos hout) s
        · rw [if_neg hout]
          exact congrFun (if_neg hout) s

/-- A chain with two views at height 5, and a certificate of height 7 whose parent is missing. -/
def sampleForks : List XvBlock :=
  sampleChain.take 4 ++ [sampleBlock 4 8 "d" "g" {.authenticated},
    sampleBlock 5 9 "e" "h" {.authenticated}] ++ sampleChain.drop 4 ++
    [sampleBlock 7 11 "x" "y" {.authenticated}]

theorem LinkedToConnected.mem_entries {p : Ptr} (h : LinkedToConnected s p) :
    ∃ e ∈ s.allBlocks.entries, p ∈ e.2.values := by
  obtain ⟨height, hp⟩ := h.mem
  exact ⟨_, mem_entries_of_viewsOf hp, hp⟩

def sampleOrphans : List XvBlock :=
  [sampleBlock 1 1 "x" "b" {.authenticated}, sampleBlock 2 2 "y" "c" {.authenticated}]

end TopChain.Store.ChainAccount
