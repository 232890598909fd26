import TopChain.Election.GroupResult
import TopChain.Lib.Lru
import TopChain.Lib.Run
import TopChain.Lib.SortedMap

/-!
# The house of elected groups (`xelection/src/xvnode_house.cpp`)

Certificates are checked against the groups this cache answers with.
-/
namespace TopChain.Election

open Option List TopChain.Base TopChain.Lib TopChain.Sign

structure ElectionBlock where
  properties : List (String × List GroupResult)
deriving DecidableEq

def ElectionBlock.property (b : ElectionBlock) (name : String) : List GroupResult :=
  (firstOf b.properties name).getD []

inductive BlockStatus where
  | certified | locked | committed
deriving DecidableEq, Repr

structure StoredBlock where
  status : BlockStatus
  block : ElectionBlock
deriving DecidableEq

/-- The election blocks in memory, lowest view first, and the one in the database. -/
structure ElectionStore where
  blocks : String → UInt64 → List StoredBlock
  db : String → UInt64 → Option ElectionBlock

variable {b : ElectionBlock}

namespace ElectionStore
variable (s : ElectionStore) (account : String) (height : UInt64)

def loadBlockObject : Option ElectionBlock :=
  match (s.blocks account height).reverse.find? (fun b => b.status ≠ .certified) with
  | some b => some b.block
  | none => s.db account height

/-- The store has the committed block, in its cache or on disk. -/
def Holds (b : ElectionBlock) : Prop :=
  ⟨.committed, b⟩ ∈ s.blocks account height ∨ s.db account height = some b

theorem loadBlockObject_of_holds (h : s.Holds account height b) :
    ∃ b', s.loadBlockObject account height = some b' := by
  unfold loadBlockObject
  split
  · exact ⟨_, rfl⟩
  next hnone =>
  rcases h with h | h
  · rw [List.find?_eq_none] at hnone
    exact absurd (hnone _ (mem_reverse.mpr h)) (by simp)
  · exact ⟨b, h⟩

end ElectionStore

section
variable (auditorGroupCount : ℕ) (contract : String) (networkId : UInt32) (height : UInt64)

def groupMap (rs : List GroupResult) : List XvNodeGroup :=
  ((listed networkId height rs).foldl
    (fun (m : SortedMap (UInt64 ×ₗ UInt64) XvNodeGroup) g =>
      m.insert (toLex (g.address.high, g.address.low)) g) SortedMap.empty).values

def groupEntries (b : ElectionBlock) : List (UInt64 × XvNodeGroup) :=
  (propertyNames auditorGroupCount contract).flatMap fun name =>
    (groupMap networkId height (b.property name)).map fun g => (getGroupKey g.address, g)

def listing (b : ElectionBlock) : List XvNodeGroup :=
  (propertyNames auditorGroupCount contract).flatMap fun name =>
    listed networkId height (b.property name)

structure WellFormed (b : ElectionBlock) : Prop where
  own : ∀ g ∈ listing auditorGroupCount contract networkId height b,
    getElectAddress g.address = contract
  once : ∀ g ∈ listing auditorGroupCount contract networkId height b,
    ∀ g' ∈ listing auditorGroupCount contract networkId height b,
      SameGroup g.address g'.address → g = g'

variable {auditorGroupCount contract networkId height} {b : ElectionBlock} {g : XvNodeGroup}

theorem mem_listing (h : g ∈ listing auditorGroupCount contract networkId height b) :
    g.address.networkId.toNat = networkId.toNat % 2 ^ 21 ∧
      g.address.networkHeight.toNat = height.toNat % 2 ^ 54 := by
  obtain ⟨name, -, h⟩ := mem_flatMap.mp h
  exact mem_listed h

theorem mem_listing_of_mem_groupEntries {k : UInt64}
    (h : (k, g) ∈ groupEntries auditorGroupCount contract networkId height b) :
    k = getGroupKey g.address ∧ g ∈ listing auditorGroupCount contract networkId height b := by
  obtain ⟨name, hname, h⟩ := mem_flatMap.mp h
  obtain ⟨g', hg', heq⟩ := mem_map.mp h
  obtain ⟨rfl, rfl⟩ := Prod.mk.inj heq
  refine ⟨rfl, mem_flatMap.mpr ⟨name, hname, ?_⟩⟩
  rcases SortedMap.mem_of_mem_values_foldl_insert hg' with h | h
  · exact h
  · simp at h

section
variable (hwf : WellFormed auditorGroupCount contract networkId height b)
include hwf

theorem mem_groupEntries_of_mem_listing
    (h : g ∈ listing auditorGroupCount contract networkId height b) :
    (getGroupKey g.address, g) ∈ groupEntries auditorGroupCount contract networkId height b := by
  obtain ⟨name, hname, hg⟩ := mem_flatMap.mp h
  refine mem_flatMap.mpr ⟨name, hname, mem_map.mpr ⟨g, ?_, rfl⟩⟩
  refine SortedMap.mem_values_foldl_insert (.inl hg) fun g' hg' hkey => ?_
  obtain ⟨hhigh, hlow⟩ := Prod.mk.inj (toLex.injective hkey)
  have haddr : g'.address = g.address := by
    cases hga : g'.address
    cases hgb : g.address
    simp_all
  refine hwf.once g' (mem_flatMap.mpr ⟨name, hname, hg'⟩) g h ?_
  rw [haddr]
  exact ⟨rfl, rfl, rfl⟩

theorem card_keys_le :
    ((groupEntries auditorGroupCount contract networkId height b).map Prod.fst).toFinset.card
      ≤ 256 := by
  by_cases hcontract : contract = ""
  · have hnone : groupEntries auditorGroupCount contract networkId height b = [] := by
      rw [hcontract]
      rfl
    rw [hnone]
    decide
  have hmem : ∀ k ∈ ((groupEntries auditorGroupCount contract networkId height b).map
      Prod.fst).toFinset, ∃ g ∈ listing auditorGroupCount contract networkId height b,
      k = getGroupKey g.address := by
    intro k hk
    obtain ⟨e, he, rfl⟩ := mem_map.mp (mem_toFinset.mp hk)
    obtain ⟨hkey, hg⟩ := mem_listing_of_mem_groupEntries (k := e.1) (g := e.2) he
    exact ⟨e.2, hg, hkey⟩
  calc _ ≤ (Finset.range 256).card := by
        refine Finset.card_le_card_of_injOn (fun k => k.toNat % 2 ^ 8) ?_ ?_
        · intro k _
          simp only [Finset.coe_range, Set.mem_Iio]
          omega
        · intro k hk k' hk' heq
          obtain ⟨g, hg, rfl⟩ := hmem k hk
          obtain ⟨g', hg', rfl⟩ := hmem k' hk'
          have hown := hwf.own g hg
          have hown' := hwf.own g' hg'
          obtain ⟨hzone, hcluster⟩ := zone_cluster_of_contract (hown ▸ hcontract)
            (hown.trans hown'.symm)
          have hgroup : g.address.groupId = g'.address.groupId := by
            simpa only [getGroupKey_mod, UInt64.toNat_inj] using heq
          obtain ⟨hid, hheight⟩ := mem_listing hg
          obtain ⟨hid', hheight'⟩ := mem_listing hg'
          exact getGroupKey_eq_iff.mpr ⟨UInt64.toNat_inj.mp (hid.trans hid'.symm),
            ⟨hzone, hcluster, hgroup⟩, by rw [hheight, hheight']⟩
    _ = 256 := Finset.card_range 256

end
end

abbrev GroupCache := Lru UInt64 XvNodeGroup

def getGroupPure (c : GroupCache) (target : Xvip2) : Option XvNodeGroup × GroupCache :=
  match c.get (getGroupKey target) with
  | (some g, c) => (if g.address.networkHeight = target.networkHeight then some g else none, c)
  | (none, c) => (none, c)

def addGroup (c : GroupCache) (networkId : UInt32) (height : UInt64) (rs : List GroupResult) :
    GroupCache :=
  c.fill ((groupMap networkId height rs).map fun g => (getGroupKey g.address, g))

section
variable (auditorGroupCount : ℕ) (s : ElectionStore) (c : GroupCache) (target : Xvip2)

def loadGroupFromStore : GroupCache :=
  match s.loadBlockObject (getElectAddress target) target.networkHeight with
  | none => c
  | some b =>
    (propertyNames auditorGroupCount (getElectAddress target)).foldl
      (fun c name => addGroup c target.networkId.toUInt32 target.networkHeight (b.property name)) c

def getGroupInternal : Option XvNodeGroup × GroupCache :=
  match getGroupPure c target with
  | (some g, c) => (some g, c)
  | (none, c) => getGroupPure (loadGroupFromStore auditorGroupCount s c target) target

theorem loadGroupFromStore_some
    (h : s.loadBlockObject (getElectAddress target) target.networkHeight = some b) :
    loadGroupFromStore auditorGroupCount s c target =
      c.fill (groupEntries auditorGroupCount (getElectAddress target) target.networkId.toUInt32
        target.networkHeight b) := by
  rw [loadGroupFromStore, h, groupEntries]
  simp only [addGroup, Lru.fill, foldl_flatMap]

end

structure VnodeHouse where
  vgroups : GroupCache
  store : ElectionStore

inductive HouseEvent where
  | getGroup (target : Xvip2)
  | getNode (target : Xvip2)
  | storeChanged (s : ElectionStore)

inductive HouseOutput where
  | answered (s : ElectionStore) (target : Xvip2) (group : Option XvNodeGroup)

namespace VnodeHouse

def maxGroups : ℕ := 10000

variable (auditorGroupCount : ℕ)

def lookup (p : VnodeHouse) (target : Xvip2) : VnodeHouse × List HouseOutput :=
  let res := getGroupInternal auditorGroupCount p.store p.vgroups target
  ({ p with vgroups := res.2 }, [.answered p.store target res.1])

def step (p : VnodeHouse) : HouseEvent → VnodeHouse × List HouseOutput
  | .getGroup target => p.lookup auditorGroupCount target
  | .getNode target => p.lookup auditorGroupCount target
  | .storeChanged s => ({ p with store := s }, [])

def init (s : ElectionStore) : VnodeHouse := ⟨.empty maxGroups, s⟩

section
variable (committed : String → UInt64 → Option ElectionBlock)

/-- The committed block of the address's election height lists `g` for the address. -/
def ListedFor (b : ElectionBlock) (target : Xvip2) (g : XvNodeGroup) : Prop :=
  g ∈ listing auditorGroupCount (getElectAddress target) target.networkId.toUInt32
    target.networkHeight b ∧ SameGroup g.address target

abbrev WellFormedFor (target : Xvip2) (b : ElectionBlock) : Prop :=
  WellFormed auditorGroupCount (getElectAddress target) target.networkId.toUInt32
    target.networkHeight b

/-- The group is listed in the committed block that it claims to be from. -/
def Final (target : Xvip2) (g : XvNodeGroup) : Prop :=
  ∃ b, committed (getElectAddress target) target.networkHeight = some b ∧
    WellFormedFor auditorGroupCount target b ∧ ListedFor auditorGroupCount b target g

/-- Only groups of the committed block are answered, and all of them where the store holds it. -/
def Right : HouseOutput → Prop
  | .answered s target group =>
    (∀ g, group = some g →
      ∃ b, committed (getElectAddress target) target.networkHeight = some b ∧
        ListedFor auditorGroupCount b target g) ∧
    ∀ b g, committed (getElectAddress target) target.networkHeight = some b →
      s.Holds (getElectAddress target) target.networkHeight b →
      ListedFor auditorGroupCount b target g → group = some g

/-- Where the group is not cached, the loaded block is the committed one, and the slot is free. -/
def Settled (p : VnodeHouse) (target : Xvip2) : Prop :=
  (p.vgroups.find? (getGroupKey target) = none →
    ∀ b, p.store.loadBlockObject (getElectAddress target) target.networkHeight = some b →
      committed (getElectAddress target) target.networkHeight = some b ∧
        WellFormedFor auditorGroupCount target b) ∧
  ∀ g, p.vgroups.find? (getGroupKey target) = some g →
    g.address.networkHeight = target.networkHeight

/-- A question comes when its block is settled. -/
def SettledEvent (p : VnodeHouse) : HouseEvent → Prop
  | .getGroup target => Settled auditorGroupCount committed p target
  | .getNode target => Settled auditorGroupCount committed p target
  | .storeChanged _ => True

structure Sound (c : GroupCache) : Prop where
  size : c.maxSize = maxGroups
  entries : ∀ k g, (k, g) ∈ c.items →
    k = getGroupKey g.address ∧ Final auditorGroupCount committed g.address g

end

variable {auditorGroupCount} {committed : String → UInt64 → Option ElectionBlock}

theorem toUInt32_networkId (t : Xvip2) :
    t.networkId.toUInt32.toNat % 2 ^ 21 = t.networkId.toNat := by
  have h := t.networkId_toNat
  rw [UInt64.toNat_toUInt32]
  omega

theorem networkHeight_mod (t : Xvip2) : t.networkHeight.toNat % 2 ^ 54 = t.networkHeight.toNat := by
  have h := t.networkHeight_toNat
  omega

variable {t : Xvip2} {g : XvNodeGroup} {c : GroupCache} {s : ElectionStore}

theorem mem_listing_target {contract : String}
    (h : g ∈ listing auditorGroupCount contract t.networkId.toUInt32 t.networkHeight b) :
    g.address.networkId = t.networkId ∧ g.address.networkHeight = t.networkHeight := by
  obtain ⟨hid, hheight⟩ := mem_listing h
  rw [toUInt32_networkId] at hid
  rw [networkHeight_mod] at hheight
  exact ⟨UInt64.toNat_inj.mp hid, UInt64.toNat_inj.mp hheight⟩

theorem Final.congr {t' : Xvip2} (h : Final auditorGroupCount committed t g)
    (hsame : SameGroup t t') (hid : t.networkId = t'.networkId)
    (hheight : t.networkHeight = t'.networkHeight) : Final auditorGroupCount committed t' g := by
  obtain ⟨b, hb, hwf, hg, hsg⟩ := h
  rw [WellFormedFor] at hwf
  rw [getElectAddress_congr hsame, hheight] at hb
  rw [getElectAddress_congr hsame, hid, hheight] at hwf hg
  exact ⟨b, hb, hwf, hg, hsg.zoneId.trans hsame.zoneId, hsg.clusterId.trans hsame.clusterId,
    hsg.groupId.trans hsame.groupId⟩

theorem Final.unique {g' : XvNodeGroup} (h : Final auditorGroupCount committed t g)
    (hb : committed (getElectAddress t) t.networkHeight = some b)
    (h' : ListedFor auditorGroupCount b t g') : g = g' := by
  obtain ⟨b', hb', hwf, hg, hsame⟩ := h
  obtain rfl := mem_unique hb' hb
  exact hwf.once g hg g' h'.1 ⟨hsame.zoneId.trans h'.2.zoneId.symm,
    hsame.clusterId.trans h'.2.clusterId.symm, hsame.groupId.trans h'.2.groupId.symm⟩

theorem final_of_mem_listing (hb : committed (getElectAddress t) t.networkHeight = some b)
    (hwf : WellFormedFor auditorGroupCount t b)
    (hg : g ∈ listing auditorGroupCount (getElectAddress t) t.networkId.toUInt32
      t.networkHeight b) :
    Final auditorGroupCount committed g.address g := by
  obtain ⟨hid, hheight⟩ := mem_listing_target hg
  have hown := hwf.own g hg
  refine ⟨b, ?_, ?_, ?_, rfl, rfl, rfl⟩
  · rw [hown, hheight, hb]
  · rw [WellFormedFor, hown, hid, hheight]
    exact hwf
  · rw [hown, hid, hheight]
    exact hg

section
variable (h : Sound auditorGroupCount committed c)
include h

theorem Sound.put {k : UInt64} (hk : c.find? k = some g) :
    Sound auditorGroupCount committed (c.put k g) := by
  refine ⟨h.size, fun k' g' hmem => ?_⟩
  rcases Lru.mem_put hmem with heq | ⟨hmem, -⟩
  · obtain ⟨rfl, rfl⟩ := Prod.mk.inj heq
    exact h.entries _ _ (Lru.find?_eq_some.mp hk)
  · exact h.entries _ _ hmem

theorem Sound.room (hwf : WellFormedFor auditorGroupCount t b) :
    ((groupEntries auditorGroupCount (getElectAddress t) t.networkId.toUInt32 t.networkHeight
      b).map Prod.fst).toFinset.card ≤ c.maxSize := by
  refine (card_keys_le hwf).trans ?_
  rw [h.size]
  decide

theorem Sound.load (hb : committed (getElectAddress t) t.networkHeight = some b)
    (hwf : WellFormedFor auditorGroupCount t b) :
    Sound auditorGroupCount committed (c.fill (groupEntries auditorGroupCount (getElectAddress t)
      t.networkId.toUInt32 t.networkHeight b)) := by
  refine ⟨(Lru.fill_maxSize _ _).trans h.size, fun k g hmem => ?_⟩
  rcases Lru.mem_fill (h.room hwf) hmem with hmem | hfirst
  · exact h.entries k g hmem
  · obtain ⟨hk, hg⟩ := mem_listing_of_mem_groupEntries (mem_of_firstOf hfirst)
    exact ⟨hk, final_of_mem_listing hb hwf hg⟩

theorem getGroupPure_of_sound (t : Xvip2) :
    (c.find? (getGroupKey t) = none ∧ getGroupPure c t = (none, c)) ∨
    ∃ g, c.find? (getGroupKey t) = some g ∧ Sound auditorGroupCount committed (getGroupPure c t).2 ∧
      (g.address.networkHeight = t.networkHeight →
        (getGroupPure c t).1 = some g ∧ Final auditorGroupCount committed t g) := by
  unfold getGroupPure Lru.get
  cases hfind : c.find? (getGroupKey t) with
  | none => exact .inl ⟨rfl, rfl⟩
  | some g =>
    refine .inr ⟨g, rfl, h.put hfind, fun hheight => ⟨if_pos hheight, ?_⟩⟩
    obtain ⟨hk, hfinal⟩ := h.entries _ _ (Lru.find?_eq_some.mp hfind)
    obtain ⟨hid, hsame, -⟩ := getGroupKey_eq_iff.mp hk.symm
    exact hfinal.congr hsame hid hheight

end

theorem right_of_final (h : Final auditorGroupCount committed t g) :
    Right auditorGroupCount committed (.answered s t (some g)) := by
  constructor
  · rintro g' hg'
    obtain rfl := Option.some.inj hg'
    obtain ⟨b, hb, -, hlisted⟩ := h
    exact ⟨b, hb, hlisted⟩
  · intro b g' hb _ hlisted
    rw [h.unique hb hlisted]

variable (auditorGroupCount committed) in
structure Settles (s : ElectionStore) (t : Xvip2) (res : Option XvNodeGroup × GroupCache) :
    Prop where
  sound : Sound auditorGroupCount committed res.2
  right : Right auditorGroupCount committed (.answered s t res.1)
  final : ∀ g, res.1 = some g → Final auditorGroupCount committed t g

theorem Settles.of_hit (hsound : Sound auditorGroupCount committed (getGroupPure c t).2)
    (hans : (getGroupPure c t).1 = some g) (hfinal : Final auditorGroupCount committed t g) :
    Settles auditorGroupCount committed s t (getGroupPure c t) := by
  refine ⟨hsound, ?_, fun g' hg' => ?_⟩
  · rw [hans]
    exact right_of_final hfinal
  · obtain rfl := mem_unique hans hg'
    exact hfinal

theorem mem_keys_of_listedFor (hwf : WellFormedFor auditorGroupCount t b)
    (h : ListedFor auditorGroupCount b t g) :
    getGroupKey t ∈ (groupEntries auditorGroupCount (getElectAddress t)
      t.networkId.toUInt32 t.networkHeight b).map Prod.fst := by
  obtain ⟨hid, hheight⟩ := mem_listing_target h.1
  have hkey : getGroupKey g.address = getGroupKey t :=
    getGroupKey_eq_iff.mpr ⟨hid, h.2, by rw [hheight]⟩
  rw [← hkey]
  exact mem_map_of_mem (mem_groupEntries_of_mem_listing hwf h.1)

theorem Settles.of_load (h : Sound auditorGroupCount committed c)
    (hnone : c.find? (getGroupKey t) = none)
    (hb : committed (getElectAddress t) t.networkHeight = some b)
    (hwf : WellFormedFor auditorGroupCount t b) :
    Settles auditorGroupCount committed s t (getGroupPure (c.fill (groupEntries auditorGroupCount
      (getElectAddress t) t.networkId.toUInt32 t.networkHeight b)) t) := by
  have hsound := h.load hb hwf
  have hfirst := Lru.find?_fill_of_none (h.room hwf) hnone
  rcases getGroupPure_of_sound hsound t with ⟨hmiss, hpure⟩ | ⟨g, hfind, hsound', hhit⟩
  · -- the block does not list the group
    rw [hpure]
    refine ⟨hsound, ⟨by simp, fun b' g hb' _ hlisted => ?_⟩, by simp⟩
    obtain rfl := mem_unique hb hb'
    rw [hmiss, eq_comm, firstOf_eq_none] at hfirst
    exact absurd (mem_keys_of_listedFor hwf hlisted) hfirst
  · rw [hfind] at hfirst
    obtain ⟨-, hg⟩ := mem_listing_of_mem_groupEntries (mem_of_firstOf hfirst.symm)
    obtain ⟨hans, hfinal⟩ := hhit (mem_listing_target hg).2
    exact .of_hit hsound' hans hfinal

theorem getGroupInternal_settles {p : VnodeHouse} (h : Sound auditorGroupCount committed p.vgroups)
    (hset : Settled auditorGroupCount committed p t) :
    Settles auditorGroupCount committed p.store t
      (getGroupInternal auditorGroupCount p.store p.vgroups t) := by
  obtain ⟨hload, hslot⟩ := hset
  unfold getGroupInternal
  rcases getGroupPure_of_sound h t with ⟨hnone, hpure⟩ | ⟨g, hfind, hsound, hhit⟩
  · rw [hpure]
    dsimp only
    cases hb : p.store.loadBlockObject (getElectAddress t) t.networkHeight with
    | none =>
      -- nothing to load, so nothing is stored
      rw [loadGroupFromStore, hb]
      rw [hpure]
      refine ⟨h, ⟨by simp, fun b g _ hholds _ => ?_⟩, by simp⟩
      obtain ⟨b', hb'⟩ := p.store.loadBlockObject_of_holds _ _ hholds
      rw [hb] at hb'
      cases hb'
    | some b =>
      obtain ⟨hcommitted, hwf⟩ := hload hnone b hb
      rw [loadGroupFromStore_some _ _ _ _ hb]
      exact .of_load h hnone hcommitted hwf
  · obtain ⟨hans, hfinal⟩ := hhit (hslot g hfind)
    have heq : getGroupPure p.vgroups t = (some g, (getGroupPure p.vgroups t).2) := by
      rw [← hans]
    rw [heq]
    dsimp only
    rw [← heq]
    exact .of_hit hsound hans hfinal

theorem sound_step (p : VnodeHouse) (e : HouseEvent)
    (h : Sound auditorGroupCount committed p.vgroups)
    (hset : SettledEvent auditorGroupCount committed p e) :
    Sound auditorGroupCount committed (p.step auditorGroupCount e).1.vgroups ∧
    ∀ o ∈ (p.step auditorGroupCount e).2, Right auditorGroupCount committed o ∧
      ∀ s t g, o = .answered s t (some g) → Final auditorGroupCount committed t g := by
  have hlookup : ∀ t, Settled auditorGroupCount committed p t →
      Sound auditorGroupCount committed (p.lookup auditorGroupCount t).1.vgroups ∧
      ∀ o ∈ (p.lookup auditorGroupCount t).2, Right auditorGroupCount committed o ∧
        ∀ s t' g, o = .answered s t' (some g) → Final auditorGroupCount committed t' g := by
    intro t ht
    obtain ⟨hsound, hright, hfinal⟩ := getGroupInternal_settles h ht
    refine ⟨hsound, fun o ho => ?_⟩
    obtain rfl := mem_singleton.mp ho
    refine ⟨hright, fun s t' g heq => ?_⟩
    obtain ⟨-, rfl, hg⟩ := HouseOutput.answered.inj heq
    exact hfinal g hg
  cases e with
  | getGroup t => exact hlookup t hset
  | getNode t => exact hlookup t hset
  | storeChanged s => exact ⟨h, by simp [step]⟩

def answers (auditorGroupCount : ℕ) (s : ElectionStore) (es : List HouseEvent) : List HouseOutput :=
  (Run.run (step auditorGroupCount) (init s) es).2

/-- When lookups are settled, each answer is the group of the committed block and is given whenever
that is stored; two houses never answer one address differently. -/
theorem groups_final (auditorGroupCount : ℕ)
    (committed : String → UInt64 → Option ElectionBlock) (s s' : ElectionStore)
    (es es' : List HouseEvent)
    (hm : Run.Meets (step auditorGroupCount) (SettledEvent auditorGroupCount committed)
      (init s) es)
    (hm' : Run.Meets (step auditorGroupCount) (SettledEvent auditorGroupCount committed)
      (init s') es') :
    (∀ o ∈ answers auditorGroupCount s es, Right auditorGroupCount committed o) ∧
    ∀ st st' t g g', .answered st t (some g) ∈ answers auditorGroupCount s es →
      .answered st' t (some g') ∈ answers auditorGroupCount s' es' → g = g' := by
  have hinit : ∀ s, Sound auditorGroupCount committed (init s).vgroups := fun s =>
    ⟨rfl, fun k g h => absurd h not_mem_nil⟩
  have hrun := (Run.run_inv (fun p e => sound_step p e) (hinit s) es hm).2
  have hrun' := (Run.run_inv (fun p e => sound_step p e) (hinit s') es' hm').2
  refine ⟨fun o ho => (hrun o ho).1, fun st st' t g g' hg hg' => ?_⟩
  obtain ⟨b, hb, -, hlisted⟩ := (hrun' _ hg').2 _ _ _ rfl
  exact ((hrun _ hg).2 _ _ _ rfl).unique hb hlisted

namespace Sample

def result (node : String) : GroupResult := ⟨1, 0x2001, 1, 1, 3, 100, [⟨node, "key of " ++ node⟩]⟩

def block (node : String) : ElectionBlock := ⟨[("@42_1", [result node])]⟩

def address (height : UInt64) : Xvip2 := groupXip 0 height (result "alice")

def storeOf (blocks : List (UInt64 × StoredBlock)) : ElectionStore where
  blocks := fun account height =>
    if account = zecElectConsensusAddr then
      (blocks.filter (fun e => e.1 = height)).map (·.2)
    else []
  db := fun _ _ => none

def committedAt (heights : List UInt64) : String → UInt64 → Option ElectionBlock :=
  fun account height =>
    if account = zecElectConsensusAddr ∧ height ∈ heights then some (block "alice") else none

def noBlocks : ElectionStore := storeOf []
def forkOnly : ElectionStore := storeOf [(5, ⟨.locked, block "mallory"⟩)]
def final : ElectionStore := storeOf [(5, ⟨.committed, block "alice"⟩)]

def farApart : ElectionStore :=
  storeOf [(5, ⟨.committed, block "alice"⟩), (2097157, ⟨.committed, block "alice"⟩)]

def group (node : String) (height : UInt64) : XvNodeGroup := makeGroup height (result node) 0

end Sample

open Sample in
theorem stale_group_answered :
    (∃ o ∈ answers 1 noBlocks [.storeChanged forkOnly, .getGroup (address 5),
        .storeChanged final, .getGroup (address 5)],
      o = .answered final (address 5) (some (group "mallory" 5)) ∧
        ¬ Right 1 (committedAt [5]) o) ∧
    ∃ o ∈ answers 1 farApart [.getGroup (address 5), .getGroup (address 2097157)],
      o = .answered farApart (address 2097157) none ∧
        ¬ Right 1 (committedAt [5, 2097157]) o := by
  refine ⟨⟨_, mem_cons_of_mem _ mem_cons_self, congrArg _ (by decide), fun h => ?_⟩,
    ⟨_, mem_cons_of_mem _ mem_cons_self, congrArg _ (by decide), fun h => ?_⟩⟩
  · obtain ⟨b, hb, hlisted, -⟩ := h.1 (group "mallory" 5) (by decide)
    have hfinal : committedAt [5] (getElectAddress (address 5)) (address 5).networkHeight
        = some (block "alice") := by decide
    obtain rfl := mem_unique hfinal hb
    exact absurd hlisted (by decide)
  · have hfound := h.2 (block "alice") (group "alice" 2097157) (by decide) (.inl (by decide))
      ⟨by decide, by decide, by decide, by decide⟩
    exact absurd hfound (by decide)

open Sample in
theorem groups_final_stored :
    .answered final (address 5) (some (group "alice" 5)) ∈
      answers 1 noBlocks [.storeChanged final, .getGroup (address 5)] ∧
    Right 1 (committedAt [5]) (.answered final (address 5) (some (group "alice" 5))) := by
  have hans : answers 1 noBlocks [.storeChanged final, .getGroup (address 5)]
      = [.answered final (address 5) (some (group "alice" 5))] :=
    congrArg (fun g => [HouseOutput.answered final (address 5) g]) (by decide)
  have hmem : .answered final (address 5) (some (group "alice" 5)) ∈
      answers 1 noBlocks [.storeChanged final, .getGroup (address 5)] := by
    exact mem_cons_self
  have hmeets : Run.Meets (step 1) (SettledEvent 1 (committedAt [5])) (init noBlocks)
      [.storeChanged final, .getGroup (address 5)] := by
    refine ⟨trivial, ⟨fun _ b hb => ?_, fun g hg => ?_⟩, trivial⟩
    · have hload : final.loadBlockObject (getElectAddress (address 5)) (address 5).networkHeight
          = some (block "alice") := by decide
      obtain rfl := mem_unique hload hb
      have hlist : listing 1 (getElectAddress (address 5)) (address 5).networkId.toUInt32
          (address 5).networkHeight (block "alice") = [group "alice" 5] := by decide
      refine ⟨by decide, fun g hg => ?_, fun g hg g' hg' _ => ?_⟩
      · rw [hlist, mem_singleton] at hg
        rw [hg]
        decide
      · rw [hlist, mem_singleton] at hg hg'
        rw [hg, hg']
    · -- the cache is still empty
      cases hg
  exact ⟨hmem, (groups_final 1 (committedAt [5]) noBlocks noBlocks _ _ hmeets hmeets).1 _ hmem⟩

end VnodeHouse
end TopChain.Election
