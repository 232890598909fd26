import TopChain.Sign.Schnorrsig

/-!
# Election results and group addresses

The groups of an election block and their addresses (`xelection/src/xvnode_house.cpp`).
-/
namespace TopChain.Election

open TopChain.Base TopChain.Lib TopChain.Sign

structure NodeInfo where
  nodeId : String
  publicKey : String
deriving DecidableEq

structure GroupResult where
  networkId : UInt32
  nodeType : UInt32
  clusterId : UInt8
  groupId : UInt8
  groupVersion : UInt64
  startTime : UInt64
  nodes : List NodeInfo
deriving DecidableEq

def has (wanted nodeType : UInt32) : Bool := wanted = wanted &&& nodeType

def zoneOf (nodeType : UInt32) : Option ℕ :=
  if has 0x2000 nodeType || has 0x2002 nodeType || has 0x2001 nodeType then some 0
  else if has 0x4 nodeType then some 2
  else if has 0x1000 nodeType then some 1
  else none

/-- The `xip2_t` of a group, with the broadcast slot; size and height in the high word. -/
def groupXip (zone : ℕ) (height : UInt64) (r : GroupResult) : Xvip2 where
  low := .ofNat (2 ^ 63 + 3 * 2 ^ 61 + 22 * 2 ^ 56 + r.groupVersion.toNat % 2 ^ 3 * 2 ^ 53
    + r.networkId.toNat % 2 ^ 21 * 2 ^ 32 + zone % 2 ^ 7 * 2 ^ 25
    + r.clusterId.toNat % 2 ^ 7 * 2 ^ 18 + r.groupId.toNat * 2 ^ 10 + 0x3FF)
  high := .ofNat (r.nodes.length % 2 ^ 10 * 2 ^ 54 + height.toNat % 2 ^ 54)

def makeGroup (height : UInt64) (r : GroupResult) (zone : ℕ) : XvNodeGroup where
  address := groupXip zone height r
  effectClock := r.startTime
  nodes := r.nodes.map fun n => some ⟨n.nodeId, n.publicKey⟩

def listed (networkId : UInt32) (height : UInt64) (rs : List GroupResult) : List XvNodeGroup :=
  rs.filterMap fun r =>
    if r.networkId = networkId then (zoneOf r.nodeType).map (makeGroup height r) else none

theorem groupXip_networkHeight (zone : ℕ) (height : UInt64) (r : GroupResult) :
    (groupXip zone height r).networkHeight.toNat = height.toNat % 2 ^ 54 := by
  rw [Xvip2.networkHeight_toNat, groupXip, UInt64.toNat_ofNat']
  omega

theorem groupXip_networkId (zone : ℕ) (height : UInt64) (r : GroupResult) :
    (groupXip zone height r).networkId.toNat = r.networkId.toNat % 2 ^ 21 := by
  have hgroup := r.groupId.toNat_lt
  rw [Xvip2.networkId_toNat, groupXip, UInt64.toNat_ofNat']
  omega

theorem mem_listed {networkId : UInt32} {height : UInt64} {rs : List GroupResult}
    {g : XvNodeGroup} (h : g ∈ listed networkId height rs) :
    g.address.networkId.toNat = networkId.toNat % 2 ^ 21 ∧
      g.address.networkHeight.toNat = height.toNat % 2 ^ 54 := by
  obtain ⟨r, -, hr⟩ := List.mem_filterMap.mp h
  split_ifs at hr with hid
  obtain ⟨zone, -, rfl⟩ := Option.map_eq_some_iff.mp hr
  exact ⟨hid ▸ groupXip_networkId zone height r, groupXip_networkHeight zone height r⟩

def getGroupKey (target : Xvip2) : UInt64 :=
  ((target.low <<< 11) >>> 21) ||| ((target.high &&& 0x1FFFFF) <<< 43)

theorem getGroupKey_toNat (t : Xvip2) : (getGroupKey t).toNat =
    t.low.toNat / 2 ^ 10 % 2 ^ 43 + 2 ^ 43 * (t.high.toNat % 2 ^ 21) := by
  have hlow : ((t.low <<< 11) >>> 21).toNat = t.low.toNat / 2 ^ 10 % 2 ^ 43 := by
    change (t.low.toNat <<< 11 % 2 ^ 64) >>> 21 = _
    omega
  have hhigh : ((t.high &&& 0x1FFFFF) <<< 43).toNat = 2 ^ 43 * (t.high.toNat % 2 ^ 21) := by
    rw [UInt64.toNat_shiftLeft, Word.and_mask_toNat _ (w := 21) rfl]
    change (t.high.toNat % 2 ^ 21) <<< 43 % 2 ^ 64 = _
    omega
  rw [getGroupKey, Word.or_shifted_toNat (o := 43) (by omega) hhigh, hlow]

structure SameGroup (a b : Xvip2) : Prop where
  zoneId : a.zoneId = b.zoneId
  clusterId : a.clusterId = b.clusterId
  groupId : a.groupId = b.groupId

theorem getGroupKey_eq_iff {a b : Xvip2} : getGroupKey a = getGroupKey b ↔
    a.networkId = b.networkId ∧ SameGroup a b ∧
      a.networkHeight.toNat % 2 ^ 21 = b.networkHeight.toNat % 2 ^ 21 := by
  have key : getGroupKey a = getGroupKey b ↔ a.networkId = b.networkId ∧
      (a.zoneId = b.zoneId ∧ a.clusterId = b.clusterId ∧ a.groupId = b.groupId) ∧
      a.networkHeight.toNat % 2 ^ 21 = b.networkHeight.toNat % 2 ^ 21 := by
    simp only [← UInt64.toNat_inj, getGroupKey_toNat, Xvip2.networkId_toNat, Xvip2.zoneId_toNat,
      Xvip2.clusterId_toNat, Xvip2.groupId_toNat, Xvip2.networkHeight_toNat]
    omega
  rw [key]
  exact and_congr_right fun _ => and_congr_left fun _ =>
    ⟨fun h => ⟨h.1, h.2.1, h.2.2⟩, fun h => ⟨h.zoneId, h.clusterId, h.groupId⟩⟩

theorem getGroupKey_mod (t : Xvip2) : (getGroupKey t).toNat % 2 ^ 8 = t.groupId.toNat := by
  rw [getGroupKey_toNat, Xvip2.groupId_toNat]
  omega

def recElectRecAddr : String := "T2000138JQPo5TcurZsVLFUMd5vHJRBLenLWjLhk6@0"
def recElectZecAddr : String := "T2000138Kc9WynduqxJvX3VCU7XjHCR9YyKuBL1fx@0"
def zecElectConsensusAddr : String := "T200024uHxGKRST3hk5tKFjVpuQbGNDihMJR6qeeQ@2"

def getElectAddress (target : Xvip2) : String :=
  if target.zoneId = 0 then
    if target.clusterId = 1 then
      if target.groupId ≥ 1 && target.groupId < 127 then zecElectConsensusAddr else ""
    else ""
  else if target.zoneId = 1 then
    if target.clusterId = 0 && target.groupId = 0 then recElectRecAddr else ""
  else if target.zoneId = 2 then
    if target.clusterId = 0 && target.groupId = 0 then recElectZecAddr else ""
  else ""

theorem getElectAddress_congr {a b : Xvip2} (h : SameGroup a b) :
    getElectAddress a = getElectAddress b := by
  rw [getElectAddress, getElectAddress, h.zoneId, h.clusterId, h.groupId]

theorem zone_cluster_of_contract {a b : Xvip2} (ha : getElectAddress a ≠ "")
    (hab : getElectAddress a = getElectAddress b) :
    a.zoneId = b.zoneId ∧ a.clusterId = b.clusterId := by
  have hnames : recElectRecAddr ≠ recElectZecAddr ∧ recElectRecAddr ≠ zecElectConsensusAddr ∧
      recElectZecAddr ≠ zecElectConsensusAddr ∧ recElectRecAddr ≠ "" ∧ recElectZecAddr ≠ "" ∧
      zecElectConsensusAddr ≠ "" := by decide
  unfold getElectAddress at ha hab
  split_ifs at ha hab <;> simp_all

def propertyNames (auditorGroupCount : ℕ) (contract : String) : List String :=
  if contract = recElectRecAddr || contract = recElectZecAddr then ["@42_0"]
  else if contract = zecElectConsensusAddr then
    (List.range' 1 auditorGroupCount).map fun i => "@42_" ++ toString i
  else []

end TopChain.Election
