import TopChain.Lib.Run

/-!
# The chains of the roles (`xsync/src/xrole_chains_mgr.cpp`)

A node syncs the chains of all its roles.
-/
namespace TopChain.Sync

open TopChain.Lib

structure LogicalVersion where
  version : Nat
  shardingSize : Nat
  associatedBlkHeight : Nat
deriving DecidableEq

def LogicalVersion.less (v w : LogicalVersion) : Bool :=
  if v.version ≠ w.version then v.version < w.version
  else v.associatedBlkHeight < w.associatedBlkHeight

structure VnodeAddress where
  clusterAddress : String
  accountElectionAddress : String
  logicalVersion : LogicalVersion
deriving DecidableEq

structure ChainInfo where
  address : String
  isSysAccount : Bool
deriving DecidableEq

abbrev ChainMap := String → Option ChainInfo

structure RoleChains where
  role : VnodeAddress
  addresses : List String
deriving DecidableEq

def RoleChains.chains (r : RoleChains) : ChainMap :=
  fun address => if address ∈ r.addresses then some ⟨address, true⟩ else none

structure RoleChainsMgr where
  roles : List RoleChains
  chains : ChainMap

namespace RoleChainsMgr

def empty : RoleChainsMgr := ⟨[], fun _ => none⟩

def calcUnionSet (roles : List RoleChains) : ChainMap :=
  fun address => roles.findSome? (·.chains address)

def calcAddDiff (old new : ChainMap) : ChainMap :=
  fun address => if new address = old address then none else new address

def erase (roles : List RoleChains) (role : VnodeAddress) : List RoleChains :=
  roles.filter (·.role ≠ role)

def sameCluster (m : RoleChainsMgr) (r : RoleChains) : Option RoleChains :=
  m.roles.find? (·.role.clusterAddress = r.role.clusterAddress)

def install (m : RoleChainsMgr) (roles : List RoleChains) (r : RoleChains) : RoleChainsMgr :=
  let roles := erase roles r.role ++ [r]
  let diff := calcAddDiff m.chains (calcUnionSet roles)
  ⟨roles, fun address => diff address <|> m.chains address⟩

def addRole (m : RoleChainsMgr) (r : RoleChains) : RoleChainsMgr :=
  match m.sameCluster r with
  | none => m.install m.roles r
  | some old =>
    if !old.role.logicalVersion.less r.role.logicalVersion then m
    else m.install (erase m.roles old.role) r

def removeRole (m : RoleChainsMgr) (r : RoleChains) : RoleChainsMgr :=
  let roles := erase m.roles r.role
  ⟨roles, fun address => (m.chains address).bind fun _ => calcUnionSet roles address⟩

/-- A role is added or removed. -/
inductive Op where
  | add (r : RoleChains)
  | remove (r : RoleChains)

def step (m : RoleChainsMgr) : Op → RoleChainsMgr × List Empty
  | .add r => (m.addRole r, [])
  | .remove r => (m.removeRole r, [])

/-- A role that replaces an older one of its cluster has the chains of that one, but for those of
the other clusters' roles. -/
def NothingLeft (m : RoleChainsMgr) : Op → Prop
  | .remove _ => True
  | .add r => (∀ old ∈ m.sameCluster r, old.role.logicalVersion.less r.role.logicalVersion) →
    ∀ old ∈ m.roles, old.role.clusterAddress = r.role.clusterAddress →
      ∀ address ∈ old.addresses, address ∈ r.addresses ∨ ∃ r' ∈ m.roles,
        r'.role.clusterAddress ≠ r.role.clusterAddress ∧ address ∈ r'.addresses

instance instDecidableNothingLeft (m : RoleChainsMgr) (op : Op) : Decidable (m.NothingLeft op) :=
  match op with
  | .remove _ => .isTrue trivial
  | .add _ => inferInstanceAs (Decidable (_ → _))

variable {m : RoleChainsMgr} {roles : List RoleChains} {r : RoleChains} {address : String}

theorem calcUnionSet_of_mem (hr : r ∈ roles) (haddr : address ∈ r.addresses) :
    calcUnionSet roles address = some ⟨address, true⟩ := by
  have hown : r.chains address = some ⟨address, true⟩ := if_pos haddr
  cases hunion : calcUnionSet roles address with
  | none =>
    rw [List.findSome?_eq_none_iff.mp hunion r hr] at hown
    cases hown
  | some info =>
    obtain ⟨r', -, hinfo⟩ := List.exists_of_findSome?_eq_some hunion
    unfold RoleChains.chains at hinfo
    split_ifs at hinfo
    exact hinfo.symm

theorem exists_of_calcUnionSet (h : calcUnionSet roles address ≠ none) :
    ∃ r ∈ roles, address ∈ r.addresses := by
  obtain ⟨info, hinfo⟩ := Option.ne_none_iff_exists'.mp h
  obtain ⟨r, hr, hown⟩ := List.exists_of_findSome?_eq_some hinfo
  unfold RoleChains.chains at hown
  split_ifs at hown with haddr
  exact ⟨r, hr, haddr⟩

theorem chains_install (h : ∀ address, m.chains address ≠ none →
      calcUnionSet (m.install roles r).roles address ≠ none) :
    (m.install roles r).chains = calcUnionSet (m.install roles r).roles := by
  funext address
  have hchain := h address
  unfold install calcAddDiff at *
  dsimp only at *
  split_ifs with hsame
  · exact hsame.symm
  · cases hnew : calcUnionSet (erase roles r.role ++ [r]) address with
    | some info => rfl
    | none =>
      rw [hnew] at hchain hsame
      exact absurd rfl (hchain (Ne.symm hsame))

theorem calcUnionSet_install {q : RoleChains} (hq : q = r ∨ q ∈ roles ∧ q.role ≠ r.role)
    (haddr : address ∈ q.addresses) : calcUnionSet (m.install roles r).roles address ≠ none := by
  have hmem : q ∈ (m.install roles r).roles := by
    unfold install erase
    simp only [List.mem_append, List.mem_filter, List.mem_singleton, decide_eq_true_eq]
    exact hq.symm
  simp [calcUnionSet_of_mem hmem haddr]

theorem chains_addRole (hm : m.chains = calcUnionSet m.roles) (hleft : m.NothingLeft (.add r)) :
    (m.addRole r).chains = calcUnionSet (m.addRole r).roles := by
  unfold addRole
  cases hsame : m.sameCluster r with
  | none =>
    refine chains_install fun address hne => ?_
    obtain ⟨q, hq, haddr⟩ := exists_of_calcUnionSet (hm ▸ hne)
    have hcluster := List.find?_eq_none.mp hsame q hq
    refine calcUnionSet_install (.inr ⟨hq, fun hrole => hcluster ?_⟩) haddr
    rw [hrole, decide_eq_true_eq]
  | some old =>
    have hold : old.role.clusterAddress = r.role.clusterAddress := by
      simpa using List.find?_some hsame
    dsimp only
    split_ifs with hless
    · exact hm
    -- the roles of the other clusters stay
    have hother : ∀ q ∈ m.roles, q.role.clusterAddress ≠ r.role.clusterAddress →
        q ∈ erase m.roles old.role ∧ q.role ≠ r.role := by
      intro q hq hcluster
      refine ⟨List.mem_filter.mpr ⟨hq, ?_⟩, fun hrole => hcluster (by rw [hrole])⟩
      rw [decide_eq_true_eq]
      exact fun hrole => hcluster (by rw [hrole, hold])
    refine chains_install fun address hne => ?_
    obtain ⟨q, hq, haddr⟩ := exists_of_calcUnionSet (hm ▸ hne)
    by_cases hcluster : q.role.clusterAddress = r.role.clusterAddress
    · have hnewer : ∀ o ∈ m.sameCluster r, o.role.logicalVersion.less r.role.logicalVersion := by
        intro o ho
        rw [hsame, Option.mem_some_iff] at ho
        simpa [ho] using hless
      rcases hleft hnewer q hq hcluster address haddr with hown | ⟨r', hr', hne', haddr'⟩
      · exact calcUnionSet_install (.inl rfl) hown
      · exact calcUnionSet_install (.inr (hother r' hr' hne')) haddr'
    · exact calcUnionSet_install (.inr (hother q hq hcluster)) haddr

theorem chains_removeRole (hm : m.chains = calcUnionSet m.roles) :
    (m.removeRole r).chains = calcUnionSet (m.removeRole r).roles := by
  funext address
  unfold removeRole
  dsimp only
  rw [hm]
  cases hold : calcUnionSet m.roles address with
  | some info => rfl
  | none =>
    by_contra hne
    obtain ⟨r', hr', haddr⟩ := exists_of_calcUnionSet (Ne.symm hne)
    rw [calcUnionSet_of_mem (List.mem_of_mem_filter hr') haddr] at hold
    cases hold

/-- In every run in which added roles take no chain away from the union, the map has exactly the
chains of the roles held, each with its own info. -/
theorem synced_chains_of_roles (ops : List Op) (hm : Run.Meets step NothingLeft empty ops) :
    (Run.run step empty ops).1.chains = calcUnionSet (Run.run step empty ops).1.roles := by
  have hstep : ∀ m op, m.chains = calcUnionSet m.roles → m.NothingLeft op →
      (step m op).1.chains = calcUnionSet (step m op).1.roles ∧ ∀ o ∈ (step m op).2, True := by
    intro m op h hop
    cases op with
    | add r => exact ⟨chains_addRole h hop, by simp⟩
    | remove r => exact ⟨chains_removeRole h, by simp⟩
  exact (Run.run_inv hstep rfl ops hm).1

def roleAt (version : Nat) (addresses : List String) : RoleChains :=
  ⟨⟨"cluster", "node", ⟨version, 3, version⟩⟩, addresses⟩

def growingRole : List Op := [.add (roleAt 1 ["X"]), .add (roleAt 2 ["X", "Y"])]

theorem synced_chains_of_roles_sample :
    (Run.run step empty growingRole).1.roles = [roleAt 2 ["X", "Y"]] ∧
      (Run.run step empty growingRole).1.chains = calcUnionSet [roleAt 2 ["X", "Y"]] :=
  ⟨by decide, synced_chains_of_roles growingRole
    (by decide)⟩

theorem replaced_role_keeps_chain :
    let m := (Run.run step empty [.add (roleAt 1 ["X"]), .add (roleAt 2 ["Y"])]).1
    m.roles = [roleAt 2 ["Y"]] ∧ m.chains "X" = some ⟨"X", true⟩ := by
  decide

end RoleChainsMgr
end TopChain.Sync
