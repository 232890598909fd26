import TopChain.Bft.Rules
import Mathlib.Data.List.Sort
import Mathlib.Data.String.Basic

/-!
# The pool of certified blocks of a node (`xBFT/src/xconscontext.cpp`)

`BftContext` is the state of `xBFTcontext_t`.
-/
namespace TopChain.Bft

open TopChain.Base TopChain.Lib

/-- The check of a block against its parent; whatever else it asks, heights and hashes fit. -/
structure NodeRule where
  linkOk : XvBlock → XvBlock → Bool
  height_eq : ∀ child parent, linkOk child parent = true → parent.height + 1 = child.height
  hash_eq : ∀ child parent, linkOk child parent = true → parent.blockHash = child.lastBlockHash

structure VbNode where
  block : XvBlock
  parent : Option Nat
  flags : Finset BlockFlag
deriving DecidableEq

structure BftContext where
  latestCommitBlock : Option XvBlock
  latestLockBlock : Option XvBlock
  nodes : List VbNode
  hashPool : SortedMap String Nat
  viewPool : Finset UInt64
deriving DecidableEq

namespace BftContext
variable (chk : BlockChecks) (rule : NodeRule) (c : BftContext)

def init : BftContext := ⟨none, none, [], .empty, ∅⟩

def updateLockBlock (new : XvBlock) : BftContext × Bool :=
  if !new.checkBlockFlag .locked && !new.checkBlockFlag .committed then (c, false)
  else match c.latestLockBlock with
    | none => ({ c with latestLockBlock := some new }, true)
    | some lock =>
      if lock = new then (c, false)
      else if lock.viewid < new.viewid ∧ lock.height < new.height then
        if new.chainid = lock.chainid ∧ new.account = lock.account then
          ({ c with latestLockBlock := some new }, true)
        else (c, false)
      else (c, false)

def updateCommitBlock (new : XvBlock) : BftContext × Bool :=
  if !new.checkBlockFlag .committed || !new.checkBlockFlag .authenticated then (c, false)
  else match c.latestCommitBlock with
    | none => (({ c with latestCommitBlock := some new }.updateLockBlock new).1, true)
    | some commit =>
      if commit = new then (c, false)
      else if commit.viewid < new.viewid ∧ commit.height < new.height then
        if new.chainid = commit.chainid ∧ new.account = commit.account then
          ({ c with latestCommitBlock := some new }, true)
        else (c, false)
      else (c, false)

def safeCheckForBlock (b : XvBlock) : Bool := chk.isDeliver b false

def safeCheckForCertBlock (b : XvBlock) : Bool :=
  !b.checkBlockFlag .committed
    && (match c.latestLockBlock with
      | none => true
      | some lock =>
        !(b.height ≤ lock.height || b.viewid ≤ lock.viewid || b.chainid ≠ lock.chainid
          || b.account ≠ lock.account))
    && safeCheckForBlock chk b

def live : Option Nat → Option (Nat × VbNode)
  | none => none
  | some i =>
    match c.nodes[i]? with
    | none => none
    | some n => if n.flags = ∅ then none else some (i, n)

def mark (i : Nat) (block : Finset BlockFlag) (node : BlockFlag) : BftContext :=
  { c with nodes := c.nodes.modify i fun n =>
      { n with
        block := { n.block with flags := n.block.flags ∪ block }
        flags := insert node n.flags } }

def commitAncestors : Nat → BftContext → Nat → BftContext
  | 0, c, _ => c
  | fuel + 1, c, i =>
    match c.nodes[i]? with
    | none => c
    | some n =>
      match c.live n.parent with
      | none => c
      | some (p, _) => commitAncestors fuel (c.mark p {.committed} .committed) p

def executeChain (p : Nat) (pn : VbNode) : BftContext :=
  let c := c.mark p {.locked} .locked
  let c := (c.updateLockBlock { pn.block with flags := pn.block.flags ∪ {.locked} }).1
  match c.live pn.parent with
  | none => c
  | some (g, gn) =>
    let c := c.mark g {.locked, .committed} .committed
    let c := (c.updateCommitBlock
      { gn.block with flags := gn.block.flags ∪ {.locked, .committed} }).1
    -- a parent is one lower, so the height bounds the walk
    commitAncestors gn.block.height.toNat c g

/-- `do_execute`: the parent is locked, the grandparent and its ancestors are committed. -/
def doExecute (i : Nat) : BftContext × Bool :=
  match c.live (some i) with
  | none => (c, false)
  | some (_, n) =>
    match c.live n.parent with
    | none => (c, false)
    | some (p, pn) => (c.executeChain p pn, true)

/-- The heap index a new node takes as parent: the pool node of the named hash, if the
node rule accepts it. -/
def findParent (b : XvBlock) : Option Nat :=
  match c.hashPool.find? b.lastBlockHash with
  | none => none
  | some p =>
    match c.nodes[p]? with
    | none => none
    | some pn => if rule.linkOk b pn.block then some p else none

def insertNode (b : XvBlock) : BftContext :=
  { c with
    nodes := c.nodes ++ [⟨b, c.findParent rule b, {.authenticated}⟩]
    hashPool := c.hashPool.insert b.blockHash c.nodes.length
    viewPool := insert b.viewid c.viewPool }

def adoptChild (new : Nat) (b : XvBlock) (acc : BftContext × Bool) (i : Nat) : BftContext × Bool :=
  match acc.1.nodes[i]? with
  | none => acc
  | some n =>
    if n.parent = none ∧ n.block.height = b.height + 1 ∧ rule.linkOk n.block b then
      ({ acc.1 with nodes := acc.1.nodes.modify i fun n => { n with parent := some new } }, true)
    else acc

def executeAll : BftContext :=
  c.hashPool.values.foldl (fun c i => (c.doExecute i).1) c

def adoptChildren (new : Nat) (b : XvBlock) : BftContext :=
  let res := c.hashPool.values.foldl (adoptChild rule new b) (c, false)
  if res.2 then res.1.executeAll else res.1

def doUpdate (b : XvBlock) : BftContext × Bool :=
  if !c.safeCheckForCertBlock chk b then (c, false)
  else if (c.hashPool.find? b.blockHash).isSome then (c, false)
  else if b.viewid ∈ c.viewPool then (c, false)
  else
    let new := c.nodes.length
    let c' := c.insertNode rule b
    let c' := if (c.hashPool.find? b.lastBlockHash).isSome then (c'.doExecute new).1 else c'
    (c'.adoptChildren rule new b, true)

def removeNode (i : Nat) (b : XvBlock) : BftContext :=
  { c with
    nodes := c.nodes.modify i fun n => { n with flags := ∅ }
    hashPool := c.hashPool.filter (fun e => e.2 ≠ i)
    viewPool := c.viewPool.erase b.viewid }

def submitNode (acc : BftContext × List XvBlock) (i : Nat) : BftContext × List XvBlock :=
  match acc.1.nodes[i]? with
  | none => acc
  | some n =>
    if n.block.checkBlockFlag .committed then (acc.1.removeNode i n.block, acc.2 ++ [n.block])
    else acc

def doSubmit : BftContext × List XvBlock :=
  let res := c.hashPool.values.foldl submitNode (c, [])
  (res.1, res.2.insertionSort (fun a b => a.viewid ≤ b.viewid))

def detachParent (i : Nat) (n : VbNode) : BftContext :=
  match n.parent with
  | none => c
  | some p =>
    match c.nodes[p]? with
    | none => c
    | some pn =>
      if pn.flags = ∅ ∨ pn.block.checkBlockFlag .committed then
        { c with nodes := c.nodes.modify i fun n => { n with parent := none } }
      else c

def outdated (b : XvBlock) : Bool :=
  match c.latestCommitBlock, c.latestLockBlock with
  | some commit, some lock =>
    b.height ≤ commit.height || b.viewid ≤ commit.viewid || b.height < lock.height
      || (b.height = lock.height && b.viewid ≠ lock.viewid)
  | some commit, none => b.height ≤ commit.height || b.viewid ≤ commit.viewid
  | none, _ => true

def cleanNode (acc : BftContext × List XvBlock) (i : Nat) : BftContext × List XvBlock :=
  match acc.1.nodes[i]? with
  | none => acc
  | some n =>
    let c := acc.1.detachParent i n
    if c.outdated n.block then (c.removeNode i n.block, acc.2 ++ [n.block]) else (c, acc.2)

def doClean : BftContext × List XvBlock :=
  let res := c.hashPool.values.foldl cleanNode (c, [])
  (res.1, res.2.insertionSort (fun a b => a.viewid ≤ b.viewid))

end BftContext
end TopChain.Bft
