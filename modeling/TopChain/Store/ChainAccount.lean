import TopChain.Base.Block

/-!
# The block cache of a chain account (`xblockstore/src/xvblockhub.cpp`)

`xchainacct_t` keeps the block objects of one account, sorted by height and view.
-/
namespace TopChain.Store

open TopChain.Base TopChain.Lib

inductive BlockClass where
  | nil | light | full
deriving DecidableEq, Repr, Inhabited

abbrev Ptr := Nat

structure BlockObject where
  block : XvBlock
  prevBlock : Option Ptr
  nextBlock : Option Ptr
  modifiedCount : Nat
  closed : Bool
deriving DecidableEq, Inhabited

structure AcctMeta where
  highestCertBlockHeight : UInt64
  highestLockBlockHeight : UInt64
  highestCommitBlockHeight : UInt64
  highestExecuteBlockHeight : UInt64
  highestFullBlockHeight : UInt64
  highestConnectBlockHeight : UInt64
  highestConnectBlockHash : String
  highestExecuteBlockHash : String
deriving DecidableEq, Inhabited

/-- What the account calls: the base library, the database and the execution of blocks. -/
structure StoreEnv where
  checks : BlockChecks
  blockClass : XvBlock → BlockClass
  genesisBlock : XvBlock
  flagCounts : Bool
  setVblock : XvBlock → Bool
  executeBlock : XvBlock → Bool
  storeUnits : XvBlock → Option Bool

structure ChainAccount where
  objects : List BlockObject
  allBlocks : SortedMap UInt64 (SortedMap UInt64 Ptr)
  acctMeta : AcctMeta
  vblocks : SortedMap UInt64 XvBlock
  lastCert : Option XvBlock
  exhausted : Bool

abbrev StoreM := StateM ChainAccount

namespace ChainAccount

def maxCachedBlocks : Nat := 32

def object (p : Ptr) : StoreM BlockObject := return (← get).objects.getD p default

def modifyObject (p : Ptr) (f : BlockObject → BlockObject) : StoreM Unit :=
  modify fun s => { s with objects := s.objects.modify p f }

def newObject (b : XvBlock) : StoreM Ptr := do
  let p := (← get).objects.length
  modify fun s => { s with objects := s.objects ++ [⟨b, none, none, 0, false⟩] }
  return p

def setBlocks (m : SortedMap UInt64 (SortedMap UInt64 Ptr)) : StoreM Unit :=
  modify fun s => { s with allBlocks := m }

def modifyMeta (f : AcctMeta → AcctMeta) : StoreM Unit :=
  modify fun s => { s with acctMeta := f s.acctMeta }

def viewsAt (height : UInt64) : StoreM (SortedMap UInt64 Ptr) :=
  return ((← get).allBlocks.find? height).getD .empty

def checkBlockFlag (p : Ptr) (f : BlockFlag) : StoreM Bool :=
  return (← object p).block.checkBlockFlag f

def setBlockFlag (env : StoreEnv) (p : Ptr) (f : BlockFlag) : StoreM Unit :=
  modifyObject p fun o => { o with
    block := o.block.setBlockFlag f
    modifiedCount := if env.flagCounts then o.modifiedCount + 1 else o.modifiedCount }

def removeBlockFlag (p : Ptr) (f : BlockFlag) : StoreM Unit :=
  modifyObject p fun o => { o with block := { o.block with flags := o.block.flags.erase f } }

def resetPrevBlock (p prev : Ptr) : StoreM Bool := do
  let b := (← object p).block
  let d := (← object prev).block
  if d.blockHash = b.lastBlockHash ∧ d.height + 1 = b.height then
    modifyObject p fun o => { o with prevBlock := some prev }
    return true
  else
    return false

def resetNextBlock (p next : Ptr) : StoreM Bool := do
  let b := (← object p).block
  let d := (← object next).block
  if b.blockHash = d.lastBlockHash ∧ b.height + 1 = d.height then
    modifyObject p fun o => { o with nextBlock := some next }
    return true
  else
    return false

def closeBlock (p : Ptr) : StoreM Unit :=
  modifyObject p fun o => { o with prevBlock := none, nextBlock := none, closed := true }

def firstWith (f : BlockFlag) : List Ptr → StoreM (Option Ptr)
  | [] => return none
  | p :: rest => do
    if ← checkBlockFlag p f then return some p else firstWith f rest

def queryBlock (height : UInt64) (f : BlockFlag) : StoreM (Option Ptr) := do
  firstWith f (← viewsAt height).values.reverse

def queryLatestBlock (f : BlockFlag) : StoreM (Option Ptr) := do
  let views := (← get).allBlocks.values
  firstWith f (views.map SortedMap.values).flatten.reverse

def connectMore (env : StoreEnv) : List (UInt64 × SortedMap UInt64 Ptr) → StoreM Unit
  | [] => return ()
  | (height, views) :: rest => do
    let m := (← get).acctMeta
    match views.values with
    | [] => return ()
    | p :: _ =>
      let o ← object p
      if height = m.highestConnectBlockHeight + 1 ∧ o.block.checkBlockFlag .committed ∧
          o.block.lastBlockHash = m.highestConnectBlockHash then
        modifyMeta fun m => { m with
          highestConnectBlockHeight := o.block.height
          highestConnectBlockHash := o.block.blockHash }
        setBlockFlag env p .connected
        connectMore env rest
      else
        return ()

def raiseConnect (env : StoreEnv) (p : Ptr) : StoreM Unit := do
  let b := (← object p).block
  if b.checkBlockFlag .connected ∧ (← get).acctMeta.highestConnectBlockHeight < b.height then
    modifyMeta fun m => { m with
      highestConnectBlockHeight := b.height
      highestConnectBlockHash := b.blockHash }
    let entries := (← get).allBlocks.entries
    connectMore env (entries.dropWhile fun e => e.1 ≠ b.height + 1)
  else
    return ()

def isConnected (env : StoreEnv) (o : BlockObject) (m : AcctMeta) : StoreM Bool := do
  if o.block.height ≤ m.highestConnectBlockHeight then return true
  else if env.blockClass o.block = .full then return true
  else
    let prevConnected ← match o.prevBlock with
      | some q => checkBlockFlag q .connected
      | none => pure false
    return prevConnected || (o.block.height = m.highestConnectBlockHeight + 1 ∧
      m.highestConnectBlockHash = o.block.lastBlockHash)

def markConnected (env : StoreEnv) (p : Ptr) : StoreM Unit := do
  let o ← object p
  if o.block.checkBlockFlag .connected then return ()
  else if ← isConnected env o (← get).acctMeta then setBlockFlag env p .connected
  else return ()

def updateMeta (env : StoreEnv) (p : Ptr) (b : XvBlock) : StoreM Unit := do
  if b.checkBlockFlag .authenticated then
    modifyMeta fun m => { m with
      highestCertBlockHeight := max m.highestCertBlockHeight b.height }
  if b.checkBlockFlag .locked then
    modifyMeta fun m => { m with
      highestLockBlockHeight := max m.highestLockBlockHeight b.height }
  if b.checkBlockFlag .committed then
    modifyMeta fun m => { m with
      highestLockBlockHeight := max m.highestLockBlockHeight b.height
      highestCommitBlockHeight := max m.highestCommitBlockHeight b.height
      highestFullBlockHeight := if env.blockClass b = .full
        then max m.highestFullBlockHeight b.height else m.highestFullBlockHeight }
    raiseConnect env p

def writeVblock (env : StoreEnv) (p : Ptr) : StoreM Bool := do
  let b := (← object p).block
  if env.setVblock b then
    modify fun s => { s with vblocks := s.vblocks.insert b.height b }
    modifyObject p fun o => { o with modifiedCount := 0 }
    return true
  else
    return false

def saveToXdb (env : StoreEnv) (p : Ptr) : StoreM Bool := do
  let b := (← object p).block
  if b.checkBlockFlag .committed then
    markConnected env p
  if !b.checkBlockFlag .committed && !b.checkBlockFlag .locked then
    if (← get).acctMeta.highestCertBlockHeight < b.height then
      modifyMeta fun m => { m with highestCertBlockHeight := b.height }
      modify fun s => { s with lastCert := some b }
    return true
  else if !b.checkBlockFlag .stored then
    setBlockFlag env p .stored
    if ← writeVblock env p then
      updateMeta env p b
      return true
    else
      removeBlockFlag p .stored
      return false
  else if (← object p).modifiedCount = 0 then
    return true
  else if ← writeVblock env p then
    updateMeta env p b
    return true
  else
    return false

def unloadSubblockFromContainer (env : StoreEnv) (p : Ptr) : StoreM Bool := do
  let b := (← object p).block
  if env.blockClass b ≠ .nil ∧ b.checkBlockFlag .committed ∧ ¬ b.checkBlockFlag .unpacked ∧
      b.level = .table then
    match env.storeUnits b with
    | none => return true
    | some true => do setBlockFlag env p .unpacked; return true
    | some false => return false
  else
    return true

def readyToExecute (env : StoreEnv) (m : AcctMeta) (b : XvBlock) : Bool :=
  (m.highestExecuteBlockHeight = 0 ∧ b.height = 0) ∨
  (b.height = m.highestExecuteBlockHeight + 1 ∧ b.lastBlockHash = m.highestExecuteBlockHash) ∨
  (m.highestExecuteBlockHeight < b.height ∧ env.blockClass b = .full)

def executed (b : XvBlock) : StoreM Unit :=
  modifyMeta fun m => { m with
    highestExecuteBlockHeight := b.height
    highestExecuteBlockHash := b.blockHash }

def executeBlock (env : StoreEnv) (p : Ptr) : StoreM Bool := do
  let b := (← object p).block
  if ¬ b.checkBlockFlag .committed ∨ ¬ b.checkBlockFlag .connected then
    return false
  else if b.checkBlockFlag .executed then
    if (← get).acctMeta.highestExecuteBlockHeight < b.height then executed b
    return true
  else if !(← unloadSubblockFromContainer env p) then
    return false
  else if readyToExecute env (← get).acctMeta b && env.executeBlock b then
    setBlockFlag env p .executed
    if ← saveToXdb env p then
      executed b
      return true
    else
      removeBlockFlag p .executed
      return false
  else
    return false

section
variable (env : StoreEnv) (load : UInt64 → Nat → StoreM (Option Ptr)) (fuel : Nat)

def loadBlockObject (height : UInt64) : StoreM (Option Ptr) := do
  match ← queryBlock height .locked with
  | some p => return some p
  | none => load height 1

def executeHistory : Nat → UInt64 → StoreM Bool
  | 0, _ => do
    modify fun s => { s with exhausted := true }
    return true
  | n + 1, i => do
    let m := (← get).acctMeta
    if m.highestConnectBlockHeight < i then return true
    else match ← loadBlockObject load (m.highestExecuteBlockHeight + 1) with
      | some p => if ← executeBlock env p then executeHistory n (i + 1) else return false
      | none => executeHistory n (i + 1)

def saveAndExecute (p : Ptr) : StoreM Bool := do
  if ← saveToXdb env p then
    let _ ← executeBlock env p
    let m := (← get).acctMeta
    if m.highestExecuteBlockHeight < m.highestConnectBlockHeight then
      executeHistory env load fuel (m.highestExecuteBlockHeight + 1)
    else return true
  else return false

def saveBlock (p : Ptr) : StoreM Bool := do
  let b := (← object p).block
  if b.height = 1 ∧ b.checkBlockFlag .committed then
    match ← queryBlock 0 .committed with
    | some g => if !(← checkBlockFlag g .stored) then let _ ← saveAndExecute env load fuel g
    | none => pure ()
  saveAndExecute env load fuel p

def dropWithout (height : UInt64) (flag : BlockFlag) : List (UInt64 × Ptr) → StoreM Unit
  | [] => return ()
  | (view, p) :: rest => do
    if !(← checkBlockFlag p flag) then
      closeBlock p
      setBlocks ((← get).allBlocks.insert height ((← viewsAt height).erase view))
    dropWithout height flag rest

def cleanCandidates (p : Ptr) : StoreM Unit := do
  let b := (← object p).block
  let entries := (← viewsAt b.height).entries
  if b.checkBlockFlag .committed then dropWithout b.height .committed entries
  else if b.checkBlockFlag .locked then dropWithout b.height .locked entries

def processBlock (this : Ptr) : StoreM Bool := do
  match (← object this).prevBlock with
  | none => return false
  | some prev =>
    let o ← object prev
    if !o.block.checkBlockFlag .locked ||
        (← get).acctMeta.highestLockBlockHeight < o.block.height then
      setBlockFlag env prev .locked
      if ← checkBlockFlag this .locked then setBlockFlag env prev .committed
      let _ ← resetNextBlock prev this
      let _ ← saveBlock env load fuel prev
      cleanCandidates prev
    else if o.nextBlock = none then
      let _ ← resetNextBlock prev this
    match (← object prev).prevBlock with
    | none => return true
    | some prevPrev =>
      let o ← object prevPrev
      let m := (← get).acctMeta
      if !o.block.checkBlockFlag .committed || m.highestCommitBlockHeight < o.block.height ||
          m.highestExecuteBlockHeight < o.block.height then
        setBlockFlag env prevPrev .committed
        let _ ← resetNextBlock prevPrev prev
        let _ ← saveBlock env load fuel prevPrev
        cleanCandidates prevPrev
      else if o.nextBlock = none then
        let _ ← resetNextBlock prevPrev prev
      return true

def linkToPrev (this : Ptr) : List Ptr → StoreM Unit
  | [] => return ()
  | q :: rest => do
    if ← resetPrevBlock this q then
      let _ ← processBlock env load fuel this
    else linkToPrev this rest

def linkToNext (this : Ptr) : List Ptr → StoreM Unit
  | [] => return ()
  | q :: rest => do
    if ← resetPrevBlock q this then
      let _ ← processBlock env load fuel q
    linkToNext this rest

def processAll : List Ptr → StoreM Unit
  | [] => return ()
  | q :: rest => do
    let _ ← processBlock env load fuel q
    processAll rest

def prevMissing (this : Ptr) : StoreM Bool := do
  match (← object this).prevBlock with
  | none => return true
  | some q => return (← object q).closed

def connectBlock (this : Ptr) (reenter : Nat) : StoreM Unit := do
  let height := (← object this).block.height
  if 0 < height then
    match (← get).allBlocks.before? height with
    | some (h, views) => if h + 1 = height then linkToPrev env load fuel this views.values.reverse
    | none => pure ()
    if (← prevMissing this) && 0 < reenter then
      match ← load (height - 1) (reenter - 1) with
      | some q =>
        if ← resetPrevBlock this q then
          let _ ← processBlock env load fuel this
      | none => pure ()
  match (← get).allBlocks.after? height with
  | some (h, views) =>
    if h = height + 1 then
      linkToNext env load fuel this views.values.reverse
      match (← get).allBlocks.after? h with
      | some (h', views') =>
        if h' = height + 2 then processAll env load fuel views'.values.reverse
      | none => pure ()
  | none => pure ()

end

def loadedMeta (env : StoreEnv) (p : Ptr) (target : UInt64) : StoreM (Option Ptr) := do
  let b := (← object p).block
  if b.checkBlockFlag .committed then
    modifyMeta fun m => { m with
      highestCertBlockHeight := max m.highestCertBlockHeight target
      highestLockBlockHeight := max m.highestLockBlockHeight target
      highestCommitBlockHeight := max m.highestCommitBlockHeight target
      highestFullBlockHeight := if env.blockClass b = .full
        then max m.highestFullBlockHeight target else m.highestFullBlockHeight }
    markConnected env p
    raiseConnect env p
    return some p
  else if b.checkBlockFlag .locked then
    modifyMeta fun m => { m with
      highestCertBlockHeight := max m.highestCertBlockHeight target
      highestLockBlockHeight := max m.highestLockBlockHeight target }
    return some p
  else if b.checkBlockFlag .authenticated then
    modifyMeta fun m => { m with
      highestCertBlockHeight := max m.highestCertBlockHeight target }
    return some p
  else
    return none

def loadBlock (env : StoreEnv) : Nat → UInt64 → Nat → StoreM (Option Ptr)
  | 0, _, _ => do
    modify fun s => { s with exhausted := true }
    return none
  | n + 1, target, reenter => do
    match (← get).vblocks.find? target <|>
        (if target = 0 then some env.genesisBlock else none) with
    | none => return none
    | some b =>
      if b.height ≠ target then return none
      else
        let views ← viewsAt target
        match views.find? b.viewid with
        | some _ => return none
        | none =>
          let p ← newObject b
          setBlocks ((← get).allBlocks.insert target (views.insert b.viewid p))
          connectBlock env (loadBlock env n) n p reenter
          loadedMeta env p target

/-- A new block may not enter, or it takes the slot of the given view, if any. -/
inductive Slot where
  | refused
  | free (view : Option UInt64)
deriving DecidableEq, Repr

def dropView (height view : UInt64) (p : Ptr) : StoreM Unit := do
  closeBlock p
  setBlocks ((← get).allBlocks.insert height ((← viewsAt height).erase view))

def slotForCommit (height : UInt64) : List (UInt64 × Ptr) → Option UInt64 → StoreM Slot
  | [], found => return .free found
  | (view, p) :: rest, found => do
    if ← checkBlockFlag p .committed then slotForCommit height rest (some view)
    else
      dropView height view p
      slotForCommit height rest found

def slotForLock (height : UInt64) : List (UInt64 × Ptr) → Option UInt64 → StoreM Slot
  | [], found => return .free found
  | (view, p) :: rest, found => do
    if ← checkBlockFlag p .committed then return .refused
    else if ← checkBlockFlag p .locked then slotForLock height rest (some view)
    else
      dropView height view p
      slotForLock height rest found

def slotForCert (viewid : UInt64) : List (UInt64 × Ptr) → Option UInt64 → StoreM Slot
  | [], found => return .free found
  | (view, p) :: rest, found => do
    let b := (← object p).block
    if b.checkBlockFlag .locked ∨ b.checkBlockFlag .committed then return .refused
    else slotForCert viewid rest (if b.viewid = viewid then some view else found)

def findSlot (b : XvBlock) : StoreM Slot := do
  let entries := (← viewsAt b.height).entries
  if b.checkBlockFlag .committed then slotForCommit b.height entries none
  else if b.checkBlockFlag .locked then slotForLock b.height entries none
  else if b.checkBlockFlag .authenticated then slotForCert b.viewid entries none
  else return .free none

section
variable (env : StoreEnv) (fuel : Nat)

def isReplaceExistingBlock (existing this : XvBlock) : StoreM Bool := do
  if existing.checkBlockFlag .committed then return false
  else
    match ← loadBlockObject (loadBlock env fuel) (existing.height + 1) with
    | none => return false
    | some p =>
      let next := (← object p).block
      return next.checkBlockFlag .committed ∧ next.lastBlockHash = this.blockHash

def cleanBlocksFrom (keep : Nat) : List UInt64 → StoreM Unit
  | [] => return ()
  | height :: rest => do
    let s ← get
    if s.allBlocks.entries.length ≤ keep then return ()
    else
      let m := s.acctMeta
      match (← viewsAt height).values with
      | [] => setBlocks (s.allBlocks.erase height)
      | p :: others =>
        if height ≠ 0 ∧ height ≠ m.highestFullBlockHeight ∧
            height ≠ m.highestExecuteBlockHeight ∧ height < m.highestCommitBlockHeight ∧
            height ≠ m.highestLockBlockHeight ∧ height ≠ m.highestConnectBlockHeight ∧
            (height < m.highestConnectBlockHeight ∨
              ((s.objects.getD p default).block.checkBlockFlag .committed)) then
          (p :: others).forM fun q => do
            if 0 < (← object q).modifiedCount then
              let _ ← saveBlock env (loadBlock env fuel) fuel q
            closeBlock q
          setBlocks ((← get).allBlocks.erase height)
      cleanBlocksFrom keep rest

def cleanBlocks (keep : Nat) : StoreM Unit := do
  cleanBlocksFrom env fuel keep ((← get).allBlocks.entries.map (·.1))

def replaceBlock (view : UInt64) (existing this : Ptr) : StoreM Unit := do
  let old ← object existing
  match old.prevBlock with
  | some q => let _ ← resetPrevBlock this q
  | none => modifyObject this fun o => { o with prevBlock := none }
  if old.block.checkBlockFlag .stored then setBlockFlag env this .stored
  let height := (← object this).block.height
  setBlocks ((← get).allBlocks.insert height ((← viewsAt height).insert view this))
  closeBlock existing
  match (← get).allBlocks.after? height with
  | some (h, views) =>
    if h = height + 1 then
      views.values.reverse.forM fun q => do let _ ← resetPrevBlock q this
  | none => pure ()
  let _ ← saveBlock env (loadBlock env fuel) fuel this

def outdated (existing this : XvBlock) : Bool :=
  existing.flags = this.flags ∨
  BlockFlag.bits (this.flags ∩ BlockFlag.high4) <
    BlockFlag.bits (existing.flags ∩ BlockFlag.high4) ∨
  BlockFlag.bits (this.flags ∩ BlockFlag.low4) < BlockFlag.bits (existing.flags ∩ BlockFlag.low4)

def storeInSlot (view : UInt64) (existing this : Ptr) : StoreM Bool := do
  if this = existing then
    if (← object this).modifiedCount = 0 then return true
    else
      let _ ← saveBlock env (loadBlock env fuel) fuel this
      return true
  else
    let old := (← object existing).block
    let new := (← object this).block
    if old.blockHash ≠ new.blockHash then
      if ← isReplaceExistingBlock env fuel old new then
        replaceBlock env fuel view existing this
        return true
      else return false
    else if outdated old new then return true
    else
      replaceBlock env fuel view existing this
      return true

def storeNew (this : Ptr) : StoreM Bool := do
  let b := (← object this).block
  let views ← viewsAt b.height
  match views.find? b.viewid with
  | some _ => return false
  | none =>
    setBlocks ((← get).allBlocks.insert b.height (views.insert b.viewid this))
    modifyObject this fun o => { o with modifiedCount := o.modifiedCount + 1 }
    connectBlock env (loadBlock env fuel) fuel this 1
    if (← object this).modifiedCount ≠ 0 then
      let _ ← saveBlock env (loadBlock env fuel) fuel this
    cleanBlocks env fuel maxCachedBlocks
    return true

def storeBlock (this : Ptr) : StoreM Bool := do
  let b := (← object this).block
  if !(env.checks.isInputReady b true && env.checks.isOutputReady b true &&
      env.checks.isDeliver b false) then
    return false
  else
    if (← viewsAt b.height).entries.isEmpty then
      setBlocks ((← get).allBlocks.insert b.height .empty)
      let m := (← get).acctMeta
      if b.height ≤ m.highestCommitBlockHeight ∨ b.height ≤ m.highestExecuteBlockHeight ∨
          b.height ≤ m.highestConnectBlockHeight then
        let _ ← loadBlock env fuel b.height 0
    match ← findSlot b with
    | .refused => return true
    | .free none => storeNew env fuel this
    | .free (some view) =>
      match (← viewsAt b.height).find? view with
      | some existing => storeInSlot env fuel view existing this
      | none => return false

def getGenesisBlock : StoreM Ptr := do
  return (← loadBlockObject (loadBlock env fuel) 0).getD 0

def getLatestCertBlock : StoreM Ptr := do
  match ← queryLatestBlock .authenticated with
  | some p => return p
  | none => getGenesisBlock env fuel

def blockAbove (height : UInt64) : StoreM (Option Ptr) := do
  match ← queryBlock height .authenticated with
  | some p => return some p
  | none => loadBlockObject (loadBlock env fuel) height

def diverged (next nextNext : XvBlock) : Bool :=
  next.blockHash ≠ nextNext.lastBlockHash ∧
    ((¬ next.checkBlockFlag .committed ∧ nextNext.checkBlockFlag .committed) ∨
      (¬ next.checkBlockFlag .locked ∧ nextNext.checkBlockFlag .locked))

def getLatestCurrentBlock : StoreM Ptr := do
  let m := (← get).acctMeta
  if m.highestCertBlockHeight ≤ 1 ∨
      (m.highestCommitBlockHeight = m.highestConnectBlockHeight ∧
        m.highestLockBlockHeight = m.highestCommitBlockHeight + 1 ∧
        m.highestCertBlockHeight = m.highestLockBlockHeight + 1) then
    getLatestCertBlock env fuel
  else
    let h := m.highestConnectBlockHeight
    match ← blockAbove env fuel h with
    | none => getGenesisBlock env fuel
    | some connect =>
      match ← blockAbove env fuel (h + 1) with
      | none => return connect
      | some next =>
        if !(← checkBlockFlag next .locked) then return next
        else
          match ← blockAbove env fuel (h + 2) with
          | none => return next
          | some nextNext =>
            if diverged (← object next).block (← object nextNext).block then return connect
            else
              match ← blockAbove env fuel (h + 3) with
              | none => return nextNext
              | some p =>
                let above := (← object p).block
                if (← object nextNext).block.blockHash ≠ above.lastBlockHash ∧
                    above.checkBlockFlag .committed then
                  return next
                else return nextNext

end

def init (env : StoreEnv) : ChainAccount :=
  let empty : ChainAccount := ⟨[], .empty, default, .empty, none, false⟩
  let s := ((loadBlockObject (loadBlock env 1) 0).run empty).2
  { s with acctMeta := { s.acctMeta with
      highestConnectBlockHash := env.genesisBlock.blockHash } }

end ChainAccount
end TopChain.Store
