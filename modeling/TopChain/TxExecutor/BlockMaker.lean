import TopChain.Store.ChainAccount
import TopChain.TxExecutor.Executor

/-!
# A backup's check of a table proposal

`xtable_blockmaker_t::verify_block` and `xunit_blockmaker_t::verify_block`.
-/
namespace TopChain.TxExecutor

open List TopChain.Lib TopChain.Lib.Hoare TopChain.Base TopChain.Data TopChain.Store

inductive MakerPoolError where
  | unconfirmSendtxExist | nonceIncontinuity | other (code : Nat)
deriving DecidableEq

inductive MakerError where
  | exec (e : TxError) | pool (e : MakerPoolError)
  | unitStateBehind | unitHeightLessThanLeader | unitHeightLargerThanLeader
  | unitLeaderHashNotEqualBackup | unitPropertyBehind | unitShouldBeFullunit
  | unitShouldBeLightunit | badProposal | badHeight | leaderTableblockBehind
  | backupTableblockBehind | tableblockShouldNotEmptyBlock | checkConsensusPara
  | tableInputHash | tableOutputHash | tableHeaderHash
deriving DecidableEq

structure StoredBlock where
  account : String
  height : Nat
  blockHash : String
  blockClass : BlockClass
  isGenesis : Bool
  viewid : Nat
  clock : Nat
  lastFullBlockHash : String
  lastFullBlockHeight : Nat
  hashToSign : String
  flags : Finset BlockFlag

namespace StoredBlock

def isConnectAndExecuted (b : StoredBlock) : Bool :=
  b.isGenesis || (.connected ∈ b.flags && .executed ∈ b.flags)

def nextLastFull (b : StoredBlock) : String × Nat :=
  if b.isGenesis || b.blockClass = .full then (b.blockHash, b.height)
  else (b.lastFullBlockHash, b.lastFullBlockHeight)

end StoredBlock

structure ConsensusPara where
  clock : Nat
  validator : Xvip2
  auditor : Xvip2
  viewid : Nat
  viewtoken : Nat
  drandHeight : Nat
  totalLockTgasToken : Nat
  extraData : String

structure MakerCert where
  clock : Nat
  viewid : Nat
  validator : Xvip2 := ⟨0, 0⟩
  auditor : Xvip2 := ⟨0, 0⟩
  auditFlag : Bool := false
  viewtoken : Nat := 0
  drandHeight : Nat := 0
  justifyCertHash : String := ""
  parentHeight : Nat := 0
  nonce : Nat := 0

def MakerCert.setConsensusPara (para : ConsensusPara) (cert : MakerCert) : MakerCert :=
  let cert := { cert with
    clock := para.clock
    viewid := para.viewid
    validator := para.validator
    drandHeight := para.drandHeight }
  let cert := if para.auditor = ⟨0, 0⟩ then cert
    else { cert with auditor := para.auditor, auditFlag := true }
  if para.viewtoken = 0 then cert else { cert with viewtoken := para.viewtoken }

inductive MakerUnitBody where
  | light (body : Lightunit)
  | full (state : Account) (propertys : List (String × String)) (firstUnitHeight : Nat)
      (firstUnitHash : String)

structure UnitBlock where
  account : String
  height : Nat
  lastBlockHash : String
  lastFullBlock : String × Nat
  body : MakerUnitBody
  cert : MakerCert

def UnitBlock.blockClass (u : UnitBlock) : BlockClass :=
  match u.body with
  | .light _ => .light
  | .full _ _ _ _ => .full

def UnitBlock.balanceChange (u : UnitBlock) : Int :=
  match u.body with
  | .light body => body.resource.balanceChange
  | .full _ _ _ _ => 0

structure UnitInput where
  account : String
  lastBlockHeight : Nat
  lastBlockHash : String
  inputTxs : List ConsTx

structure TableInputEntity where
  unitAccount : String
  unitHeight : Nat
  unitHeaderHash : String

structure MakerTableBlock where
  account : String
  height : Nat
  lastBlockHash : String
  lastFullBlock : String × Nat
  extraData : String
  inputs : List TableInputEntity
  outputs : List String
  units : List UnitBlock
  cert : MakerCert

structure TableProposal where
  account : String
  height : Nat
  lastBlockHash : String
  blockClass : BlockClass
  prevBlock : Option StoredBlock := none
  extraData : String
  cert : MakerCert
  input : Option (List UnitInput)
  inputHash : String
  outputHash : String
  headerHash : String
  hashToSign : String

structure PoolTable (P : Type) where
  updateCommittedUnitBlock : StoredBlock → Nat → String → P → P
  verifyConsTx : ConsTx → Option MakerPoolError
  hasTxhashReceipt : ConsTx → Nat → StateM P (Option MakerPoolError)
  isReceiptDuplicated : ConsTx → Nat → StateM P (Option MakerPoolError)

structure MakerEnv (P : Type) where
  exec : ExecEnv
  pool : PoolTable P
  latestCommittedBlock : String → StoredBlock
  latestCommittedBlock_account : ∀ account, (latestCommittedBlock account).account = account
  loadBlockObject : String → Nat → Option StoredBlock
  queryBlock : String → Nat → List StoredBlock
  propertyHashMap : String → List (String × String)
  cloneProperty : String → String → Option Dataobj
  serialize : Dataobj → String
  lastFullUnit : String → Nat × String
  propertyHeight : String → Option Nat
  totalLockTgasToken : Nat → Nat → Option Nat
  unitHeaderHash : UnitBlock → String
  unitSignHash : UnitBlock → String
  tableInputHash : MakerTableBlock → String
  tableOutputHash : MakerTableBlock → String
  tableHeaderHash : MakerTableBlock → String
  tableSignHash : MakerTableBlock → String
  setResources : TableProposal → MakerTableBlock → Bool

namespace MakerEnv
variable {P : Type} (M : MakerEnv P)

def nonceContinous (last : Nat × String) (t : ConsTx) : Option (Nat × String) :=
  if last.1 = t.tx.lastNonce ∧ M.exec.hash64 last.2 = t.tx.lastHash then
    some (t.tx.txNonce, t.tx.digest)
  else none

def checkReceipt (commitHeight unitHeight : Nat) (t : ConsTx) :
    StateM P (Option MakerPoolError) := do
  let e ← if t.subtype M.exec.config = .confirm then M.pool.hasTxhashReceipt t unitHeight
    else M.pool.isReceiptDuplicated t commitHeight
  pure (if e = some .unconfirmSendtxExist then none else e)

def backupCheckState (input : UnitInput) (latest : StoredBlock) : Except MakerError Unit :=
  if !latest.isConnectAndExecuted then .error .unitStateBehind
  else if latest.height < input.lastBlockHeight then .error .unitHeightLessThanLeader
  else if input.lastBlockHeight < latest.height then .error .unitHeightLargerThanLeader
  else if input.lastBlockHash ≠ latest.blockHash then .error .unitLeaderHashNotEqualBackup
  else .ok ()

def getLockBlockSignHash (highqc : StoredBlock) : Option String :=
  if highqc.height < 2 then some highqc.hashToSign
  else (M.loadBlockObject highqc.account (highqc.height - 1)).map (·.hashToSign)

def canMakeFullUnit (c : Context) (prev : StoredBlock) : Bool :=
  let fullunitHeight :=
    if prev.blockClass = .full then prev.height else prev.lastFullBlockHeight
  M.exec.config.fullunitContainOfUnitNum ≤ Word.wsub 64 (prev.height + 1) fullunitHeight &&
    c.account.unconfirmSendtxNum = 0

def fullunitPropertys (account : String) :
    List (String × String) → Except MakerError (List (String × String))
  | [] => .ok []
  | (name, hash) :: rest =>
    match M.cloneProperty account name with
    | none => .error .unitPropertyBehind
    | some obj =>
      if M.exec.propertyHash (some obj) ≠ hash then .error .unitPropertyBehind
      else (fullunitPropertys account rest).map ((name, M.serialize obj) :: ·)

def makeFullunitOutput (c : Context) : Except MakerError MakerUnitBody :=
  let (firstUnitHeight, firstUnitHash) := M.lastFullUnit c.address
  (M.fullunitPropertys c.address (M.propertyHashMap c.address)).map fun propertys =>
    .full c.account propertys firstUnitHeight firstUnitHash

def unitBody (c : Context) (prev : StoredBlock) (txs : List ConsTx) :
    Except MakerError MakerUnitBody :=
  if M.canMakeFullUnit c prev then M.makeFullunitOutput c
  else
    match M.exec.makeLightunitOutput c txs with
    | .error e => .error (.exec e)
    | .ok body => .ok (.light body)

/-- The block after `prev` with the given body, as `create_next_lightunit` and
`create_next_fullunit` make it. -/
def nextUnit (prev : StoredBlock) (body : MakerUnitBody) : UnitBlock where
  account := prev.account
  height := prev.height + 1
  lastBlockHash := prev.blockHash
  lastFullBlock := prev.nextLastFull
  body
  cert := { clock := prev.clock + 1, viewid := prev.viewid + 1 }

def createUnit (c : Context) (prev : StoredBlock) (para : ConsensusPara) (txs : List ConsTx)
    (justifyCertHash : String) : Except MakerError UnitBlock :=
  (M.unitBody c prev txs).map fun body =>
    let unit := nextUnit prev body
    { unit with cert := { unit.cert with justifyCertHash }.setConsensusPara para }

def verifyProposalBlockClass (c : Context) (unit : UnitBlock) (latest : StoredBlock) :
    Except MakerError Unit :=
  let canFullunit := M.canMakeFullUnit c latest
  if canFullunit && unit.blockClass ≠ .full then .error .unitShouldBeFullunit
  else if !canFullunit && unit.blockClass ≠ .light then .error .unitShouldBeLightunit
  else .ok ()

def accountContext (account : String) (para : ConsensusPara) : Context :=
  { M.exec.newContext account with
    timerHeight := para.clock
    sysTotalLockTgasToken := para.totalLockTgasToken }

/-- The pool's part of `verify_block`; an input without transactions is not looked at. -/
def verifyTxs (input : UnitInput) (latest : StoredBlock) (c : Context) (committedHeight : Nat)
    (p : P) : Option MakerPoolError × P :=
  if input.inputTxs.isEmpty then (none, p)
  else
    let p := M.pool.updateCommittedUnitBlock latest c.account.sendTransNumber
      c.account.sendTransHash p
    Cert.txsValidityCheckBackup M.pool.verifyConsTx
      (fun t => t.subtype M.exec.config ∈ [.self, .send])
      M.nonceContinous .nonceIncontinuity (M.checkReceipt committedHeight latest.height)
      (c.account.sendTransNumber, c.account.sendTransHash) input.inputTxs p

def makeUnit (input : UnitInput) (latest : StoredBlock) (c : Context) (para : ConsensusPara) :
    Except MakerError UnitBlock :=
  match M.getLockBlockSignHash latest with
  | none => .error .unitStateBehind
  | some justifyCertHash =>
    match M.createUnit c latest para input.inputTxs justifyCertHash with
    | .error e => .error e
    | .ok unit => (M.verifyProposalBlockClass c unit latest).map fun _ => unit

def verifyUnit (input : UnitInput) (para : ConsensusPara) (committedHeight : Nat) (p : P) :
    P × Except MakerError UnitBlock :=
  let latest := M.latestCommittedBlock input.account
  match backupCheckState input latest with
  | .error e => (p, .error e)
  | .ok () =>
    let c := M.accountContext input.account para
    match M.verifyTxs input latest c committedHeight p with
    | (some e, p) => (p, .error (.pool e))
    | (none, p) => (p, M.makeUnit input latest c para)

def createNextTableblock (units : List UnitBlock) (extraData : String) (prev : StoredBlock) :
    MakerTableBlock :=
  let height := prev.height + 1
  let count := units.length % 2 ^ 16
  let units := (units.map fun u => { u with cert := { u.cert with parentHeight := height } }).take
    count
  { account := prev.account
    height
    lastBlockHash := prev.blockHash
    lastFullBlock := prev.nextLastFull
    extraData
    inputs := units.map fun u => ⟨u.account, u.height, M.unitHeaderHash u⟩
    outputs := units.map M.unitSignHash
    units
    cert := { clock := prev.clock + 1, viewid := prev.viewid + 1 } }

def verifyUnits (para : ConsensusPara) (committedHeight : Nat) :
    P → List UnitInput → P × Except MakerError (List UnitBlock)
  | p, [] => (p, .ok [])
  | p, input :: rest =>
    match M.verifyUnit input para committedHeight p with
    | (p, .error e) => (p, .error e)
    | (p, .ok unit) =>
      let (p, units) := verifyUnits para committedHeight p rest
      (p, units.map (unit :: ·))

def verifyOutTableblock (proposal : TableProposal) (table : MakerTableBlock) :
    Except MakerError Unit :=
  if M.tableInputHash table ≠ proposal.inputHash then .error .tableInputHash
  else if M.tableOutputHash table ≠ proposal.outputHash then .error .tableOutputHash
  else if M.tableHeaderHash table ≠ proposal.headerHash then .error .tableHeaderHash
  else if M.tableSignHash table ≠ proposal.hashToSign then .error .badProposal
  else if !M.setResources proposal table then .error .badProposal
  else .ok ()

def localTableblock (proposal : TableProposal) (latestCert : StoredBlock) (para : ConsensusPara)
    (units : List UnitBlock) : MakerTableBlock :=
  let table := M.createNextTableblock units para.extraData latestCert
  { table with
    cert := { table.cert.setConsensusPara para with
      nonce := proposal.cert.nonce
      validator := proposal.cert.validator
      auditor := proposal.cert.auditor
      justifyCertHash := proposal.cert.justifyCertHash } }

def tryVerifyTableblock (proposal : TableProposal) (latestCert : StoredBlock)
    (para : ConsensusPara) (committedHeight : Nat) (p : P) :
    P × Except MakerError (List UnitBlock) :=
  match proposal.input with
  | none | some [] => (p, .error .badProposal)
  | some inputs =>
    match M.verifyUnits para committedHeight p inputs with
    | (p, .error e) => (p, .error e)
    | (p, .ok units) =>
      let table := M.localTableblock proposal latestCert para units
      (p, (M.verifyOutTableblock proposal table).map fun _ => table.units)

def findConnected (account : String) : Nat → Nat → Except MakerError Unit
  | 0, _ => .error .leaderTableblockBehind
  | n + 1, height =>
    match M.loadBlockObject account height with
    | none => .error .leaderTableblockBehind
    | some b =>
      if .committed ∈ b.flags then
        if b.isConnectAndExecuted then .ok () else .error .leaderTableblockBehind
      else findConnected account n (Word.wsub 64 height 1)

def checkCertConnect (latestCert : StoredBlock) : Except MakerError Unit :=
  if latestCert.isGenesis || latestCert.height = 1 then .ok ()
  else if .committed ∈ latestCert.flags || .locked ∈ latestCert.flags then .error .badHeight
  else M.findConnected latestCert.account 7 (latestCert.height - 1)

def findHqc (proposal : TableProposal) : Option StoredBlock :=
  match proposal.prevBlock with
  | some b => some b
  | none => (M.queryBlock proposal.account (proposal.height - 1)).find?
      (·.blockHash = proposal.lastBlockHash)

def checkProposalConnect (proposal : TableProposal) : Except MakerError StoredBlock :=
  match M.findHqc proposal with
  | none => .error .backupTableblockBehind
  | some hqc =>
    match M.checkCertConnect hqc with
    | .error _ => .error .backupTableblockBehind
    | .ok () => .ok hqc

def backupSetConsensusPara (proposal : TableProposal) : Option ConsensusPara := do
  let total ←
    if proposal.extraData = "" then some 0
    else do
      let height ← M.propertyHeight proposal.extraData
      M.totalLockTgasToken proposal.cert.clock height
  some
    { clock := proposal.cert.clock
      validator := proposal.cert.validator
      auditor := proposal.cert.auditor
      viewid := proposal.cert.viewid
      viewtoken := proposal.cert.viewtoken
      drandHeight := proposal.cert.drandHeight
      totalLockTgasToken := total
      extraData := proposal.extraData }

def verifyBlock (proposal : TableProposal) (committedHeight : Nat) (p : P) :
    P × Except MakerError (List UnitBlock) :=
  if proposal.height = 1 ∧ proposal.blockClass = .nil then
    (p, .error .tableblockShouldNotEmptyBlock)
  else
    match M.checkProposalConnect proposal with
    | .error e => (p, .error e)
    | .ok latestCert =>
      if proposal.blockClass = .nil then (p, .ok [])
      else
        match M.backupSetConsensusPara proposal with
        | none => (p, .error .checkConsensusPara)
        | some para => M.tryVerifyTableblock proposal latestCert para committedHeight p

/-- The unit is the next one of the account. -/
structure Succeeds (u : UnitBlock) (b : StoredBlock) : Prop where
  account : u.account = b.account
  height : u.height = b.height + 1
  lastBlockHash : u.lastBlockHash = b.blockHash

variable {M}

variable {para : ConsensusPara} {units : List UnitBlock} {proposal : TableProposal}

theorem makeUnit_succeeds {input : UnitInput} {latest : StoredBlock} {c : Context} {u : UnitBlock}
    (h : M.makeUnit input latest c para = .ok u) :
    Succeeds u latest := by
  unfold makeUnit at h
  split at h
  · cases h
  · split at h
    · cases h
    · rename_i unit hunit
      obtain ⟨_, _, rfl⟩ := exists_of_map_eq_ok h
      obtain ⟨body, -, rfl⟩ := exists_of_map_eq_ok hunit
      exact ⟨rfl, rfl, rfl⟩

theorem verifyUnit_succeeds {input : UnitInput} {committedHeight : Nat} {p p' : P} {u : UnitBlock}
    (h : M.verifyUnit input para committedHeight p = (p', .ok u)) :
    Succeeds u (M.latestCommittedBlock input.account) := by
  unfold verifyUnit at h
  dsimp only at h
  split at h
  · cases h
  · split at h
    · cases h
    · exact makeUnit_succeeds (congrArg Prod.snd h)

structure UnitsOf (M : MakerEnv P) (inputs : List UnitInput) (units : List UnitBlock) : Prop where
  accounts : units.map (·.account) = inputs.map (·.account)
  next : ∀ u ∈ units, Succeeds u (M.latestCommittedBlock u.account)

theorem verifyUnits_unitsOf {inputs : List UnitInput} {committedHeight : Nat} {p p' : P}
    (h : M.verifyUnits para committedHeight p inputs = (p', .ok units)) :
    M.UnitsOf inputs units := by
  induction inputs generalizing p units with
  | nil =>
    cases h
    exact ⟨rfl, fun _ hu => absurd hu not_mem_nil⟩
  | cons input rest ih =>
    rw [verifyUnits] at h
    split at h
    · cases h
    · rename_i p₁ unit hunit
      simp only [Prod.mk.injEq] at h
      obtain ⟨hp, hmap⟩ := h
      obtain ⟨tail, htail, rfl⟩ := exists_of_map_eq_ok hmap
      have hrest := ih (Prod.ext hp htail)
      have hsucc := verifyUnit_succeeds hunit
      have haccount : unit.account = input.account :=
        hsucc.account.trans (M.latestCommittedBlock_account input.account)
      constructor
      · rw [map_cons, map_cons, haccount, hrest.accounts]
      · intro u hu
        rcases mem_cons.mp hu with rfl | hu
        · exact haccount ▸ hsucc
        · exact hrest.next u hu

theorem localTableblock_units {latestCert : StoredBlock} :
    (M.localTableblock proposal latestCert para units).units =
      (units.map fun u => { u with cert := { u.cert with parentHeight := latestCert.height + 1 } }
        ).take (units.length % 2 ^ 16) :=
  rfl

/-- The accounts of the inputs that become units: the number of units is 16-bit. -/
def unitAccounts (inputs : List UnitInput) : List String :=
  (inputs.map (·.account)).take (inputs.length % 2 ^ 16)

theorem localTableblock_accounts {latestCert : StoredBlock} {inputs : List UnitInput}
    (h : M.UnitsOf inputs units) :
    (M.localTableblock proposal latestCert para units).units.map (·.account) =
        unitAccounts inputs ∧
      ∀ u ∈ (M.localTableblock proposal latestCert para units).units,
        Succeeds u (M.latestCommittedBlock u.account) := by
  rw [localTableblock_units]
  constructor
  · have hlength : units.length = inputs.length := by
      simpa only [length_map] using congrArg List.length h.accounts
    rw [map_take, map_map, unitAccounts, ← h.accounts, hlength]
    rfl
  · intro u hu
    obtain ⟨v, hv, rfl⟩ := mem_map.mp (mem_of_mem_take hu)
    have hnext := h.next v hv
    exact ⟨hnext.account, hnext.height, hnext.lastBlockHash⟩

theorem verifyBlock_cases {committedHeight : Nat} {p p' : P}
    (h : M.verifyBlock proposal committedHeight p = (p', .ok units)) :
    proposal.blockClass = .nil ∧ units = [] ∨
    proposal.blockClass ≠ .nil ∧ ∃ inputs made latestCert para, proposal.input = some inputs ∧
      M.UnitsOf inputs made ∧
      units = (M.localTableblock proposal latestCert para made).units := by
  unfold verifyBlock at h
  split at h
  · cases h
  · split at h
    · cases h
    · rename_i latestCert _
      split at h
      · rename_i hnil
        cases h
        exact .inl ⟨hnil, rfl⟩
      · rename_i hlight
        split at h
        · cases h
        · rename_i para _
          unfold tryVerifyTableblock at h
          split at h
          · cases h
          · cases h
          · rename_i inputs _ hinputs
            split at h
            · cases h
            · rename_i p₁ made hmade
              obtain ⟨_, _, hunits⟩ := exists_of_map_eq_ok (congrArg Prod.snd h)
              exact .inr ⟨hlight, inputs, made, latestCert, para, hinputs,
                verifyUnits_unitsOf hmade, hunits.symm⟩

/-- The units of an accepted proposal, each the next one of its account, have different accounts if
and only if the proposal is an empty block or its inputs name different ones. -/
theorem accepted_units_distinct {proposal : TableProposal} {committedHeight : Nat} {p p' : P}
    {units : List UnitBlock}
    (h : M.verifyBlock proposal committedHeight p = (p', .ok units)) :
    ((units.map (·.account)).Nodup ↔
      proposal.blockClass = .nil ∨ ∀ inputs ∈ proposal.input, (unitAccounts inputs).Nodup) ∧
      ∀ u ∈ units, Succeeds u (M.latestCommittedBlock u.account) := by
  obtain ⟨hnil, rfl⟩ | ⟨hlight, inputs, made, latestCert, para, hinputs, hmade, rfl⟩ :=
    verifyBlock_cases h
  · exact ⟨iff_of_true nodup_nil (.inl hnil), fun _ hu => absurd hu not_mem_nil⟩
  · obtain ⟨haccounts, hnext⟩ := localTableblock_accounts hmade
    refine ⟨?_, hnext⟩
    rw [haccounts, hinputs, or_iff_right hlight]
    simp

def genesisOf (account : String) : StoredBlock :=
  ⟨account, 0, account ++ "0", .nil, true, 0, 0, "", 0, "", ∅⟩

/-- Every account has its genesis block and the same balance. -/
def newChain : MakerEnv Unit where
  exec := { ExecEnv.plain with
    newContext := fun account => .new account { balance := 1000000000 } .empty 0 0 }
  pool := ⟨fun _ _ _ p => p, fun _ => none, fun _ _ => pure none, fun _ _ => pure none⟩
  latestCommittedBlock := genesisOf
  latestCommittedBlock_account _ := rfl
  loadBlockObject _ _ := none
  queryBlock _ _ := []
  propertyHashMap _ := []
  cloneProperty _ _ := none
  serialize _ := ""
  lastFullUnit _ := (0, "")
  propertyHeight _ := none
  totalLockTgasToken _ _ := none
  unitHeaderHash u := u.account ++ u.lastBlockHash ++ u.balanceChange.repr
  unitSignHash u := u.account ++ u.cert.justifyCertHash ++ u.balanceChange.repr
  tableInputHash t := String.join (t.inputs.map (·.unitHeaderHash))
  tableOutputHash t := String.join t.outputs
  tableHeaderHash t := t.account ++ t.lastBlockHash ++ t.extraData
  tableSignHash t := t.account ++ t.cert.viewid.repr ++ String.join t.outputs
  setResources _ _ := true

def firstTransfer (account : String) (amount : UInt64) : UnitInput where
  account
  lastBlockHeight := 0
  lastBlockHash := account ++ "0"
  inputTxs := [{ tx := ⟨.transfer ⟨"TOP", amount⟩ ⟨"TOP", amount⟩, account, "B", 100000, 100, 0, 0,
    "h"⟩ }]

def proposalOf (inputs : List UnitInput) : TableProposal :=
  let bare : TableProposal :=
    { account := "T", height := 1, lastBlockHash := "T0", blockClass := .light
      prevBlock := some (genesisOf "T"), extraData := ""
      cert := { clock := 5, viewid := 2, validator := ⟨1, 1⟩ }
      input := some inputs, inputHash := "", outputHash := "", headerHash := "", hashToSign := "" }
  match newChain.backupSetConsensusPara bare with
  | none => bare
  | some para =>
    match newChain.verifyUnits para 0 () inputs with
    | (_, .error _) => bare
    | (_, .ok units) =>
      let table := newChain.localTableblock bare (genesisOf "T") para units
      { bare with
        inputHash := newChain.tableInputHash table
        outputHash := newChain.tableOutputHash table
        headerHash := newChain.tableHeaderHash table
        hashToSign := newChain.tableSignHash table }

theorem proposalOf_input (inputs : List UnitInput) : (proposalOf inputs).input = some inputs := by
  unfold proposalOf
  dsimp only
  split
  · rfl
  · split
    · rfl
    · rfl

def acceptedChanges (inputs : List UnitInput) : Except MakerError (List (String × Nat × Int)) :=
  (newChain.verifyBlock (proposalOf inputs) 0 ()).2.map fun units =>
    units.map fun u => (u.account, u.height, u.balanceChange)

theorem accepted_units_distinct_sample :
    ∃ units, newChain.verifyBlock (proposalOf [firstTransfer "A" 600000000,
        firstTransfer "C" 500000000]) 0 () = ((), .ok units) ∧
      units.length = 2 ∧ (units.map (·.account)).Nodup := by
  have hchanges : acceptedChanges [firstTransfer "A" 600000000, firstTransfer "C" 500000000] =
      .ok [("A", 1, -600100000), ("C", 1, -500100000)] := by decide +kernel
  obtain ⟨units, hunits, hmap⟩ := exists_of_map_eq_ok hchanges
  have hlength : units.length = 2 := by
    have hlengths := congrArg List.length hmap
    rw [length_map] at hlengths
    exact hlengths
  have hverify : newChain.verifyBlock (proposalOf [firstTransfer "A" 600000000,
      firstTransfer "C" 500000000]) 0 () = ((), .ok units) := Prod.ext rfl hunits
  exact ⟨units, hverify, hlength,
    (accepted_units_distinct hverify).1.mpr (.inr (by rw [proposalOf_input]; decide))⟩

theorem one_account_twice :
    acceptedChanges [firstTransfer "A" 600000000, firstTransfer "A" 500000000] =
      .ok [("A", 1, -600100000), ("A", 1, -500100000)] := by
  decide +kernel

end MakerEnv
end TopChain.TxExecutor
