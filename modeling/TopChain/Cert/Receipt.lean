import TopChain.Cert.Certauth

/-!
# Receipts of cross-account transactions

`xtxpool_table_t::verify_receipt_tx` with `xcons_transaction_t`, `xtx_receipt_t` and
`xprove_cert_t`.
-/
namespace TopChain.Cert

open Option TopChain.Base

inductive TxSubtype where
  | self | send | recv | confirm
deriving DecidableEq, Repr

structure LightunitOutput where
  txHash : String
  subtype : TxSubtype
  execState : String
deriving DecidableEq

inductive ProveType where
  | outputRoot | justifyCert
deriving DecidableEq, Repr

structure ProveCert (𝔾 : Type) where
  proveCert : Option (Qcert 𝔾)
  proveType : UInt8
  provePath : String

def ProveCert.kind {𝔾 : Type} (p : ProveCert 𝔾) : Option ProveType :=
  match (p.proveType &&& 0x0F).toNat with
  | 0 => some .outputRoot
  | 1 => some .justifyCert
  | _ => none

def ProveCert.proveClass {𝔾 : Type} (p : ProveCert 𝔾) : UInt8 := (p.proveType >>> 4) &&& 0x0F

structure TxReceipt (𝔾 : Type) where
  txInfo : LightunitOutput
  txInfoProve : ProveCert 𝔾
  commitProve : ProveCert 𝔾

structure ConsTransaction (𝔾 : Type) where
  digest : String
  digestOk : Bool
  sourceAddr : String
  targetAddr : String
  toBlackHole : Bool
  wireSubtype : TxSubtype
  receipt : Option (TxReceipt 𝔾)

namespace ConsTransaction
variable {𝔾 : Type} (tx : ConsTransaction 𝔾)

def subtype : TxSubtype :=
  match tx.receipt with
  | none => if tx.sourceAddr = tx.targetAddr || tx.toBlackHole then .self else .send
  | some r =>
    match r.txInfo.subtype with
    | .send => .recv
    | .recv => .confirm
    | _ => tx.wireSubtype

def IsReceiptTx : Prop := tx.subtype = .recv ∨ tx.subtype = .confirm

def receiptSourceAccount : String :=
  if tx.subtype = .recv then tx.sourceAddr else tx.targetAddr

end ConsTransaction

/-- `txs_validity_check_backup`: a send goes on from the nonce and hash of the one before it
(`nonce_continous`), and the check of a receipt is a step of the pool. -/
def txsValidityCheckBackup {m : Type → Type} [Monad m] {τ σ ε : Type}
    (verifyConsTx : τ → Option ε) (isSource : τ → Bool) (nonceContinous : σ → τ → Option σ)
    (incontinuity : ε) (checkReceipt : τ → m (Option ε)) : σ → List τ → m (Option ε)
  | _, [] => pure none
  | last, tx :: rest =>
    let more last := txsValidityCheckBackup verifyConsTx isSource nonceContinous incontinuity
      checkReceipt last rest
    match verifyConsTx tx with
    | some e => pure (some e)
    | none =>
      if isSource tx then
        match nonceContinous last tx with
        | some last => more last
        | none => pure (some incontinuity)
      else do
        match ← checkReceipt tx with
        | some e => pure (some e)
        | none => more last

structure ReceiptEnv (𝔾 η : Type) extends QcertChecks 𝔾 η where
  verifyMutiSign : Qcert 𝔾 → String → AuthResult
  merkleLeaf : LightunitOutput → String
  blockAddress : String → String

inductive ReceiptResult where
  | success | receiptInvalid | multiSignError
deriving DecidableEq, Repr

namespace ReceiptEnv
variable {𝔾 η : Type} (e : ReceiptEnv 𝔾 η)

def rootOf (c : QcertBody) : ProveType → String
  | .outputRoot => c.outputRootHash
  | .justifyCert => c.justifyCertHash

def proveValid (p : ProveCert 𝔾) (object : String) : Bool :=
  match p.proveCert, p.kind with
  | some c, some kind =>
    if p.proveClass ≠ 0 ∧ p.proveClass ≠ 1 then false
    else if p.provePath ≠ "" then
      let path := e.readPath p.provePath
      path.1 && e.merkle.validatePath object (rootOf c.body kind) path.2
    else object = rootOf c.body kind
  | _, _ => false

def receiptValid (r : TxReceipt 𝔾) : Bool :=
  (r.txInfo.subtype = .send || r.txInfo.subtype = .recv)
    && e.proveValid r.txInfoProve (e.merkleLeaf r.txInfo)
    && match r.txInfoProve.proveCert with
      | none => false
      | some unitCert => e.proveValid r.commitProve (e.hashToSign unitCert.body)

def verifyConsTransaction (tx : ConsTransaction 𝔾) : Bool :=
  if tx.subtype = .recv ∨ tx.subtype = .confirm then
    match tx.receipt with
    | none => false
    | some r => tx.digest = r.txInfo.txHash && e.receiptValid r
  else true

def commitProveAccount (tx : ConsTransaction 𝔾) (r : TxReceipt 𝔾) : String :=
  if r.txInfoProve.proveClass = 1 then e.blockAddress tx.receiptSourceAccount
  else tx.receiptSourceAccount

def verifyReceiptTx (tx : ConsTransaction 𝔾) : ReceiptResult :=
  if !tx.digestOk then .receiptInvalid
  else if !e.verifyConsTransaction tx then .receiptInvalid
  else match tx.receipt with
  | none => .multiSignError
  | some r =>
    match r.commitProve.proveCert with
    | none => .multiSignError
    | some c =>
      if e.verifyMutiSign c (e.commitProveAccount tx r) = .successful then .success
      else .multiSignError

/-- What a quorum signed, what a Merkle root stands for, and the account of a certificate. -/
structure Meaning (𝔾 : Type) where
  quorumSigned : Qcert 𝔾 → Prop
  inTree : (root leaf : String) → Prop
  accountOf : QcertBody → String

/-- The checks of the code give what the words mean. -/
structure Meaning.Sound (m : Meaning 𝔾) : Prop where
  quorum : ∀ c account, e.verifyMutiSign c account = .successful → m.quorumSigned c
  merkle : ∀ v root path, e.merkle.validatePath v root path = true → m.inTree root v

/-- The result is an output of a unit of a table block whose output root is the justify hash of a
block that a quorum signed, of the table of the source account. -/
def Proves (m : Meaning 𝔾) (tx : ConsTransaction 𝔾) : Prop :=
  ∃ r unitCert tableCert, tx.receipt = some r ∧ tx.digest = r.txInfo.txHash ∧
    r.txInfoProve.proveCert = some unitCert ∧ r.commitProve.proveCert = some tableCert ∧
    m.inTree unitCert.body.outputRootHash (e.merkleLeaf r.txInfo) ∧
    m.inTree tableCert.body.justifyCertHash (e.hashToSign unitCert.body) ∧
    m.quorumSigned tableCert ∧
    m.accountOf tableCert.body = e.blockAddress tx.receiptSourceAccount

/-- The kinds of the two proofs, and whether the certificate is of the source account's table. -/
structure Shape where
  txKind : ProveType
  txPath : Bool
  commitKind : ProveType
  commitPath : Bool
  ofSourceTable : Bool
deriving DecidableEq

def shape (m : Meaning 𝔾) (tx : ConsTransaction 𝔾) : Option Shape := do
  let r ← tx.receipt
  let txKind ← r.txInfoProve.kind
  let commitKind ← r.commitProve.kind
  let c ← r.commitProve.proveCert
  return ⟨txKind, r.txInfoProve.provePath ≠ "", commitKind, r.commitProve.provePath ≠ "",
    m.accountOf c.body = e.blockAddress tx.receiptSourceAccount⟩

def Shape.made : Shape := ⟨.outputRoot, true, .justifyCert, true, true⟩

theorem proveValid_inTree {m : Meaning 𝔾} (hm : m.Sound e) {p : ProveCert 𝔾} {c : Qcert 𝔾}
    {kind : ProveType} {object : String} (hc : p.proveCert = some c) (hkind : p.kind = some kind)
    (hpath : p.provePath ≠ "") (h : e.proveValid p object = true) :
    m.inTree (rootOf c.body kind) object := by
  simp only [proveValid, hc, hkind] at h
  split_ifs at h
  simp only [Bool.and_eq_true] at h
  exact hm.merkle _ _ _ h.2

variable {tx : ConsTransaction 𝔾}

theorem verifyReceiptTx_success (htx : tx.IsReceiptTx) (h : e.verifyReceiptTx tx = .success) :
    ∃ r unitCert c, tx.receipt = some r ∧ tx.digest = r.txInfo.txHash ∧
      r.txInfoProve.proveCert = some unitCert ∧ r.commitProve.proveCert = some c ∧
      e.proveValid r.txInfoProve (e.merkleLeaf r.txInfo) = true ∧
      e.proveValid r.commitProve (e.hashToSign unitCert.body) = true ∧
      e.verifyMutiSign c (e.commitProveAccount tx r) = .successful := by
  unfold verifyReceiptTx at h
  split at h
  · cases h
  split at h
  · cases h
  next hcons =>
  split at h
  · cases h
  next r hr =>
  split at h
  · cases h
  next c hc =>
  split_ifs at h with hsign
  have htx' : tx.subtype = .recv ∨ tx.subtype = .confirm := htx
  rw [Bool.not_eq_true, Bool.not_eq_false', verifyConsTransaction, if_pos htx', hr] at hcons
  simp only [Bool.and_eq_true, decide_eq_true_eq, receiptValid] at hcons
  obtain ⟨hdigest, ⟨-, htxp⟩, hcommit⟩ := hcons
  cases hu : r.txInfoProve.proveCert with
  | none => simp [hu] at hcommit
  | some unitCert =>
    simp only [hu] at hcommit
    exact ⟨r, unitCert, c, hr, hdigest, hu, hc, htxp, hcommit, hsign⟩

theorem proves_of_made {m : Meaning 𝔾} (hm : m.Sound e) (htx : tx.IsReceiptTx)
    (hshape : e.shape m tx = some .made) (haccept : e.verifyReceiptTx tx = .success) :
    e.Proves m tx := by
  obtain ⟨r, unitCert, c, hr, hdigest, hu, hc, htxp, hcommit, hsign⟩ :=
    e.verifyReceiptTx_success htx haccept
  simp only [shape, hr, hc, bind_eq_bind, bind_some, bind_eq_some_iff,
    pure_def, some_inj, Shape.made, Shape.mk.injEq, decide_eq_true_eq] at hshape
  obtain ⟨txKind, htk, commitKind, hck, rfl, htpath, rfl, hcpath, htable⟩ := hshape
  exact ⟨r, unitCert, c, hr, hdigest, hu, hc, e.proveValid_inTree hm hu htk htpath htxp,
    e.proveValid_inTree hm hc hck hcpath hcommit, hm.quorum c _ hsign, htable⟩

namespace Sample

def env : ReceiptEnv Unit String where
  merkle := ⟨some, fun v => "#" ++ v⟩
  hashToSign := fun b => b.headerHash
  isDeliver := fun _ _ _ _ _ => true
  validatorThreshold := fun _ => 1
  auditorThreshold := fun _ => 1
  readPath := fun _ => (true, [])
  verifyMutiSign := fun _ _ => .successful
  merkleLeaf := fun info => info.execState
  blockAddress := fun account => "table of " ++ account

def meaning : Meaning Unit where
  quorumSigned := fun c => env.verifyMutiSign c "" = .successful
  inTree := fun root leaf => ∃ path, env.merkle.validatePath leaf root path = true
  accountOf := fun b => b.inputRootHash

theorem meaning_sound : meaning.Sound env :=
  ⟨fun _ _ _ => rfl, fun _ _ path h => ⟨path, h⟩⟩

def certFor (kind : ProveType) (path : Bool) (object header account : String) : Qcert Unit :=
  let root := if path then "#" ++ object else object
  ⟨{ clock := 1, viewid := 1, viewtoken := 1, validator := ⟨1, 0⟩, auditor := ⟨2, 0⟩,
     headerHash := header, inputRootHash := account,
     outputRootHash := if kind = .outputRoot then root else "none",
     justifyCertHash := if kind = .justifyCert then root else "none",
     consensus := 0x48, cryptos := 8 }, none, none, "", none⟩

def proveFor (kind : ProveType) (path : Bool) (object header account : String) : ProveCert Unit :=
  ⟨some (certFor kind path object header account), if kind = .outputRoot then 0 else 1,
    if path then "path" else ""⟩

def txOf (sh : Shape) : ConsTransaction Unit where
  digest := "tx"
  digestOk := true
  sourceAddr := "alice"
  targetAddr := "bob"
  toBlackHole := false
  wireSubtype := .send
  receipt := some
    { txInfo := ⟨"tx", .send, "result"⟩
      txInfoProve := proveFor sh.txKind sh.txPath "result" "unit" ""
      commitProve := proveFor sh.commitKind sh.commitPath "unit" "block"
        (if sh.ofSourceTable then "table of alice" else "elsewhere") }

theorem txOf_accepted : ∀ sh : Shape, (txOf sh).subtype = .recv ∧
    env.shape meaning (txOf sh) = some sh ∧ env.verifyReceiptTx (txOf sh) = .success := by
  rintro ⟨_ | _, _ | _, _ | _, _ | _, _ | _⟩ <;> decide

theorem not_inTree {root leaf : String} (hroot : root.toList.head? ≠ some '#') :
    ¬ meaning.inTree root leaf := by
  rintro ⟨path, h⟩
  obtain ⟨v, rfl⟩ := MerkleHash.validatePath_root _ h
  apply hroot
  simp [env]

theorem inTree_certFor {kind k : ProveType} {path : Bool} {object header account leaf : String}
    (hobject : object.toList.head? ≠ some '#')
    (h : meaning.inTree (rootOf (certFor kind path object header account).body k) leaf) :
    kind = k ∧ path = true := by
  by_contra hne
  refine not_inTree ?_ h
  cases kind <;> cases k <;> cases path <;> simp_all [rootOf, certFor]

theorem made_of_proves {sh : Shape} (h : env.Proves meaning (txOf sh)) : sh = .made := by
  obtain ⟨r, unitCert, c, hr, -, hu, hc, htx, hcommit, -, htable⟩ := h
  obtain rfl := Option.some.inj hr
  obtain rfl := Option.some.inj hu
  obtain rfl := Option.some.inj hc
  obtain ⟨hkind, hpath⟩ := inTree_certFor (k := .outputRoot) (by decide) htx
  obtain ⟨hckind, hcpath⟩ := inTree_certFor (k := .justifyCert) (by decide) hcommit
  have hof : sh.ofSourceTable = true := by
    by_contra hne
    have haccount : (txOf sh).receiptSourceAccount = "alice" := rfl
    simp only [meaning, certFor, hne, haccount] at htable
    exact absurd htable (by decide)
  obtain ⟨_, _, _, _, _⟩ := sh
  simp_all [Shape.made]

end Sample

/-- Every accepted receipt of a shape proves a committed transaction exactly when the shape is the
one the program makes. -/
theorem receipt_proves_iff (sh : Shape) :
    (∀ (𝔾 η : Type) (e : ReceiptEnv 𝔾 η) (m : Meaning 𝔾), m.Sound e →
      ∀ tx : ConsTransaction 𝔾, tx.IsReceiptTx → e.shape m tx = some sh →
        e.verifyReceiptTx tx = .success → e.Proves m tx) ↔ sh = .made := by
  constructor
  · intro h
    obtain ⟨hrecv, hshape, haccept⟩ := Sample.txOf_accepted sh
    exact Sample.made_of_proves
      (h Unit String Sample.env Sample.meaning Sample.meaning_sound _ (.inl hrecv) hshape haccept)
  · rintro rfl 𝔾 η e m hm tx htx hshape haccept
    exact e.proves_of_made hm htx hshape haccept

theorem certified_receipt_accepted :
    Sample.meaning.Sound Sample.env ∧
    (Sample.txOf ⟨.outputRoot, true, .outputRoot, true, true⟩).IsReceiptTx ∧
    Sample.env.verifyReceiptTx (Sample.txOf ⟨.outputRoot, true, .outputRoot, true, true⟩)
      = .success ∧
    ¬ Sample.env.Proves Sample.meaning (Sample.txOf ⟨.outputRoot, true, .outputRoot, true, true⟩) :=
  ⟨Sample.meaning_sound, .inl (by decide), by decide,
    fun h => absurd (Sample.made_of_proves h) (by decide)⟩

end ReceiptEnv
end TopChain.Cert
