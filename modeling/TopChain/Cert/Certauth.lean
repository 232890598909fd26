import TopChain.Cert.Qcert

/-!
# Verification of certificates (`xcertauth/src/xcertauth.cpp`)

`verify_muti_sign` on a certificate: its groups, its thresholds and the signatures.
-/
namespace TopChain.Cert

open TopChain.Base TopChain.Sign

inductive AuthResult where
  | successful | verifyFail | badCert | badBlock | badAddress | badSignature | badScheme
  | badConsensus | nodesNotfound | nodesToofew | nodesUnactived
deriving DecidableEq, Repr

structure Certauth (𝔾 η : Type) [AddCommGroup 𝔾] extends QcertChecks 𝔾 η where
  scheme : Schnorrsig 𝔾
  getGroup : Xvip2 → Option XvNodeGroup

namespace Certauth
variable {𝔾 η : Type} [AddCommGroup 𝔾] [DecidableEq 𝔾] (a : Certauth 𝔾 η)

def typeXhbft : UInt8 := 2

def schemeSchnorr : UInt8 := 1

def schemeResult (accepted : Bool) : AuthResult := if accepted then .successful else .verifyFail

def verifyValidatorMutisig (hash : String) (c : Qcert 𝔾) (ex : Excluded) : AuthResult × Excluded :=
  if c.body.consensusType ≠ typeXhbft then (.badConsensus, ex)
  else match a.getGroup c.body.validator with
  | none => (.nodesNotfound, ex)
  | some g =>
    if c.body.clock < g.effectClock then (.nodesUnactived, ex)
    else if c.body.validator.groupNodesCount.toNat ≠ g.size then (.badAddress, ex)
    else
      let res := a.scheme.verifyMutiSign g (a.validatorThreshold c.body) hash
        c.verifySignature c.body.token ex
      (schemeResult res.1, res.2)

def verifyAuditorMutisig (hash : String) (c : Qcert 𝔾) (ex : Excluded) : AuthResult × Excluded :=
  if c.body.consensusType ≠ typeXhbft then (.badConsensus, ex)
  else match a.getGroup c.body.auditor with
  | none => (.nodesNotfound, ex)
  | some g =>
    if c.body.auditor.groupNodesCount.toNat ≠ g.size then (.badAddress, ex)
    else
      let res := a.scheme.verifyMutiSign g (a.auditorThreshold c.body) hash
        c.auditSignature c.body.token ex
      (schemeResult res.1, res.2)

def verifyMutiSignImpl (c : Qcert 𝔾) : AuthResult :=
  if !a.deliver c then .badCert
  else if c.body.cryptoSignType ≠ schemeSchnorr then .badScheme
  else if c.body.validator.low &&& 0xFFFFFC00 = c.body.auditor.low &&& 0xFFFFFC00 then
    .badAddress
  else if c.body.auditFlag && c.body.validator.clusterId ≠ c.body.auditor.clusterId then
    .badAddress
  else
    let hash := a.hashToSign c.body
    let res := a.verifyValidatorMutisig hash c .empty
    if res.1 ≠ .successful then res.1
    else if c.body.auditFlag then (a.verifyAuditorMutisig hash c res.2).1
    else .successful

def verifyMutiSign (c : Qcert 𝔾) (account : String) : AuthResult :=
  if account = "" then .badAddress
  else if c.body.extendFlag then
    match c.extendCert with
    | none => .badCert
    | some parent => a.verifyMutiSignImpl parent
  else a.verifyMutiSignImpl c

/-- The scheme accepted `sig` of the group `g` over the sign hash of `b`, for the key `P`. -/
structure GroupSigned (b : QcertBody) (addr : Xvip2) (threshold : UInt32)
    (sig : Option (MutisigData 𝔾)) (ex : Excluded) (g : XvNodeGroup) (s : MutisigData 𝔾)
    (P : 𝔾) : Prop where
  group_eq : a.getGroup addr = some g
  size_eq : addr.groupNodesCount.toNat = g.size
  sig_eq : sig = some s
  hash_ne : a.hashToSign b ≠ ""
  token_eq : s.token = b.token
  signable : a.scheme.Signable g threshold b.token ex s.nodebits P
  verified : a.scheme.verifySign (a.hashToSign b) P s.sign s.point = true

theorem schemeResult_eq (accepted : Bool) :
    schemeResult accepted = .successful ↔ accepted = true := by
  cases accepted <;> simp [schemeResult]

section
variable {b : QcertBody} {addr : Xvip2} {threshold : UInt32} {sig : Option (MutisigData 𝔾)}
  {ex : Excluded} {g : XvNodeGroup}

theorem groupSigned_iff
    (hg : a.getGroup addr = some g) (hsize : addr.groupNodesCount.toNat = g.size) :
    (a.scheme.verifyMutiSign g threshold (a.hashToSign b) sig b.token ex).1 = true ↔
      ∃ s P, a.GroupSigned b addr threshold sig ex g s P := by
  rw [Schnorrsig.verifyMutiSign_iff]
  constructor
  · rintro ⟨s, P, hsig, hhash, htoken, hs, hv⟩
    exact ⟨s, P, hg, hsize, hsig, hhash, htoken, hs, hv⟩
  · rintro ⟨s, P, h⟩
    exact ⟨s, P, h.sig_eq, h.hash_ne, h.token_eq, h.signable, h.verified⟩

theorem GroupSigned.excluded_eq {s : MutisigData 𝔾} {P : 𝔾}
    (h : a.GroupSigned b addr threshold sig ex g s P) :
    (a.scheme.verifyMutiSign g threshold (a.hashToSign b) sig b.token ex).2 =
      (collect g s.nodebits ex).excluded := by
  rw [h.sig_eq]
  exact a.scheme.verifyMutiSign_excluded h.hash_ne h.token_eq h.signable

end

def ValidatorsSigned (c : Qcert 𝔾) (g : XvNodeGroup) (s : MutisigData 𝔾) : Prop :=
  c.body.consensusType = typeXhbft ∧ g.effectClock ≤ c.body.clock ∧
    ∃ P, a.GroupSigned c.body c.body.validator (a.validatorThreshold c.body) c.verifySignature
      .empty g s P

def AuditorsSigned (c : Qcert 𝔾) (col : Collected) (g : XvNodeGroup) (s : MutisigData 𝔾) : Prop :=
  ∃ P, a.GroupSigned c.body c.body.auditor (a.auditorThreshold c.body) c.auditSignature
    col.excluded g s P

variable {c : Qcert 𝔾}

theorem verifyValidatorMutisig_ok :
    (a.verifyValidatorMutisig (a.hashToSign c.body) c .empty).1 = .successful ↔
      ∃ g s, a.ValidatorsSigned c g s := by
  unfold verifyValidatorMutisig
  constructor
  · intro h
    split_ifs at h with htype
    split at h
    · cases h
    next g hg =>
    split_ifs at h with hclock hsize
    obtain ⟨s, P, hs⟩ := (a.groupSigned_iff hg (not_not.mp hsize)).mp ((schemeResult_eq _).mp h)
    exact ⟨g, s, not_not.mp htype, not_lt.mp hclock, P, hs⟩
  · rintro ⟨g, s, htype, hclock, P, hs⟩
    have hok := (a.groupSigned_iff hs.group_eq hs.size_eq).mpr ⟨s, P, hs⟩
    simp [htype, hs.group_eq, not_lt.mpr hclock, hs.size_eq, schemeResult, hok]

theorem verifyValidatorMutisig_excluded {g : XvNodeGroup} {s : MutisigData 𝔾}
    (h : a.ValidatorsSigned c g s) :
    (a.verifyValidatorMutisig (a.hashToSign c.body) c .empty).2 =
      (collect g s.nodebits .empty).excluded := by
  obtain ⟨htype, hclock, P, hs⟩ := h
  simp [verifyValidatorMutisig, htype, hs.group_eq, not_lt.mpr hclock, hs.size_eq, hs.excluded_eq]

theorem verifyAuditorMutisig_ok {col : Collected} (htype : c.body.consensusType = typeXhbft) :
    (a.verifyAuditorMutisig (a.hashToSign c.body) c col.excluded).1 = .successful ↔
      ∃ g s, a.AuditorsSigned c col g s := by
  unfold verifyAuditorMutisig
  constructor
  · intro h
    split_ifs at h
    split at h
    · cases h
    next g hg =>
    split_ifs at h with hsize
    obtain ⟨s, P, hs⟩ := (a.groupSigned_iff hg (not_not.mp hsize)).mp ((schemeResult_eq _).mp h)
    exact ⟨g, s, P, hs⟩
  · rintro ⟨g, s, P, hs⟩
    have hok := (a.groupSigned_iff hs.group_eq hs.size_eq).mpr ⟨s, P, hs⟩
    simp [htype, hs.group_eq, hs.size_eq, schemeResult, hok]

structure HeaderOk (c : Qcert 𝔾) : Prop where
  deliver : a.deliver c = true
  scheme : c.body.cryptoSignType = schemeSchnorr
  groups_ne : c.body.validator.low &&& 0xFFFFFC00 ≠ c.body.auditor.low &&& 0xFFFFFC00
  cluster : c.body.auditFlag = true → c.body.validator.clusterId = c.body.auditor.clusterId

theorem verifyMutiSignImpl_iff :
    a.verifyMutiSignImpl c = .successful ↔ a.HeaderOk c ∧ ∃ g s, a.ValidatorsSigned c g s ∧
      (c.body.auditFlag = true →
        ∃ g' s', a.AuditorsSigned c (collect g s.nodebits .empty) g' s') := by
  unfold verifyMutiSignImpl
  constructor
  · intro h
    dsimp only at h
    split at h
    · cases h
    split at h
    · cases h
    split at h
    · cases h
    split at h
    · cases h
    next h1 h2 h3 h4 =>
    have hheader : a.HeaderOk c := by
      refine ⟨by simpa using h1, not_not.mp h2, h3, fun hflag => ?_⟩
      simpa [hflag] using h4
    split at h
    · next hval => exact absurd h hval
    next hval =>
    obtain ⟨g, s, hs⟩ := a.verifyValidatorMutisig_ok.mp (not_not.mp hval)
    refine ⟨hheader, g, s, hs, fun hflag => ?_⟩
    rw [if_pos hflag, a.verifyValidatorMutisig_excluded hs, a.verifyAuditorMutisig_ok hs.1] at h
    exact h
  · rintro ⟨hh, g, s, hval, haud⟩
    have hcluster : ¬ ((c.body.auditFlag &&
        decide (c.body.validator.clusterId ≠ c.body.auditor.clusterId)) = true) := by
      simpa using hh.cluster
    rw [if_neg (by simp [hh.deliver]), if_neg (not_not.mpr hh.scheme), if_neg hh.groups_ne,
      if_neg hcluster]
    rw [if_neg (not_not.mpr (a.verifyValidatorMutisig_ok.mpr ⟨g, s, hval⟩)),
      a.verifyValidatorMutisig_excluded hval]
    split_ifs with hflag
    · exact (a.verifyAuditorMutisig_ok hval.1).mpr (haud hflag)
    · rfl

def SignedOverOwnHash (c : Qcert 𝔾) : Prop := ∃ g s, a.ValidatorsSigned c g s

/-- The signature was checked over data that determines `c`: its sign hash, or that of the parent,
whose output root holds the sign hash of `c`. -/
def VouchesForItself (c : Qcert 𝔾) : Prop :=
  (c.body.extendFlag = false ∧ a.SignedOverOwnHash c) ∨
  (c.body.extendFlag = true ∧ ∃ parent, c.extendCert = some parent ∧
    a.SignedOverOwnHash parent ∧ c.extendData ≠ "" ∧
    a.merkle.validatePath (a.hashToSign c.body) parent.body.outputRootHash
      (a.readPath c.extendData).2 = true)

def signedCert (c : Qcert 𝔾) : Option (Qcert 𝔾) :=
  if c.body.extendFlag then c.extendCert else some c

theorem verifyMutiSign_iff {account : String} :
    a.verifyMutiSign c account = .successful ↔ account ≠ "" ∧
      ∃ s, signedCert c = some s ∧ a.verifyMutiSignImpl s = .successful := by
  unfold verifyMutiSign signedCert
  by_cases hacc : account = ""
  · simp [hacc]
  · cases hflag : c.body.extendFlag with
    | false => simp [hacc]
    | true => cases hext : c.extendCert <;> simp [hacc]

/-- An accepted certificate vouches for itself exactly when
`check_parent_cert_and_path`, which `verify_muti_sign` does not call, accepts it. -/
theorem vouches_iff_checkParent (c : Qcert 𝔾) (account : String)
    (haccept : a.verifyMutiSign c account = .successful) :
    a.VouchesForItself c ↔ a.checkParentCertAndPath c = true := by
  obtain ⟨-, s, hs, hok⟩ := a.verifyMutiSign_iff.mp haccept
  have hsigned : a.SignedOverOwnHash s := by
    obtain ⟨-, g, m, hval, -⟩ := a.verifyMutiSignImpl_iff.mp hok
    exact ⟨g, m, hval⟩
  cases hflag : c.body.extendFlag with
  | false =>
    rw [signedCert, hflag, if_neg Bool.false_ne_true, Option.some_inj] at hs
    have hcheck : a.checkParentCertAndPath c = true := by
      simp [QcertChecks.checkParentCertAndPath, hflag]
    exact iff_of_true (.inl ⟨hflag, hs ▸ hsigned⟩) hcheck
  | true =>
    rw [signedCert, hflag, if_pos rfl] at hs
    simp [VouchesForItself, QcertChecks.checkParentCertAndPath, hflag, hs, hsigned]

namespace Sample

def validators : XvNodeGroup :=
  ⟨⟨0x40400, 0x00C0000000000000⟩, 0, [some ⟨"v1", "k"⟩, some ⟨"v2", "kk"⟩, some ⟨"v3", "kkk"⟩]⟩

def auditors : XvNodeGroup :=
  ⟨⟨0x50000, 0x00C0000000000000⟩, 0,
    [some ⟨"a1", "kkkk"⟩, some ⟨"a2", "kkkkk"⟩, some ⟨"a3", "kkkkkk"⟩]⟩

def threshold (count : UInt64) : ConsensusThreshold → UInt32
  | .anyone => 1
  | .twoOfThree => (count * 2 / 3 + 1).toUInt32
  | .threeOfFour => (count * 3 / 4 + 1).toUInt32
  | .reserved => 0

def auth : Certauth (ZMod 5) String where
  merkle := ⟨some, id⟩
  hashToSign := fun b => b.headerHash
  isDeliver := fun _ hasVerify _ _ _ => hasVerify
  validatorThreshold := fun b => threshold b.validator.groupNodesCount b.consensusThreshold
  auditorThreshold := fun b => threshold b.auditor.groupNodesCount b.consensusThreshold
  readPath := fun _ => (true, [])
  scheme := fivePoints
  getGroup := fun addr =>
    if addr = validators.address then some validators
    else if addr = auditors.address then some auditors
    else none

def body (consensus : UInt8) (header outputRoot : String) : QcertBody :=
  { clock := 1, viewid := 1, viewtoken := 1, validator := validators.address,
    auditor := auditors.address, headerHash := header, inputRootHash := "",
    outputRootHash := outputRoot, justifyCertHash := "", consensus := consensus, cryptos := 8 }

def parent : Qcert (ZMod 5) :=
  ⟨body 0x48 "table" "root", some (fivePoints.forge "table" 2 [true, true, true] 3), none, "",
    none⟩

def unitCert (header : String) : Qcert (ZMod 5) :=
  ⟨body 0x4C header "", none, none, "path", some parent⟩

end Sample

open Sample in
theorem unbound_certificate_accepted :
    auth.verifyMutiSign (unitCert "forged") "T" = .successful ∧
      ¬ auth.VouchesForItself (unitCert "forged") := by
  refine ⟨by decide, ?_⟩
  rintro (⟨hflag, -⟩ | ⟨-, p, hp, -, -, hpath⟩)
  · exact absurd hflag (by decide)
  · cases hp
    exact absurd hpath (by decide)

open Sample in
theorem vouches_iff_checkParent_unit :
    auth.verifyMutiSign (unitCert "root") "T" = .successful ∧
      auth.VouchesForItself (unitCert "root") := by
  have haccept : auth.verifyMutiSign (unitCert "root") "T" = .successful := by decide
  exact ⟨haccept, (vouches_iff_checkParent auth (unitCert "root") "T" haccept).mpr (by decide)⟩

end Certauth
end TopChain.Cert
