import TopChain.Base.Merkle
import TopChain.Sign.Schnorrsig

/-!
# Certificates (`xbase/xvblock.h`, `xdata/src/xheader_cert.cpp`)

`QcertBody` holds the fields below the sign hash, which is what the signatures are over.
-/
namespace TopChain.Cert

open TopChain.Base TopChain.Sign

inductive ConsensusThreshold where
  | anyone | twoOfThree | threeOfFour | reserved
deriving DecidableEq, Repr

structure QcertBody where
  clock : UInt64
  viewid : UInt64
  viewtoken : UInt32
  validator : Xvip2
  auditor : Xvip2
  headerHash : String
  inputRootHash : String
  outputRootHash : String
  justifyCertHash : String
  consensus : UInt8
  cryptos : UInt8
deriving DecidableEq

namespace QcertBody
variable (b : QcertBody)

def consensusType : UInt8 := b.consensus >>> 5

def consensusThreshold : ConsensusThreshold :=
  match ((b.consensus >>> 3) &&& 0x03).toNat with
  | 0 => .anyone
  | 1 => .twoOfThree
  | 2 => .threeOfFour
  | _ => .reserved

def auditFlag : Bool := b.consensus &&& 0x01 ≠ 0

def extendFlag : Bool := b.consensus &&& 0x04 ≠ 0

def cryptoSignType : UInt8 := (b.cryptos >>> 3) &&& 0x07

def token : UInt64 := b.viewid + b.viewtoken.toUInt64

end QcertBody

structure Qcert (𝔾 : Type) where
  body : QcertBody
  verifySignature : Option (MutisigData 𝔾)
  auditSignature : Option (MutisigData 𝔾)
  extendData : String
  extendCert : Option (Qcert 𝔾)

structure QcertChecks (𝔾 η : Type) where
  merkle : MerkleHash η
  hashToSign : QcertBody → String
  isDeliver : QcertBody → (hasVerify hasAudit hasExtendData hasExtendCert : Bool) → Bool
  validatorThreshold : QcertBody → UInt32
  auditorThreshold : QcertBody → UInt32
  readPath : String → Bool × List (PathNode η)

namespace QcertChecks
variable {𝔾 η : Type} (k : QcertChecks 𝔾 η)

def deliver (c : Qcert 𝔾) : Bool :=
  k.isDeliver c.body c.verifySignature.isSome c.auditSignature.isSome (c.extendData ≠ "")
    c.extendCert.isSome

/-- `xblockcert_t::check_parent_cert_and_path`. The result of reading the path is not
looked at. -/
def checkParentCertAndPath (c : Qcert 𝔾) : Bool :=
  if !c.body.extendFlag then true
  else match c.extendCert with
  | none => false
  | some parent =>
    if c.extendData = "" then false
    else k.merkle.validatePath (k.hashToSign c.body) parent.body.outputRootHash
      (k.readPath c.extendData).2

end QcertChecks
end TopChain.Cert
