import TopChain.Cert.Certauth

/-!
# The quorum of an accepted certificate

The threshold and the request for an audit are fields of the certificate under test.
-/
namespace TopChain.Cert

open Option List TopChain.Base TopChain.Sign TopChain.Lib

def zoneConsensus : UInt64 := 0

/-- What the name of a threshold promises of the number that is asked for. -/
def ConsensusThreshold.Asks (count asked : ℕ) : ConsensusThreshold → Prop
  | .anyone => asked = 1
  | .twoOfThree => 2 * count < 3 * asked
  | .threeOfFour => 3 * count < 4 * asked
  | .reserved => True

/-- The field asks for a quorum; 'anyone' does so in a group of one node only. -/
def ConsensusThreshold.Strong (count asked : ℕ) : ConsensusThreshold → Prop
  | .anyone => count ≤ 1
  | .twoOfThree => True
  | .threeOfFour => True
  | .reserved => 2 * count ≤ 3 * asked

theorem ConsensusThreshold.strong_iff {t : ConsensusThreshold} {count asked : ℕ}
    (h : t.Asks count asked) : t.Strong count asked ↔ 2 * count ≤ 3 * asked := by
  cases t <;> simp only [Asks, Strong, true_iff] at h ⊢ <;> omega

/-- The signers are two thirds of the group, distinct among themselves and from `others`. -/
structure QuorumOf (g : XvNodeGroup) (others signers : List XvNode) : Prop where
  member : ∀ n ∈ signers, some n ∈ g.nodes
  two_thirds : 2 * g.size ≤ 3 * signers.length
  accounts : ((others ++ signers).map XvNode.account).Nodup
  keys : ((others ++ signers).map XvNode.signPubkey).Nodup

namespace Certauth
variable {𝔾 η : Type} [AddCommGroup 𝔾] [DecidableEq 𝔾] (a : Certauth 𝔾 η)

/-- The thresholds of the authority are those that the field names. -/
structure ThresholdSpec : Prop where
  validator : ∀ b : QcertBody, b.consensusThreshold.Asks b.validator.groupNodesCount.toNat
    (a.validatorThreshold b).toNat
  auditor : ∀ b : QcertBody, b.consensusThreshold.Asks b.auditor.groupNodesCount.toNat
    (a.auditorThreshold b).toNat

/-- The signatures of `c` were checked against a quorum, of auditors too in the consensus zone. -/
def HasQuorum (c : Qcert 𝔾) : Prop :=
  ∃ g s, a.ValidatorsSigned c g s ∧ QuorumOf g [] (collect g s.nodebits .empty).signers ∧
    (c.body.validator.zoneId = zoneConsensus → c.body.auditFlag = true ∧
      ∃ g' s', a.AuditorsSigned c (collect g s.nodebits .empty) g' s' ∧
        QuorumOf g' (collect g s.nodebits .empty).signers
          (collect g' s'.nodebits (collect g s.nodebits .empty).excluded).signers)

/-- The certificate asks for a quorum, of auditors too in the consensus zone. -/
structure AsksQuorum (b : QcertBody) : Prop where
  validators : b.consensusThreshold.Strong b.validator.groupNodesCount.toNat
    (a.validatorThreshold b).toNat
  audit : b.validator.zoneId = zoneConsensus → b.auditFlag = true
  auditors : b.validator.zoneId = zoneConsensus →
    b.consensusThreshold.Strong b.auditor.groupNodesCount.toNat (a.auditorThreshold b).toNat

/-- The same certificate with other signatures in the same places. -/
structure Resigned (c' c : Qcert 𝔾) : Prop where
  body_eq : c'.body = c.body
  verify_eq : c'.verifySignature.isSome = c.verifySignature.isSome
  audit_eq : c'.auditSignature.isSome = c.auditSignature.isSome
  extendData_eq : c'.extendData = c.extendData
  extendCert_eq : c'.extendCert = c.extendCert

theorem quorumOf_validators (g : XvNodeGroup) (bits : List Bool)
    (htwo : 2 * g.size ≤ 3 * (collect g bits .empty).signers.length) :
    QuorumOf g [] (collect g bits .empty).signers := by
  have hinv := collectInv_collect g bits .empty
  exact ⟨fun n hn => (hinv.member n hn).1, htwo, hinv.accounts_nodup, hinv.keys_nodup⟩

theorem quorumOf_auditors (g g' : XvNodeGroup) (bits bits' : List Bool) (htwo : 2 * g'.size ≤
      3 * (collect g' bits' (collect g bits .empty).excluded).signers.length) :
    QuorumOf g' (collect g bits .empty).signers
      (collect g' bits' (collect g bits .empty).excluded).signers := by
  have hval := collectInv_collect g bits .empty
  have haud := collectInv_collect g' bits' (collect g bits .empty).excluded
  refine ⟨fun n hn => (haud.member n hn).1, htwo, ?_, ?_⟩
  · rw [map_append, nodup_append]
    refine ⟨hval.accounts_nodup, haud.accounts_nodup, ?_⟩
    rintro x hx y hy rfl
    obtain ⟨n, hn, rfl⟩ := mem_map.mp hx
    obtain ⟨m, hm, heq⟩ := mem_map.mp hy
    exact haud.accounts_new m hm (heq ▸ hval.accounts_mem n hn)
  · rw [map_append, nodup_append]
    refine ⟨hval.keys_nodup, haud.keys_nodup, ?_⟩
    rintro x hx y hy rfl
    obtain ⟨n, hn, rfl⟩ := mem_map.mp hx
    obtain ⟨m, hm, heq⟩ := mem_map.mp hy
    exact haud.keys_new m hm (heq ▸ hval.keys_mem n hn)

variable {c : Qcert 𝔾}

theorem hasQuorum_of_asks (hspec : a.ThresholdSpec) (hasks : a.AsksQuorum c.body)
    (hok : a.verifyMutiSignImpl c = .successful) : a.HasQuorum c := by
  obtain ⟨-, g, s, hval, haud⟩ := a.verifyMutiSignImpl_iff.mp hok
  have htwo : 2 * g.size ≤ 3 * (collect g s.nodebits .empty).signers.length := by
    obtain ⟨-, -, P, hs⟩ := hval
    have hstrong := (ConsensusThreshold.strong_iff (hspec.validator c.body)).mp hasks.validators
    have henough := hs.signable.enough
    rw [hs.size_eq] at hstrong
    omega
  refine ⟨g, s, hval, quorumOf_validators g s.nodebits htwo, fun hzone => ?_⟩
  obtain ⟨g', s', haud⟩ := haud (hasks.audit hzone)
  have htwo' : 2 * g'.size ≤
      3 * (collect g' s'.nodebits (collect g s.nodebits .empty).excluded).signers.length := by
    obtain ⟨P, hs⟩ := haud
    have hstrong := (ConsensusThreshold.strong_iff (hspec.auditor c.body)).mp (hasks.auditors hzone)
    have henough := hs.signable.enough
    rw [hs.size_eq] at hstrong
    omega
  exact ⟨hasks.audit hzone, g', s', haud, quorumOf_auditors g g' s.nodebits s'.nodebits htwo'⟩

theorem GroupSigned.select {b : QcertBody} {addr : Xvip2} {threshold : UInt32}
    {sig : Option (MutisigData 𝔾)} {ex ex' : Excluded} {g : XvNodeGroup} {s : MutisigData 𝔾}
    {P : 𝔾} (h : a.GroupSigned b addr threshold sig ex g s P)
    (hacc : ex'.accounts ⊆ ex.accounts) (hkey : ex'.keys ⊆ ex.keys) {k : ℕ}
    (hk : threshold.toNat ≤ k) (hk' : k ≤ (collect g s.nodebits ex).signers.length) :
    ∃ m Q, a.GroupSigned b addr threshold (some m) ex' g m Q ∧
      (collect g m.nodebits ex').signers.length = k ∧
      (collect g m.nodebits ex').excluded.accounts ⊆ (collect g s.nodebits ex).excluded.accounts ∧
      (collect g m.nodebits ex').excluded.keys ⊆ (collect g s.nodebits ex).excluded.keys := by
  obtain ⟨bits, hlen, hsig, ha, hkeys⟩ := collect_select g s.nodebits hacc hkey k
  have hpos : 0 < k := by
    have hne : threshold.toNat ≠ 0 := fun h0 => h.signable.threshold_ne (UInt32.toNat_inj.mp h0)
    omega
  obtain ⟨Q, hQ⟩ := a.scheme.aggregateKeys_take h.signable.key_eq hpos
  have hcount : (collect g bits ex').signers.length = k := by
    rw [hsig, length_take]
    omega
  refine ⟨a.scheme.forge (a.hashToSign b) b.token bits Q, Q, ?_, hcount, ha, hkeys⟩
  exact {
    group_eq := h.group_eq
    size_eq := h.size_eq
    sig_eq := rfl
    hash_ne := h.hash_ne
    token_eq := rfl
    signable := ⟨h.signable.threshold_ne, h.signable.token_ne,
      hlen.trans h.signable.bits_length, hcount ▸ hk, hsig ▸ hQ⟩
    verified := Schnorr.verifySign_forged h.hash_ne Q }

omit [DecidableEq 𝔾] in
theorem Resigned.headerOk {c' : Qcert 𝔾} (h : Resigned c' c) (hc : a.HeaderOk c) :
    a.HeaderOk c' := by
  refine ⟨?_, ?_, ?_, ?_⟩
  · rw [← hc.deliver, QcertChecks.deliver, QcertChecks.deliver, h.body_eq, h.verify_eq,
      h.audit_eq, h.extendData_eq, h.extendCert_eq]
  · rw [h.body_eq]
    exact hc.scheme
  · rw [h.body_eq]
    exact hc.groups_ne
  · rw [h.body_eq]
    exact hc.cluster

theorem signers_determined {g g' : XvNodeGroup} {s s' : MutisigData 𝔾}
    (h : a.ValidatorsSigned c g s) (h' : a.ValidatorsSigned c g' s') : g' = g ∧ s' = s := by
  obtain ⟨-, -, P, hs⟩ := h
  obtain ⟨-, -, P', hs'⟩ := h'
  exact ⟨mem_unique hs'.group_eq hs.group_eq, mem_unique hs'.sig_eq hs.sig_eq⟩

section
variable (hok : a.verifyMutiSignImpl c = .successful)
include hok

theorem exists_fewest_validators : ∃ c' g s, Resigned c' c ∧ a.verifyMutiSignImpl c' = .successful ∧
      a.ValidatorsSigned c' g s ∧
      (collect g s.nodebits .empty).signers.length = (a.validatorThreshold c.body).toNat := by
  obtain ⟨hheader, g, s, ⟨htype, hclock, P, hs⟩, haud⟩ := a.verifyMutiSignImpl_iff.mp hok
  obtain ⟨m, Q, hm, hcount, ha, hk⟩ := hs.select a subset_rfl subset_rfl le_rfl hs.signable.enough
  -- the auditors keep their signers: the validators left out only free accounts and keys
  have hresign : ∃ sig : Option (MutisigData 𝔾), sig.isSome = c.auditSignature.isSome ∧
      (c.body.auditFlag = true → ∃ g' s' R, a.GroupSigned c.body c.body.auditor
        (a.auditorThreshold c.body) sig (collect g m.nodebits .empty).excluded g' s' R) := by
    by_cases hflag : c.body.auditFlag = true
    · obtain ⟨g', s', P', hs'⟩ := haud hflag
      obtain ⟨m', Q', hm', -⟩ := hs'.select a ha hk hs'.signable.enough le_rfl
      exact ⟨some m', by rw [hs'.sig_eq]; rfl, fun _ => ⟨g', m', Q', hm'⟩⟩
    · exact ⟨c.auditSignature, rfl, fun h => absurd h hflag⟩
  obtain ⟨sig, hsome, hsig⟩ := hresign
  have hre : Resigned { c with verifySignature := some m, auditSignature := sig } c :=
    ⟨rfl, by rw [hs.sig_eq]; rfl, hsome, rfl, rfl⟩
  have hval : a.ValidatorsSigned { c with verifySignature := some m, auditSignature := sig } g m :=
    ⟨htype, hclock, Q, hm⟩
  refine ⟨_, g, m, hre, ?_, hval, hcount⟩
  exact a.verifyMutiSignImpl_iff.mpr ⟨hre.headerOk a hheader, g, m, hval, hsig⟩

theorem exists_fewest_auditors (hflag : c.body.auditFlag = true) :
    ∃ c' g s g' s', Resigned c' c ∧ a.verifyMutiSignImpl c' = .successful ∧
      a.ValidatorsSigned c' g s ∧ a.AuditorsSigned c' (collect g s.nodebits .empty) g' s' ∧
      (collect g' s'.nodebits (collect g s.nodebits .empty).excluded).signers.length =
        (a.auditorThreshold c.body).toNat := by
  obtain ⟨hheader, g, s, hval, haud⟩ := a.verifyMutiSignImpl_iff.mp hok
  obtain ⟨g', s', P', hs'⟩ := haud hflag
  obtain ⟨m, Q, hm, hcount, -⟩ := hs'.select a subset_rfl subset_rfl le_rfl hs'.signable.enough
  have hre : Resigned { c with auditSignature := some m } c :=
    ⟨rfl, rfl, by rw [hs'.sig_eq]; rfl, rfl, rfl⟩
  have hval' : a.ValidatorsSigned { c with auditSignature := some m } g s := hval
  have haud' : a.AuditorsSigned { c with auditSignature := some m }
      (collect g s.nodebits .empty) g' m := ⟨Q, hm⟩
  refine ⟨_, g, s, g', m, hre, ?_, hval', haud', hcount⟩
  exact a.verifyMutiSignImpl_iff.mpr ⟨hre.headerOk a hheader, g, s, hval', fun _ => ⟨g', m, haud'⟩⟩

end

theorem asks_of_hasQuorum (hspec : a.ThresholdSpec) (hok : a.verifyMutiSignImpl c = .successful)
    (hall : ∀ c', Resigned c' c → a.verifyMutiSignImpl c' = .successful → a.HasQuorum c') :
    a.AsksQuorum c.body := by
  have haudit : c.body.validator.zoneId = zoneConsensus → c.body.auditFlag = true := by
    intro hzone
    obtain ⟨_, _, _, _, h⟩ := hall c ⟨rfl, rfl, rfl, rfl, rfl⟩ hok
    exact (h hzone).1
  refine ⟨?_, haudit, fun hzone => ?_⟩
  · obtain ⟨c', g, s, hre, hok', hval, hcount⟩ := a.exists_fewest_validators hok
    obtain ⟨g₁, s₁, hval₁, hq, -⟩ := hall c' hre hok'
    obtain ⟨rfl, rfl⟩ := a.signers_determined hval hval₁
    have htwo := hq.two_thirds
    obtain ⟨-, -, P, hs⟩ := hval
    rw [ConsensusThreshold.strong_iff (hspec.validator c.body), ← hre.body_eq, hs.size_eq,
      hre.body_eq]
    omega
  · obtain ⟨c', g, s, g', s', hre, hok', hval, haud, hcount⟩ :=
      a.exists_fewest_auditors hok (haudit hzone)
    obtain ⟨g₁, s₁, hval₁, -, h⟩ := hall c' hre hok'
    obtain ⟨rfl, rfl⟩ := a.signers_determined hval hval₁
    obtain ⟨-, g₂, s₂, ⟨P₂, haud₂⟩, hq⟩ := h (by rw [hre.body_eq]; exact hzone)
    obtain ⟨P, hs⟩ := haud
    have hg : g₂ = g' := mem_unique haud₂.group_eq hs.group_eq
    have hs₂ : s₂ = s' := mem_unique haud₂.sig_eq hs.sig_eq
    subst hg hs₂
    have htwo := hq.two_thirds
    rw [ConsensusThreshold.strong_iff (hspec.auditor c.body), ← hre.body_eq, hs.size_eq,
      hre.body_eq]
    omega

/-- An accepted certificate that differs from the checked one in bits and signatures alone has a
quorum if and only if the fields of the checked one ask for it. -/
theorem quorum_iff_asksQuorum (hspec : a.ThresholdSpec) (c s : Qcert 𝔾) (account : String)
    (hs : signedCert c = some s) (haccept : a.verifyMutiSign c account = .successful) :
    (∀ c' s', signedCert c' = some s' → Resigned s' s →
      a.verifyMutiSign c' account = .successful → a.HasQuorum s') ↔ a.AsksQuorum s.body := by
  obtain ⟨hacc, s₀, hs₀, hok⟩ := a.verifyMutiSign_iff.mp haccept
  rw [hs, some_inj] at hs₀
  subst hs₀
  constructor
  · intro hall
    refine a.asks_of_hasQuorum hspec hok fun s' hre hok' => ?_
    -- the re-signed certificate travels the way `s` did
    cases hflag : c.body.extendFlag with
    | false =>
      have hself : signedCert s' = some s' := by
        rw [signedCert, hflag, if_neg Bool.false_ne_true, some_inj] at hs
        rw [signedCert, hre.body_eq, ← hs, hflag, if_neg Bool.false_ne_true]
      exact hall s' s' hself hre (a.verifyMutiSign_iff.mpr ⟨hacc, s', hself, hok'⟩)
    | true =>
      have hcarried : signedCert { c with extendCert := some s' } = some s' := by
        simp [signedCert, hflag]
      exact hall _ s' hcarried hre (a.verifyMutiSign_iff.mpr ⟨hacc, s', hcarried, hok'⟩)
  · intro hasks c' s' hs' hre haccept'
    obtain ⟨-, s₁, hs₁, hok'⟩ := a.verifyMutiSign_iff.mp haccept'
    rw [hs', some_inj] at hs₁
    subst hs₁
    rw [← hre.body_eq] at hasks
    exact a.hasQuorum_of_asks hspec hasks hok'

namespace Sample

theorem threshold_asks (t : ConsensusThreshold) {count : UInt64} (hcount : count.toNat ≤ 1023) :
    t.Asks count.toNat (threshold count t).toNat := by
  have hmul : ∀ k : UInt64, k.toNat ≤ 3 → (count * k).toNat = count.toNat * k.toNat := by
    intro k hk
    refine Nat.mod_eq_of_lt (lt_of_le_of_lt (Nat.mul_le_mul hcount hk) (by decide))
  have hsmall : ∀ n : UInt64, n.toNat ≤ 1023 → (n + 1).toUInt32.toNat = n.toNat + 1 := by
    intro n hn
    rw [UInt64.toNat_toUInt32, Word.toNat_add_one, Nat.mod_eq_of_lt (by omega),
      Nat.mod_eq_of_lt (by omega)]
  cases t with
  | anyone => rfl
  | twoOfThree =>
    have hdiv : (count * 2 / 3).toNat = count.toNat * 2 / 3 := by
      rw [UInt64.toNat_div, hmul 2 (by decide)]
      rfl
    change 2 * count.toNat < 3 * (count * 2 / 3 + 1).toUInt32.toNat
    rw [hsmall _ (by omega), hdiv]
    omega
  | threeOfFour =>
    have hdiv : (count * 3 / 4).toNat = count.toNat * 3 / 4 := by
      rw [UInt64.toNat_div, hmul 3 (by decide)]
      rfl
    change 3 * count.toNat < 4 * (count * 3 / 4 + 1).toUInt32.toNat
    rw [hsmall _ (by omega), hdiv]
    omega
  | reserved => trivial

theorem groupNodesCount_le (addr : Xvip2) : addr.groupNodesCount.toNat ≤ 1023 := by
  exact Nat.and_le_right

theorem auth_thresholdSpec : auth.ThresholdSpec :=
  ⟨fun b => threshold_asks _ (groupNodesCount_le b.validator),
    fun b => threshold_asks _ (groupNodesCount_le b.auditor)⟩

/-- The threshold is 'anyone', there is no audit flag, and one of three validators has signed. -/
def loneSigner : Qcert (ZMod 5) :=
  ⟨body 0x40 "table" "root", some (fivePoints.forge "table" 2 [true, false, false] 0), none, "",
    none⟩

def audited : Qcert (ZMod 5) :=
  ⟨body 0x49 "table" "root", some (fivePoints.forge "table" 2 [true, true, true] (Nat.cast 3)),
    some (fivePoints.forge "table" 2 [true, true, true] (Nat.cast 2)), "", none⟩

end Sample

open Sample in
theorem lone_signer_accepted :
    auth.verifyMutiSign loneSigner "T" = .successful ∧ ¬ auth.HasQuorum loneSigner := by
  refine ⟨by decide, ?_⟩
  rintro ⟨g, s, ⟨-, -, P, hs⟩, hq, -⟩
  have hg : some validators = some g := hs.group_eq
  have hsig : some (fivePoints.forge "table" 2 [true, false, false] 0) = some s := hs.sig_eq
  cases hg
  cases hsig
  exact absurd hq.two_thirds (by decide)

open Sample in
theorem quorum_iff_asksQuorum_audited :
    auth.verifyMutiSign audited "T" = .successful ∧ auth.HasQuorum audited := by
  have haccept : auth.verifyMutiSign audited "T" = .successful := by decide
  have hasks : auth.AsksQuorum audited.body := ⟨trivial, fun _ => by decide, fun _ => trivial⟩
  exact ⟨haccept, (quorum_iff_asksQuorum auth auth_thresholdSpec audited audited "T" rfl
    haccept).mpr hasks audited audited rfl ⟨rfl, rfl, rfl, rfl, rfl⟩ haccept⟩

end Certauth
end TopChain.Cert
