import Mathlib.Data.ZMod.Basic

/-!
# Schnorr signatures (`xmutisig/xschnorr`, `xmutisig/xsignature`)

The curve is a group of prime order with a generator, the hash an arbitrary function.
-/
namespace TopChain.Sign

structure Curve (𝔾 : Type) [AddCommGroup 𝔾] where
  generator : 𝔾
  order : ℕ
  prime : order.Prime
  card_eq : Nat.card 𝔾 = order
  generates : ∀ P : 𝔾, ∃ k : ℤ, P = k • generator

structure Schnorr (𝔾 : Type) [AddCommGroup 𝔾] extends Curve 𝔾 where
  sha256 : String → ℕ

namespace Schnorr
variable {𝔾 : Type} [AddCommGroup 𝔾] (c : Schnorr 𝔾)

def signatureBignumLegal (s : ℤ) : Bool := !(s = 0 || s < 0 || !(s < c.order))

def generateMessageBn (msg : String) : Option ℕ :=
  if msg = "" then none else some (c.sha256 msg % c.order)

/-- The sum of points, of public keys in `aggregate_pubkeys_2` and of random points in
`aggregate_sign_points_2`; there is none of no points. -/
def aggregatePubkeys : List 𝔾 → Option 𝔾
  | [] => none
  | P :: rest => some (rest.foldl (· + ·) P)

theorem signatureBignumLegal_iff {s : ℤ} :
    c.signatureBignumLegal s = true ↔ 0 < s ∧ s < c.order := by
  simp [signatureBignumLegal]
  omega

theorem emod_zsmul (k : ℤ) (P : 𝔾) : (k % c.order) • P = k • P := by
  have hzero : (c.order : ℤ) • P = 0 := by
    rw [natCast_zsmul, ← c.card_eq]
    exact card_nsmul_eq_zero'
  conv_rhs => rw [← Int.emod_add_mul_ediv k c.order, add_zsmul, mul_comm, mul_zsmul, hzero]
  simp

theorem aggregatePubkeys_eq_sum {keys : List 𝔾} (hne : keys ≠ []) :
    aggregatePubkeys keys = some keys.sum := by
  cases keys with
  | nil => exact absurd rfl hne
  | cons P rest => rw [aggregatePubkeys, List.sum_eq_foldl, List.foldl_cons, zero_add]

variable [DecidableEq 𝔾]

def verifyMutisign (sign : ℤ) (aggPubs : 𝔾) (object : Option ℕ) (aggPoint : 𝔾) : Bool :=
  match object with
  | none => false
  | some e =>
    c.signatureBignumLegal sign && sign • c.generator + e • aggPubs = aggPoint

def verifySign (msg : String) (pubkey : 𝔾) (sign : ℤ) (point : 𝔾) : Bool :=
  c.verifyMutisign sign pubkey (c.generateMessageBn msg) point

section
variable {c}

theorem verifySign_iff {msg : String} (hmsg : msg ≠ "") {pubkey : 𝔾} {sign : ℤ} {point : 𝔾} :
    c.verifySign msg pubkey sign point = true ↔ (0 < sign ∧ sign < c.order) ∧
      sign • c.generator + (c.sha256 msg % c.order) • pubkey = point := by
  simp [verifySign, generateMessageBn, hmsg, verifyMutisign, signatureBignumLegal_iff]

theorem verifySign_forged {msg : String} (hmsg : msg ≠ "") (pubkey : 𝔾) : c.verifySign msg pubkey 1
      ((1 : ℤ) • c.generator + ((c.sha256 msg % c.order : ℕ) : ℤ) • pubkey) = true := by
  have hone : (1 : ℤ) < c.order := by exact_mod_cast c.prime.one_lt
  rw [verifySign_iff hmsg, natCast_zsmul]
  exact ⟨⟨one_pos, hone⟩, rfl⟩

end
end Schnorr
end TopChain.Sign
