import TopChain.Base.Address
import TopChain.Sign.Schnorr

/-!
# Group signatures (`xcertauth/src/xschnorrsig.cpp`)

The check of an aggregated signature against the members of a node group whose bits are set.
-/
namespace TopChain.Sign

open Function Finset List TopChain.Base

structure XvNode where
  account : String
  signPubkey : String
deriving DecidableEq

structure XvNodeGroup where
  address : Xvip2
  effectClock : UInt64
  nodes : List (Option XvNode)
deriving DecidableEq

def XvNodeGroup.size (g : XvNodeGroup) : ℕ := g.nodes.length

def XvNodeGroup.getNode (g : XvNodeGroup) (slot : ℕ) : Option XvNode := g.nodes[slot]?.join

/-- `xmutisigdata_t` with its point and seal as values. -/
structure MutisigData (𝔾 : Type) where
  token : UInt64
  point : 𝔾
  sign : ℤ
  nodebits : List Bool

structure Excluded where
  accounts : Finset String
  keys : Finset String

def Excluded.empty : Excluded := ⟨∅, ∅⟩

structure Schnorrsig (𝔾 : Type) [AddCommGroup 𝔾] extends Schnorr 𝔾 where
  ofKey : String → Option 𝔾
  toKey : 𝔾 → String
  ofKey_toKey : ∀ P, ofKey (toKey P) = some P
  toKey_ne : ∀ P, toKey P ≠ ""

structure Collected where
  signers : List XvNode
  excluded : Excluded

def isSet (bits : List Bool) (i : ℕ) : Bool := bits[i]?.getD false

/-- A set bit counts its node unless the account or the key was seen. -/
def collectSlot (g : XvNodeGroup) (bit : Bool) (acc : Collected) (i : ℕ) : Collected :=
  if bit then
    match g.getNode i with
    | none => acc
    | some node =>
      if node.signPubkey = "" then acc
      else if node.account ∈ acc.excluded.accounts then acc
      else if node.signPubkey ∈ acc.excluded.keys then
        ⟨acc.signers, insert node.account acc.excluded.accounts, acc.excluded.keys⟩
      else
        ⟨acc.signers ++ [node], insert node.account acc.excluded.accounts,
          insert node.signPubkey acc.excluded.keys⟩
  else acc

def collectUpTo (g : XvNodeGroup) (bit : ℕ → Bool) (ex : Excluded) : ℕ → Collected
  | 0 => ⟨[], ex⟩
  | n + 1 => collectSlot g (bit n) (collectUpTo g bit ex n) n

def collect (g : XvNodeGroup) (bits : List Bool) (ex : Excluded) : Collected :=
  collectUpTo g (isSet bits) ex bits.length

theorem collectUpTo_congr (g : XvNodeGroup) {bit bit' : ℕ → Bool} (ex : Excluded) {n : ℕ}
    (h : ∀ i < n, bit i = bit' i) : collectUpTo g bit ex n = collectUpTo g bit' ex n := by
  induction n with
  | zero => rfl
  | succ n ih =>
    have ih' := ih fun i hi => h i (Nat.lt_succ_of_lt hi)
    rw [collectUpTo, collectUpTo, ih', h n (Nat.lt_succ_self n)]

/-- The signers are members with keys, distinct, new at the start and in the sets at the end. -/
structure CollectInv (g : XvNodeGroup) (ex : Excluded) (acc : Collected) : Prop where
  member : ∀ n ∈ acc.signers, some n ∈ g.nodes ∧ n.signPubkey ≠ ""
  accounts_nodup : (acc.signers.map XvNode.account).Nodup
  keys_nodup : (acc.signers.map XvNode.signPubkey).Nodup
  accounts_new : ∀ n ∈ acc.signers, n.account ∉ ex.accounts
  keys_new : ∀ n ∈ acc.signers, n.signPubkey ∉ ex.keys
  accounts_mem : ∀ n ∈ acc.signers, n.account ∈ acc.excluded.accounts
  keys_mem : ∀ n ∈ acc.signers, n.signPubkey ∈ acc.excluded.keys
  accounts_sub : ex.accounts ⊆ acc.excluded.accounts
  keys_sub : ex.keys ⊆ acc.excluded.keys

variable {g : XvNodeGroup} {ex : Excluded}

theorem getNode_mem {i : ℕ} {n : XvNode} (h : g.getNode i = some n) : some n ∈ g.nodes := by
  rw [XvNodeGroup.getNode, Option.join_eq_some_iff] at h
  exact mem_of_getElem? h

theorem forall_mem_append_singleton {α : Type} {P : α → Prop} {l : List α} {a : α}
    (hl : ∀ x ∈ l, P x) (ha : P a) : ∀ x ∈ l ++ [a], P x := by
  simpa [or_imp, forall_and] using ⟨hl, ha⟩

theorem nodup_map_append_singleton {α β : Type} {f : α → β} {l : List α} {a : α}
    (hl : (l.map f).Nodup) (ha : ∀ x ∈ l, f x ≠ f a) : ((l ++ [a]).map f).Nodup := by
  rw [map_append, nodup_append]
  refine ⟨hl, by simp, ?_⟩
  simpa using ha

theorem CollectInv.append {acc : Collected} (h : CollectInv g ex acc) {node : XvNode}
    (hmem : some node ∈ g.nodes) (hkey : node.signPubkey ≠ "")
    (hacc : node.account ∉ acc.excluded.accounts) (hdup : node.signPubkey ∉ acc.excluded.keys) :
    CollectInv g ex ⟨acc.signers ++ [node], insert node.account acc.excluded.accounts,
      insert node.signPubkey acc.excluded.keys⟩ where
  member := forall_mem_append_singleton h.member ⟨hmem, hkey⟩
  accounts_nodup := nodup_map_append_singleton h.accounts_nodup
    fun n hn heq => hacc (heq ▸ h.accounts_mem n hn)
  keys_nodup := nodup_map_append_singleton h.keys_nodup fun n hn heq => hdup (heq ▸ h.keys_mem n hn)
  accounts_new := forall_mem_append_singleton h.accounts_new fun hin => hacc (h.accounts_sub hin)
  keys_new := forall_mem_append_singleton h.keys_new fun hin => hdup (h.keys_sub hin)
  accounts_mem := forall_mem_append_singleton
    (fun n hn => mem_insert_of_mem (h.accounts_mem n hn)) (mem_insert_self _ _)
  keys_mem := forall_mem_append_singleton
    (fun n hn => mem_insert_of_mem (h.keys_mem n hn)) (mem_insert_self _ _)
  accounts_sub := h.accounts_sub.trans (subset_insert _ _)
  keys_sub := h.keys_sub.trans (subset_insert _ _)

theorem collectInv_slot {acc : Collected} (bit : Bool) (h : CollectInv g ex acc) (i : ℕ) :
    CollectInv g ex (collectSlot g bit acc i) := by
  unfold collectSlot
  split_ifs with hbit
  swap
  · exact h
  split
  · exact h
  next node hnode =>
  split_ifs with hkey hacc hdup
  · exact h
  · exact h
  · exact { h with
      accounts_mem := fun n hn => mem_insert_of_mem (h.accounts_mem n hn)
      accounts_sub := h.accounts_sub.trans (subset_insert _ _) }
  · exact h.append (getNode_mem hnode) hkey hacc hdup

theorem collectInv_collect (g : XvNodeGroup) (bits : List Bool) (ex : Excluded) :
    CollectInv g ex (collect g bits ex) := by
  unfold collect
  induction bits.length with
  | zero => constructor <;> simp [collectUpTo]
  | succ n ih => exact collectInv_slot _ ih n

theorem collectSlot_cases (g : XvNodeGroup) (bit : Bool) (acc : Collected) (i : ℕ) :
    (∃ node, g.getNode i = some node ∧ node.signPubkey ≠ "" ∧
      node.account ∉ acc.excluded.accounts ∧ node.signPubkey ∉ acc.excluded.keys ∧
      collectSlot g bit acc i = ⟨acc.signers ++ [node], insert node.account acc.excluded.accounts,
        insert node.signPubkey acc.excluded.keys⟩) ∨
    ((collectSlot g bit acc i).signers = acc.signers ∧
      acc.excluded.accounts ⊆ (collectSlot g bit acc i).excluded.accounts ∧
      acc.excluded.keys ⊆ (collectSlot g bit acc i).excluded.keys) := by
  unfold collectSlot
  split_ifs with hbit
  swap
  · exact .inr ⟨rfl, subset_rfl, subset_rfl⟩
  split
  · exact .inr ⟨rfl, subset_rfl, subset_rfl⟩
  next node hnode =>
  split_ifs with hkey hacc hdup
  · exact .inr ⟨rfl, subset_rfl, subset_rfl⟩
  · exact .inr ⟨rfl, subset_rfl, subset_rfl⟩
  · exact .inr ⟨rfl, subset_insert _ _, subset_rfl⟩
  · exact .inl ⟨node, hnode, hkey, hacc, hdup, rfl⟩

theorem collectSlot_count {acc : Collected} {i : ℕ} {node : XvNode}
    (hnode : g.getNode i = some node) (hkey : node.signPubkey ≠ "")
    (hacc : node.account ∉ acc.excluded.accounts) (hdup : node.signPubkey ∉ acc.excluded.keys) :
    collectSlot g true acc i = ⟨acc.signers ++ [node], insert node.account acc.excluded.accounts,
      insert node.signPubkey acc.excluded.keys⟩ := by
  simp [collectSlot, hnode, hkey, hacc, hdup]

theorem collect_select (g : XvNodeGroup) (bits : List Bool) {ex' : Excluded}
    (hacc : ex'.accounts ⊆ ex.accounts) (hkey : ex'.keys ⊆ ex.keys) (k : ℕ) :
    ∃ bits', bits'.length = bits.length ∧
      (collect g bits' ex').signers = (collect g bits ex).signers.take k ∧
      (collect g bits' ex').excluded.accounts ⊆ (collect g bits ex).excluded.accounts ∧
      (collect g bits' ex').excluded.keys ⊆ (collect g bits ex).excluded.keys := by
  -- slot by slot: a bit is set where the full run counts a node and `k` is not reached
  have hprefix : ∀ n, ∃ bit : ℕ → Bool,
      (collectUpTo g bit ex' n).signers = (collectUpTo g (isSet bits) ex n).signers.take k ∧
      (collectUpTo g bit ex' n).excluded.accounts ⊆
        (collectUpTo g (isSet bits) ex n).excluded.accounts ∧
      (collectUpTo g bit ex' n).excluded.keys ⊆
        (collectUpTo g (isSet bits) ex n).excluded.keys := by
    intro n
    induction n with
    | zero => exact ⟨fun _ => false, by simpa [collectUpTo] using ⟨hacc, hkey⟩⟩
    | succ n ih =>
      obtain ⟨bit, hsig, ha, hk⟩ := ih
      -- the old bits below `n` and a new one at `n`
      have hold : ∀ v, collectUpTo g (Function.update bit n v) ex' n = collectUpTo g bit ex' n :=
        fun v => collectUpTo_congr g ex' fun i hi => update_of_ne hi.ne _ _
      rcases collectSlot_cases g (isSet bits n) (collectUpTo g (isSet bits) ex n) n with
        ⟨node, hnode, hne, hnew, hdup, he⟩ | ⟨he, ha', hk'⟩
      · by_cases hlt : (collectUpTo g (isSet bits) ex n).signers.length < k
        · refine ⟨Function.update bit n true, ?_⟩
          have hcount := collectSlot_count hnode hne (fun h => hnew (ha h)) fun h => hdup (hk h)
          rw [collectUpTo, collectUpTo, hold, update_self, he, hcount]
          refine ⟨?_, insert_subset_insert _ ha, insert_subset_insert _ hk⟩
          rw [hsig, take_of_length_le hlt.le, take_of_length_le]
          simpa using hlt
        · refine ⟨Function.update bit n false, ?_⟩
          rw [collectUpTo, collectUpTo, hold, update_self, he]
          refine ⟨?_, ha.trans (subset_insert _ _), hk.trans (subset_insert _ _)⟩
          rw [take_append_of_le_length (not_lt.mp hlt), ← hsig]
          rfl
      · refine ⟨Function.update bit n false, ?_⟩
        rw [collectUpTo, collectUpTo, hold, update_self]
        exact ⟨by rw [he, ← hsig]; rfl, ha.trans ha', hk.trans hk'⟩
  obtain ⟨bit, hbit⟩ := hprefix bits.length
  refine ⟨(List.range bits.length).map bit, by simp, ?_⟩
  have hsame : ∀ i < bits.length, isSet ((List.range bits.length).map bit) i = bit i := by
    intro i hi
    simp [isSet, hi]
  rw [collect, collect, length_map, length_range, collectUpTo_congr g ex' hsame]
  exact hbit

namespace Schnorrsig
variable {𝔾 : Type} [AddCommGroup 𝔾] (c : Schnorrsig 𝔾)

def aggregateKeys (signers : List XvNode) : Option 𝔾 :=
  (signers.mapM fun n => c.ofKey n.signPubkey).bind Schnorr.aggregatePubkeys

theorem isSome_mapM_iff {α β : Type} (f : α → Option β) (l : List α) :
    (l.mapM f).isSome ↔ ∀ x ∈ l, (f x).isSome := by
  induction l with
  | nil => simp
  | cons x xs ih =>
    cases hx : f x <;> cases hxs : xs.mapM f <;> simp_all

theorem aggregateKeys_take {signers : List XvNode} {P : 𝔾}
    (h : c.aggregateKeys signers = some P) {k : ℕ} (hk : 0 < k) :
    ∃ P', c.aggregateKeys (signers.take k) = some P' := by
  rw [aggregateKeys, Option.bind_eq_some_iff] at h
  obtain ⟨keys, hkeys, hP⟩ := h
  have hall := (isSome_mapM_iff _ _).mp (Option.isSome_iff_exists.mpr ⟨keys, hkeys⟩)
  cases signers with
  | nil =>
    simp only [mapM_nil, Option.pure_def, Option.some_inj] at hkeys
    subst hkeys
    cases hP
  | cons n rest =>
    obtain ⟨j, rfl⟩ := Nat.exists_eq_succ_of_ne_zero hk.ne'
    obtain ⟨Q, hQ⟩ := Option.isSome_iff_exists.mp (hall n mem_cons_self)
    have htail : ((rest.take j).mapM fun n => c.ofKey n.signPubkey).isSome :=
      (isSome_mapM_iff _ _).mpr fun x hx =>
        hall x (mem_cons_of_mem n (mem_of_mem_take hx))
    obtain ⟨Qs, hQs⟩ := Option.isSome_iff_exists.mp htail
    refine ⟨Qs.foldl (· + ·) Q, ?_⟩
    rw [aggregateKeys, take_succ_cons, mapM_cons, hQ, hQs]
    rfl

variable [DecidableEq 𝔾]

def verifyMutiSign (g : XvNodeGroup) (threshold : UInt32) (targetHash : String)
    (sig : Option (MutisigData 𝔾)) (token : UInt64) (ex : Excluded) : Bool × Excluded :=
  match sig with
  | none => (false, ex)
  | some sig =>
    if targetHash = "" || threshold = 0 || token = 0 then (false, ex)
    else if sig.token ≠ token then (false, ex)
    else if sig.nodebits.length ≠ g.size then (false, ex)
    else
      let col := collect g sig.nodebits ex
      if col.signers.length < threshold.toNat then (false, col.excluded)
      else match c.aggregateKeys col.signers with
        | none => (false, col.excluded)
        | some P => (c.verifySign targetHash P sig.sign sig.point, col.excluded)

/-- The nodes of the bits are enough for the threshold, and their aggregated key is `P`. -/
structure Signable (g : XvNodeGroup) (threshold : UInt32) (token : UInt64) (ex : Excluded)
    (bits : List Bool) (P : 𝔾) : Prop where
  threshold_ne : threshold ≠ 0
  token_ne : token ≠ 0
  bits_length : bits.length = g.size
  enough : threshold.toNat ≤ (collect g bits ex).signers.length
  key_eq : c.aggregateKeys (collect g bits ex).signers = some P

section
variable {threshold : UInt32} {targetHash : String}

theorem verifyMutiSign_iff {sig : Option (MutisigData 𝔾)} {token : UInt64} :
    (c.verifyMutiSign g threshold targetHash sig token ex).1 = true ↔
      ∃ s P, sig = some s ∧ targetHash ≠ "" ∧ s.token = token ∧
        c.Signable g threshold token ex s.nodebits P ∧
        c.verifySign targetHash P s.sign s.point = true := by
  constructor
  · intro h
    unfold verifyMutiSign at h
    split at h
    · cases h
    next s =>
    split_ifs at h with h1 h2 h3
    dsimp only at h
    split_ifs at h with h4
    split at h
    · cases h
    next P hP =>
    simp only [Bool.or_eq_true, decide_eq_true_eq, not_or] at h1
    exact ⟨s, P, rfl, h1.1.1, not_not.mp h2, ⟨h1.1.2, h1.2, not_not.mp h3, not_lt.mp h4, hP⟩, h⟩
  · rintro ⟨s, P, rfl, hhash, htoken, hs, hsign⟩
    have henough := hs.enough
    simp [verifyMutiSign, hhash, hs.threshold_ne, hs.token_ne, htoken, hs.bits_length,
      henough.not_gt, hs.key_eq, hsign]

theorem verifyMutiSign_excluded {s : MutisigData 𝔾}
    {token : UInt64} {P : 𝔾} (hhash : targetHash ≠ "") (htoken : s.token = token)
    (hs : c.Signable g threshold token ex s.nodebits P) :
    (c.verifyMutiSign g threshold targetHash (some s) token ex).2 =
      (collect g s.nodebits ex).excluded := by
  have henough := hs.enough
  simp [verifyMutiSign, hhash, hs.threshold_ne, hs.token_ne, htoken, hs.bits_length,
    henough.not_gt, hs.key_eq]

end

def forge (targetHash : String) (token : UInt64) (bits : List Bool) (P : 𝔾) : MutisigData 𝔾 :=
  ⟨token, (1 : ℤ) • c.generator + ((c.sha256 targetHash % c.order : ℕ) : ℤ) • P, 1, bits⟩

theorem verifyMutiSign_forge {threshold : UInt32} {targetHash : String} {token : UInt64}
    {bits : List Bool} {P : 𝔾} (hhash : targetHash ≠ "")
    (hs : c.Signable g threshold token ex bits P) :
    (c.verifyMutiSign g threshold targetHash (some (c.forge targetHash token bits P))
      token ex).1 = true :=
  (c.verifyMutiSign_iff).mpr ⟨_, P, rfl, hhash, rfl, hs, Schnorr.verifySign_forged hhash P⟩

omit [DecidableEq 𝔾] in
theorem exists_signable : ∃ g threshold token ex bits P,
    c.Signable g threshold token ex bits P := by
  refine ⟨⟨⟨0, 0⟩, 0, [some ⟨"signer", c.toKey 0⟩]⟩, 1, 1, .empty, [true], 0, ?_⟩
  have hcollect : (collect ⟨⟨0, 0⟩, 0, [some ⟨"signer", c.toKey 0⟩]⟩ [true] .empty).signers =
      [⟨"signer", c.toKey 0⟩] := by
    simp [collect, collectUpTo, collectSlot, isSet, XvNodeGroup.getNode, c.toKey_ne, Excluded.empty]
  refine ⟨by decide, by decide, rfl, ?_, ?_⟩
  · rw [hcollect]
    exact Nat.le_refl 1
  · rw [hcollect]
    simp [aggregateKeys, c.ofKey_toKey, Schnorr.aggregatePubkeys]

/-- An outsider fixes `s`, `a` and `b` from the message and sends `s` with `a * G + b * P`. That
fails for some public key, whatever is chosen, only when the message is empty. -/
theorem no_outsider_signature_iff (msg : String) :
    ((¬ ∃ s a b : ℤ, ∀ P : 𝔾, c.verifySign msg P s (a • c.generator + b • P) = true) ↔
      msg = "") ∧
    ((¬ ∃ s a b : ℤ, ∀ g threshold token ex bits P, c.Signable g threshold token ex bits P →
      (c.verifyMutiSign g threshold msg
        (some ⟨token, a • c.generator + b • P, s, bits⟩) token ex).1 = true) ↔ msg = "") := by
  constructor
  · constructor
    · intro h
      by_contra hmsg
      exact h ⟨1, 1, _, Schnorr.verifySign_forged hmsg⟩
    · rintro rfl ⟨s, a, b, h⟩
      exact Bool.false_ne_true (h 0)
  · constructor
    · intro h
      by_contra hmsg
      exact h ⟨1, 1, _, fun g threshold token ex bits P hs => c.verifyMutiSign_forge hmsg hs⟩
    · rintro rfl ⟨s, a, b, h⟩
      obtain ⟨g, threshold, token, ex, bits, P, hs⟩ := c.exists_signable
      obtain ⟨_, _, _, hne, _⟩ := (c.verifyMutiSign_iff).mp (h g threshold token ex bits P hs)
      exact hne rfl

end Schnorrsig

def fivePoints : Schnorrsig (ZMod 5) where
  generator := 1
  order := 5
  prime := by decide
  card_eq := by simp
  generates := fun P => ⟨P.val, by simp⟩
  sha256 := fun msg => msg.length
  ofKey := fun key => if key = "" then none else some (key.length - 1 : ℕ)
  toKey := fun P => String.ofList (List.replicate (P.val + 1) 'k')
  ofKey_toKey := by decide
  toKey_ne := by decide

theorem vote_forged_for_every_key : ∃ s a b : ℤ, ∀ P : ZMod 5,
    fivePoints.verifySign "vote" P s (a • fivePoints.generator + b • P) = true :=
  ⟨1, 1, 4, by decide⟩

end TopChain.Sign
