import TopChain.Sign.Schnorrsig

/-!
# Merging votes into a group signature (`xcertauth/src/xschnorrsig.cpp`)

`verify_sign` does not look at the bits of a vote, and `merge_muti_sign` refuses other sizes. A zero
seal and the point at infinity are written as empty texts (`xbignum_serialize.cpp`), and an empty
text reads back as no point.
-/
namespace TopChain.Sign

open List

/-- A vote of the node at a slot of the group. -/
structure Vote (𝔾 : Type) where
  slot : ℕ
  node : XvNode
  sig : MutisigData 𝔾

variable {𝔾 : Type}

/-- The votes are of members at distinct slots, with distinct accounts and keys. -/
structure Voters (g : XvNodeGroup) (votes : List (Vote 𝔾)) : Prop where
  member : ∀ v ∈ votes, g.getNode v.slot = some v.node
  slots : (votes.map (·.slot)).Nodup
  accounts : (votes.map (·.node.account)).Nodup
  keys : (votes.map (·.node.signPubkey)).Nodup

def marked (votes : List (Vote 𝔾)) (i : ℕ) : Bool := i ∈ votes.map (·.slot)

section
variable {g : XvNodeGroup} {votes : List (Vote 𝔾)} {n : ℕ}

theorem slot_lt_size {i : ℕ} {node : XvNode} (h : g.getNode i = some node) : i < g.size := by
  rw [XvNodeGroup.getNode, Option.join_eq_some_iff] at h
  exact (List.getElem?_eq_some_iff.mp h).1

section
variable (hv : Voters g votes) (hkeys : ∀ v ∈ votes, v.node.signPubkey ≠ "")
include hv hkeys

theorem collectUpTo_votes :
    let acc := collectUpTo g (marked votes) .empty n
    (∀ x, x ∈ acc.signers ↔ ∃ v ∈ votes, v.slot < n ∧ v.node = x) ∧
    (∀ a ∈ acc.excluded.accounts, ∃ x ∈ acc.signers, x.account = a) ∧
    ∀ k ∈ acc.excluded.keys, ∃ x ∈ acc.signers, x.signPubkey = k := by
  induction n with
  | zero => simp [collectUpTo, Excluded.empty]
  | succ n ih =>
    obtain ⟨hsigners, haccounts, hexcluded⟩ := ih
    dsimp only [collectUpTo]
    by_cases hn : n ∈ votes.map (·.slot)
    · obtain ⟨v, hmem, rfl⟩ := mem_map.mp hn
      -- a signer of a lower slot is another vote
      have hother : ∀ x ∈ (collectUpTo g (marked votes) .empty v.slot).signers,
          x.account ≠ v.node.account ∧ x.signPubkey ≠ v.node.signPubkey := by
        intro x hx
        obtain ⟨w, hw, hlt, rfl⟩ := (hsigners x).mp hx
        refine ⟨fun heq => ?_, fun heq => ?_⟩
        · exact hlt.ne (congrArg Vote.slot (inj_on_of_nodup_map hv.accounts hw hmem heq))
        · exact hlt.ne (congrArg Vote.slot (inj_on_of_nodup_map hv.keys hw hmem heq))
      rw [show marked votes v.slot = true from decide_eq_true hn,
        collectSlot_count (hv.member v hmem) (hkeys v hmem)
          (fun h => (haccounts _ h).elim fun x hx => (hother x hx.1).1 hx.2)
        (fun h => (hexcluded _ h).elim fun x hx => (hother x hx.1).2 hx.2)]
      refine ⟨fun x => ?_, fun a ha => ?_, fun k hk => ?_⟩
      · rw [mem_append, hsigners, mem_singleton]
        constructor
        · rintro (⟨w, hw, hlt, rfl⟩ | rfl)
          · exact ⟨w, hw, by omega, rfl⟩
          · exact ⟨v, hmem, by omega, rfl⟩
        · rintro ⟨w, hw, hlt, rfl⟩
          rcases Nat.lt_succ_iff_lt_or_eq.mp hlt with hlt | heq
          · exact .inl ⟨w, hw, hlt, rfl⟩
          · exact .inr (inj_on_of_nodup_map hv.slots hw hmem heq ▸ rfl)
      · rcases Finset.mem_insert.mp ha with rfl | ha
        · exact ⟨v.node, by simp, rfl⟩
        · exact (haccounts a ha).imp fun x hx => ⟨mem_append_left _ hx.1, hx.2⟩
      · rcases Finset.mem_insert.mp hk with rfl | hk
        · exact ⟨v.node, by simp, rfl⟩
        · exact (hexcluded k hk).imp fun x hx => ⟨mem_append_left _ hx.1, hx.2⟩
    · rw [show marked votes n = false from decide_eq_false hn]
      refine ⟨fun x => ?_, haccounts, hexcluded⟩
      refine (hsigners x).trans (exists_congr fun v => and_congr_right fun hmem => ?_)
      have hne : v.slot ≠ n := fun heq => hn (mem_map.mpr ⟨v, hmem, heq⟩)
      exact and_congr_left fun _ => by omega

theorem perm_signers : (collect g ((List.range g.size).map (marked votes)) .empty).signers.Perm
      (votes.map (·.node)) := by
  have hinv := collectInv_collect g ((List.range g.size).map (marked votes)) .empty
  have hnodes : (votes.map (·.node)).Nodup := by
    refine List.Nodup.of_map XvNode.account ?_
    rw [map_map]
    exact hv.accounts
  refine (perm_ext_iff_of_nodup (List.Nodup.of_map _ hinv.accounts_nodup) hnodes).mpr fun x => ?_
  have hbits : ∀ i < g.size, isSet ((List.range g.size).map (marked votes)) i = marked votes i := by
    intro i hi
    simp [isSet, hi]
  rw [collect, length_map, length_range, collectUpTo_congr g _ hbits,
    (collectUpTo_votes hv hkeys).1 x, mem_map]
  refine exists_congr fun v => and_congr_right fun hmem => ?_
  exact and_iff_right (slot_lt_size (hv.member v hmem))

end
end

namespace Schnorrsig
variable [AddCommGroup 𝔾] [DecidableEq 𝔾] (c : Schnorrsig 𝔾)

/-- The seals that `aggregate_sign_points_2` adds up; the first one is taken as it is. -/
def aggregateSigns : List ℤ → ℤ
  | [] => 0
  | s :: rest => rest.foldl (fun sum t => (sum + t) % c.order) s

def mergeMutiSign (g : XvNodeGroup) (votes : List (Vote 𝔾)) (token : UInt64) :
    Option (MutisigData 𝔾) :=
  if votes.all fun v => v.sig.token = token && v.sig.nodebits.length = g.size &&
      (v.sig.sign ≠ 0 && v.sig.point ≠ 0) then
    (Schnorr.aggregatePubkeys (votes.map (·.sig.point))).map fun point =>
      { token, point
        sign := c.aggregateSigns (votes.map (·.sig.sign))
        nodebits := (List.range g.size).map (marked votes) }
  else none

/-- What `serialize_from_string` reads of a signature that `serialize_to_string` wrote: without a
point there is none to check. -/
def carried (sig : MutisigData 𝔾) : Option (MutisigData 𝔾) :=
  if sig.point = 0 then none else some sig

/-- `xschnorrsig_t::verify_sign`; an empty text is no key and no point. -/
def verifyNodeSign (node : XvNode) (targetHash : String) (sig : MutisigData 𝔾) (token : UInt64) :
    Bool :=
  if targetHash = "" || token = 0 || sig.token ≠ token || node.signPubkey = "" ||
      sig.point = 0 then false
  else match c.ofKey node.signPubkey with
    | none => false
    | some P => c.verifySign targetHash P sig.sign sig.point

variable {c} {g : XvNodeGroup} {votes : List (Vote 𝔾)} {hash : String} {token : UInt64}

omit [DecidableEq 𝔾] in
theorem aggregateSigns_eq {signs : List ℤ} (hne : signs ≠ [])
    (hlegal : ∀ s ∈ signs, 0 < s ∧ s < c.order) : c.aggregateSigns signs = signs.sum % c.order := by
  cases signs with
  | nil => exact absurd rfl hne
  | cons s rest =>
    have hs := hlegal s mem_cons_self
    have hfold : ∀ sum : ℤ, sum % c.order = sum →
        rest.foldl (fun (sum t : ℤ) => (sum + t) % c.order) sum = (sum + rest.sum) % c.order := by
      clear hlegal hne
      induction rest with
      | nil => intro sum hsum; simpa using hsum.symm
      | cons t rest ih =>
        intro sum _
        rw [foldl_cons, ih _ (Int.emod_emod _ _), Int.emod_add_emod, sum_cons, add_assoc]
    rw [aggregateSigns, hfold s (Int.emod_eq_of_lt hs.1.le hs.2), sum_cons]

omit [DecidableEq 𝔾] in
theorem mapM_ofKey {key : XvNode → 𝔾} {l : List XvNode}
    (h : ∀ x ∈ l, c.ofKey x.signPubkey = some (key x)) :
    l.mapM (fun x => c.ofKey x.signPubkey) = some (l.map key) := by
  induction l with
  | nil => rfl
  | cons x l ih =>
    rw [mapM_cons, h x mem_cons_self, ih fun y hy => h y (mem_cons_of_mem x hy)]
    rfl

omit [DecidableEq 𝔾] in
/-- The equation of a signature is linear in seals, keys and points. -/
theorem sum_points {key : XvNode → 𝔾} {e : ℕ}
    (h : ∀ v ∈ votes, v.sig.sign • c.generator + e • key v.node = v.sig.point) :
    (votes.map (·.sig.sign)).sum • c.generator + e • (votes.map (key ·.node)).sum =
      (votes.map (·.sig.point)).sum := by
  induction votes with
  | nil => simp
  | cons v votes ih =>
    simp only [map_cons, sum_cons]
    rw [← h v mem_cons_self, ← ih fun w hw => h w (mem_cons_of_mem v hw), add_zsmul,
      nsmul_add, add_add_add_comm]

theorem of_verifyNodeSign {node : XvNode} {sig : MutisigData 𝔾}
    (h : c.verifyNodeSign node hash sig token = true) :
    (hash ≠ "" ∧ token ≠ 0 ∧ sig.token = token ∧ node.signPubkey ≠ "" ∧ sig.point ≠ 0) ∧
      (0 < sig.sign ∧ sig.sign < c.order) ∧ ∃ P, c.ofKey node.signPubkey = some P ∧
        sig.sign • c.generator + (c.sha256 hash % c.order) • P = sig.point := by
  unfold verifyNodeSign at h
  split_ifs at h with hbad
  simp only [Bool.or_eq_true, decide_eq_true_eq, not_or, not_not] at hbad
  obtain ⟨⟨⟨⟨hhash, htoken⟩, hsame⟩, hkey⟩, hpoint⟩ := hbad
  split at h
  · cases h
  · rename_i P hP
    obtain ⟨hlegal, heq⟩ := (Schnorr.verifySign_iff hhash).mp h
    exact ⟨⟨hhash, htoken, hsame, hkey, hpoint⟩, hlegal, P, hP, heq⟩

/-- What the members' votes merge into. -/
def merged (c : Schnorrsig 𝔾) (g : XvNodeGroup) (votes : List (Vote 𝔾)) (token : UInt64) :
    MutisigData 𝔾 where
  token := token
  point := (votes.map (·.sig.point)).sum
  sign := (votes.map (·.sig.sign)).sum % c.order
  nodebits := (List.range g.size).map (marked votes)

section
variable (hvotes : ∀ v ∈ votes, c.verifyNodeSign v.node hash v.sig token = true)
  (hne : votes ≠ [])
include hvotes hne

theorem mergeMutiSign_eq : c.mergeMutiSign g votes token =
    if ∀ v ∈ votes, v.sig.nodebits.length = g.size then some (c.merged g votes token)
    else none := by
  have hok := fun v hm => of_verifyNodeSign (hvotes v hm)
  have hall : votes.all (fun v => v.sig.token = token && v.sig.nodebits.length = g.size &&
      (v.sig.sign ≠ 0 && v.sig.point ≠ 0)) = true ↔
        ∀ v ∈ votes, v.sig.nodebits.length = g.size := by
    simp only [all_eq_true, Bool.and_eq_true, decide_eq_true_eq]
    refine forall₂_congr fun v hm => ⟨fun h => h.1.2, fun h => ?_⟩
    obtain ⟨⟨-, -, htoken, -, hpoint⟩, hlegal, -⟩ := hok v hm
    exact ⟨⟨htoken, h⟩, hlegal.1.ne', hpoint⟩
  have hsign : c.aggregateSigns (votes.map (·.sig.sign)) = _ :=
    aggregateSigns_eq (by simpa using hne) (by simpa using fun v hm => (hok v hm).2.1)
  unfold mergeMutiSign
  split
  · rename_i h
    rw [if_pos (hall.mp h), Schnorr.aggregatePubkeys_eq_sum (by simpa using hne), hsign]
    rfl
  · rename_i h
    rw [if_neg fun hbits => h (hall.mpr hbits)]

/-- The votes' keys are those that the check adds up, and their equations add up to its own. -/
theorem verifySign_merged (hv : Voters g votes)
    (hsum : (votes.map (·.sig.sign)).sum % c.order ≠ 0) :
    ∃ P, c.aggregateKeys (collect g (c.merged g votes token).nodebits .empty).signers = some P ∧
      c.verifySign hash P (c.merged g votes token).sign (c.merged g votes token).point = true := by
  have hok := fun v hm => of_verifyNodeSign (hvotes v hm)
  obtain ⟨v₀, hv₀⟩ := exists_mem_of_ne_nil votes hne
  have hhash := (hok v₀ hv₀).1.1
  have hperm := perm_signers hv fun v hm => (hok v hm).1.2.2.2.1
  let key : XvNode → 𝔾 := fun node => (c.ofKey node.signPubkey).getD 0
  have hkey : ∀ v ∈ votes, c.ofKey v.node.signPubkey = some (key v.node) := by
    intro v hm
    obtain ⟨P, hP, -⟩ := (hok v hm).2.2
    simp [key, hP]
  refine ⟨(votes.map (key ·.node)).sum, ?_, ?_⟩
  · have hsigner : ∀ x ∈ (collect g (c.merged g votes token).nodebits .empty).signers,
        c.ofKey x.signPubkey = some (key x) := by
      intro x hx
      obtain ⟨v, hm, rfl⟩ := mem_map.mp (hperm.subset hx)
      exact hkey v hm
    have hsigners : (collect g (c.merged g votes token).nodebits .empty).signers.map key ≠ [] := by
      intro hnil
      have hlen := (hperm.map key).length_eq
      rw [merged] at hnil
      rw [hnil, map_map, length_nil, length_map] at hlen
      exact hne (length_eq_zero_iff.mp hlen.symm)
    rw [aggregateKeys, mapM_ofKey hsigner, Option.bind_some,
      Schnorr.aggregatePubkeys_eq_sum hsigners, merged, (hperm.map key).sum_eq, map_map]
    rfl
  · have hpos : (0 : ℤ) < c.order := by exact_mod_cast c.prime.pos
    rw [Schnorr.verifySign_iff hhash, merged, Schnorr.emod_zsmul]
    refine ⟨⟨?_, Int.emod_lt_of_pos _ hpos⟩, sum_points fun v hm => ?_⟩
    · exact lt_of_le_of_ne (Int.emod_nonneg _ hpos.ne') hsum.symm
    · obtain ⟨P, hP, hpoint⟩ := (hok v hm).2.2
      rw [Option.mem_unique (hkey v hm) hP]
      exact hpoint

end

/-- Votes that are accepted one by one, and whose seals do not add up to zero, merge into an
accepted signature exactly when all of them have bits of the size of the group, the threshold is not
zero and the points do not add up to the point at infinity. -/
theorem merged_votes_accepted (c : Schnorrsig 𝔾) (g : XvNodeGroup) (hash : String) (token : UInt64)
    (threshold : UInt32) (votes : List (Vote 𝔾)) (hv : Voters g votes)
    (hvotes : ∀ v ∈ votes, c.verifyNodeSign v.node hash v.sig token = true)
    (henough : threshold.toNat ≤ votes.length)
    (hsum : (votes.map (·.sig.sign)).sum % c.order ≠ 0) :
    (c.verifyMutiSign g threshold hash ((c.mergeMutiSign g votes token).bind carried) token
      .empty).1 = true ↔
    (∀ v ∈ votes, v.sig.nodebits.length = g.size) ∧ threshold ≠ 0 ∧
      (votes.map (·.sig.point)).sum ≠ 0 := by
  have hok := fun v hm => of_verifyNodeSign (hvotes v hm)
  have hne : votes ≠ [] := by
    rintro rfl
    exact hsum (Int.zero_emod _)
  rw [c.verifyMutiSign_iff, mergeMutiSign_eq hvotes hne]
  constructor
  · rintro ⟨s, P, hs, -, -, hsignable, -⟩
    obtain ⟨m, hm, hcarried⟩ := Option.bind_eq_some_iff.mp hs
    obtain ⟨hbits, hmerged⟩ := Option.ite_none_right_eq_some.mp hm
    cases hmerged
    obtain ⟨hpoint, -⟩ := Option.ite_none_left_eq_some.mp hcarried
    exact ⟨hbits, hsignable.threshold_ne, hpoint⟩
  · rintro ⟨hbits, hthreshold, hpoint⟩
    obtain ⟨v₀, hv₀⟩ := exists_mem_of_ne_nil votes hne
    obtain ⟨⟨hhash, htoken, -, -⟩, -⟩ := hok v₀ hv₀
    have hperm := perm_signers hv fun v hm => (hok v hm).1.2.2.2.1
    obtain ⟨P, hP, hverified⟩ := verifySign_merged hvotes hne hv hsum
    refine ⟨c.merged g votes token, P, ?_, hhash, rfl, ⟨hthreshold, htoken, ?_, ?_, hP⟩, hverified⟩
    · rw [if_pos hbits]
      exact if_neg hpoint
    · rw [merged, length_map, length_range]
    · rw [merged, hperm.length_eq, length_map]
      exact henough

end Schnorrsig

def trio : XvNodeGroup :=
  ⟨⟨0, 0⟩, 0, [some ⟨"a", "k"⟩, some ⟨"b", "kk"⟩, some ⟨"c", "kkk"⟩]⟩

def twoVotes (bits : List Bool) : List (Vote (ZMod 5)) :=
  [⟨1, ⟨"b", "kk"⟩, ⟨7, 2, 3, [false, true, false]⟩⟩, ⟨2, ⟨"c", "kkk"⟩, ⟨7, 4, 1, bits⟩⟩]

theorem twoVotes_voters (bits : List Bool) : Voters trio (twoVotes bits) :=
  ⟨by simp [twoVotes, trio, XvNodeGroup.getNode], by simp [twoVotes], by simp [twoVotes],
    by simp [twoVotes]⟩

theorem merged_votes_accepted_sample : (fivePoints.verifyMutiSign trio 2 "vote"
    ((fivePoints.mergeMutiSign trio (twoVotes [false, false, true]) 7).bind Schnorrsig.carried) 7
      .empty).1 = true :=
  (fivePoints.merged_votes_accepted trio "vote" 7 2 (twoVotes [false, false, true])
    (twoVotes_voters _) (by decide) (by decide) (by decide)).mpr (by decide)

theorem vote_of_other_size_spoils_merge : Voters trio (twoVotes []) ∧
    (∀ v ∈ twoVotes [], fivePoints.verifyNodeSign v.node "vote" v.sig 7 = true) ∧
    ((twoVotes []).map (·.sig.sign)).sum % fivePoints.order ≠ 0 ∧
    fivePoints.mergeMutiSign trio (twoVotes []) 7 = none ∧
    (fivePoints.verifyMutiSign trio 2 "vote"
      ((fivePoints.mergeMutiSign trio (twoVotes []) 7).bind Schnorrsig.carried) 7 .empty).1 =
        false :=
  ⟨twoVotes_voters _, by decide, by decide, rfl, rfl⟩

end TopChain.Sign
