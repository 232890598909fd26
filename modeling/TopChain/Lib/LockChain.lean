import Mathlib.Data.Set.Function

/-!
# Agreement of a chained voting protocol with locks

Parties vote for blocks of a hash chain.
-/
namespace TopChain.Lib.LockChain

open Set Function

structure Protocol (ν β η : Type) where
  ident : β → η
  prev : β → η
  height : β → ℕ
  genesis : β
  honest : ν → Prop
  quorum : Set ν → Prop
  solo : β → Prop
  quorum_inter : ∀ Q Q', quorum Q → quorum Q' → ∃ v ∈ Q, v ∈ Q' ∧ honest v

/-- A vote, with the lock of the voter when it voted. -/
structure Vote (ν β : Type) where
  voter : ν
  block : β
  lock : β

structure State (ν β : Type) where
  lock : ν → β
  votes : Set (Vote ν β)
  certs : Set β

namespace Protocol
variable {ν β η : Type} (P : Protocol ν β η)

def Link (child parent : β) : Prop :=
  P.prev child = P.ident parent ∧ P.height child = P.height parent + 1

/-- The block is a child of the lock, or a grandchild through a certified block. -/
def Extends (certs : Set β) (l b : β) : Prop :=
  P.Link b l ∨ ∃ p ∈ certs, P.Link b p ∧ P.Link p l

/-- A certified block with a certified child. -/
def Lockable (certs : Set β) (l : β) : Prop :=
  l = P.genesis ∨ (l ∈ certs ∧ ∃ c ∈ certs, P.Link c l)

/-- A certified block with a certified child and grandchild. -/
def Final (certs : Set β) (g : β) : Prop :=
  g ∈ certs ∧ ∃ p ∈ certs, P.Link p g ∧ ∃ d ∈ certs, P.Link d p

def Initial (s : State ν β) : Prop :=
  (∀ v, P.honest v → s.lock v = P.genesis) ∧ s.votes = ∅ ∧ s.certs = ∅

inductive Step [DecidableEq ν] (s : State ν β) : State ν β → Prop
  | vote (v : ν) (b : β) (hv : P.honest v) (hup : P.height (s.lock v) < P.height b)
      (hext : P.Extends s.certs (s.lock v) b ∨ P.solo b) :
      Step s { s with votes := insert ⟨v, b, s.lock v⟩ s.votes }
  | certify (Q : Set ν) (b : β) (hQ : P.quorum Q)
      (hvoted : ∀ v ∈ Q, P.honest v → ∃ l, ⟨v, b, l⟩ ∈ s.votes)
      (hident : ∀ c ∈ insert P.genesis s.certs, P.ident c = P.ident b → c = b)
      (hsolo : ∀ c ∈ s.certs, P.height c = P.height b → P.solo c ∨ P.solo b → c = b) :
      Step s { s with certs := insert b s.certs }
  | lock (v : ν) (l : β) (hl : l ∈ s.certs) (hc : ∃ c ∈ s.certs, P.Link c l)
      (hup : P.height (s.lock v) < P.height l) :
      Step s { s with lock := Function.update s.lock v l }

def Reachable [DecidableEq ν] (s : State ν β) : Prop :=
  ∃ s₀, P.Initial s₀ ∧ Relation.ReflTransGen P.Step s₀ s

variable {P} {certs certs' : Set β} {l b : β}

theorem Extends.mono (hsub : certs ⊆ certs') (h : P.Extends certs l b) : P.Extends certs' l b := by
  rcases h with h | ⟨p, hp, h⟩
  · exact .inl h
  · exact .inr ⟨p, hsub hp, h⟩

theorem Lockable.mono (hsub : certs ⊆ certs') (h : P.Lockable certs l) : P.Lockable certs' l := by
  rcases h with h | ⟨hl, c, hc, hlink⟩
  · exact .inl h
  · exact .inr ⟨hsub hl, c, hsub hc, hlink⟩

theorem Lockable.mem (h : P.Lockable certs l) : l ∈ insert P.genesis certs := h.imp id (·.1)

theorem Final.mono (hsub : certs ⊆ certs') (h : P.Final certs b) : P.Final certs' b := by
  obtain ⟨hb, p, hp, hlink, d, hd, hlink'⟩ := h
  exact ⟨hsub hb, p, hsub hp, hlink, d, hsub hd, hlink'⟩

variable (P)

def FirstVoted (s : State ν β) (d : β) : Prop :=
  ∃ Q, P.quorum Q ∧ ∀ v ∈ Q, P.honest v →
    ∃ l, ⟨v, d, l⟩ ∈ s.votes ∧ (l = P.genesis ∨ P.height l + 2 = P.height d)

/-- `first` picks at each height the block certified first. `grand` is the core: certified blocks of
one height have one grandparent. -/
structure Inv (s : State ν β) : Prop where
  lock_ok : ∀ v, P.honest v → P.Lockable s.certs (s.lock v)
  vote_lock : ∀ w ∈ s.votes, P.Lockable s.certs w.lock
  vote_up : ∀ w ∈ s.votes, P.height w.lock < P.height w.block
  vote_extends : ∀ w ∈ s.votes, P.Extends s.certs w.lock w.block ∨ P.solo w.block
  vote_below : ∀ w ∈ s.votes, P.height w.lock < P.height (s.lock w.voter) ∨
    w.lock = s.lock w.voter
  same_height : ∀ w ∈ s.votes, ∀ w' ∈ s.votes, w.voter = w'.voter →
    P.height w.lock = P.height w'.lock → w.lock = w'.lock
  cert_voted : ∀ c ∈ s.certs, ∃ w ∈ s.votes, w.block = c
  ident_inj : Set.InjOn P.ident (insert P.genesis s.certs)
  above_genesis : ∀ c ∈ s.certs, P.height P.genesis < P.height c
  solo_unique : ∀ c ∈ s.certs, ∀ d ∈ s.certs, P.height c = P.height d →
    P.solo c ∨ P.solo d → c = d
  first : ∀ c ∈ s.certs, ∃ d ∈ s.certs, P.height d = P.height c ∧ (P.solo d ∨ P.FirstVoted s d)
  grand : ∀ d ∈ s.certs, ∀ d' ∈ s.certs, P.height d = P.height d' →
    ∀ p ∈ s.certs, ∀ p' ∈ s.certs, ∀ g ∈ insert P.genesis s.certs,
    ∀ g' ∈ insert P.genesis s.certs,
    P.Link d p → P.Link p g → P.Link d' p' → P.Link p' g' → g = g'

variable {P} {s s' : State ν β}

theorem Inv.genesis_le (h : P.Inv s) {c : β} (hc : c ∈ insert P.genesis s.certs) :
    P.height P.genesis ≤ P.height c := by
  rcases hc with rfl | hc
  · exact le_rfl
  · exact (h.above_genesis c hc).le

theorem Inv.link_unique (h : P.Inv s) {c p p' : β} (hp : p ∈ insert P.genesis s.certs)
    (hp' : p' ∈ insert P.genesis s.certs) (hl : P.prev c = P.ident p)
    (hl' : P.prev c = P.ident p') :
    p = p' :=
  h.ident_inj hp hp' (hl.symm.trans hl')

theorem inv_initial (h : P.Initial s) : P.Inv s := by
  obtain ⟨hlock, hvotes, hcerts⟩ := h
  constructor
  case lock_ok => exact fun v hv => .inl (hlock v hv)
  case ident_inj => simp [hcerts]
  all_goals simp [hvotes, hcerts]

theorem FirstVoted.mono {d : β} (hv : s.votes ⊆ s'.votes) (h : P.FirstVoted s d) :
    P.FirstVoted s' d := by
  obtain ⟨Q, hQ, hall⟩ := h
  refine ⟨Q, hQ, fun v hvQ hh => ?_⟩
  obtain ⟨l, hl, hlow⟩ := hall v hvQ hh
  exact ⟨l, hv hl, hlow⟩

section
variable (h : P.Inv s) {Q : Set ν} (hQ : P.quorum Q)
  (hvoted : ∀ v ∈ Q, P.honest v → ∃ l, ⟨v, b, l⟩ ∈ s.votes)
include h hQ hvoted

theorem firstVoted_of_fresh (hfresh : ∀ c ∈ s.certs, P.height c ≠ P.height b) (hsolo : ¬ P.solo b) :
    P.FirstVoted s b := by
  refine ⟨Q, hQ, fun v hv hh => ?_⟩
  obtain ⟨l, hl⟩ := hvoted v hv hh
  refine ⟨l, hl, ?_⟩
  rcases h.vote_extends _ hl with (hlink | ⟨p, -, hbp, hpl⟩) | hs
  · rcases h.vote_lock _ hl with hg | ⟨-, c, hc, hcl⟩
    · exact .inl hg
    · exact absurd (hcl.2.trans hlink.2.symm) (hfresh c hc)
  · have h1 := hbp.2
    have h2 : P.height p = P.height l + 1 := hpl.2
    change P.height b = P.height p + 1 at h1
    exact .inr (by omega)
  · exact absurd hs hsolo

/-- The core of agreement. Some honest party voted both for `b` and for the block certified first at
its height, and it held locks of one height or a lock below `b` with a certified child. -/
theorem grand_of_certify {d p p' g g' : β} (hd : d ∈ s.certs) (heq : P.height d = P.height b)
    (hns : ¬ P.solo d) (hnb : ¬ P.solo b)
    (hp : p ∈ s.certs) (hp' : p' ∈ s.certs) (hg : g ∈ insert P.genesis s.certs)
    (hg' : g' ∈ insert P.genesis s.certs)
    (hdp : P.Link d p) (hpg : P.Link p g) (hbp : P.Link b p') (hpg' : P.Link p' g') :
    g = g' := by
  obtain ⟨d₀, hd₀, hh₀, hcase⟩ := h.first d hd
  rcases hcase with hs | ⟨Q₀, hQ₀, hall₀⟩
  · exact absurd (h.solo_unique d₀ hd₀ d hd hh₀ (.inl hs) ▸ hs) hns
  obtain ⟨v, hv₀, hv, hhon⟩ := P.quorum_inter Q₀ Q hQ₀ hQ
  obtain ⟨l₀, hl₀, hlow₀⟩ := hall₀ v hv₀ hhon
  obtain ⟨l₁, hl₁⟩ := hvoted v hv hhon
  have hns₀ : ¬ P.solo d₀ := fun hs =>
    hns (h.solo_unique d₀ hd₀ d hd hh₀ (.inl hs) ▸ hs)
  have hpgen := h.above_genesis p hp
  -- the first block's chain ends in the lock its voter held
  have hgl : g = l₀ := by
    rcases h.vote_extends _ hl₀ with (hlink | ⟨p₀, hp₀, hdp₀, hpl₀⟩) | hs
    · exfalso
      have h1 : P.height d₀ = P.height l₀ + 1 := hlink.2
      have h2 := hdp.2
      rcases hlow₀ with rfl | hlow
      · omega
      · omega
    · exact h.grand d hd d₀ hd₀ hh₀.symm p hp p₀ hp₀ g hg l₀ (h.vote_lock _ hl₀).mem
        hdp hpg hdp₀ hpl₀
    · exact absurd hs hns₀
  rcases h.vote_extends _ hl₁ with (hlink | ⟨p₁, hp₁, hbp₁, hpl₁⟩) | hs
  · -- locked on the parent of `b`: that lock had a certified child of this height
    have hlp : l₁ = p' := h.link_unique (h.vote_lock _ hl₁).mem (.inr hp') hlink.1 hbp.1
    rcases h.vote_lock _ hl₁ with hgen | ⟨-, c, hc, hcl⟩
    · have h1 := h.above_genesis p' hp'
      rw [← hlp] at h1
      simp only at hgen
      rw [hgen] at h1
      exact absurd h1 (lt_irrefl _)
    · have hcl' : P.Link c p' := hlp ▸ hcl
      have hch : P.height d = P.height c := by
        have h1 := hcl'.2
        have h2 := hbp.2
        omega
      exact h.grand d hd c hc hch p hp p' hp' g hg g' hg' hdp hpg hcl' hpg'
  · have hpp : p₁ = p' := h.link_unique (.inr hp₁) (.inr hp') hbp₁.1 hbp.1
    have hlg : l₁ = g' :=
      h.link_unique (h.vote_lock _ hl₁).mem hg' (hpp ▸ hpl₁.1) hpg'.1
    have hheight : P.height l₀ = P.height l₁ := by
      rw [← hgl, hlg]
      have h1 := hdp.2
      have h2 := hpg.2
      have h3 := hbp.2
      have h4 := hpg'.2
      omega
    rw [hgl, ← hlg]
    exact h.same_height _ hl₀ _ hl₁ rfl hheight
  · exact absurd hs hnb

end

theorem inv_vote {v : ν} (h : P.Inv s) (hv : P.honest v) (hup : P.height (s.lock v) < P.height b)
    (hext : P.Extends s.certs (s.lock v) b ∨ P.solo b) :
    P.Inv { s with votes := insert ⟨v, b, s.lock v⟩ s.votes } := by
  have hlock := h.lock_ok v hv
  constructor
  case lock_ok => exact h.lock_ok
  case vote_lock => exact forall_mem_insert.mpr ⟨hlock, h.vote_lock⟩
  case vote_up => exact forall_mem_insert.mpr ⟨hup, h.vote_up⟩
  case vote_extends => exact forall_mem_insert.mpr ⟨hext, h.vote_extends⟩
  case vote_below => exact forall_mem_insert.mpr ⟨.inr rfl, h.vote_below⟩
  case same_height =>
    -- an old vote's lock is below the voter's current lock, or is that lock
    have hold : ∀ w ∈ s.votes, w.voter = v → P.height w.lock = P.height (s.lock v) →
        w.lock = s.lock v := by
      intro w hw hwv hheight
      rcases h.vote_below w hw with hlt | heq
      · rw [hwv] at hlt
        exact absurd hheight hlt.ne
      · rw [heq, hwv]
    intro w hw w' hw' hvoter hheight
    rcases hw with rfl | hw <;> rcases hw' with rfl | hw'
    · rfl
    · exact (hold w' hw' hvoter.symm hheight.symm).symm
    · exact hold w hw hvoter hheight
    · exact h.same_height w hw w' hw' hvoter hheight
  case cert_voted =>
    intro c hc
    obtain ⟨w, hw, hwc⟩ := h.cert_voted c hc
    exact ⟨w, .inr hw, hwc⟩
  case ident_inj => exact h.ident_inj
  case above_genesis => exact h.above_genesis
  case solo_unique => exact h.solo_unique
  case first =>
    intro c hc
    obtain ⟨d, hd, hh, hcase⟩ := h.first c hc
    exact ⟨d, hd, hh, hcase.imp id (FirstVoted.mono (subset_insert _ _))⟩
  case grand => exact h.grand

theorem exists_vote {Q : Set ν} (hQ : P.quorum Q)
    (hvoted : ∀ v ∈ Q, P.honest v → ∃ l, ⟨v, b, l⟩ ∈ s.votes) :
    ∃ w ∈ s.votes, w.block = b := by
  obtain ⟨v, hv, -, hhon⟩ := P.quorum_inter Q Q hQ hQ
  obtain ⟨l, hl⟩ := hvoted v hv hhon
  exact ⟨_, hl, rfl⟩

theorem Inv.above_genesis_of_vote (h : P.Inv s) {w : Vote ν β} (hw : w ∈ s.votes) :
    P.height P.genesis < P.height w.block :=
  (h.genesis_le (h.vote_lock w hw).mem).trans_lt (h.vote_up w hw)

theorem Inv.parent_mem (h : P.Inv s) {c : β} (hc : c ∈ s.certs) (hns : ¬ P.solo c) :
    ∃ q ∈ insert P.genesis s.certs, P.Link c q := by
  obtain ⟨w, hw, rfl⟩ := h.cert_voted c hc
  rcases h.vote_extends w hw with (hlink | ⟨p, hp, hbp, -⟩) | hs
  · exact ⟨w.lock, (h.vote_lock w hw).mem, hlink⟩
  · exact ⟨p, .inr hp, hbp⟩
  · exact absurd hs hns

/-! ### A new certificate

The three facts below restate the per-block fields of the invariant with `b` added. -/

section
variable {Q : Set ν} (h : P.Inv s) (hQ : P.quorum Q)
  (hvoted : ∀ v ∈ Q, P.honest v → ∃ l, ⟨v, b, l⟩ ∈ s.votes)
  (hident : ∀ c ∈ insert P.genesis s.certs, P.ident c = P.ident b → c = b)
  (hsolo : ∀ c ∈ s.certs, P.height c = P.height b → P.solo c ∨ P.solo b → c = b)

include h hident in
theorem ident_inj_certify : Set.InjOn P.ident (insert P.genesis (insert b s.certs)) := by
  rw [insert_comm]
  intro c hc c' hc' he
  rcases hc with rfl | hc <;> rcases hc' with rfl | hc'
  · rfl
  · exact (hident c' hc' he.symm).symm
  · exact hident c hc he
  · exact h.ident_inj hc hc' he

include h hsolo in
theorem solo_unique_certify : ∀ c ∈ insert b s.certs, ∀ d ∈ insert b s.certs,
    P.height c = P.height d → P.solo c ∨ P.solo d → c = d := by
  intro c hc d hd hh hs
  rcases hc with rfl | hc <;> rcases hd with rfl | hd
  · rfl
  · exact (hsolo d hd hh.symm hs.symm).symm
  · exact hsolo c hc hh hs
  · exact h.solo_unique c hc d hd hh hs

include h hQ hvoted in
theorem above_genesis_certify : ∀ c ∈ insert b s.certs, P.height P.genesis < P.height c := by
  obtain ⟨w, hw, rfl⟩ := exists_vote hQ hvoted
  exact forall_mem_insert.mpr ⟨h.above_genesis_of_vote hw, h.above_genesis⟩

include h hQ hvoted in
theorem first_certify : ∀ c ∈ insert b s.certs, ∃ d ∈ insert b s.certs,
    P.height d = P.height c ∧ (P.solo d ∨ P.FirstVoted s d) := by
  have hold : ∀ c ∈ s.certs, ∃ d ∈ insert b s.certs, P.height d = P.height c ∧
      (P.solo d ∨ P.FirstVoted s d) := by
    intro c hc
    obtain ⟨d, hd, hrest⟩ := h.first c hc
    exact ⟨d, .inr hd, hrest⟩
  refine forall_mem_insert.mpr ⟨?_, hold⟩
  by_cases hfresh : ∃ c ∈ s.certs, P.height c = P.height b
  · obtain ⟨c, hc, hh⟩ := hfresh
    obtain ⟨d, hd, hdc, hrest⟩ := hold c hc
    exact ⟨d, hd, hdc.trans hh, hrest⟩
  · push Not at hfresh
    refine ⟨b, .inl rfl, rfl, ?_⟩
    by_cases hs : P.solo b
    · exact .inl hs
    · exact .inr (firstVoted_of_fresh h hQ hvoted hfresh hs)

include h hQ hvoted hident hsolo in
theorem grand_new {d p p' g g' : β} (hd : d ∈ s.certs) (hh : P.height d = P.height b)
    (hp : p ∈ insert b s.certs) (hp' : p' ∈ insert b s.certs)
    (hg : g ∈ insert P.genesis (insert b s.certs))
    (hg' : g' ∈ insert P.genesis (insert b s.certs))
    (hdp : P.Link d p) (hpg : P.Link p g) (hbp : P.Link b p') (hpg' : P.Link p' g') :
    g = g' := by
  have hinj := ident_inj_certify h hident
  -- a block below the new one is not the new one
  have hbelow : ∀ {x : β}, x ∈ insert b s.certs → P.height x < P.height b → x ∈ s.certs := by
    intro x hx hlt
    rcases hx with rfl | hx
    · exact absurd hlt (lt_irrefl _)
    · exact hx
  by_cases hs : P.solo d ∨ P.solo b
  · obtain rfl := hsolo d hd hh hs
    obtain rfl := hinj (.inr hp) (.inr hp') (hdp.1.symm.trans hbp.1)
    exact hinj hg hg' (hpg.1.symm.trans hpg'.1)
  · push Not at hs
    have h1 := hdp.2
    have h2 := hpg.2
    have h3 := hbp.2
    have h4 := hpg'.2
    exact grand_of_certify h hQ hvoted hd hh hs.1 hs.2 (hbelow hp (by omega))
      (hbelow hp' (by omega)) (hg.imp id fun hg => hbelow hg (by omega))
      (hg'.imp id fun hg' => hbelow hg' (by omega)) hdp hpg hbp hpg'

include h hQ hvoted hident hsolo in
theorem grand_old {d d' p p' g g' : β} (hd : d ∈ s.certs) (hd' : d' ∈ s.certs)
    (hh : P.height d = P.height d') (hp : p ∈ insert b s.certs) (hp' : p' ∈ insert b s.certs)
    (hg : g ∈ insert P.genesis (insert b s.certs))
    (hg' : g' ∈ insert P.genesis (insert b s.certs))
    (hdp : P.Link d p) (hpg : P.Link p g) (hdp' : P.Link d' p') (hpg' : P.Link p' g') :
    g = g' := by
  have hinj := ident_inj_certify h hident
  have hgen := above_genesis_certify h hQ hvoted
  have hold : ∀ {x y : β}, x ∈ s.certs → ¬ P.solo x →
      y ∈ insert P.genesis (insert b s.certs) → P.Link x y → y ∈ insert P.genesis s.certs := by
    intro x y hx hns hy hlink
    obtain ⟨q, hq, hxq, -⟩ := h.parent_mem hx hns
    have hq' : q ∈ insert P.genesis (insert b s.certs) := hq.imp id .inr
    exact hinj hy hq' (hlink.1.symm.trans hxq) ▸ hq
  have hcert : ∀ {x : β}, x ∈ insert b s.certs → x ∈ insert P.genesis s.certs → x ∈ s.certs := by
    intro x hx hx'
    rcases hx' with rfl | hx'
    · exact absurd (hgen _ hx) (lt_irrefl _)
    · exact hx'
  have hgrand : p = p' → g = g' := by
    rintro rfl
    exact hinj hg hg' (hpg.1.symm.trans hpg'.1)
  have hpp' : P.height p = P.height p' := by
    have h1 := hdp.2
    have h2 := hdp'.2
    omega
  by_cases hs : P.solo d ∨ P.solo d'
  · obtain rfl := h.solo_unique d hd d' hd' hh hs
    exact hgrand (hinj (.inr hp) (.inr hp') (hdp.1.symm.trans hdp'.1))
  by_cases hs' : P.solo p ∨ P.solo p'
  · exact hgrand (solo_unique_certify h hsolo p hp p' hp' hpp' hs')
  push Not at hs hs'
  have hp₀ := hcert hp (hold hd hs.1 (.inr hp) hdp)
  have hp₀' := hcert hp' (hold hd' hs.2 (.inr hp') hdp')
  exact h.grand d hd d' hd' hh p hp₀ p' hp₀' g (hold hp₀ hs'.1 hg hpg) g'
    (hold hp₀' hs'.2 hg' hpg') hdp hpg hdp' hpg'

include h hQ hvoted hident hsolo in
theorem inv_certify : P.Inv { s with certs := insert b s.certs } := by
  have hsub : s.certs ⊆ insert b s.certs := subset_insert _ _
  have hinj := ident_inj_certify h hident
  constructor
  case lock_ok => exact fun v hv => (h.lock_ok v hv).mono hsub
  case vote_lock => exact fun w hw => (h.vote_lock w hw).mono hsub
  case vote_up => exact h.vote_up
  case vote_extends => exact fun w hw => (h.vote_extends w hw).imp (Extends.mono hsub) id
  case vote_below => exact h.vote_below
  case same_height => exact h.same_height
  case cert_voted => exact forall_mem_insert.mpr ⟨exists_vote hQ hvoted, h.cert_voted⟩
  case ident_inj => exact hinj
  case above_genesis => exact above_genesis_certify h hQ hvoted
  case solo_unique => exact solo_unique_certify h hsolo
  case first => exact first_certify h hQ hvoted
  case grand =>
    intro d hd d' hd' hh p hp p' hp' g hg g' hg' hdp hpg hdp' hpg'
    rcases hd with rfl | hd <;> rcases hd' with rfl | hd'
    · obtain rfl := hinj (.inr hp) (.inr hp') (hdp.1.symm.trans hdp'.1)
      exact hinj hg hg' (hpg.1.symm.trans hpg'.1)
    · exact (grand_new h hQ hvoted hident hsolo hd' hh.symm hp' hp hg' hg hdp' hpg' hdp hpg).symm
    · exact grand_new h hQ hvoted hident hsolo hd hh hp hp' hg hg' hdp hpg hdp' hpg'
    · exact grand_old h hQ hvoted hident hsolo hd hd' hh hp hp' hg hg' hdp hpg hdp' hpg'

end

section
variable [DecidableEq ν]

theorem inv_lock {v : ν} (h : P.Inv s) (hl : l ∈ s.certs)
    (hc : ∃ c ∈ s.certs, P.Link c l) (hup : P.height (s.lock v) < P.height l) :
    P.Inv { s with lock := Function.update s.lock v l } := by
  constructor
  case lock_ok =>
    intro u hu
    by_cases huv : u = v
    · subst huv
      have hlock : P.Lockable s.certs l := .inr ⟨hl, hc⟩
      simpa only [update_self] using hlock
    · simpa only [update_of_ne huv] using h.lock_ok u hu
  case vote_below =>
    intro w hw
    by_cases hwv : w.voter = v
    · have hlt : P.height w.lock < P.height l := by
        rcases h.vote_below w hw with hlt | heq
        · exact (hwv ▸ hlt).trans hup
        · rw [heq, hwv]
          exact hup
      exact .inl (by simpa only [hwv, update_self] using hlt)
    · simpa only [update_of_ne hwv] using h.vote_below w hw
  case vote_lock => exact h.vote_lock
  case vote_up => exact h.vote_up
  case vote_extends => exact h.vote_extends
  case same_height => exact h.same_height
  case cert_voted => exact h.cert_voted
  case ident_inj => exact h.ident_inj
  case above_genesis => exact h.above_genesis
  case solo_unique => exact h.solo_unique
  case first => exact h.first
  case grand => exact h.grand

theorem inv_step (h : P.Inv s) (hstep : P.Step s s') : P.Inv s' := by
  cases hstep with
  | vote v b hv hup hext => exact inv_vote h hv hup hext
  | certify Q b hQ hvoted hident hsolo => exact inv_certify h hQ hvoted hident hsolo
  | lock v l hl hc hup => exact inv_lock h hl hc hup

theorem Reachable.step (h : P.Reachable s) (hstep : P.Step s s') : P.Reachable s' := by
  obtain ⟨s₀, hinit, hrun⟩ := h
  exact ⟨s₀, hinit, hrun.tail hstep⟩

theorem Reachable.inv (h : P.Reachable s) : P.Inv s := by
  obtain ⟨s₀, hinit, hrun⟩ := h
  induction hrun with
  | refl => exact inv_initial hinit
  | tail _ hstep ih => exact inv_step ih hstep

end

theorem Inv.final_unique (h : P.Inv s) {g g' : β} (hg : P.Final s.certs g)
    (hg' : P.Final s.certs g') (hh : P.height g = P.height g') : g = g' := by
  obtain ⟨hg, p, hp, hpg, d, hd, hdp⟩ := hg
  obtain ⟨hg', p', hp', hpg', d', hd', hdp'⟩ := hg'
  have hdd : P.height d = P.height d' := by
    have h1 := hpg.2
    have h2 := hdp.2
    have h3 := hpg'.2
    have h4 := hdp'.2
    omega
  exact h.grand d hd d' hd' hdd p hp p' hp' g (.inr hg) g' (.inr hg') hdp hpg hdp' hpg'

/-- From a block down to an ancestor through certified parents. -/
def Chain (P : Protocol ν β η) (certs : Set β) : β → β → Prop :=
  Relation.ReflTransGen fun c p => p ∈ certs ∧ P.Link c p

/-- The parent of a final block above `g` is final too. -/
theorem Inv.chain_of_final (h : P.Inv s) (hlow : ∀ c p, P.Link c p → ¬ P.solo p) {g g' : β} {n : ℕ}
    (hg : P.Final s.certs g) (hg' : P.Final s.certs g') (hn : P.height g' = P.height g + n) :
    P.Chain s.certs g' g := by
  induction n generalizing g' with
  | zero => exact h.final_unique hg' hg hn ▸ .refl
  | succ n ih =>
    obtain ⟨hmem, p, hp, hlink, -⟩ := hg'
    obtain ⟨q, hq, hparent⟩ := h.parent_mem hmem (hlow p g' hlink)
    have hheight := hparent.2
    have hcert : q ∈ s.certs := hq.resolve_left fun he => by
      have hup := h.above_genesis g hg.1
      rw [← he] at hup
      omega
    exact .head ⟨hcert, hparent⟩ (ih ⟨hcert, g', hmem, hparent, p, hp, hlink⟩ (by omega))

end Protocol
end TopChain.Lib.LockChain
