import Mathlib.Data.Nat.Notation

/-!
# Programs that keep an invariant and move the state forward

A program keeps an invariant, moves the state along a preorder, and meets a postcondition.
-/
namespace TopChain.Lib.Guarantee

structure Frame (σ : Type) where
  inv : σ → Prop
  rel : σ → σ → Prop
  refl : ∀ s, rel s s
  trans : ∀ {s t u}, rel s t → rel t u → rel s u

variable {σ α β : Type} {F : Frame σ} {P P' R : σ → Prop} {Q Q' : α → σ → Prop}

/-- From the invariant and `P` the program keeps the invariant, moves along the preorder and
ends in `Q`. -/
def Spec (F : Frame σ) (P : σ → Prop) (m : StateM σ α) (Q : α → σ → Prop) : Prop :=
  ∀ s, F.inv s → P s → F.inv (m s).2 ∧ F.rel s (m s).2 ∧ Q (m s).1 (m s).2

def Safe (F : Frame σ) (m : StateM σ α) : Prop := Spec F (fun _ => True) m (fun _ _ => True)

def Stable (F : Frame σ) (R : σ → Prop) : Prop := ∀ s t, F.rel s t → R s → R t

theorem Stable.and {R R' : σ → Prop} (h : Stable F R) (h' : Stable F R') :
    Stable F (fun s => R s ∧ R' s) :=
  fun s t hst hs => ⟨h s t hst hs.1, h' s t hst hs.2⟩

variable {m : StateM σ α}

section
variable (h : Spec F P m Q) (hP : ∀ s, F.inv s → P' s → P s)
include h hP

theorem Spec.conseq (hQ : ∀ a s, F.inv s → Q a s → Q' a s) : Spec F P' m Q' := by
  intro s hs hp
  obtain ⟨hinv, hrel, hq⟩ := h s hs (hP s hs hp)
  exact ⟨hinv, hrel, hQ _ _ hinv hq⟩

theorem Spec.pre : Spec F P' m Q := h.conseq hP fun _ _ _ hq => hq

end

theorem Spec.of_true (h : Spec F (fun _ => True) m Q) : Spec F P m Q := h.pre fun _ _ _ => trivial

theorem Spec.safe (h : Spec F (fun _ => True) m Q) : Safe F m :=
  h.conseq (fun _ _ h => h) (fun _ _ _ _ => trivial)

theorem Spec.weaken (h : Spec F P m Q) : Spec F P m (fun _ _ => True) :=
  h.conseq (fun _ _ h => h) (fun _ _ _ _ => trivial)

theorem Spec.frame (h : Spec F P m Q) (hR : Stable F R) :
    Spec F (fun s => P s ∧ R s) m (fun a s => Q a s ∧ R s) := by
  intro s hs hp
  obtain ⟨hinv, hrel, hq⟩ := h s hs hp.1
  exact ⟨hinv, hrel, hq, hR s _ hrel hp.2⟩

theorem Spec.carry (h : Spec F P m Q) (hR : Stable F R) (hP : ∀ s, F.inv s → P' s → P s ∧ R s) :
    Spec F P' m (fun _ => R) :=
  (h.frame hR).conseq hP fun _ _ _ h => h.2

theorem Safe.spec (h : Safe F m) : Spec F P m (fun _ _ => True) :=
  Spec.conseq h (fun _ _ _ => trivial) (fun _ _ _ _ => trivial)

theorem Spec.pure {a : α} (h : ∀ s, F.inv s → P s → Q a s) : Spec F P (pure a : StateM σ α) Q :=
  fun s hs hp => ⟨hs, F.refl s, h s hs hp⟩

theorem Spec.read (f : σ → α) (hm : ∀ s, m s = (f s, s)) :
    Spec F P m (fun a s => a = f s ∧ P s) := by
  intro s hs hp
  rw [hm s]
  exact ⟨hs, F.refl s, rfl, hp⟩

theorem Spec.modify {f : σ → σ} {Q : PUnit → σ → Prop}
    (h : ∀ s, F.inv s → P s → F.inv (f s) ∧ F.rel s (f s) ∧ Q ⟨⟩ (f s)) :
    Spec F P (modify f : StateM σ PUnit) Q :=
  h

variable {f : α → StateM σ β}

theorem Spec.bind {R : β → σ → Prop} (hm : Spec F P m Q) (hf : ∀ a, Spec F (Q a) (f a) R) :
    Spec F P (m >>= f) R := by
  intro s hs hp
  obtain ⟨hinv, hrel, hq⟩ := hm s hs hp
  obtain ⟨hinv', hrel', hr⟩ := hf _ _ hinv hq
  exact ⟨hinv', F.trans hrel hrel', hr⟩

theorem Spec.seq {Q : β → σ → Prop} (hR : Stable F R) (hm : Spec F R m (fun _ _ => True))
    (hf : ∀ a, Spec F R (f a) Q) : Spec F R (m >>= f) Q := by
  exact Spec.bind (hm.carry hR fun _ _ h => ⟨h, h⟩) hf

theorem Spec.read_bind {k : α → StateM σ β} {R : β → σ → Prop} (f : σ → α)
    (hm : ∀ s, m s = (f s, s)) (hk : ∀ s, F.inv s → P s → Spec F (· = s) (k (f s)) R) :
    Spec F P (m >>= k) R := by
  intro s hs hp
  show F.inv ((k (m s).1) (m s).2).2 ∧ F.rel s ((k (m s).1) (m s).2).2 ∧
    R ((k (m s).1) (m s).2).1 ((k (m s).1) (m s).2).2
  rw [hm s]
  exact hk s hs hp s hs rfl

variable {c : Prop}

theorem Spec.of_fact (h : c → Spec F (fun _ => True) m Q) : Spec F (fun _ => c) m Q :=
  fun s hs hc => h hc s hs trivial

theorem Spec.at {s : σ} (hs : P s) (h : Spec F P m Q) : Spec F (· = s) m Q :=
  h.conseq (fun _ _ ht => ht ▸ hs) (fun _ _ _ hq => hq)

theorem Spec.get_bind {f : σ → StateM σ β} {R : β → σ → Prop}
    (hf : ∀ s, F.inv s → P s → Spec F (· = s) (f s) R) : Spec F P (get >>= f) R :=
  fun s hs hp => hf s hs hp s hs rfl

theorem Spec.ite [Decidable c] {n : StateM σ α} (hm : c → Spec F P m Q) (hn : ¬ c → Spec F P n Q) :
    Spec F P (if c then m else n) Q := by
  split
  · exact hm ‹_›
  · exact hn ‹_›

section
variable [Decidable c] {a : α} {Q : β → σ → Prop}

theorem Spec.ite_bind (hm : c → Spec F P m (fun _ => R))
    (hn : ¬ c → ∀ s, F.inv s → P s → R s) (hf : ∀ a, Spec F R (f a) Q) :
    Spec F P (if c then m >>= f else f a) Q :=
  Spec.ite (fun hc => Spec.bind (hm hc) hf) (fun hc => (hf a).pre (hn hc))

theorem Spec.ite_seq (hR : Stable F R)
    (hm : c → Spec F R m (fun _ _ => True)) (hf : ∀ a, Spec F R (f a) Q) :
    Spec F R (if c then m >>= f else f a) Q :=
  Spec.ite_bind (fun hc => (hm hc).carry hR fun _ _ h => ⟨h, h⟩) (fun _ _ _ h => h) hf

end

theorem Safe.pure (a : α) : Safe F (pure a : StateM σ α) := Spec.pure fun _ _ _ => trivial

theorem Safe.bind (hm : Safe F m) (hf : ∀ a, Safe F (f a)) : Safe F (m >>= f) := Spec.bind hm hf

theorem Safe.get_bind {f : σ → StateM σ β} (hf : ∀ s, Safe F (f s)) : Safe F (get >>= f) :=
  fun s hs _ => hf s s hs trivial

theorem Safe.ite [Decidable c] {n : StateM σ α} (hm : Safe F m) (hn : Safe F n) :
    Safe F (if c then m else n) :=
  Spec.ite (fun _ => hm) (fun _ => hn)

theorem Safe.ite_bind [Decidable c] {a : α} (hm : Safe F m) (hf : ∀ a, Safe F (f a)) :
    Safe F (if c then m >>= f else f a) :=
  Safe.ite (Safe.bind hm hf) (hf a)

theorem Spec.forM {l : List α} {f : α → StateM σ PUnit} (hR : Stable F R)
    (hf : ∀ a ∈ l, Spec F R (f a) (fun _ _ => True)) : Spec F R (l.forM f) (fun _ => R) := by
  induction l with
  | nil => exact Spec.pure fun _ _ h => h
  | cons a l ih =>
    have hhead : Spec F R (f a) (fun _ => R) :=
      (hf a List.mem_cons_self).carry hR fun _ _ h => ⟨h, h⟩
    exact Spec.bind hhead fun _ => ih fun b hb => hf b (List.mem_cons_of_mem a hb)

def Frame.any : Frame σ where
  inv _ := True
  rel _ _ := True
  refl _ := trivial
  trans _ _ := trivial

theorem Spec.any (h : Spec F P m Q) :
    Spec .any (fun s => F.inv s ∧ P s) m (fun a s => F.inv s ∧ Q a s) := by
  intro s _ hp
  obtain ⟨hinv, -, hq⟩ := h s hp.1 hp.2
  exact ⟨trivial, trivial, hinv, hq⟩

end TopChain.Lib.Guarantee
