import Mathlib.Data.Nat.Notation

/-!
# Pre- and postconditions of programs that may fail

A program of `EStateM` returns a result or throws an error, and in both cases leaves the state it
has come to.
-/
namespace TopChain.Lib.Hoare

variable {ε σ α β : Type}

def Triple (P : σ → Prop) (m : EStateM ε σ α) (Q : α → σ → Prop) (E : ε → σ → Prop) : Prop :=
  ∀ s, P s → match m s with
    | .ok a s' => Q a s'
    | .error e s' => E e s'

def Keeps (I : σ → Prop) (m : EStateM ε σ α) : Prop := Triple I m (fun _ => I) (fun _ => I)

variable {P P' I : σ → Prop} {Q Q' : α → σ → Prop} {R : β → σ → Prop} {E E' : ε → σ → Prop}

theorem ite_error_eq_ok {p : Prop} [Decidable p] {e : ε} {m : Except ε α} {a : α} :
    (if p then .error e else m) = .ok a ↔ ¬ p ∧ m = .ok a := by
  by_cases hp : p
  · rw [if_pos hp]
    exact ⟨(by intro h; cases h), fun h => absurd hp h.1⟩
  · rw [if_neg hp]
    exact ⟨fun h => ⟨hp, h⟩, fun h => h.2⟩

theorem exists_of_map_eq_ok {m : Except ε α} {f : α → β} {b : β} (h : m.map f = .ok b) :
    ∃ a, m = .ok a ∧ f a = b := by
  cases m with
  | error e => cases h
  | ok a => exact ⟨a, rfl, Except.ok.inj h⟩

variable {m : EStateM ε σ α} {f : α → EStateM ε σ β}

theorem Triple.conseq (h : Triple P m Q E) (hP : ∀ s, P' s → P s) (hQ : ∀ a s, Q a s → Q' a s)
    (hE : ∀ e s, E e s → E' e s) : Triple P' m Q' E' := by
  intro s hs
  have hm := h s (hP s hs)
  cases hrun : m s with
  | ok a s' =>
    rw [hrun] at hm
    exact hQ a s' hm
  | error e s' =>
    rw [hrun] at hm
    exact hE e s' hm

theorem Triple.of_ok {s s' : σ} {a : α} (h : Triple P m Q E) (hs : P s) (hrun : m s = .ok a s') :
    Q a s' := by
  have hm := h s hs
  rw [hrun] at hm
  exact hm

theorem Triple.pure {a : α} (h : ∀ s, P s → Q a s) : Triple P (pure a : EStateM ε σ α) Q E := h

theorem Triple.throw {e : ε} (h : ∀ s, P s → E e s) : Triple P (throw e : EStateM ε σ α) Q E := h

theorem Triple.modify {f : σ → σ} {Q : PUnit → σ → Prop} (h : ∀ s, P s → Q ⟨⟩ (f s)) :
    Triple P (modify f : EStateM ε σ PUnit) Q E :=
  h

theorem Triple.bind (hm : Triple P m Q E) (hf : ∀ a, Triple (Q a) (f a) R E) :
    Triple P (m >>= f) R E := by
  intro s hs
  have h1 := hm s hs
  show match EStateM.bind m f s with
    | .ok b s' => R b s'
    | .error e s' => E e s'
  unfold EStateM.bind
  cases hrun : m s with
  | ok a s' =>
    rw [hrun] at h1
    exact hf a s' h1
  | error e s' =>
    rw [hrun] at h1
    exact h1

theorem Triple.get_bind {f : σ → EStateM ε σ β} (hf : ∀ s, P s → Triple (· = s) (f s) R E) :
    Triple P (get >>= f) R E :=
  fun s hs => hf s hs s rfl

theorem Triple.ite {c : Prop} [Decidable c] {n : EStateM ε σ α} (hm : c → Triple P m Q E)
    (hn : ¬ c → Triple P n Q E) :
    Triple P (if c then m else n) Q E := by
  split
  · exact hm ‹_›
  · exact hn ‹_›

theorem Keeps.pure (a : α) : Keeps I (pure a : EStateM ε σ α) := Triple.pure fun _ h => h

theorem Keeps.throw (e : ε) : Keeps I (throw e : EStateM ε σ α) := Triple.throw fun _ h => h

theorem Keeps.bind (hm : Keeps I m) (hf : ∀ a, Keeps I (f a)) : Keeps I (m >>= f) :=
  Triple.bind hm hf

theorem Keeps.get_bind {f : σ → EStateM ε σ β} (hf : ∀ s, Keeps I (f s)) : Keeps I (get >>= f) :=
  fun s hs => hf s s hs

theorem Keeps.ite {c : Prop} [Decidable c] {n : EStateM ε σ α} (hm : Keeps I m) (hn : Keeps I n) :
    Keeps I (if c then m else n) :=
  Triple.ite (fun _ => hm) (fun _ => hn)

end TopChain.Lib.Hoare
