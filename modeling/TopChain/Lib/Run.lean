import Mathlib.Data.List.Basic

/-!
# Runs of a reactive machine

A machine reacts to an event with a new state and a list of outputs.
-/
namespace TopChain.Lib.Run

open List

variable {σ ε ω : Type} (step : σ → ε → σ × List ω)

def run (s : σ) : List ε → σ × List ω
  | [] => (s, [])
  | e :: es =>
    let r := step s e
    let t := run r.1 es
    (t.1, r.2 ++ t.2)

theorem run_append (s : σ) (es es' : List ε) :
    (run step s (es ++ es')).1 = (run step (run step s es).1 es').1 := by
  induction es generalizing s with
  | nil => rfl
  | cons e es ih => exact ih (step s e).1

/-- The condition holds at every event of the run, in the state it finds. -/
def Meets (cond : σ → ε → Prop) (s : σ) : List ε → Prop
  | [] => True
  | e :: es => cond s e ∧ Meets cond (step s e).1 es

instance instDecidableMeets (cond : σ → ε → Prop) [∀ s e, Decidable (cond s e)] (s : σ)
    (es : List ε) : Decidable (Meets step cond s es) :=
  match es with
  | [] => .isTrue trivial
  | e :: es =>
    have := instDecidableMeets cond (step s e).1 es
    inferInstanceAs (Decidable (cond s e ∧ Meets step cond (step s e).1 es))

variable {step} {cond : σ → ε → Prop}

section
variable {P : ε → Prop} {s : σ} {es : List ε}

theorem meets_of_forall (h : ∀ e ∈ es, P e) : Meets step (fun _ e => P e) s es := by
  induction es generalizing s with
  | nil => trivial
  | cons e es ih =>
    exact ⟨h e mem_cons_self, ih fun e' he' => h e' (mem_cons_of_mem e he')⟩

theorem Meets.forall_mem (h : Meets step cond s es)
    (hP : ∀ s e, cond s e → P e) : ∀ e ∈ es, P e := by
  induction es generalizing s with
  | nil => exact fun e he => by cases he
  | cons e es ih =>
    intro e' he'
    rcases mem_cons.mp he' with rfl | he'
    · exact hP s e' h.1
    · exact ih h.2 e' he'

theorem Meets.and (h : Meets step cond s es)
    (hP : ∀ e ∈ es, P e) : Meets step (fun s e => cond s e ∧ P e) s es := by
  induction es generalizing s with
  | nil => trivial
  | cons e es ih =>
    exact ⟨⟨h.1, hP e mem_cons_self⟩, ih h.2 fun e' he' => hP e' (mem_cons_of_mem e he')⟩

end

theorem run_inv {I : σ → Prop} {P : ω → Prop}
    (hstep : ∀ s e, I s → cond s e → I (step s e).1 ∧ ∀ o ∈ (step s e).2, P o)
    {s : σ} (hs : I s) (es : List ε) (hm : Meets step cond s es) :
    I (run step s es).1 ∧ ∀ o ∈ (run step s es).2, P o := by
  induction es generalizing s with
  | nil => exact ⟨hs, by simp [run]⟩
  | cons e es ih =>
    obtain ⟨hI, hout⟩ := hstep s e hs hm.1
    obtain ⟨hI', hout'⟩ := ih hI hm.2
    refine ⟨hI', fun o ho => ?_⟩
    rcases mem_append.mp ho with ho | ho
    · exact hout o ho
    · exact hout' o ho

theorem run_hist {I : List ω → σ → Prop}
    (hstep : ∀ h s e, I h s → cond s e → I (h ++ (step s e).2) (step s e).1)
    {h : List ω} {s : σ} (hs : I h s) (es : List ε) (hm : Meets step cond s es) :
    I (h ++ (run step s es).2) (run step s es).1 := by
  induction es generalizing h s with
  | nil => simpa [run] using hs
  | cons e es ih =>
    have hnext := ih (hstep h s e hs hm.1) hm.2
    rwa [append_assoc] at hnext

theorem run_pairwise {α : Type} {obs : ω → Option α} {W : σ → α → Prop} {R : α → α → Prop}
    (hsorted : ∀ s e, ((step s e).2.filterMap obs).Pairwise R)
    (habove : ∀ s e, ∀ a ∈ (step s e).2.filterMap obs, W s a)
    (hmono : ∀ s e a, W (step s e).1 a → W s a)
    (hnext : ∀ s e, ∀ a ∈ (step s e).2.filterMap obs, ∀ a', W (step s e).1 a' → R a a')
    (s : σ) (es : List ε) :
    ((run step s es).2.filterMap obs).Pairwise R ∧
      ∀ a ∈ (run step s es).2.filterMap obs, W s a := by
  induction es generalizing s with
  | nil => simp [run]
  | cons e es ih =>
    obtain ⟨hp, ha⟩ := ih (step s e).1
    simp only [run, filterMap_append]
    constructor
    · exact pairwise_append.mpr
        ⟨hsorted s e, hp, fun a hmem a' hmem' => hnext s e a hmem a' (ha a' hmem')⟩
    · intro a hmem
      rcases mem_append.mp hmem with hmem | hmem
      · exact habove s e a hmem
      · exact hmono s e a (ha a hmem)

end TopChain.Lib.Run
