import TopChain.Config.UpdateParameterAction
import TopChain.Lib.Bag

/-!
# Voted parameters (`xloader/src/xconfig_onchain_loader.cpp`)

A voted proposal is applied at once, or waits until the timer finds it due.
-/
namespace TopChain.Config

open Function List TopChain.Lib

structure ProposalInfo where
  type : ProposalType
  parameter : String
  newValue : Text
  effectiveTimerHeight : UInt64
deriving DecidableEq

def ProposalInfo.apply (params : Params) (p : ProposalInfo) : Params :=
  doUpdate params p.parameter p.newValue p.type

def earlier (p q : ProposalInfo) : Bool := p.effectiveTimerHeight < q.effectiveTimerHeight

instance instStrictWeakEarlier : StrictWeak earlier :=
  strictWeak_key ProposalInfo.effectiveTimerHeight decide_eq_true_iff

/-- The parameters, the proposals that wait for their time, and the loader's clock. -/
structure OnchainLoader where
  params : Params
  pending : Bag earlier
  logicTime : UInt64

/-- A proposal that has passed, a clock block, or the timer that applies what is due. -/
inductive LoaderEvent where
  | update (proposal : ProposalInfo)
  | clock (time : UInt64)
  | chainTimer

abbrev Applied := ProposalInfo × UInt64

namespace OnchainLoader

def due (s : OnchainLoader) (p : ProposalInfo) : Bool := p.effectiveTimerHeight ≤ s.logicTime

def step (s : OnchainLoader) : LoaderEvent → OnchainLoader × List Applied
  | .update p =>
    if s.logicTime < p.effectiveTimerHeight then ({ s with pending := s.pending.insert p }, [])
    else ({ s with params := p.apply s.params }, [(p, s.logicTime)])
  | .clock time => ({ s with logicTime := time }, [])
  | .chainTimer =>
    let applied := s.pending.entries.filter s.due
    ({ s with
        params := applied.foldl ProposalInfo.apply s.params
        pending := ⟨s.pending.entries.filter (!s.due ·), s.pending.sorted.filter _⟩ },
      applied.map (·, s.logicTime))

def start (params : Params) : OnchainLoader := ⟨params, .empty, 0⟩

def delivered (events : List LoaderEvent) : List ProposalInfo :=
  events.filterMap fun
    | .update p => some p
    | _ => none

theorem step_spec (s : OnchainLoader) (e : LoaderEvent) :
    (s.step e).1.params = ((s.step e).2.map (·.1)).foldl ProposalInfo.apply s.params ∧
      ((s.step e).2.map (·.1) ++ (s.step e).1.pending.entries).Perm
        (s.pending.entries ++ delivered [e]) ∧
      ∀ a ∈ (s.step e).2, a.1.effectiveTimerHeight ≤ a.2 := by
  cases e with
  | clock time => simp [step, delivered]
  | update p =>
    simp only [step]
    split_ifs with hlt
    · refine ⟨rfl, ?_, by simp⟩
      exact (Bag.perm_insert s.pending p).trans (perm_append_singleton p _).symm
    · refine ⟨rfl, (perm_append_singleton p _).symm, ?_⟩
      simpa using hlt
  | chainTimer =>
    have hmap : ((s.pending.entries.filter s.due).map (·, s.logicTime)).map (·.1) =
        s.pending.entries.filter s.due := by
      rw [map_map]
      exact map_id _
    simp only [step, hmap]
    refine ⟨trivial, ?_, ?_⟩
    · simpa [delivered] using filter_append_perm s.due s.pending.entries
    · intro a ha
      obtain ⟨p, hp, rfl⟩ := mem_map.mp ha
      exact of_decide_eq_true (mem_filter.mp hp).2

theorem run_spec (s : OnchainLoader) (events : List LoaderEvent) :
    (Run.run step s events).1.params =
        ((Run.run step s events).2.map (·.1)).foldl ProposalInfo.apply s.params ∧
      ((Run.run step s events).2.map (·.1) ++ (Run.run step s events).1.pending.entries).Perm
        (s.pending.entries ++ delivered events) ∧
      ∀ a ∈ (Run.run step s events).2, a.1.effectiveTimerHeight ≤ a.2 := by
  induction events generalizing s with
  | nil => simp [Run.run, delivered]
  | cons e events ih =>
    obtain ⟨hparams, hperm, hdue⟩ := step_spec s e
    obtain ⟨hparams', hperm', hdue'⟩ := ih (s.step e).1
    have hcons : delivered (e :: events) = delivered [e] ++ delivered events :=
      filterMap_append (l := [e])
    simp only [Run.run, map_append, foldl_append, append_assoc]
    refine ⟨?_, ?_, ?_⟩
    · rw [hparams', hparams]
    · rw [hcons, ← append_assoc s.pending.entries]
      refine (hperm'.append_left _).trans ?_
      rw [← append_assoc]
      exact hperm.append_right _
    · intro a ha
      rcases mem_append.mp ha with ha | ha
      · exact hdue a ha
      · exact hdue' a ha

theorem doUpdate_eq (params : Params) (key : String) (value : Text) (type : ProposalType) :
    doUpdate params key value type =
      Function.update params key (doUpdate (fun _ => params key) key value type key) := by
  have hupdate : ∀ value, updateParams params key value =
      Function.update params key (updateParams (fun _ => params key) key value key) := by
    intro value
    unfold updateParams
    split_ifs with h
    · simp
    · simp
  cases type with
  | updateParameter => exact hupdate _
  | addParameter => simp [doUpdate]
  | deleteParameter => simp [doUpdate]
  | updateParameterIncrementalAdd => exact hupdate _
  | updateParameterIncrementalDelete => exact hupdate _

theorem apply_comm {p q : ProposalInfo} (h : p.parameter ≠ q.parameter) (params : Params) :
    q.apply (p.apply params) = p.apply (q.apply params) := by
  unfold ProposalInfo.apply
  rw [doUpdate_eq (doUpdate params p.parameter _ _), doUpdate_eq params p.parameter,
    doUpdate_eq (doUpdate params q.parameter _ _), doUpdate_eq params q.parameter,
    update_of_ne h.symm, update_of_ne h, update_comm h]

/-- Once a callback has found all heights passed, each proposal has been applied once and not too
early. When no two name the same parameter, the values are those of the chain order. -/
theorem voted_parameters_applied (params : Params) (events : List LoaderEvent)
    (hpassed : ∀ p ∈ delivered events,
      p.effectiveTimerHeight ≤ (Run.run step (start params) events).1.logicTime) :
    let r := Run.run step (start params) (events ++ [.chainTimer])
    (r.2.map (·.1)).Perm (delivered events) ∧ (∀ a ∈ r.2, a.1.effectiveTimerHeight ≤ a.2) ∧
      (((delivered events).map (·.parameter)).Nodup →
        r.1.params = (delivered events).foldl ProposalInfo.apply params) := by
  obtain ⟨hparams, hperm, hdue⟩ := run_spec (start params) (events ++ [.chainTimer])
  have hdelivered : delivered (events ++ [.chainTimer]) = delivered events := by
    simp [delivered]
  rw [hdelivered] at hperm
  -- the last callback finds everything due
  have hpending :
      (Run.run step (start params) (events ++ [.chainTimer])).1.pending.entries = [] := by
    rw [Run.run_append]
    refine filter_eq_nil_iff.mpr fun p hp => ?_
    have hmem := (run_spec (start params) events).2.1.subset (mem_append_right _ hp)
    simpa [due] using hpassed p (by simpa [start, Bag.empty] using hmem)
  rw [hpending, append_nil] at hperm
  refine ⟨hperm, hdue, fun hdistinct => ?_⟩
  rw [hparams]
  refine hperm.foldl_eq' (fun p hp q hq z => ?_) _
  by_cases hname : p.parameter = q.parameter
  · rw [inj_on_of_nodup_map hdistinct (hperm.subset hp) (hperm.subset hq) hname]
  · exact apply_comm hname z

def setX (value : Char) (height : UInt64) : ProposalInfo := ⟨.updateParameter, "x", [value], height⟩

def setY (value : Char) (height : UInt64) : ProposalInfo := ⟨.updateParameter, "y", [value], height⟩

/-- The proposals reach one node early and the other late, and take effect in the other order. -/
theorem voted_parameters_applied_sample :
    (Run.run step (start fun _ => none)
      [.update (setX 'a' 10), .clock 5, .update (setY 'b' 7), .chainTimer, .clock 10,
        .chainTimer]).1.params =
      (Run.run step (start fun _ => none)
        [.clock 7, .update (setX 'a' 10), .update (setY 'b' 7), .clock 12, .chainTimer]).1.params :=
  ((voted_parameters_applied (fun _ => none) [.update (setX 'a' 10), .clock 5,
      .update (setY 'b' 7), .chainTimer, .clock 10] (by decide)).2.2 (by decide)).trans
    ((voted_parameters_applied (fun _ => none) [.clock 7, .update (setX 'a' 10),
      .update (setY 'b' 7), .clock 12] (by decide)).2.2 (by decide)).symm

theorem late_delivery_other_value :
    delivered [.update (setX 'a' 10), .update (setX 'b' 5), .clock 10] =
        delivered [.clock 10, .update (setX 'a' 10), .update (setX 'b' 5)] ∧
      (Run.run step (start fun _ => none)
        [.update (setX 'a' 10), .update (setX 'b' 5), .clock 10, .chainTimer]).1.params "x" =
          some ['a'] ∧
      (Run.run step (start fun _ => none)
        [.clock 10, .update (setX 'a' 10), .update (setX 'b' 5), .chainTimer]).1.params "x" =
          some ['b'] := by
  decide

end OnchainLoader
end TopChain.Config
