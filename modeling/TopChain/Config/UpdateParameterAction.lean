import Mathlib.Data.Finset.SDiff
import TopChain.Lib.Run

/-!
# Parameter updates (`xconfig/src/xconfig_update_parameter_action.cpp`, `xconfig_register.cpp`)

A black or white list is a text of names with commas between them, here the list of its
characters.
-/
namespace TopChain.Config

open List TopChain.Lib

abbrev Text := List Char

abbrev Params := String → Option Text

/-- The pieces between the commas that are not empty (`xstring_utl::split_string`). -/
def splitString (input : Text) : List Text := (input.splitOn ',').filter (· ≠ [])

def incrementalAddBwlist (bwlist value : Text) : Text :=
  ((splitString value).foldl
    (fun result v => if v ∈ splitString bwlist then result else result ++ v ++ [','])
    (bwlist ++ [','])).dropLast

def incrementalDeleteBwlist (bwlist value : Text) : Text :=
  let rest := (splitString value).foldl List.erase (splitString bwlist)
  (rest.foldl (fun result v => result ++ v ++ [',']) []).dropLast

def updateParams (params : Params) (key : String) (value : Text) : Params :=
  if key ≠ "" ∧ value ≠ [] ∧ params key ≠ some value then Function.update params key (some value)
  else params

inductive ProposalType where
  | updateParameter | addParameter | deleteParameter
  | updateParameterIncrementalAdd | updateParameterIncrementalDelete
deriving DecidableEq

def doUpdate (params : Params) (key : String) (value : Text) : ProposalType → Params
  | .updateParameter => updateParams params key value
  | .updateParameterIncrementalAdd =>
    updateParams params key (incrementalAddBwlist ((params key).getD []) value)
  | .updateParameterIncrementalDelete =>
    updateParams params key (incrementalDeleteBwlist ((params key).getD []) value)
  | .addParameter => Function.update params key (some value)
  | .deleteParameter => Function.update params key none

inductive BwChange where
  | incrementalAdd (value : Text)
  | incrementalDelete (value : Text)

namespace BwChange

def step (key : String) (params : Params) : BwChange → Params × List Empty
  | incrementalAdd value => (doUpdate params key value .updateParameterIncrementalAdd, [])
  | incrementalDelete value => (doUpdate params key value .updateParameterIncrementalDelete, [])

def onSet (s : Finset Text) : BwChange → Finset Text
  | incrementalAdd value => s ∪ (splitString value).toFinset
  | incrementalDelete value => s \ (splitString value).toFinset

/-- An addition has each name that is new to the list once, and a deletion leaves some name of a
list that has any. -/
def Regular (list : Text) : BwChange → Prop
  | incrementalAdd value => ((splitString value).filter (· ∉ splitString list)).Nodup
  | incrementalDelete value => splitString list = [] ∨ ∃ m ∈ splitString list, m ∉ splitString value

instance instDecidableRegular (list : Text) : (c : BwChange) → Decidable (Regular list c)
  | incrementalAdd value =>
    inferInstanceAs (Decidable ((splitString value).filter (· ∉ splitString list)).Nodup)
  | incrementalDelete value =>
    inferInstanceAs
      (Decidable (splitString list = [] ∨ ∃ m ∈ splitString list, m ∉ splitString value))

end BwChange

variable {list value v : Text} {vs : List Text}

theorem comma_notMem (hv : v ∈ list.splitOn ',') : ',' ∉ v := by
  induction list generalizing v with
  | nil => simp_all
  | cons c list ih =>
    rw [splitOn_cons_eq_if_modifyHead] at hv
    split at hv
    · rcases mem_cons.mp hv with rfl | hv
      · simp
      · exact ih hv
    · next hc =>
      obtain ⟨w, ws, hsplit⟩ := exists_cons_of_ne_nil (splitOn_ne_nil ',' list)
      rw [hsplit, modifyHead_cons] at hv
      rcases mem_cons.mp hv with rfl | hv
      · have hw : ',' ∉ w := ih (by simp [hsplit])
        simp only [beq_iff_eq] at hc
        simp [hw, Ne.symm hc]
      · exact ih (by simp [hsplit, hv])

/-- A name: what `splitString` can give. -/
theorem splitString_name (hv : v ∈ splitString list) : splitString v = [v] := by
  obtain ⟨hmem, hne⟩ := mem_filter.mp hv
  rw [splitString, splitOn_eq_singleton (comma_notMem hmem), filter_singleton, hne, cond_true]

theorem splitString_comma (r v : Text) :
    splitString (r ++ ',' :: v) = splitString r ++ splitString v := by
  rw [splitString, splitOn_append_cons_self, filter_append]
  rfl

theorem splitString_append (hvs : ∀ v ∈ vs, splitString v = [v]) : ∀ r : Text,
    splitString (vs.foldl (fun result v => result ++ v ++ [',']) (r ++ [','])).dropLast =
      splitString r ++ vs := by
  induction vs with
  | nil => simp
  | cons v vs ih =>
    intro r
    have hr : r ++ [','] ++ v ++ [','] = (r ++ ',' :: v) ++ [','] := by simp
    rw [foldl_cons, hr, ih fun w hw => hvs w (mem_cons_of_mem v hw), splitString_comma,
      hvs v mem_cons_self, append_assoc, singleton_append]

theorem splitString_incrementalAdd (list value : Text) :
    splitString (incrementalAddBwlist list value) =
      splitString list ++ (splitString value).filter (· ∉ splitString list) := by
  have hfold : (splitString value).foldl
      (fun result v => if v ∈ splitString list then result else result ++ v ++ [','])
      (list ++ [',']) = ((splitString value).filter (· ∉ splitString list)).foldl
        (fun result v => result ++ v ++ [',']) (list ++ [',']) := by
    rw [foldl_filter]
    simp
  rw [incrementalAddBwlist, hfold, splitString_append]
  exact fun m hm => splitString_name (mem_of_mem_filter hm)

theorem splitString_incrementalDelete : splitString (incrementalDeleteBwlist list value) =
    (splitString list).diff (splitString value) := by
  rw [incrementalDeleteBwlist, ← diff_eq_foldl]
  cases hrest : (splitString list).diff (splitString value) with
  | nil => rfl
  | cons w ws =>
    have hname : ∀ m ∈ w :: ws, splitString m = [m] := fun m hm =>
      splitString_name ((diff_sublist _ _).subset (hrest ▸ hm))
    have hsplit := splitString_append (fun m hm => hname m (mem_cons_of_mem w hm)) w
    rw [hname w mem_cons_self] at hsplit
    rw [foldl_cons, nil_append, hsplit]
    rfl

def listOf (params : Params) (key : String) : Text := (params key).getD []

section
variable {params : Params} {key : String} (hkey : key ≠ "")
include hkey

theorem listOf_updateParams :
    listOf (updateParams params key value) key =
      if value = [] then listOf params key else value := by
  unfold updateParams listOf
  by_cases hvalue : value = []
  · simp [hvalue]
  · by_cases hsame : params key = some value
    · simp [hsame, hvalue]
    · simp [hkey, hvalue, hsame]

theorem splitString_updateParams (h : value = [] → splitString (listOf params key) = []) :
    splitString (listOf (updateParams params key value) key) = splitString value := by
  rw [listOf_updateParams hkey]
  split
  · next hnil =>
    rw [h hnil, hnil]
    rfl
  · rfl

theorem splitString_step {c : BwChange}
    (hlist : (splitString (listOf params key)).Nodup) (hc : c.Regular (listOf params key)) :
    (splitString (listOf (c.step key params).1 key)).Nodup ∧
      (splitString (listOf (c.step key params).1 key)).toFinset =
        c.onSet (splitString (listOf params key)).toFinset := by
  cases c with
  | incrementalAdd value =>
    have hnames := splitString_incrementalAdd (listOf params key) value
    have hstep : splitString (listOf (BwChange.step key params (.incrementalAdd value)).1 key) =
        splitString (incrementalAddBwlist (listOf params key) value) := by
      refine splitString_updateParams hkey fun hnil => ?_
      rw [show incrementalAddBwlist (listOf params key) value = [] from hnil] at hnames
      exact (append_eq_nil_iff.mp hnames.symm).1
    rw [hstep, hnames]
    constructor
    · refine nodup_append.mpr ⟨hlist, hc, fun m hm m' hm' heq => ?_⟩
      subst heq
      simpa [hm] using (mem_filter.mp hm').2
    · ext m
      simp only [BwChange.onSet, Finset.mem_union, mem_toFinset, mem_append,
        mem_filter, decide_eq_true_eq]
      tauto
  | incrementalDelete value =>
    have hdiff : ∀ m, m ∈ (splitString (listOf params key)).diff (splitString value) ↔
        m ∈ splitString (listOf params key) ∧ m ∉ splitString value := fun m =>
      hlist.mem_sdiff_iff
    have hstep : splitString (listOf (BwChange.step key params (.incrementalDelete value)).1 key) =
        splitString (incrementalDeleteBwlist (listOf params key) value) := by
      refine splitString_updateParams hkey fun hnil => hc.resolve_right ?_
      -- a name that is left would stand in the text
      rintro ⟨m, hm, hkept⟩
      have hleft := (hdiff m).mpr ⟨hm, hkept⟩
      rw [← splitString_incrementalDelete,
        show incrementalDeleteBwlist (listOf params key) value = [] from hnil] at hleft
      exact not_mem_nil hleft
    rw [hstep, splitString_incrementalDelete]
    refine ⟨hlist.sublist (diff_sublist _ _), ?_⟩
    ext m
    simp [BwChange.onSet, hdiff]

end

/-- When added names are new once and no deletion takes all names of a list, the names of a list
are what unions and differences of sets give. -/
theorem bwlist_as_set (params : Params) (key : String) (hkey : key ≠ "")
    (hstart : (splitString (listOf params key)).Nodup) (changes : List BwChange)
    (hm : Run.Meets (BwChange.step key) (fun params c => c.Regular (listOf params key)) params
      changes) :
    (splitString (listOf (Run.run (BwChange.step key) params changes).1 key)).toFinset =
      changes.foldl BwChange.onSet (splitString (listOf params key)).toFinset := by
  induction changes generalizing params with
  | nil => rfl
  | cons c changes ih =>
    obtain ⟨hnodup, hset⟩ := splitString_step hkey hstart hm.1
    have hnext := ih _ hnodup hm.2
    rw [hset] at hnext
    exact hnext

def oneList (list : Text) : Params := fun key => if key = "whitelist" then some list else none

theorem bwlist_as_set_sample :
    (splitString (listOf (Run.run (BwChange.step "whitelist") (oneList ['a'])
      [.incrementalAdd ['b', ',', 'a'], .incrementalDelete ['a', ',', 'c']]).1
        "whitelist")).toFinset = {['b']} :=
  (bwlist_as_set (oneList ['a']) "whitelist" (by decide) (by decide)
    [.incrementalAdd ['b', ',', 'a'], .incrementalDelete ['a', ',', 'c']]
    ⟨by decide, by decide, trivial⟩).trans (by decide)

theorem deleted_name_stays :
    ['a'] ∈ splitString (listOf (Run.run (BwChange.step "whitelist") (oneList ['b'])
        [.incrementalAdd ['a', ',', 'a'], .incrementalDelete ['a']]).1 "whitelist") ∧
      ['a'] ∈ splitString (listOf (Run.run (BwChange.step "whitelist") (oneList ['a'])
        [.incrementalDelete ['a']]).1 "whitelist") := by
  decide

end TopChain.Config
