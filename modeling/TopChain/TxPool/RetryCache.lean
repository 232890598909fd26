import TopChain.Lib.Bag
import TopChain.Lib.Run

/-!
# Retrying unconfirmed sends

The retry multiset of `xunconfirm_sendtx_cache_t`. A receipt given up is only marked; the timer
drops what is marked or too old and sends what is due.
-/
namespace TopChain.TxPool

open List TopChain.Lib Run

variable {ρ κ : Type}

structure RetryEntry (ρ : Type) where
  receipt : ρ
  timestamp : UInt64
deriving DecidableEq

def retryLess (a b : RetryEntry ρ) : Bool := a.timestamp < b.timestamp

instance instStrictWeakRetryLess : StrictWeak (retryLess (ρ := ρ)) :=
  strictWeak_key RetryEntry.timestamp decide_eq_true_iff

def getNextRetryTimestamp (certTime now : UInt64) : UInt64 :=
  if now < certTime + 200 then certTime + 200 else now + 800 - (now - certTime - 200) % 800

structure RetryEnv (ρ κ : Type) where
  sourceAddr : ρ → String
  gmtime : ρ → UInt64
  clock : ρ → UInt64
  receiptValidWindow : UInt64
  isReceiverCountFullAndInsert : κ → String → Bool × κ

structure TimerCheck (ρ κ : Type) where
  now : UInt64
  curTimerHeight : UInt64
  isConfirmed : ρ → Bool
  isAccountCacheComplete : String → Bool
  counter : κ

namespace RetryEnv
variable (E : RetryEnv ρ κ) (c : TimerCheck ρ κ)

def entry (now : UInt64) (receipt : ρ) : RetryEntry ρ :=
  ⟨receipt, getNextRetryTimestamp (E.gmtime receipt) now⟩

/-- The test of the first loop of `on_timer_check_cache`. -/
def keeps (receipt : ρ) : Bool :=
  !c.isConfirmed receipt && !(E.clock receipt + E.receiptValidWindow < c.curTimerHeight)

/-- The second loop: the entries it leaves and those it takes out. -/
def retryLoop : Nat → κ → List (RetryEntry ρ) → List (RetryEntry ρ) × List (RetryEntry ρ)
  | 0, _, es => (es, [])
  | _, _, [] => ([], [])
  | n + 1, k, e :: es =>
    if c.now < e.timestamp then (e :: es, [])
    else
      let a := E.sourceAddr e.receipt
      let (full, k) :=
        if c.isAccountCacheComplete a then E.isReceiverCountFullAndInsert k a else (true, k)
      let t := retryLoop n k es
      if full then (e :: t.1, t.2) else (t.1, e :: t.2)

structure Split (n : Nat) (es left sent : List (RetryEntry ρ)) : Prop where
  kept : left.Sublist es
  perm : (sent ++ left).Perm es
  due : ∀ e ∈ sent, ¬ c.now < e.timestamp
  few : sent.length ≤ n

variable {E c}

theorem split_retryLoop (n : Nat) (k : κ) (es : List (RetryEntry ρ)) :
    Split c n es (E.retryLoop c n k es).1 (E.retryLoop c n k es).2 := by
  fun_induction retryLoop with
  | case1 | case2 | case3 => constructor <;> simp
  | case4 n k e es hnow a k' hcount t ih =>
    exact ⟨ih.kept.cons_cons e, perm_middle.trans (ih.perm.cons e), ih.due, ih.few.trans n.le_succ⟩
  | case5 n k e es hnow a full k' hcount t hfull ih =>
    exact ⟨ih.kept.cons e, ih.perm.cons e, forall_mem_cons.mpr ⟨hnow, ih.due⟩,
      Nat.succ_le_succ ih.few⟩

end RetryEnv

/-- The receipts to send again, by time, with the number of transactions not yet confirmed. -/
structure RetryCache (ρ : Type) where
  retry : Bag (retryLess (ρ := ρ)) := .empty
  unconfirmTxNum : UInt32 := 0

/-- A receipt comes in, the cache is cleared, or the timer checks it. -/
inductive RetryEvent (ρ κ : Type) where
  | insertRetryCache (receipt : ρ) (now : UInt64)
  | clear
  | onTimerCheckCache (c : TimerCheck ρ κ)

namespace RetryCache
variable (E : RetryEnv ρ κ) (s : RetryCache ρ) (c : TimerCheck ρ κ)

def alive : List (RetryEntry ρ) := s.retry.entries.filter (E.keeps c ·.receipt)

def onTimerCheckCache : RetryCache ρ × List ρ :=
  let num := s.unconfirmTxNum - UInt32.ofNat (s.retry.entries.length - (s.alive E c).length)
  let t := E.retryLoop c 50 c.counter (s.alive E c)
  let left := s.retry.restrict t.1 ((RetryEnv.split_retryLoop ..).kept.trans filter_sublist)
  let sent := t.2.map (·.receipt)
  (⟨(sent.map (E.entry c.now)).foldl Bag.insert left, num⟩, sent)

def step : RetryEvent ρ κ → RetryCache ρ × List ρ
  | .insertRetryCache receipt now =>
    (⟨s.retry.insert (E.entry now receipt), s.unconfirmTxNum + 1⟩, [])
  | .clear => (⟨.empty, s.unconfirmTxNum - UInt32.ofNat s.retry.entries.length⟩, [])
  | .onTimerCheckCache c => s.onTimerCheckCache E c

/-- What the cache is for: a receipt waits until a timer check finds it marked or too old. -/
def specStep (w : List ρ) : RetryEvent ρ κ → List ρ
  | .insertRetryCache receipt _ => receipt :: w
  | .clear => []
  | .onTimerCheckCache c => w.filter (E.keeps c)

/-- The cache holds the receipts that wait, and counts them. -/
structure Refines (w : List ρ) : Prop where
  waiting : (s.retry.entries.map (·.receipt)).Perm w
  num : s.unconfirmTxNum = UInt32.ofNat s.retry.entries.length

/-- The entries taken out come back with their next time, the others keep theirs. -/
def Resends (t : RetryCache ρ × List ρ) : Prop :=
  ∃ left sent, RetryEnv.Split c 50 (s.alive E c) left sent ∧ t.2 = sent.map (·.receipt) ∧
    t.1.retry.entries.Perm (t.2.map (E.entry c.now) ++ left)

variable {E s} {w : List ρ}

theorem resends_onTimerCheckCache : s.Resends E c (s.onTimerCheckCache E c) :=
  ⟨_, _, RetryEnv.split_retryLoop 50 c.counter _, rfl, Bag.perm_foldl_insert ..⟩

theorem refines_step (h : s.Refines w) (e : RetryEvent ρ κ) :
    (s.step E e).1.Refines (specStep E w e) := by
  cases e with
  | insertRetryCache receipt now =>
    have hperm := s.retry.perm_insert (E.entry now receipt)
    refine ⟨(hperm.map _).trans (h.waiting.cons receipt), ?_⟩
    rw [step, h.num, hperm.length_eq, length_cons, UInt32.ofNat_add]
    rfl
  | clear =>
    refine ⟨.refl _, ?_⟩
    rw [step, h.num, UInt32.sub_self]
    rfl
  | onTimerCheckCache c =>
    obtain ⟨left, sent, hsplit, hout, hperm⟩ := s.resends_onTimerCheckCache (E := E) c
    have hsame : ((s.onTimerCheckCache E c).1.retry.entries.map (·.receipt)).Perm
        ((s.alive E c).map (·.receipt)) := by
      refine (hperm.map _).trans ?_
      simpa [hout, RetryEnv.entry, Function.comp_def] using hsplit.perm.map (·.receipt)
    have halive : (s.alive E c).map (·.receipt) =
        (s.retry.entries.map (·.receipt)).filter (E.keeps c) := by
      rw [filter_map]
      rfl
    refine ⟨hsame.trans (halive ▸ h.waiting.filter _), ?_⟩
    have hlen : (s.onTimerCheckCache E c).1.retry.entries.length = (s.alive E c).length := by
      simpa using hsame.length_eq
    have hle : (s.alive E c).length ≤ s.retry.entries.length := length_filter_le ..
    rw [step, hlen]
    show s.unconfirmTxNum - UInt32.ofNat _ = _
    rw [h.num, UInt32.sub_eq_iff_eq_add, ← UInt32.ofNat_add, Nat.add_sub_cancel' hle]

theorem refines_run (h : s.Refines w) (events : List (RetryEvent ρ κ)) :
    (run (step E) s events).1.Refines (events.foldl (specStep E) w) := by
  induction events generalizing s w with
  | nil => exact h
  | cons e es ih => exact ih (refines_step h e)

/-- Over any run no receipt is lost or doubled; a timer check takes out what is due, up to its
limits, and puts it back with the next time. -/
theorem retry_cache_conserves (E : RetryEnv ρ κ) (events : List (RetryEvent ρ κ)) :
    let s := (run (step E) {} events).1
    s.Refines (events.foldl (specStep E) []) ∧ ∀ c, s.Resends E c (s.onTimerCheckCache E c) :=
  ⟨refines_run ⟨.refl _, rfl⟩ events, resends_onTimerCheckCache⟩

/-- A receipt that comes in is a new object. -/
def Brings (s : RetryCache ρ) : RetryEvent ρ κ → Prop
  | .insertRetryCache receipt _ => receipt ∉ s.retry.entries.map (·.receipt)
  | _ => True

/-- No receipt is there twice, and the entries are counted. -/
def Distinct (s : RetryCache ρ) : Prop :=
  s.Refines (s.retry.entries.map (·.receipt)) ∧ (s.retry.entries.map (·.receipt)).Nodup

theorem Distinct.step (h : s.Distinct) {e : RetryEvent ρ κ} (he : s.Brings e) :
    (s.step E e).1.Distinct := by
  have hnext := refines_step (E := E) h.1 e
  refine ⟨⟨.refl _, hnext.num⟩, hnext.waiting.nodup_iff.mpr ?_⟩
  cases e with
  | insertRetryCache receipt now => exact nodup_cons.mpr ⟨he, h.2⟩
  | clear => exact nodup_nil
  | onTimerCheckCache c => exact h.2.filter _

def sampleEnv : RetryEnv String Unit := ⟨id, fun _ => 0, fun _ => 0, 100, fun k _ => (false, k)⟩

end RetryCache
end TopChain.TxPool
