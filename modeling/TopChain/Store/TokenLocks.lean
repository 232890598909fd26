import TopChain.Lib.Run
import TopChain.Store.Funds

/-!
# What is locked and what is left

Nothing is lost between the balance and the locked tokens when single locks come and go.
-/
namespace TopChain.Store

open Option List TopChain.Lib TopChain.Lib.Hoare TopChain.Data SortedMap

/-- The locks and the locked token sum have the types that the source gives them. -/
structure NativeProperty.LockTyped (p : NativeProperty) : Prop where
  locks : ∀ obj, p.objs.find? lockTokenKey = some obj → ∃ map, obj = .locks map
  sum : p.SumTyped

namespace Context
variable {G : ChainConfig} {c c' : Context} {base : Nat}

def lockedAmount (c : Context) : Nat := c.native.locks.total fun r => r.params.amount.toNat

section
variable (h : c.native.LockTyped)
include h

theorem objs_setLocks (map : SortedMap String LockRecord) :
    (c.setNative lockTokenKey (.locks map)).native.objs =
      c.native.objs.insert lockTokenKey (.locks map) := by
  refine NativeProperty.objs_put fun old hold => ?_
  obtain ⟨map', rfl⟩ := h.locks old hold
  rfl

theorem objs_setLockTokenSum (n : Nat) :
    (c.setLockTokenSum n).native.objs = c.native.objs.insert lockTokenSumKey (.number n) :=
  NativeProperty.objs_put h.sum

theorem lockTyped_setLocks (map : SortedMap String LockRecord) :
    (c.setNative lockTokenKey (.locks map)).native.LockTyped := by
  refine ⟨fun obj hobj => ?_, fun obj hobj => h.sum obj ?_⟩
  · rw [objs_setLocks h, find?_insert_self] at hobj
    exact ⟨map, (some_inj.mp hobj).symm⟩
  · rwa [objs_setLocks h, find?_insert_of_ne _ _ (by decide)] at hobj

theorem lockTyped_setLockTokenSum (n : Nat) : (c.setLockTokenSum n).native.LockTyped := by
  refine ⟨fun obj hobj => h.locks obj ?_, (sumTyped_setLockTokenSum h.sum n).1⟩
  rwa [objs_setLockTokenSum h, find?_insert_of_ne _ _ (by decide)] at hobj

theorem locks_setLocks (map : SortedMap String LockRecord) :
    (c.setNative lockTokenKey (.locks map)).native.locks = map := by
  rw [NativeProperty.locks, objs_setLocks h, find?_insert_self]

theorem locks_setLockTokenSum (n : Nat) : (c.setLockTokenSum n).native.locks = c.native.locks := by
  rw [NativeProperty.locks, objs_setLockTokenSum h, find?_insert_of_ne _ _ (by decide)]
  rfl

theorem setLocks_setLockTokenSum (map : SortedMap String LockRecord) (n : Nat) :
    ((c.setNative lockTokenKey (.locks map)).setLockTokenSum n).native.LockTyped ∧
      ((c.setNative lockTokenKey (.locks map)).setLockTokenSum n).lockTokenSum = n ∧
      ((c.setNative lockTokenKey (.locks map)).setLockTokenSum n).native.locks = map := by
  have htyped := lockTyped_setLocks h map
  refine ⟨lockTyped_setLockTokenSum htyped n, (sumTyped_setLockTokenSum htyped.sum n).2, ?_⟩
  rw [locks_setLockTokenSum htyped, locks_setLocks h]

end

/-- The locked sum is that of the lock records and of what else was locked, `base`. -/
structure LocksBalance (base : Nat) (c : Context) : Prop where
  typed : c.native.LockTyped
  sum : c.lockTokenSum = base + c.lockedAmount
  fits : c.lockTokenSum < 2 ^ 64

theorem LocksBalance.setTimer (h : LocksBalance base c) (clock : Nat) :
    LocksBalance base { c with timerHeight := clock } :=
  ⟨h.typed, h.sum, h.fits⟩

theorem LocksBalance.lockToken {tranHash : String} {params : LockParams} (hc : LocksBalance base c)
    (hfits : c.lockTokenSum + params.amount.toNat < 2 ^ 64)
    (h : c.lockToken G tranHash params.amount.toNat params = .ok c') :
    LocksBalance base c' ∧ c'.worth = c.worth := by
  simp only [Context.lockToken, ite_error_eq_ok] at h
  obtain ⟨-, -, hnew, h⟩ := h
  cases h
  have hnone : c.native.locks.find? tranHash = none := by simpa using hnew
  obtain ⟨htyped, hsum, hlocks⟩ := setLocks_setLockTokenSum
    (c := c.setBalanceChange (-params.amount.toNat)) hc.typed
    (c.native.locks.insert tranHash ⟨c.timerHeight, params⟩)
    ((c.lockTokenSum + params.amount.toNat) % 2 ^ 64)
  rw [Nat.mod_eq_of_lt hfits] at htyped hsum hlocks ⊢
  have htotal : (c.native.locks.insert tranHash ⟨c.timerHeight, params⟩).total
      (fun r => r.params.amount.toNat) = c.lockedAmount + params.amount.toNat :=
    total_insert _ _ hnone
  have hbase := hc.sum
  refine ⟨⟨htyped, ?_, ?_⟩, ?_⟩
  · rw [hsum, lockedAmount, hlocks, htotal]
    omega
  · rwa [hsum]
  · rw [worth, hsum]
    show c.balanceChange + -(params.amount.toNat : Int) +
        (c.lockTokenSum + params.amount.toNat : Nat) =
      c.balanceChange + c.lockTokenSum
    omega

theorem LocksBalance.releaseLock {lockHash : String} {r : LockRecord} (hc : LocksBalance base c)
    (hfind : c.native.locks.find? lockHash = some r) :
    LocksBalance base (c.releaseLock c.lockTokenSum lockHash r.params.amount.toNat) ∧
      (c.releaseLock c.lockTokenSum lockHash r.params.amount.toNat).worth = c.worth := by
  have htotal : c.lockedAmount = (c.native.locks.erase lockHash).total
      (fun r => r.params.amount.toNat) + r.params.amount.toNat := total_erase _ hfind
  have hbase := hc.sum
  have hfits := hc.fits
  have hsub : Word.wsub 64 c.lockTokenSum r.params.amount.toNat =
      c.lockTokenSum - r.params.amount.toNat := Word.wsub_of_le (by omega) hfits
  obtain ⟨htyped, hsum, hlocks⟩ := setLocks_setLockTokenSum hc.typed
    (c.native.locks.erase lockHash) (c.lockTokenSum - r.params.amount.toNat)
  rw [Context.releaseLock, hsub]
  refine ⟨⟨htyped, ?_, ?_⟩, ?_⟩
  · show Context.lockTokenSum ((c.setNative _ _).setLockTokenSum _) =
      base + Context.lockedAmount ((c.setNative _ _).setLockTokenSum _)
    rw [hsum, lockedAmount, hlocks]
    omega
  · show Context.lockTokenSum ((c.setNative _ _).setLockTokenSum _) < 2 ^ 64
    omega
  · show c.balanceChange + (r.params.amount.toNat : Int) +
      Context.lockTokenSum ((c.setNative _ _).setLockTokenSum _) = c.balanceChange + c.lockTokenSum
    omega

theorem LocksBalance.unlockToken {lockHash : String} (hc : LocksBalance base c)
    (h : c.unlockToken G lockHash = .ok c') :
    LocksBalance base c' ∧ c'.worth = c.worth := by
  rw [Context.unlockToken, ite_error_eq_ok] at h
  replace h := h.2
  split at h
  · cases h
  · rename_i r hfind
    rw [ite_error_eq_ok] at h
    cases h.2
    exact hc.releaseLock hfind

def dueLocks (c : Context) : List (String × LockRecord) :=
  c.native.locks.entries.filter fun e => e.2.params.byTime && c.lockExpired e.2

theorem LocksBalance.unlockAllToken (hc : LocksBalance base c) (hdue : c.dueLocks.length ≤ 1)
    (h : c.unlockAllToken G = .ok c') : LocksBalance base c' ∧ c'.worth = c.worth := by
  rw [Context.unlockAllToken, ite_error_eq_ok, ← foldl_filter] at h
  cases h.2
  show LocksBalance base (c.dueLocks.foldl _ c) ∧ (c.dueLocks.foldl _ c).worth = c.worth
  rcases hlocks : c.dueLocks with _ | ⟨e, _ | ⟨e', rest⟩⟩
  · exact ⟨hc, rfl⟩
  · have hmem : e ∈ c.dueLocks := hlocks ▸ mem_singleton_self e
    exact hc.releaseLock (find?_eq_some_iff.mpr (mem_of_mem_filter hmem))
  · rw [hlocks, length_cons, length_cons] at hdue
    omega

inductive LockCall where
  | lockToken (tranHash : String) (amount : UInt64) (params : LockParams)
  | unlockToken (lockHash : String)
  | unlockAllToken

def execLockCall (G : ChainConfig) (c : Context) : LockCall → Except TxError Context
  | .lockToken tranHash amount params => c.lockToken G tranHash amount.toNat params
  | .unlockToken lockHash => c.unlockToken G lockHash
  | .unlockAllToken => c.unlockAllToken G

def lockStep (G : ChainConfig) (c : Context) (e : Nat × LockCall) : Context × List TxError :=
  match { c with timerHeight := e.1 }.execLockCall G e.2 with
  | .ok c' => (c', [])
  | .error err => ({ c with timerHeight := e.1 }, [err])

/-- A lock takes the amount its parameters name, and at most one lock is given back at once. -/
def OneAtATime (c : Context) (e : Nat × LockCall) : Prop :=
  match e.2 with
  | .lockToken _ amount params => amount = params.amount ∧ c.lockTokenSum + amount.toNat < 2 ^ 64
  | .unlockToken _ => True
  | .unlockAllToken => { c with timerHeight := e.1 }.dueLocks.length ≤ 1

instance instDecidableOneAtATime (c : Context) (e : Nat × LockCall) : Decidable (OneAtATime c e) :=
  match e with
  | (_, .lockToken _ amount params) =>
    inferInstanceAs (Decidable (amount = params.amount ∧ c.lockTokenSum + amount.toNat < 2 ^ 64))
  | (_, .unlockToken _) => inferInstanceAs (Decidable True)
  | (clock, .unlockAllToken) =>
    inferInstanceAs (Decidable ({ c with timerHeight := clock }.dueLocks.length ≤ 1))

theorem LocksBalance.lockStep {e : Nat × LockCall} (hc : LocksBalance base c)
    (he : OneAtATime c e) :
    LocksBalance base (c.lockStep G e).1 ∧ (c.lockStep G e).1.worth = c.worth := by
  obtain ⟨clock, call⟩ := e
  have hclock := hc.setTimer clock
  unfold Context.lockStep
  split
  · rename_i c' hok
    cases call with
    | lockToken tranHash amount params =>
      obtain ⟨rfl, hfits⟩ := he
      exact hclock.lockToken hfits hok
    | unlockToken lockHash => exact hclock.unlockToken hok
    | unlockAllToken => exact hclock.unlockAllToken he hok
  · exact ⟨hclock, rfl⟩

/-- What the balance loses the locks gain, and the sum of the locked tokens is the deposit with
the locks that are present. -/
theorem token_locks_balance (G : ChainConfig) (base : Nat) (c : Context) (hc : LocksBalance base c)
    (calls : List (Nat × LockCall)) (hcalls : Run.Meets (lockStep G) OneAtATime c calls) :
    (Run.run (lockStep G) c calls).1.worth = c.worth ∧
      (Run.run (lockStep G) c calls).1.lockTokenSum =
        base + (Run.run (lockStep G) c calls).1.lockedAmount := by
  have hrun := (Run.run_inv
    (I := fun d => LocksBalance base d ∧ d.worth = c.worth) (P := fun _ => True)
    (fun d e hd he => ⟨⟨(hd.1.lockStep he).1, (hd.1.lockStep he).2.trans hd.2⟩, fun _ _ => trivial⟩)
    ⟨hc, rfl⟩ calls hcalls).1
  exact ⟨hrun.2, hrun.1.sum⟩

def lockSample : Context :=
  .new "a" { balance := 50 } (.insert .empty lockTokenSumKey (.number 100)) 0 0

def minuteLock (amount : UInt64) : LockParams := ⟨amount, true, 60⟩

theorem locksBalance_lockSample : LocksBalance 100 lockSample := by
  refine ⟨⟨fun obj hobj => ?_, fun obj hobj => ?_⟩, by decide +kernel, by decide +kernel⟩
  · have hnone : lockSample.native.objs.find? lockTokenKey = none := by decide +kernel
    rw [hnone] at hobj
    cases hobj
  · have hsome : lockSample.native.objs.find? lockTokenSumKey = some (.number 100) := by
      decide +kernel
    rw [hsome] at hobj
    rw [← some_inj.mp hobj]
    rfl

def lockCalls : List (Nat × LockCall) :=
  [(1, .lockToken "x" 10 (minuteLock 10)), (2, .lockToken "y" 20 (minuteLock 20)),
    (7, .unlockAllToken), (8, .unlockToken "y")]

theorem token_locks_balance_sample :
    Run.Meets (lockStep userConfig) OneAtATime lockSample lockCalls ∧
      (Run.run (lockStep userConfig) lockSample (lockCalls.take 3)).1.balanceChange = -20 ∧
      (Run.run (lockStep userConfig) lockSample lockCalls).1.worth = 100 := by
  have hmeets : Run.Meets (lockStep userConfig) OneAtATime lockSample lockCalls := by
    decide +kernel
  refine ⟨hmeets, by decide +kernel, ?_⟩
  rw [(token_locks_balance userConfig 100 lockSample locksBalance_lockSample lockCalls hmeets).1]
  decide +kernel

theorem unlockAllToken_creates_tokens :
    let locked := (Run.run (lockStep userConfig) lockSample (lockCalls.take 2)).1
    let unlocked := (locked.lockStep userConfig (8, .unlockAllToken)).1
    (locked.balanceChange, locked.lockTokenSum, locked.lockedAmount) = (-30, 130, 30) ∧
    (unlocked.balanceChange, unlocked.lockTokenSum, unlocked.lockedAmount) = (0, 110, 0) := by
  decide +kernel

/-! ## Sub-accounts and contracts

A new account starts with the minimal deposit as its locked token sum, whatever the sum was. -/

theorem worth_setParent {key value : String} {amount : Nat} (hc : c.native.SumTyped)
    (hkey : lockTokenSumKey ≠ key) (hamount : G.minAccountDeposit ≤ amount)
    (hok : c.setParent G key amount value = .ok c') :
    c'.worth = c.worth - c.lockTokenSum + amount := by
  rw [setParent, ite_error_eq_ok] at hok
  replace hok := hok.2
  obtain ⟨htyped, hsum⟩ := sumTyped_setLockTokenSum hc G.minAccountDeposit
  have hbalance : (if amount > G.minAccountDeposit then amount - G.minAccountDeposit else 0) =
      amount - G.minAccountDeposit := by
    split <;> omega
  obtain ⟨paid, hpaid, hworth⟩ :=
    worth_topTokenTransferIn (G := G) htyped (amount - G.minAccountDeposit)
  dsimp only at hok
  rw [hbalance, hpaid] at hok
  have hstart : (c.setLockTokenSum G.minAccountDeposit).worth =
      c.balanceChange + G.minAccountDeposit := by
    rw [worth, hsum]
    rfl
  rw [worth_setNative? hkey hok]
  show paid.worth = c.balanceChange + c.lockTokenSum - c.lockTokenSum + amount
  omega

/-- A new sub-account or contract is credited with the amount exactly when nothing was locked in
the account before; what was locked is lost. -/
theorem parent_account_credits (G : ChainConfig) (c c' : Context) (amount : Nat) (value : String)
    (hc : c.native.SumTyped) (hamount : G.minAccountDeposit ≤ amount)
    (hok : c.setParentAccount G amount value = .ok c' ∨
      c.setContractParentAccount G amount value = .ok c') :
    c'.worth = c.worth - c.lockTokenSum + amount ∧
      (c'.worth = c.worth + amount ↔ c.lockTokenSum = 0) := by
  have hworth : c'.worth = c.worth - c.lockTokenSum + amount := by
    rcases hok with hok | hok
    · exact worth_setParent hc (by decide) hamount hok
    · exact worth_setParent hc (by decide) hamount hok
  exact ⟨hworth, by omega⟩

def depositConfig : ChainConfig := { userConfig with minAccountDeposit := 100 }

def freeSample : Context := .new "a" { balance := 50 } .empty 0 0

theorem parent_account_credits_sample :
    ∃ c', freeSample.setParentAccount depositConfig 130 "b" = .ok c' ∧
      (c'.balanceChange, c'.lockTokenSum) = (30, 100) ∧ c'.worth = freeSample.worth + 130 := by
  have hnone : freeSample.native.objs.find? lockTokenSumKey = none := by decide +kernel
  have htyped : freeSample.native.SumTyped := fun obj hobj => by
    cases hobj
  refine ⟨_, rfl, by decide +kernel, ?_⟩
  exact (parent_account_credits depositConfig freeSample _ 130 "b" htyped (by decide +kernel)
    (.inl rfl)).2.mpr (by decide +kernel)

theorem parent_account_forgets_locks :
    let locked := (freeSample.lockStep userConfig (1, .lockToken "x" 30 (minuteLock 30))).1
    let sent := freeSample.ignoring (freeSample.topTokenTransferIn depositConfig 100)
    (locked.balanceChange, locked.lockTokenSum, locked.lockedAmount) = (-30, 30, 30) ∧
    (locked.setParentAccount userConfig 10 "b").toOption.map
      (fun c => (c.balanceChange, c.lockTokenSum, c.lockedAmount)) = some (-20, 0, 30) ∧
    (sent.balanceChange, sent.lockTokenSum) = (0, 100) ∧
    (sent.setContractParentAccount depositConfig 100 "b").toOption.map
      (fun c => (c.balanceChange, c.lockTokenSum)) = some (0, 100) := by
  decide +kernel

end Context
end TopChain.Store
