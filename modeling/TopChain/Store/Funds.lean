import TopChain.Lib.Hoare
import TopChain.Store.AccountContext

/-!
# What the context does to the funds

The funds are the committed balance with the change that execution has accumulated.
-/
namespace TopChain.Store.Context

open TopChain.Lib TopChain.Lib.Hoare TopChain.Data Word SortedMap

structure KeepsFunds (c c' : Context) : Prop where
  balance : c'.account.balance = c.account.balance
  funds : 0 ≤ c.funds → 0 ≤ c'.funds

variable {G : ChainConfig} {c c' c'' : Context}

theorem KeepsFunds.refl (c : Context) : KeepsFunds c c := ⟨rfl, id⟩

theorem KeepsFunds.trans (h : KeepsFunds c c') (h' : KeepsFunds c' c'') : KeepsFunds c c'' :=
  ⟨h'.balance.trans h.balance, fun hc => h'.funds (h.funds hc)⟩

theorem KeepsFunds.of_le (hbalance : c'.account.balance = c.account.balance)
    (hchange : c.balanceChange ≤ c'.balanceChange) : KeepsFunds c c' := by
  refine ⟨hbalance, fun hc => ?_⟩
  unfold Context.funds at hc ⊢
  omega

theorem KeepsFunds.of_sub {fee : Int} (hfee : fee ≤ c.funds) :
    KeepsFunds c (c.setBalanceChange (-fee)) := by
  refine ⟨rfl, fun _ => ?_⟩
  unfold Context.funds at hfee
  show (0 : Int) ≤ c.account.balance + (c.balanceChange + -fee)
  omega

def OnlyNative (c c' : Context) : Prop := ∃ native, c' = { c with native }

section
variable (h : OnlyNative c c')
include h

theorem OnlyNative.trans (h' : OnlyNative c' c'') : OnlyNative c c'' := by
  obtain ⟨native, rfl⟩ := h
  obtain ⟨native', rfl⟩ := h'
  exact ⟨native', rfl⟩

theorem OnlyNative.funds : c'.funds = c.funds := by
  obtain ⟨native, rfl⟩ := h
  rfl

theorem OnlyNative.keepsFunds : KeepsFunds c c' := by
  obtain ⟨native, rfl⟩ := h
  exact .of_le rfl le_rfl

end

theorem onlyNative_setNative (name : String) (obj : NativeObj) :
    OnlyNative c (c.setNative name obj) :=
  ⟨_, rfl⟩

theorem keepsFunds_setNative (name : String) (obj : NativeObj) :
    KeepsFunds c (c.setNative name obj) :=
  (onlyNative_setNative name obj).keepsFunds

theorem keepsFunds_add (n : Nat) : KeepsFunds c (c.setBalanceChange n) :=
  .of_le rfl (le_add_of_nonneg_right (Int.natCast_nonneg n))

variable {name : String}

section
variable {obj : NativeObj} (h : c.setNative? name obj = .ok c')
include h

theorem eq_setNative_of_ok : c' = c.setNative name obj := by
  unfold setNative? at h
  split at h
  · rename_i native hput
    cases h
    unfold setNative NativeProperty.put
    rw [hput]
    rfl
  · cases h

theorem keepsFunds_setNative? : KeepsFunds c c' := by
  rw [eq_setNative_of_ok h]
  exact keepsFunds_setNative name obj

end

theorem keepsFunds_ignoring {r : Except TxError Context}
    (h : ∀ c', r = .ok c' → KeepsFunds c c') : KeepsFunds c (c.ignoring r) := by
  cases r with
  | ok c' => exact h c' rfl
  | error e => exact .refl c

theorem keepsFunds_topTokenTransferOut {amount gasFee serviceFee : Nat}
    (h : c.topTokenTransferOut G amount gasFee serviceFee = .ok c') : KeepsFunds c c' := by
  obtain ⟨-, rfl⟩ | ⟨fee, -, hfee, rfl⟩ := topTokenTransferOut_cases h
  · exact .refl c'
  · refine ⟨rfl, fun hc => ?_⟩
    have hle : fee ≤ c.funds := hfee.trans (bmod_le_self _ hc)
    exact (KeepsFunds.of_sub hle).funds hc

theorem keepsFunds_topTokenTransferIn {amount : Nat}
    (h : c.topTokenTransferIn G amount = .ok c') : KeepsFunds c c' := by
  have hlock : ∀ lock n : Nat, KeepsFunds c ((c.setLockTokenSum lock).setBalanceChange n) :=
    fun lock n => (keepsFunds_setNative _ _).trans (keepsFunds_add n)
  unfold topTokenTransferIn at h
  split at h
  · cases h
    exact .refl _
  · split at h
    · cases h
      exact keepsFunds_add amount
    · dsimp only at h
      split at h
      · split at h
        · cases h
        · cases h
          exact hlock _ _
      · split at h
        · cases h
          exact hlock _ _
        · cases h
          exact keepsFunds_add amount

theorem keepsFunds_tokenTransferOut {asset : Asset}
    (h : c.tokenTransferOut G asset = .ok c') : KeepsFunds c c' := by
  unfold tokenTransferOut at h
  split at h
  · exact keepsFunds_topTokenTransferOut h
  · unfold otherTokenTransferOut at h
    split at h
    · split at h
      · exact keepsFunds_setNative? h
      · cases h
    · cases h

theorem keepsFunds_tokenTransferIn {asset : Asset}
    (h : c.tokenTransferIn G asset = .ok c') : KeepsFunds c c' := by
  unfold tokenTransferIn at h
  split at h
  · exact keepsFunds_topTokenTransferIn h
  · rw [otherTokenTransferIn, ite_error_eq_ok] at h
    exact keepsFunds_setNative? h.2

theorem keepsFunds_lockToken {tranHash : String} {amount : Nat} {params : LockParams}
    (h : c.lockToken G tranHash amount params = .ok c') : KeepsFunds c c' := by
  simp only [lockToken, ite_error_eq_ok] at h
  obtain ⟨-, hamount, -, h⟩ := h
  cases h
  refine ⟨rfl, fun hc => ?_⟩
  have hfits : (amount : Int) ≤ c.funds := by omega
  exact (KeepsFunds.of_sub hfits).funds hc

theorem keepsFunds_releaseLock (lockSum : Nat) (lockHash : String) (amount : Nat) :
    KeepsFunds c (c.releaseLock lockSum lockHash amount) :=
  ((keepsFunds_setNative _ _).trans (keepsFunds_setNative _ _)).trans (keepsFunds_add amount)

theorem keepsFunds_unlockToken {lockHash : String} (h : c.unlockToken G lockHash = .ok c') :
    KeepsFunds c c' := by
  rw [unlockToken, ite_error_eq_ok] at h
  replace h := h.2
  split at h
  · cases h
  · rw [ite_error_eq_ok] at h
    cases h.2
    exact keepsFunds_releaseLock _ _ _

theorem keepsFunds_foldl {α : Type} {f : Context → α → Context}
    (hf : ∀ c a, KeepsFunds c (f c a)) (l : List α) (c : Context) : KeepsFunds c (l.foldl f c) := by
  induction l generalizing c with
  | nil => exact .refl c
  | cons a l ih => exact (hf c a).trans (ih (f c a))

theorem keepsFunds_unlockAllToken (h : c.unlockAllToken G = .ok c') : KeepsFunds c c' := by
  rw [unlockAllToken, ite_error_eq_ok] at h
  cases h.2
  apply keepsFunds_foldl
  intro d e
  split
  · exact keepsFunds_releaseLock _ _ _
  · exact .refl d

theorem onlyNative_setUsedTgas (num : Nat) : OnlyNative c (c.setUsedTgas num) :=
  (onlyNative_setNative _ _).trans (onlyNative_setNative _ _)

variable {deposit : Nat} {out : Context × Nat × Option TxError}

theorem onlyNative_updateTgasSender {usage : Nat} (h : c.updateTgasSender G usage deposit = out) :
    OnlyNative c out.1 := by
  subst h
  unfold updateTgasSender
  dsimp only
  split
  · exact onlyNative_setUsedTgas _
  · exact ⟨c.native, rfl⟩

theorem keepsFunds_updateTgasContractRecv {senderUsed frozen deal : Nat}
    {out : Context × Nat × Nat × Option TxError}
    (h : c.updateTgasContractRecv G senderUsed deposit frozen deal = out) :
    KeepsFunds c out.1 := by
  have hcur : ∀ n : Nat, KeepsFunds c { c with curUsedTgas := n } := fun n => .of_le rfl le_rfl
  subst h
  unfold updateTgasContractRecv
  dsimp only
  split
  · exact .refl c
  · split
    · exact (hcur _).trans (onlyNative_setUsedTgas _).keepsFunds
    · split
      · exact hcur _
      · exact (hcur _).trans (onlyNative_setUsedTgas _).keepsFunds

theorem calcResource_spec {tgas used : Nat} {out : Context × Nat × Nat × Option TxError}
    (h : c.calcResource G tgas deposit used = out) (hused : used ≤ deposit)
    (hdeposit : deposit < 2 ^ 32) :
    used ≤ out.2.2.1 ∧ out.2.2.1 ≤ deposit ∧
      (∃ num, out.1 = (c.setUsedTgas num).setBalanceChange (-out.2.2.1)) ∧
      (tgas ≤ (deposit - used) / G.txDepositGasExchangeRatio → out.2.2.2 = none) := by
  have hleft : Word.wsub 32 deposit used = deposit - used := wsub_of_le hused hdeposit
  subst h
  unfold calcResource
  rw [hleft]
  dsimp only
  split
  · exact ⟨hused, le_rfl, ⟨_, rfl⟩, fun _ => by omega⟩
  · split
    · -- the gas that is missing is paid from what is left of the deposit
      have hmissing : (tgas - c.availableTgas G) * G.txDepositGasExchangeRatio ≤ deposit - used :=
        calc (tgas - c.availableTgas G) * G.txDepositGasExchangeRatio
            ≤ (deposit - used) / G.txDepositGasExchangeRatio * G.txDepositGasExchangeRatio :=
              Nat.mul_le_mul_right _ (by omega)
          _ ≤ deposit - used := Nat.div_mul_le_self _ _
      have hsmall : used + (tgas - c.availableTgas G) * G.txDepositGasExchangeRatio < 2 ^ 32 := by
        omega
      rw [Nat.mod_eq_of_lt hsmall]
      have hle : used + (tgas - c.availableTgas G) * G.txDepositGasExchangeRatio ≤ deposit := by
        omega
      exact ⟨Nat.le_add_right _ _, hle, ⟨_, rfl⟩, fun _ => rfl⟩
    · exact ⟨le_rfl, hused, ⟨_, rfl⟩, fun _ => rfl⟩

theorem keepsFunds_setPledgeTokenTgas {num : Nat} (h : c.setPledgeTokenTgas num = .ok c') :
    KeepsFunds c c' := by
  simp only [setPledgeTokenTgas, ite_error_eq_ok] at h
  cases h.2.2
  exact .of_le rfl le_rfl

theorem keepsFunds_redeemPledgeTokenTgas {num : Nat} (h : c.redeemPledgeTokenTgas num = .ok c') :
    KeepsFunds c c' := by
  rw [redeemPledgeTokenTgas, ite_error_eq_ok] at h
  cases h.2
  exact .of_le rfl le_rfl

theorem keepsFunds_setPledgeTokenDisk {num : Nat} (h : c.setPledgeTokenDisk num = .ok c') :
    KeepsFunds c c' := by
  rw [setPledgeTokenDisk, ite_error_eq_ok] at h
  cases h.2
  exact .of_le rfl le_rfl

theorem keepsFunds_redeemPledgeTokenDisk {num : Nat} (h : c.redeemPledgeTokenDisk num = .ok c') :
    KeepsFunds c c' := by
  rw [redeemPledgeTokenDisk, ite_error_eq_ok] at h
  cases h.2
  exact .of_le rfl le_rfl

theorem keepsFunds_ite_setNative (p : Prop) [Decidable p] (name : String) (obj : NativeObj) :
    KeepsFunds c (if p then c.setNative name obj else c) := by
  split
  · exact keepsFunds_setNative name obj
  · exact .refl c

theorem keepsFunds_mergePledgeVoteProperty : KeepsFunds c (c.mergePledgeVoteProperty G) := by
  have hexpired : ∀ (b : Bool) (items : List VoteRecord),
      KeepsFunds c (if b then c else c.setVotes items) := by
    intro b items
    split
    · exact .refl c
    · exact keepsFunds_setNative _ _
  exact ((hexpired _ _).trans (keepsFunds_ite_setNative _ _ _)).trans
    (keepsFunds_ite_setNative _ _ _)

theorem keepsFunds_updatePledgeVoteProperty {voteNum duration : Nat}
    (h : c.updatePledgeVoteProperty G voteNum duration = .ok c') : KeepsFunds c c' := by
  rw [updatePledgeVoteProperty, insertPledgeVoteProperty, ite_error_eq_ok] at h
  exact keepsFunds_mergePledgeVoteProperty.trans (keepsFunds_setNative? h.2)

theorem keepsFunds_redeemVotes (num change : Nat) :
    KeepsFunds c (((c.setUnvoteNumChange (-num)).setBalanceChange change).setVoteBalanceChange
      (-change)) :=
  .of_le rfl (le_add_of_nonneg_right (Int.natCast_nonneg change))

theorem keepsFunds_redeemPledgeVoteProperty {num : Nat}
    (h : c.redeemPledgeVoteProperty num = .ok c') : KeepsFunds c c' := by
  unfold redeemPledgeVoteProperty at h
  split at h
  · cases h
  · rw [ite_error_eq_ok] at h
    cases h.2
    refine KeepsFunds.trans ?_ (keepsFunds_redeemVotes _ _)
    refine KeepsFunds.trans ?_ (keepsFunds_ite_setNative _ _ _)
    exact (keepsFunds_setNative _ _).trans (keepsFunds_setNative _ _)

theorem keepsFunds_setParent {key value : String} {amount : Nat}
    (h : c.setParent G key amount value = .ok c') : KeepsFunds c c' := by
  rw [setParent, ite_error_eq_ok] at h
  refine KeepsFunds.trans ?_ (keepsFunds_setNative? h.2)
  refine (keepsFunds_setNative lockTokenSumKey _).trans (keepsFunds_ignoring fun c' h => ?_)
  exact keepsFunds_topTokenTransferIn h

theorem keepsFunds_accountAliasNameSet (h : c.accountAliasNameSet G name = .ok c') :
    KeepsFunds c c' := by
  simp only [accountAliasNameSet, ite_error_eq_ok] at h
  exact keepsFunds_setNative? h.2.2

theorem keepsFunds_accountSetKeys {key value : String}
    (h : c.accountSetKeys G key value = .ok c') : KeepsFunds c c' := by
  simp only [accountSetKeys, ite_error_eq_ok] at h
  exact keepsFunds_setNative? h.2.2

/-! ## The balance together with the locked token sum -/

/-- What the account has in its balance and in its locked token sum. -/
def worth (c : Context) : Int := c.balanceChange + c.lockTokenSum

theorem worth_setBalanceChange (d : Int) : (c.setBalanceChange d).worth = c.worth + d := by
  show c.balanceChange + d + c.lockTokenSum = c.balanceChange + c.lockTokenSum + d
  omega

section
variable (p : NativeProperty) {name' : String} (obj : NativeObj) (h : name' ≠ name)
include p obj h

theorem find?_put_of_ne : (p.put name obj).objs.find? name' = p.objs.find? name' := by
  have hinsert : ∀ q, p.put? name obj = some q → q.objs.find? name' = p.objs.find? name' := by
    intro q hq
    unfold NativeProperty.put? at hq
    split at hq
    · cases hq
      exact find?_insert_of_ne _ _ h
    · split at hq
      · cases hq
        exact find?_insert_of_ne _ _ h
      · cases hq
  unfold NativeProperty.put
  cases hput : p.put? name obj with
  | none => rfl
  | some q => exact hinsert q hput

theorem number_put_of_ne : (p.put name obj).number name' = p.number name' := by
  unfold NativeProperty.number
  rw [find?_put_of_ne p obj h]

end

theorem number_put {p : NativeProperty}
    (h : ∀ obj, p.objs.find? name = some obj → obj.objType = .string) (n : Nat) :
    (∀ obj, (p.put name (.number n)).objs.find? name = some obj → obj.objType = .string) ∧
      (p.put name (.number n)).number name = n := by
  have hobjs : (p.put name (.number n)).objs = p.objs.insert name (.number n) :=
    NativeProperty.objs_put h
  constructor
  · intro obj hobj
    rw [hobjs, find?_insert_self] at hobj
    rw [← Option.some_inj.mp hobj]
    rfl
  · unfold NativeProperty.number
    rw [hobjs, find?_insert_self]

theorem worth_setNative? {obj : NativeObj} (hname : lockTokenSumKey ≠ name)
    (h : c.setNative? name obj = .ok c') : c'.worth = c.worth := by
  have hsum : (c.setNative name obj).lockTokenSum = c.lockTokenSum :=
    number_put_of_ne c.native obj hname
  rw [eq_setNative_of_ok h, worth, hsum]
  rfl

theorem sumTyped_setLockTokenSum (hc : c.native.SumTyped) (n : Nat) :
    (c.setLockTokenSum n).native.SumTyped ∧ (c.setLockTokenSum n).lockTokenSum = n :=
  number_put hc n

theorem worth_topTokenTransferIn (hc : c.native.SumTyped) (amount : Nat) :
    ∃ c', c.topTokenTransferIn G amount = .ok c' ∧ c'.worth = c.worth + amount := by
  have hlock : ∀ lock sum : Nat, lock ≤ amount → c.lockTokenSum + lock = sum →
      ((c.setLockTokenSum sum).setBalanceChange (amount - lock : Nat)).worth =
        c.worth + amount := by
    intro lock sum hle hsum
    rw [worth_setBalanceChange, worth, (sumTyped_setLockTokenSum hc sum).2]
    show c.balanceChange + (sum : Int) + ((amount - lock : Nat) : Int) =
      c.balanceChange + c.lockTokenSum + amount
    omega
  unfold topTokenTransferIn
  dsimp only
  split_ifs with hzero hsys hsum hsafe
  · subst hzero
    exact ⟨c, rfl, (add_zero _).symm⟩
  · exact ⟨_, rfl, worth_setBalanceChange _⟩
  · omega
  · exact ⟨_, rfl, hlock _ _ (by omega) (by omega)⟩
  · exact ⟨_, rfl, hlock _ _ le_rfl (by omega)⟩
  · exact ⟨_, rfl, hlock _ _ (by omega) (by omega)⟩
  · exact ⟨_, rfl, hlock _ _ le_rfl (by omega)⟩
  · exact ⟨_, rfl, worth_setBalanceChange _⟩

/-- A vote costs one token and every account is a user's. -/
def userConfig : ChainConfig where
  voteToken voteNum _ := voteNum
  addrType _ := .userAccount
  isBeaconZone _ := false

end TopChain.Store.Context
