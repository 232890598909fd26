import Mathlib.Tactic.Ring

/-!
# Books and groups (`xdata/src/xbook_id_mapping.cpp`)

Books are divided among auditor groups, and those of one among its validator groups.
-/
namespace TopChain.Data

def auditorGroupIdBegin : ℕ := 1
def auditorGroupIdEnd : ℕ := 64
def validatorGroupIdBegin : ℕ := 64
def validatorGroupIdEnd : ℕ := 127

def groupRange (first count offset second : ℕ) : ℕ × ℕ :=
  let bookIdBegin := offset * count % 2 ^ 16 + first
  let bookIdEnd := (bookIdBegin + count) % 2 ^ 16
  (bookIdBegin % 2 ^ 16, if bookIdEnd > second then second else bookIdEnd)

def mappingToAuditorGroup (bookId auditorGroupCount : ℕ) (range : ℕ × ℕ) : Option ℕ × (ℕ × ℕ) :=
  if range.1 > bookId ∨ range.2 < bookId then (none, (0, 0))
  else
    let count := (range.2 - range.1) / auditorGroupCount
    let offset := (bookId - range.1) / count
    (some ((offset + auditorGroupIdBegin) % 2 ^ 8), groupRange range.1 count offset range.2)

def mappingToValidatorGroup (bookId auditorGroupCount validatorGroupCount : ℕ) (range : ℕ × ℕ) :
    Option ℕ × (ℕ × ℕ) :=
  if range.1 > bookId ∨ range.2 < bookId then (none, (0, 0))
  else
    let perAuditor := validatorGroupCount / auditorGroupCount
    let (auditor, inner) := mappingToAuditorGroup bookId auditorGroupCount range
    let count := (inner.2 - inner.1) / perAuditor
    let offset := (bookId - inner.1) / count
    (auditor.map fun id =>
        (offset + (id - auditorGroupIdBegin) * perAuditor + validatorGroupIdBegin) % 2 ^ 8,
      groupRange inner.1 count offset range.2)

def bookIdsBelongingToAuditorGroup (id auditorGroupCount : ℕ) (range : ℕ × ℕ) : ℕ × ℕ :=
  if id < auditorGroupIdBegin ∨ id ≥ auditorGroupIdEnd then (0, 0)
  else
    groupRange range.1 ((range.2 - range.1) / auditorGroupCount) (id - auditorGroupIdBegin) range.2

def bookIdsBelongingToValidatorGroup (parent id auditorGroupCount validatorGroupCount : ℕ)
    (range : ℕ × ℕ) : ℕ × ℕ :=
  if id < validatorGroupIdBegin ∨ id ≥ validatorGroupIdEnd then (0, 0)
  else
    let inner := bookIdsBelongingToAuditorGroup parent auditorGroupCount range
    if inner.2 = 0 then (0, 0)
    else
      let perAuditor := validatorGroupCount / auditorGroupCount
      groupRange inner.1 ((inner.2 - inner.1) / perAuditor)
        ((id - validatorGroupIdBegin) % perAuditor) range.2

/-- The books of the auditor group of index `i`. -/
def booksOfAuditor (A : ℕ) (range : ℕ × ℕ) (i : ℕ) : ℕ × ℕ :=
  bookIdsBelongingToAuditorGroup (i + auditorGroupIdBegin) A range

/-- The books of the validator group of index `i`, within those of the auditor group above it. -/
def booksOfValidator (A V : ℕ) (range : ℕ × ℕ) (i : ℕ) : ℕ × ℕ :=
  bookIdsBelongingToValidatorGroup (i / (V / A) + auditorGroupIdBegin) (i + validatorGroupIdBegin)
    A V range

theorem groupRange_eq {first count offset second : ℕ}
    (hend : first + offset * count + count ≤ second) (hword : second < 2 ^ 16) :
    groupRange first count offset second =
      (first + offset * count, first + offset * count + count) := by
  unfold groupRange
  dsimp only
  rw [Nat.mod_eq_of_lt (by omega : offset * count < 2 ^ 16), Nat.add_comm _ first,
    Nat.mod_eq_of_lt (by omega), Nat.mod_eq_of_lt (by omega), if_neg (by omega)]

section
variable {first A k m i : ℕ} (hA : 0 < A) (hk : 0 < k) (hword : first + A * (k * m) < 2 ^ 16)
  (hAid : A < 64) (hVid : A * k < 64)

theorem fits {n c : ℕ} (hi : i < n) : i * c + c ≤ n * c := by
  rw [← Nat.succ_mul]
  exact Nat.mul_le_mul_right c hi

include hA hword in
theorem auditor_range (hi : i < A) :
    groupRange first ((first + A * (k * m) - first) / A) i (first + A * (k * m)) =
      (first + i * (k * m), first + i * (k * m) + k * m) := by
  have hfit := fits (c := k * m) hi
  rw [Nat.add_sub_cancel_left, Nat.mul_div_cancel_left _ hA]
  exact groupRange_eq (by omega) hword

include hA hword hAid in
theorem booksOfAuditor_eq (hi : i < A) : booksOfAuditor A (first, first + A * (k * m)) i =
    (first + i * (k * m), first + i * (k * m) + k * m) := by
  unfold booksOfAuditor bookIdsBelongingToAuditorGroup auditorGroupIdBegin auditorGroupIdEnd
  rw [if_neg (by omega), Nat.add_sub_cancel]
  exact auditor_range hA hword hi

theorem inner_offset (i k m : ℕ) : i / k * (k * m) + i % k * m = i * m := by
  calc i / k * (k * m) + i % k * m = (k * (i / k) + i % k) * m := by ring
    _ = i * m := by rw [Nat.div_add_mod]

include hA hk hword hAid hVid in
theorem booksOfValidator_eq (hm : 0 < m) (hi : i < A * k) :
    booksOfValidator A (A * k) (first, first + A * (k * m)) i =
      (first + i * m, first + i * m + m) := by
  have hdiv : A * k / A = k := Nat.mul_div_cancel_left _ hA
  have hparent : i / k < A := (Nat.div_lt_iff_lt_mul hk).mpr hi
  have hinner := booksOfAuditor_eq hA hword hAid hparent
  have hoff := inner_offset i k m
  have hfit := fits (c := m) hi
  have hpos : 0 < k * m := Nat.mul_pos hk hm
  rw [Nat.mul_assoc] at hfit
  unfold booksOfAuditor at hinner
  unfold booksOfValidator bookIdsBelongingToValidatorGroup validatorGroupIdBegin validatorGroupIdEnd
  rw [if_neg (by omega), hdiv, hinner]
  dsimp only
  rw [if_neg (by omega), Nat.add_sub_cancel, Nat.add_sub_cancel_left,
    Nat.mul_div_cancel_left _ hk, groupRange_eq (by omega) hword, Nat.add_assoc first, hoff]

variable {bookId : ℕ} (hfirst : first ≤ bookId) (hbook : bookId < first + A * (k * m))

include hA hword hAid hfirst hbook in
theorem mappingToAuditorGroup_eq : (bookId - first) / (k * m) < A ∧
      mappingToAuditorGroup bookId A (first, first + A * (k * m)) =
        (some ((bookId - first) / (k * m) + 1), (first + (bookId - first) / (k * m) * (k * m),
            first + (bookId - first) / (k * m) * (k * m) + k * m)) := by
  have hpos : 0 < k * m := Nat.pos_of_ne_zero fun h => by rw [h] at hbook; omega
  have hlt : (bookId - first) / (k * m) < A := (Nat.div_lt_iff_lt_mul hpos).mpr (by omega)
  refine ⟨hlt, ?_⟩
  have hrange := auditor_range hA hword hlt
  unfold mappingToAuditorGroup auditorGroupIdBegin
  rw [if_neg (by dsimp only; omega)]
  dsimp only
  rw [Nat.add_sub_cancel_left, Nat.mul_div_cancel_left _ hA] at hrange ⊢
  rw [hrange, Nat.mod_eq_of_lt (by omega)]

include hA hk hword hAid hfirst hbook in
theorem mappingToValidatorGroup_eq (hm : 0 < m) : (bookId - first) / m < A * k ∧
      (mappingToValidatorGroup bookId A (A * k) (first, first + A * (k * m))).1 =
        some (((bookId - first) / m + 64) % 2 ^ 8) := by
  obtain ⟨-, hauditor⟩ := mappingToAuditorGroup_eq hA hword hAid hfirst hbook
  have hlt : (bookId - first) / m < A * k :=
    (Nat.div_lt_iff_lt_mul hm).mpr (by rw [Nat.mul_assoc]; omega)
  -- the quotient in two steps: by the auditor's books, then within them
  have hsplit : (bookId - (first + (bookId - first) / (k * m) * (k * m))) / m +
      (bookId - first) / (k * m) * k = (bookId - first) / m := by
    rw [Nat.sub_add_eq, ← Nat.add_mul_div_right _ _ hm]
    congr 1
    have hle := Nat.div_mul_le_self (bookId - first) (k * m)
    rw [Nat.mul_assoc _ k m]
    omega
  refine ⟨hlt, ?_⟩
  unfold mappingToValidatorGroup validatorGroupIdBegin auditorGroupIdBegin
  rw [if_neg (by dsimp only; omega), hauditor]
  dsimp only [Option.map_some]
  rw [Nat.mul_div_cancel_left _ hA, Nat.add_sub_cancel, Nat.add_sub_cancel_left,
    Nat.mul_div_cancel_left _ hk, hsplit]

end

def Holds (range : ℕ × ℕ) (bookId : ℕ) : Prop := range.1 ≤ bookId ∧ bookId < range.2

theorem holds_quotient {first bookId c : ℕ} (hc : 0 < c) (hfirst : first ≤ bookId) :
    Holds (first + (bookId - first) / c * c, first + (bookId - first) / c * c + c) bookId := by
  have hmod := Nat.div_add_mod (bookId - first) c
  have hlt := Nat.mod_lt (bookId - first) hc
  rw [Nat.mul_comm c] at hmod
  constructor <;> dsimp only <;> omega

theorem index_eq_of_holds {first bookId c i j : ℕ}
    (hi : Holds (first + i * c, first + i * c + c) bookId)
    (hj : Holds (first + j * c, first + j * c + c) bookId) : i = j := by
  obtain ⟨hi₁, hi₂⟩ := hi
  obtain ⟨hj₁, hj₂⟩ := hj
  dsimp only at hi₁ hi₂ hj₁ hj₂
  rcases Nat.lt_trichotomy i j with h | h | h
  · have := fits (c := c) h
    omega
  · exact h
  · have := fits (c := c) h
    omega

/-- Each book is mapped to one existing group of either kind, whose range has it, and no book is in
the ranges of two groups. -/
def InOneGroup (A V : ℕ) (range : ℕ × ℕ) : Prop :=
  (∀ bookId, range.1 ≤ bookId → bookId < range.2 →
    (∃ i < A, (mappingToAuditorGroup bookId A range).1 = some (i + auditorGroupIdBegin) ∧
      Holds (booksOfAuditor A range i) bookId) ∧
    ∃ i < V, (mappingToValidatorGroup bookId A V range).1 = some (i + validatorGroupIdBegin) ∧
      Holds (booksOfValidator A V range i) bookId) ∧
  ∀ bookId,
    (∀ i < A, ∀ j < A, Holds (booksOfAuditor A range i) bookId →
      Holds (booksOfAuditor A range j) bookId → i = j) ∧
    ∀ i < V, ∀ j < V, Holds (booksOfValidator A V range i) bookId →
      Holds (booksOfValidator A V range j) bookId → i = j

theorem inOneGroup_of_even {first A k m : ℕ} (hA : 0 < A)
    (hword : first + A * (k * m) < 2 ^ 16) (hle : A * k ≤ A * (k * m)) (hAid : A < 64)
    (hVid : A * k < 64) : InOneGroup A (A * k) (first, first + A * (k * m)) := by
  have hauditor : ∀ i < A, booksOfAuditor A (first, first + A * (k * m)) i =
      (first + i * (k * m), first + i * (k * m) + k * m) := fun _ =>
    booksOfAuditor_eq hA hword hAid
  have hpos : ∀ i < A * k, 0 < k ∧ 0 < m := by
    intro i hi
    refine ⟨Nat.pos_of_ne_zero fun h => ?_, Nat.pos_of_ne_zero fun h => ?_⟩
    · rw [h] at hi
      omega
    · rw [h, Nat.mul_zero, Nat.mul_zero] at hle
      omega
  have hvalidator : ∀ i < A * k, booksOfValidator A (A * k) (first, first + A * (k * m)) i =
      (first + i * m, first + i * m + m) := fun i hi =>
    booksOfValidator_eq hA (hpos i hi).1 hword hAid hVid (hpos i hi).2 hi
  refine ⟨fun bookId hfirst hbook => ?_, fun bookId => ⟨fun i hi j hj h₁ h₂ => ?_,
    fun i hi j hj h₁ h₂ => ?_⟩⟩
  · have hkm : 0 < k * m := Nat.pos_of_ne_zero fun h => by
      simp only [h, Nat.mul_zero, Nat.add_zero] at hfirst hbook
      omega
    obtain ⟨hlt, hmap⟩ := mappingToAuditorGroup_eq hA hword hAid hfirst hbook
    obtain ⟨hlt', hmap'⟩ := mappingToValidatorGroup_eq hA (Nat.pos_of_mul_pos_right hkm) hword hAid
      hfirst hbook (Nat.pos_of_mul_pos_left hkm)
    rw [Nat.mod_eq_of_lt (by omega)] at hmap'
    refine ⟨⟨_, hlt, by rw [hmap]; rfl, ?_⟩, _, hlt', hmap', ?_⟩
    · rw [hauditor _ hlt]
      exact holds_quotient hkm hfirst
    · rw [hvalidator _ hlt']
      exact holds_quotient (Nat.pos_of_mul_pos_left hkm) hfirst
  · rw [hauditor i hi] at h₁
    rw [hauditor j hj] at h₂
    exact index_eq_of_holds h₁ h₂
  · rw [hvalidator i hi] at h₁
    rw [hvalidator j hj] at h₂
    exact index_eq_of_holds h₁ h₂

theorem groupRange_le (first count offset second : ℕ) :
    (groupRange first count offset second).2 ≤ first + offset * count + count := by
  have hmod := Nat.mod_le (offset * count) (2 ^ 16)
  have hend := Nat.mod_le (offset * count % 2 ^ 16 + first + count) (2 ^ 16)
  unfold groupRange
  dsimp only
  split_ifs
  · omega
  · omega

theorem dvd_of_le_mul_div {n d : ℕ} (h : n ≤ d * (n / d)) : d ∣ n :=
  ⟨n / d, h.antisymm (Nat.mul_div_le n d)⟩

/-- The book at the start of the group of index 63 has no group: its id would be 64. -/
theorem InOneGroup.auditor_ids {first second A V : ℕ} (h : InOneGroup A V (first, second))
    (hA : 0 < A) (hle : A ≤ second - first) : A < 64 := by
  by_contra hge
  have hcount : 0 < (second - first) / A := Nat.div_pos hle hA
  have hbook := Nat.div_mul_le_self (second - first) A
  have hfit := Nat.mul_le_mul_right ((second - first) / A) (Nat.le_of_not_lt hge)
  rw [Nat.mul_comm A] at hfit
  obtain ⟨⟨i, -, hmap, hin⟩, -⟩ :=
    h.1 (first + 63 * ((second - first) / A)) (by dsimp only; omega) (by dsimp only; omega)
  unfold mappingToAuditorGroup auditorGroupIdBegin at hmap
  rw [if_neg (by dsimp only; omega)] at hmap
  dsimp only at hmap
  rw [Nat.add_sub_cancel_left, Nat.mul_div_cancel _ hcount, Option.some.injEq] at hmap
  obtain rfl : i = 63 := by omega
  exact absurd hin.2 (by simp [booksOfAuditor, bookIdsBelongingToAuditorGroup, auditorGroupIdBegin,
    auditorGroupIdEnd])

/-- The last book of all is below the end of some group. -/
theorem InOneGroup.auditor_dvd {first second A V : ℕ} (h : InOneGroup A V (first, second))
    (hlt : first < second) : A ∣ second - first := by
  obtain ⟨⟨i, hi, -, hin⟩, -⟩ := h.1 (second - 1) (by dsimp only; omega) (by dsimp only; omega)
  have hend := hin.2
  unfold booksOfAuditor bookIdsBelongingToAuditorGroup at hend
  rw [Nat.add_sub_cancel] at hend
  split_ifs at hend
  · simp at hend
  · have hle := groupRange_le first ((second - first) / A) i second
    have hfit := fits (c := (second - first) / A) hi
    apply dvd_of_le_mul_div
    dsimp only at hend
    omega

/-- The last book of the first auditor group is below the end of some validator group there. -/
theorem InOneGroup.validator_dvd {first A k c : ℕ}
    (h : InOneGroup A (A * k) (first, first + A * c)) (hA : 0 < A) (hk : 0 < k) (hc : 0 < c)
    (hword : first + A * c < 2 ^ 16) (hAid : A < 64) : k ∣ c := by
  have hfit := Nat.le_mul_of_pos_left c hA
  obtain ⟨-, i, hi, -, hin⟩ := h.1 (first + c - 1) (by dsimp only; omega) (by dsimp only; omega)
  have hparent : i / k < A := (Nat.div_lt_iff_lt_mul hk).mpr hi
  have hinner := @booksOfAuditor_eq first A 1 c (i / k) hA (by rwa [Nat.one_mul]) hAid hparent
  rw [Nat.one_mul] at hinner
  unfold booksOfAuditor at hinner
  unfold booksOfValidator bookIdsBelongingToValidatorGroup at hin
  rw [Nat.mul_div_cancel_left _ hA, hinner] at hin
  dsimp only at hin
  rw [Nat.add_sub_cancel, Nat.add_sub_cancel_left] at hin
  split_ifs at hin
  · exact absurd hin.2 (Nat.not_lt_zero _)
  · exact absurd hin.2 (Nat.not_lt_zero _)
  · have hinside := fits (c := c / k) (Nat.mod_lt i hk)
    have hcount := Nat.mul_div_le c k
    have hgroup := fits (c := c) hparent
    rw [groupRange_eq (by omega) hword] at hin
    obtain ⟨hbegin, hend⟩ := hin
    dsimp only at hbegin hend
    -- the group lies in the first auditor group, as its start is below the book
    have hzero : i / k = 0 := Nat.eq_zero_of_not_pos fun hpos => by
      have hmul := Nat.mul_le_mul_right c hpos
      omega
    rw [hzero, Nat.zero_mul] at hend
    apply dvd_of_le_mul_div
    omega

/-- The book at the start of the validator group of index 63 has no group: its id would be 127. -/
theorem InOneGroup.validator_ids {first A k m : ℕ}
    (h : InOneGroup A (A * k) (first, first + A * (k * m))) (hA : 0 < A) (hk : 0 < k) (hm : 0 < m)
    (hword : first + A * (k * m) < 2 ^ 16) (hAid : A < 64) : A * k < 64 := by
  by_contra hge
  have hfit := Nat.mul_le_mul_right m (Nat.le_of_not_lt hge)
  rw [Nat.mul_assoc] at hfit
  have hfirst : first ≤ first + 63 * m := Nat.le_add_right _ _
  have hbook : first + 63 * m < first + A * (k * m) := by omega
  obtain ⟨-, i, -, hmap, hin⟩ := h.1 _ hfirst hbook
  rw [(mappingToValidatorGroup_eq hA hk hword hAid hfirst hbook hm).2, Nat.add_sub_cancel_left,
    Nat.mul_div_cancel _ hm, Option.some.injEq] at hmap
  unfold validatorGroupIdBegin at hmap
  obtain rfl : i = 63 := by omega
  exact absurd hin.2 (by simp [booksOfValidator, bookIdsBelongingToValidatorGroup,
    validatorGroupIdBegin, validatorGroupIdEnd])

theorem inOneGroup_nil (first A : ℕ) (hword : first < 2 ^ 16) : InOneGroup A 0 (first, first) := by
  refine ⟨fun bookId hfirst hbook => absurd hfirst (Nat.not_le_of_lt hbook), fun bookId =>
    ⟨fun i _ j _ hi _ => ?_, fun i hi => absurd hi (Nat.not_lt_zero i)⟩⟩
  unfold booksOfAuditor bookIdsBelongingToAuditorGroup at hi
  split_ifs at hi
  · exact absurd hi.2 (Nat.not_lt_zero _)
  · rw [Nat.sub_self, Nat.zero_div, groupRange_eq (by simp) hword] at hi
    have hbegin := hi.1
    have hend := hi.2
    dsimp only at hbegin hend
    omega

/-- Exact: there is no book at all, or the validator groups divide the books evenly and every group
has an id. -/
theorem books_in_one_group (first second A V : ℕ) (hword : second < 2 ^ 16) (hA : 1 ≤ A)
    (hAV : A ∣ V) (hle : first ≤ second) (hV : V ≤ second - first) :
    InOneGroup A V (first, second) ↔
      second = first ∨ V ∣ second - first ∧ A < 64 ∧ V < 64 := by
  obtain ⟨k, rfl⟩ := hAV
  constructor
  · intro h
    rcases Nat.eq_or_lt_of_le hle with heq | hlt
    · exact .inl heq.symm
    right
    have hk : 0 < k := by
      obtain ⟨-, i, hi, -⟩ := h.1 first le_rfl hlt
      exact Nat.pos_of_ne_zero fun hk => by simp [hk] at hi
    have hAid := h.auditor_ids hA ((Nat.le_mul_of_pos_right A hk).trans hV)
    obtain ⟨c, hc⟩ := h.auditor_dvd hlt
    obtain rfl : second = first + A * c := by omega
    have hpos : 0 < c := Nat.pos_of_ne_zero fun h => by simp [h] at hlt
    obtain ⟨m, rfl⟩ := h.validator_dvd hA hk hpos hword hAid
    refine ⟨⟨m, ?_⟩, hAid, h.validator_ids hA hk (Nat.pos_of_mul_pos_left hpos) hword hAid⟩
    rw [Nat.add_sub_cancel_left, Nat.mul_assoc]
  · rintro (rfl | ⟨⟨m, hm⟩, hAid, hVid⟩)
    · rw [Nat.sub_self, Nat.le_zero] at hV
      rw [hV]
      exact inOneGroup_nil second A hword
    · rw [hm, Nat.mul_assoc] at hV
      obtain rfl : second = first + A * (k * m) := by rw [← Nat.mul_assoc]; omega
      exact inOneGroup_of_even hA hword hV hAid hVid

theorem books_in_one_group_sample : InOneGroup 2 4 (0, 32) ∧ ¬ InOneGroup 2 4 (0, 33) :=
  ⟨(books_in_one_group 0 32 2 4 (by decide) (by decide) (by decide) (by decide) (by decide)).mpr
      (by decide),
    (books_in_one_group 0 33 2 4 (by decide) (by decide) (by decide) (by decide)
      (by decide)).not.mpr (by decide)⟩

theorem last_book_without_group :
    (mappingToAuditorGroup 4 2 (0, 5)).1 = some (2 + auditorGroupIdBegin) ∧
      ∀ i < 2, ¬ Holds (booksOfAuditor 2 (0, 5) i) 4 := by
  unfold Holds
  decide

end TopChain.Data
