import Mathlib.Data.Nat.Digits.Defs

/-!
# Database keys (`xstore/src/xstore.cpp`)

A key is the parts of a record joined with colons. Owners and heights have none, so a property name,
which may have any, is what stands between the colon after the owner and the last one.
-/
namespace TopChain.Store

open List

abbrev Bytes := List UInt8

def colon : UInt8 := 58

structure XstoreKey where
  type : UInt32
  blockComponent : UInt32
  owner : Bytes
  subowner : Bytes
  id : Bytes

def wordBytes (x : UInt32) : Bytes :=
  [x.toUInt8, (x >>> 8).toUInt8, (x >>> 16).toUInt8, (x >>> 24).toUInt8]

def keyBufferSize : ℕ := 512

def XstoreKey.joined (k : XstoreKey) : Bytes :=
  wordBytes k.type ++ colon :: (wordBytes k.blockComponent ++ colon ::
    (k.owner ++ colon :: (k.subowner ++ colon :: k.id)))

/-- The parts are copied into a buffer without a check of its size; a longer key, which overruns
it there, has no value here. -/
def XstoreKey.toDbKey (k : XstoreKey) : Option Bytes :=
  if k.joined.length ≤ keyBufferSize then some k.joined else none

/-- `std::to_string`. -/
def decimal (n : UInt64) : Bytes :=
  if n = 0 then [48] else (Nat.digits 10 n.toNat).reverse.map fun d => 48 + .ofNat d

def heightText : Option UInt64 → Bytes
  | none => []
  | some height => decimal height

inductive BlockComponent where
  | header
  | input
  | output
deriving DecidableEq

def BlockComponent.code : BlockComponent → UInt32
  | .header => 1
  | .input => 2
  | .output => 3

/-- A property without a height is the latest one. -/
inductive StoreRecord where
  | transaction (hash : Bytes)
  | property (account name : Bytes) (height : Option UInt64)
  | block (component : BlockComponent) (account : Bytes) (height : UInt64)
  | blockchain (account : Bytes)
deriving DecidableEq

def StoreRecord.key : StoreRecord → XstoreKey
  | .transaction hash => ⟨0, 0, [], [], hash⟩
  | .property account name height => ⟨1, 0, account, name, heightText height⟩
  | .block component account height => ⟨3, component.code, account, [], decimal height⟩
  | .blockchain account => ⟨4, 0, account, [], []⟩

theorem ofDigits_decimal (n : UInt64) :
    Nat.ofDigits 10 ((decimal n).reverse.map fun b => (b - 48).toNat) = n.toNat := by
  unfold decimal
  split
  · rename_i hzero
    rw [hzero]
    rfl
  · rw [← map_reverse, reverse_reverse, map_map]
    conv_rhs => rw [← Nat.ofDigits_digits 10 n.toNat]
    congr 1
    refine (map_congr_left fun d hd => ?_).trans (map_id _)
    have hdigit : ∀ d < 10, ((48 + .ofNat d : UInt8) - 48).toNat = d := by decide
    exact hdigit d (Nat.digits_lt_base (by decide) hd)

theorem decimal_injective : Function.Injective decimal := by
  intro m n h
  rw [← UInt64.toNat_inj, ← ofDigits_decimal m, h, ofDigits_decimal]

theorem decimal_ne_nil (n : UInt64) : decimal n ≠ [] := by
  unfold decimal
  split
  · exact cons_ne_nil _ _
  · rename_i hn
    simpa [Nat.digits_ne_nil_iff_ne_zero, ← UInt64.toNat_inj] using hn

theorem heightText_injective : Function.Injective heightText := by
  intro height height' h
  cases height with
  | none =>
    cases height' with
    | none => rfl
    | some n => exact absurd h.symm (decimal_ne_nil n)
  | some m =>
    cases height' with
    | none => exact absurd h (decimal_ne_nil m)
    | some n => exact congrArg some (decimal_injective h)

theorem colon_notMem_heightText (height : Option UInt64) : colon ∉ heightText height := by
  intro h
  cases height with
  | none => cases h
  | some n =>
    change colon ∈ decimal n at h
    unfold decimal at h
    split at h
    · exact absurd h (by decide)
    · obtain ⟨d, hd, heq⟩ := mem_map.mp h
      have hdigit : ∀ d < 10, (48 + .ofNat d : UInt8) ≠ colon := by decide
      exact hdigit d (Nat.digits_lt_base (by decide) (mem_reverse.mp hd)) heq

theorem BlockComponent.eq_of_code {c c' : BlockComponent}
    (h : wordBytes c.code = wordBytes c'.code) : c = c' := by
  revert h
  cases c <;> cases c' <;> decide

variable {a b x y : Bytes}

theorem takeWhile_colon (ha : colon ∉ a) : (a ++ colon :: x).takeWhile (· ≠ colon) = a := by
  have hall : ∀ b ∈ a, decide (b ≠ colon) = true := fun b hb =>
    decide_eq_true fun heq => ha (heq ▸ hb)
  rw [takeWhile_append_of_pos hall]
  simp

theorem first_split (ha : colon ∉ a) (hb : colon ∉ b) (h : a ++ colon :: x = b ++ colon :: y) :
    a = b ∧ x = y := by
  obtain rfl : a = b := by rw [← takeWhile_colon ha, h, takeWhile_colon hb]
  simpa using h

theorem last_split (hx : colon ∉ x) (hy : colon ∉ y) (h : a ++ colon :: x = b ++ colon :: y) :
    a = b ∧ x = y := by
  have hrev : x.reverse ++ colon :: a.reverse = y.reverse ++ colon :: b.reverse := by
    simpa using congrArg List.reverse h
  obtain ⟨hxy, hab⟩ := first_split (by simpa using hx) (by simpa using hy) hrev
  exact ⟨reverse_inj.mp hab, reverse_inj.mp hxy⟩

theorem parts_of_joined {k k' : XstoreKey} (howner : colon ∉ k.owner) (howner' : colon ∉ k'.owner)
    (h : k.joined = k'.joined) :
    wordBytes k.type = wordBytes k'.type ∧
    wordBytes k.blockComponent = wordBytes k'.blockComponent ∧ k.owner = k'.owner ∧
    k.subowner ++ colon :: k.id = k'.subowner ++ colon :: k'.id := by
  obtain ⟨htype, hrest⟩ := append_inj h rfl
  obtain ⟨hcomponent, hrest⟩ := append_inj (tail_eq_of_cons_eq hrest) rfl
  obtain ⟨howners, hrest⟩ := first_split howner howner' (tail_eq_of_cons_eq hrest)
  exact ⟨htype, hcomponent, howners, hrest⟩

theorem eq_of_joined {r r' : StoreRecord} (howner : colon ∉ r.key.owner)
    (howner' : colon ∉ r'.key.owner) (h : r.key.joined = r'.key.joined) : r = r' := by
  obtain ⟨htype, hcomponent, haccount, hrest⟩ := parts_of_joined howner howner' h
  cases r with
  | transaction hash =>
    cases r' with
    | transaction hash' => simpa [StoreRecord.key] using hrest
    | property | block | blockchain => exact absurd htype (by dsimp only [StoreRecord.key]; decide)
  | property account name height =>
    cases r' with
    | property account' name' height' =>
      obtain ⟨hname, hid⟩ := last_split (colon_notMem_heightText height)
        (colon_notMem_heightText height') hrest
      obtain rfl : account = account' := haccount
      obtain rfl : name = name' := hname
      rw [heightText_injective hid]
    | transaction | block | blockchain =>
      exact absurd htype (by dsimp only [StoreRecord.key]; decide)
  | block component account height =>
    cases r' with
    | block component' account' height' =>
      obtain rfl : account = account' := haccount
      obtain rfl : height = height' := decimal_injective (tail_eq_of_cons_eq hrest)
      rw [BlockComponent.eq_of_code hcomponent]
    | transaction | property | blockchain =>
      exact absurd htype (by dsimp only [StoreRecord.key]; decide)
  | blockchain account =>
    cases r' with
    | blockchain account' => exact congrArg StoreRecord.blockchain haccount
    | transaction | property | block => exact absurd htype (by dsimp only [StoreRecord.key]; decide)

/-- Records of owners without a colon have one key only if they are the same record. -/
theorem db_keys_distinct (r r' : StoreRecord) (howner : colon ∉ r.key.owner)
    (howner' : colon ∉ r'.key.owner) :
    (r.key.joined = r'.key.joined ↔ r = r') ∧
      (r.key.toDbKey.isSome → (r.key.toDbKey = r'.key.toDbKey ↔ r = r')) := by
  have hjoined := eq_of_joined howner howner'
  refine ⟨⟨hjoined, fun h => h ▸ rfl⟩, fun hfits => ⟨fun h => hjoined ?_, fun h => h ▸ rfl⟩⟩
  unfold XstoreKey.toDbKey at hfits h
  split_ifs at hfits h
  · exact Option.some.inj h
  · cases hfits

/-- The name `p` at height 7, and the latest property of the name `p:7`. -/
theorem db_keys_distinct_sample :
    (StoreRecord.property [65] [112] (some 7)).key.toDbKey ≠
      (StoreRecord.property [65] [112, 58, 55] none).key.toDbKey :=
  fun h => absurd (((db_keys_distinct _ _ (by decide) (by decide)).2 (by decide)).mp h) (by decide)

end TopChain.Store
