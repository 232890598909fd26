import TopChain.Base.Address
import TopChain.Lib.SortedMap
import Mathlib.Algebra.BigOperators.Group.Finset.Defs

/-!
# Blocks of the virtual ledger (`xbase/xvblock.h`)

The fields of `xvblock_t` that the consensus layers read.
-/
namespace TopChain.Base

inductive BlockLevel where
  | unit | table | book | zone | chain | root
deriving DecidableEq, Repr, Inhabited

inductive BlockFlag where
  | connected | stored | unpacked | confirmed | authenticated | locked | committed | executed
deriving DecidableEq, Repr, Inhabited

namespace BlockFlag

def bit : BlockFlag → Nat
  | connected => 0x0100
  | stored => 0x0200
  | unpacked => 0x0400
  | confirmed => 0x0800
  | authenticated => 0x1000
  | locked => 0x2000
  | committed => 0x4000
  | executed => 0x8000

def low4 : Finset BlockFlag := {connected, stored, unpacked, confirmed}

def high4 : Finset BlockFlag := {authenticated, locked, committed, executed}

def bits (flags : Finset BlockFlag) : Nat := ∑ f ∈ flags, f.bit

end BlockFlag

/-- The fields fixed before any signature. `headerHash` stands for the rest of the header. -/
structure BlockBody where
  chainid : UInt32
  account : String
  level : BlockLevel
  height : UInt64
  viewid : UInt64
  viewtoken : UInt32
  validator : Xvip2
  auditor : Xvip2
  lastBlockHash : String
  headerHash : String
  justifyCertHash : String
  outputRootHash : String
deriving DecidableEq, Inhabited

structure XvBlock extends BlockBody where
  blockHash : String
  flags : Finset BlockFlag
deriving DecidableEq, Inhabited

namespace XvBlock

def checkBlockFlag (b : XvBlock) (f : BlockFlag) : Bool := f ∈ b.flags

def setBlockFlag (b : XvBlock) (f : BlockFlag) : XvBlock := { b with flags := insert f b.flags }

def resetBlockFlags (b : XvBlock) : XvBlock := { b with flags := ∅ }

@[simp] theorem mem_setBlockFlag (b : XvBlock) (f g : BlockFlag) :
    g ∈ (b.setBlockFlag f).flags ↔ g = f ∨ g ∈ b.flags := Finset.mem_insert

end XvBlock

def BlockBody.getLeaderAddress (d : BlockBody) : Xvip2 :=
  if d.validator.nodeId ≠ 0x3FF then d.validator else d.auditor

def BlockBody.proposal (d : BlockBody) : XvBlock := { d with blockHash := "", flags := ∅ }

def BlockBody.certified (hash : BlockBody → String) (d : BlockBody) : XvBlock :=
  { d with blockHash := hash d, flags := {.authenticated} }

/-- `is_valid`, `is_input_ready`, `is_output_ready`, `is_deliver` with their deep-test argument. -/
structure BlockChecks where
  isValid : XvBlock → Bool → Bool
  isInputReady : XvBlock → Bool → Bool
  isOutputReady : XvBlock → Bool → Bool
  isDeliver : XvBlock → Bool → Bool

end TopChain.Base
