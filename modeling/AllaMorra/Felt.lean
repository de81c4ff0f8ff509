import Mathlib

/-! Field elements and words as the Miden VM hands them to contract code.
A `Felt` is a canonical residue modulo `2^64 - 2^32 + 1`. Contract code reads
one as a `u64` with `as_u64` and computes with wrapping `u64` arithmetic;
`from_u64_unchecked` puts a `u64` back into the field. Compiled for the VM it
takes the field order itself to zero and aborts above it. -/

namespace AllaMorra

abbrev Felt := Fin 18446744069414584321

instance feltNeZero : NeZero 18446744069414584321 := ⟨by decide⟩

namespace Felt

/-- The field order, `2^64 - 2^32 + 1`. -/
def modulus : Nat := 18446744069414584321

def asU64 (a : Felt) : UInt64 := UInt64.ofNat a.val

def ofNat (n : Nat) : Felt := Fin.ofNat 18446744069414584321 n

def fromU64Unchecked (v : UInt64) : Option Felt :=
  if v.toNat ≤ modulus then some (ofNat v.toNat) else none

theorem ofNat_val_of_lt {n : Nat} (h : n < modulus) : (ofNat n).val = n := Nat.mod_eq_of_lt h

theorem ofNat_val (a : Felt) : ofNat a.val = a := Fin.ext (ofNat_val_of_lt a.isLt)

@[simp] theorem asU64_toNat (a : Felt) : a.asU64.toNat = a.val := by
  have := a.isLt
  simp only [asU64, UInt64.toNat_ofNat']
  omega

theorem asU64_inj (a b : Felt) : a.asU64 = b.asU64 ↔ a = b := by
  rw [← UInt64.toNat_inj, asU64_toNat, asU64_toNat, Fin.ext_iff]

theorem fromU64Unchecked_of_le {v : UInt64} (h : v.toNat ≤ modulus) :
    fromU64Unchecked v = some (ofNat v.toNat) := if_pos h

theorem fromU64Unchecked_eq_some {v : UInt64} {a : Felt} :
    fromU64Unchecked v = some a ↔ v.toNat ≤ modulus ∧ ofNat v.toNat = a := by
  unfold fromU64Unchecked
  split
  · next h => simp only [Option.some.injEq, h, true_and]
  · next h => simp only [reduceCtorEq, h, false_and]

theorem ofNat_toNat_inj {v w : UInt64} (hv : v.toNat < modulus) (hw : w.toNat < modulus) :
    ofNat v.toNat = ofNat w.toNat ↔ v = w := by
  rw [Fin.ext_iff, ofNat_val_of_lt hv, ofNat_val_of_lt hw, UInt64.toNat_inj]

/-- Conditions reach the VM's `assert` as `(cond as u64)` put into the field. -/
@[simp] theorem fromU64Unchecked_bool (b : Bool) :
    fromU64Unchecked b.toUInt64 = some (if b then 1 else 0) := by
  cases b <;> decide

end Felt

/-- Four field elements: storage keys, serial numbers, assets, script roots. -/
structure Word where
  e0 : Felt
  e1 : Felt
  e2 : Felt
  e3 : Felt
  deriving DecidableEq, Repr

/-- An account, or a faucet, is named by two field elements. -/
@[ext] structure AccountId where
  idSuffix : Felt
  idPrefix : Felt
  deriving DecidableEq, Repr

end AllaMorra
