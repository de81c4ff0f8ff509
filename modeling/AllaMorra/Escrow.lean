import Mathlib.Algebra.BigOperators.Group.Finset.Basic
import Mathlib.Algebra.Order.BigOperators.Group.Finset
import Mathlib.Data.Int.Basic
import Mathlib.Data.Fintype.BigOperators

/-! Accounting of an escrow: balances of assets `K` held against what finitely
many slots `S` are owed. The surplus of an asset is its balance less all that
is owed in it. A step that touches one slot cannot lower the surplus when the
balance moves at least with that slot. -/

namespace AllaMorra.Escrow

variable {S K : Type*} [Fintype S]

def total (owed : S → K → ℕ) (k : K) : ℕ := ∑ s, owed s k

def surplus (balance : K → ℕ) (owed : S → K → ℕ) (k : K) : ℤ := balance k - total owed k

theorem owed_le_total (owed : S → K → ℕ) (s : S) (k : K) : owed s k ≤ total owed k :=
  Finset.single_le_sum (fun t _ => Nat.zero_le (owed t k)) (Finset.mem_univ s)

theorem surplus_nonneg {balance : K → ℕ} {owed : S → K → ℕ} {k : K} :
    0 ≤ surplus balance owed k ↔ total owed k ≤ balance k := by
  unfold surplus
  omega

theorem total_eq_zero {owed : S → K → ℕ} {k : K} (h : ∀ s, owed s k = 0) : total owed k = 0 :=
  Finset.sum_eq_zero fun s _ => h s

theorem total_congr {owed owed' : S → K → ℕ} {k : K} (h : ∀ s, owed' s k = owed s k) :
    total owed' k = total owed k :=
  Finset.sum_congr rfl fun s _ => h s

theorem total_add_of_slot [DecidableEq S] {owed owed' : S → K → ℕ} {k : K} (a : S)
    (hoff : ∀ s, s ≠ a → owed' s k = owed s k) :
    total owed' k + owed a k = total owed k + owed' a k := by
  have hrest : ∑ s ∈ Finset.univ.erase a, owed' s k = ∑ s ∈ Finset.univ.erase a, owed s k :=
    Finset.sum_congr rfl fun s hs => hoff s (Finset.ne_of_mem_erase hs)
  have hold := Finset.add_sum_erase Finset.univ (fun s => owed s k) (Finset.mem_univ a)
  have hnew := Finset.add_sum_erase Finset.univ (fun s => owed' s k) (Finset.mem_univ a)
  simp only [total]
  omega

theorem surplus_le_of_slot [DecidableEq S] {balance balance' : K → ℕ} {owed owed' : S → K → ℕ}
    {k : K} (a : S) (hoff : ∀ s, s ≠ a → owed' s k = owed s k)
    (hle : balance k + owed' a k ≤ balance' k + owed a k) :
    surplus balance owed k ≤ surplus balance' owed' k := by
  have htotal := total_add_of_slot a hoff
  unfold surplus
  omega

end AllaMorra.Escrow
