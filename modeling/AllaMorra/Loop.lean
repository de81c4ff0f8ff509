import Mathlib.Data.Nat.Init
import Mathlib.Data.Option.Basic
import Mathlib.Data.Sum.Basic

/-! Loops without a bound. The body of a loop goes on in a new state or returns. A loop
is run for a number of rounds, and returns when some number of rounds is enough; what
it returns does not depend on that number. A scan visits the natural numbers in order
until one of them gives a result. -/

namespace AllaMorra.Loop

variable {σ τ α ε : Type*}

/-- The loop for so many rounds; `none` where it has not returned by then. -/
def run (body : σ → σ ⊕ α) : ℕ → σ → Option α
  | 0, _ => none
  | fuel + 1, s =>
    match body s with
    | .inl t => run body fuel t
    | .inr a => some a

def Returns (body : σ → σ ⊕ α) (s : σ) (a : α) : Prop := ∃ fuel, run body fuel s = some a

def Diverges (body : σ → σ ⊕ α) (s : σ) : Prop := ∀ fuel, run body fuel s = none

theorem run_map {body : σ → σ ⊕ α} {bodyA : τ → τ ⊕ α} (f : τ → σ)
    (hbody : ∀ t, body (f t) = (bodyA t).map f id) (fuel : ℕ) (t : τ) :
    run body fuel (f t) = run bodyA fuel t := by
  induction fuel generalizing t with
  | zero => rfl
  | succ fuel ih =>
    rw [run, run, hbody]
    cases bodyA t with
    | inl t' => exact ih t'
    | inr a => rfl

def scan (visit : ℕ → Option α) (i : ℕ) : ℕ ⊕ α :=
  match visit i with
  | none => .inl (i + 1)
  | some a => .inr a

variable {visit : ℕ → Option α} {i : ℕ} {a : α}

theorem run_scan_eq_some {fuel : ℕ} :
    run (scan visit) fuel i = some a ↔
      ∃ n < fuel, visit (i + n) = some a ∧ ∀ m < n, visit (i + m) = none := by
  induction fuel generalizing i with
  | zero => simp [run]
  | succ fuel ih =>
    rw [run, scan]
    cases hi : visit i with
    | some b =>
      constructor
      · intro h
        exact ⟨0, by omega, hi.trans h, fun m hm => absurd hm (Nat.not_lt_zero m)⟩
      · rintro ⟨n, -, hn, hbefore⟩
        obtain rfl | hpos := Nat.eq_zero_or_pos n
        · exact hi.symm.trans hn
        · cases hi.symm.trans (hbefore 0 hpos)
    | none =>
      refine ih.trans ⟨?_, ?_⟩
      · rintro ⟨n, hn, hvisit, hbefore⟩
        refine ⟨n + 1, by omega, by rwa [Nat.add_comm n 1, ← Nat.add_assoc], fun m hm => ?_⟩
        cases m with
        | zero => exact hi
        | succ m =>
          rw [Nat.add_comm m 1, ← Nat.add_assoc]
          exact hbefore m (by omega)
      · rintro ⟨n, hn, hvisit, hbefore⟩
        cases n with
        | zero => cases hi.symm.trans hvisit
        | succ n =>
          refine ⟨n, by omega, by rwa [Nat.add_assoc, Nat.add_comm 1 n], fun m hm => ?_⟩
          rw [Nat.add_assoc, Nat.add_comm 1 m]
          exact hbefore (m + 1) (by omega)

theorem returns_scan_iff : Returns (scan visit) i a ↔
    ∃ n, visit (i + n) = some a ∧ ∀ m < n, visit (i + m) = none := by
  simp only [Returns, run_scan_eq_some]
  constructor
  · rintro ⟨fuel, n, -, h⟩
    exact ⟨n, h⟩
  · rintro ⟨n, h⟩
    exact ⟨n + 1, n, Nat.lt_succ_self n, h⟩

theorem diverges_scan_iff : Diverges (scan visit) i ↔ ∀ n, visit (i + n) = none := by
  constructor
  · intro h n
    induction n using Nat.strong_induction_on with
    | _ n ih =>
      by_contra hn
      obtain ⟨a, ha⟩ := Option.ne_none_iff_exists'.mp hn
      have hrun := run_scan_eq_some.mpr ⟨n, Nat.lt_succ_self n, ha, ih⟩
      rw [h] at hrun
      cases hrun
  · intro h fuel
    rw [Option.eq_none_iff_forall_ne_some]
    intro a hrun
    obtain ⟨n, -, hn, -⟩ := run_scan_eq_some.mp hrun
    rw [h n] at hn
    cases hn

def verdict : Except ε (Option α) → Option (Except ε α)
  | .ok none => none
  | .ok (some a) => some (.ok a)
  | .error e => some (.error e)

/-- A scan whose visits may fail; the first failure ends it. -/
def poll (visit : ℕ → Except ε (Option α)) : ℕ → ℕ ⊕ Except ε α := scan fun i => verdict (visit i)

section Poll

variable {visit : ℕ → Except ε (Option α)} {x : Except ε (Option α)}

theorem verdict_eq_none_iff : verdict x = none ↔ x = .ok none := by
  rcases x with e | _ | a <;> simp [verdict]

theorem verdict_eq_ok_iff : verdict x = some (.ok a) ↔ x = .ok (some a) := by
  rcases x with e | _ | b <;> simp [verdict]

theorem returns_poll_ok_iff : Returns (poll visit) i (.ok a) ↔
    ∃ n, visit (i + n) = .ok (some a) ∧ ∀ m < n, visit (i + m) = .ok none := by
  simp only [poll, returns_scan_iff, verdict_eq_ok_iff, verdict_eq_none_iff]

theorem diverges_poll_iff : Diverges (poll visit) i ↔ ∀ n, visit (i + n) = .ok none := by
  simp only [poll, diverges_scan_iff, verdict_eq_none_iff]

end Poll

end AllaMorra.Loop
