import AllaMorra.Client
import AllaMorra.Loop

/-! The loops of the client: the proof of work that the faucet asks for, and the waits
for the chain. None of them has a bound. The hash and what the node answers are
parameters. -/

namespace AllaMorra

variable {Forest : Type}

def u64ToBeBytes (v : UInt64) : List UInt8 := (u64ToLeBytes v).reverse

def u64FromBeBytes (bytes : List UInt8) : UInt64 := u64FromLeBytes bytes.reverse

structure Digest where
  bytes : List UInt8
  length_bytes : bytes.length = 32

inductive PowResult where
  | solved (nonce : UInt64)
  | panicked
  deriving DecidableEq, Repr

section Pow

variable (sha256 : List UInt8 → Digest) (overflowChecks : Bool)

def powValue (challenge : List UInt8) (nonce : UInt64) : UInt64 :=
  u64FromBeBytes ((sha256 (challenge ++ u64ToBeBytes nonce)).bytes.take 8)

/-- One round of the loop. After the last nonce the build decides: with overflow checks
`nonce += 1` panics, without it starts over. -/
def powRound (challenge : List UInt8) (target nonce : UInt64) : UInt64 ⊕ PowResult :=
  if powValue sha256 challenge nonce ≤ target then .inr (.solved nonce)
  else if overflowChecks ∧ nonce + 1 = 0 then .inr .panicked
  else .inl (nonce + 1)

/-- `solve_pow` for so many hashes; a challenge that is no hex panics. -/
def solvePow (fuel : Nat) (challengeHex : String) (target : UInt64) : Option PowResult :=
  match Hex.decode challengeHex.toList with
  | none => some .panicked
  | some challenge => Loop.run (powRound sha256 overflowChecks challenge target) fuel 0

def Solves (challengeHex : String) (target nonce : UInt64) : Prop :=
  ∃ challenge, Hex.decode challengeHex.toList = some challenge ∧
    powValue sha256 challenge nonce ≤ target

def powVisit (challenge : List UInt8) (target : UInt64) (i : ℕ) : Option PowResult :=
  let nonce := UInt64.ofNat i
  if powValue sha256 challenge nonce ≤ target then some (.solved nonce)
  else if overflowChecks ∧ nonce + 1 = 0 then some .panicked
  else none

variable {sha256 overflowChecks} {challenge : List UInt8} {target : UInt64}

theorem run_powRound (fuel i : ℕ) :
    Loop.run (powRound sha256 overflowChecks challenge target) fuel (UInt64.ofNat i) =
      Loop.run (Loop.scan (powVisit sha256 overflowChecks challenge target)) fuel i := by
  refine Loop.run_map UInt64.ofNat (fun i => ?_) fuel i
  have hnext : UInt64.ofNat i + 1 = UInt64.ofNat (i + 1) := (UInt64.ofNat_add i 1).symm
  rw [powRound, Loop.scan, powVisit]
  split
  · rfl
  · split
    · rfl
    · rw [hnext]
      rfl

theorem powVisit_eq_solved_iff {i : ℕ} {nonce : UInt64} :
    powVisit sha256 overflowChecks challenge target i = some (.solved nonce) ↔
      powValue sha256 challenge nonce ≤ target ∧ UInt64.ofNat i = nonce := by
  simp only [powVisit]
  split
  · next hle =>
    rw [Option.some.injEq, PowResult.solved.injEq]
    constructor
    · rintro rfl
      exact ⟨hle, rfl⟩
    · exact fun h => h.2
  · next hlt =>
    have hne : ¬ (powValue sha256 challenge nonce ≤ target ∧ UInt64.ofNat i = nonce) := by
      rintro ⟨hle, rfl⟩
      exact hlt hle
    split <;> simp [hne]

theorem powVisit_eq_panicked_iff {i : ℕ} :
    powVisit sha256 overflowChecks challenge target i = some .panicked ↔
      ¬ powValue sha256 challenge (.ofNat i) ≤ target ∧
        overflowChecks ∧ UInt64.ofNat i + 1 = 0 := by
  simp only [powVisit]
  split
  · next hle => simp [hle]
  · next hlt =>
    rw [and_iff_right hlt]
    split
    · next hlast => simp [hlast]
    · next hlast => simp [hlast]

theorem powVisit_eq_none_iff {i : ℕ} :
    powVisit sha256 overflowChecks challenge target i = none ↔
      ¬ powValue sha256 challenge (.ofNat i) ≤ target ∧
        ¬ (overflowChecks ∧ UInt64.ofNat i + 1 = 0) := by
  simp only [powVisit]
  split
  · next hle => simp [hle]
  · next hlt =>
    rw [and_iff_right hlt]
    split
    · next hlast => simp [hlast]
    · next hlast => simp [hlast]

theorem succ_eq_zero_iff (nonce : UInt64) : nonce + 1 = 0 ↔ nonce.toNat = 2 ^ 64 - 1 := by
  have hlt := nonce.toNat_lt
  rw [← UInt64.toNat_inj, UInt64.toNat_add]
  change (nonce.toNat + 1) % 2 ^ 64 = 0 ↔ _
  omega

theorem ofNat_of_lt {m : ℕ} (h : m < 2 ^ 64) : (UInt64.ofNat m).toNat = m :=
  (UInt64.toNat_ofNat' ..).trans (Nat.mod_eq_of_lt h)

theorem ofNat_toNat_le {n : ℕ} {nonce : UInt64} (h : UInt64.ofNat n = nonce) : nonce.toNat ≤ n := by
  rw [← h, UInt64.toNat_ofNat']
  exact Nat.mod_le ..

theorem run_powRound_solved {fuel : ℕ} {nonce : UInt64} :
    Loop.run (powRound sha256 overflowChecks challenge target) fuel 0 = some (.solved nonce) ↔
      nonce.toNat < fuel ∧ powValue sha256 challenge nonce ≤ target ∧
        ∀ n < nonce, ¬ powValue sha256 challenge n ≤ target := by
  refine (congrArg (· = _) (run_powRound fuel 0)).to_iff.trans ?_
  simp only [Loop.run_scan_eq_some, Nat.zero_add, powVisit_eq_solved_iff, powVisit_eq_none_iff]
  constructor
  · rintro ⟨n, hn, ⟨hle, heq⟩, hbefore⟩
    have hnonce := ofNat_toNat_le heq
    refine ⟨by omega, hle, fun k hk => ?_⟩
    have hk := UInt64.lt_iff_toNat_lt.mp hk
    have htried := (hbefore k.toNat (by omega)).1
    rwa [UInt64.ofNat_toNat] at htried
  · rintro ⟨hfuel, hle, hleast⟩
    have hlt := nonce.toNat_lt
    refine ⟨nonce.toNat, hfuel, ⟨hle, UInt64.ofNat_toNat⟩, fun m hm => ?_⟩
    have hm64 : (UInt64.ofNat m).toNat = m := ofNat_of_lt (by omega)
    refine ⟨hleast _ (UInt64.lt_iff_toNat_lt.mpr (by rwa [hm64])), fun hlast => ?_⟩
    have hmax := (succ_eq_zero_iff _).mp hlast.2
    omega

theorem run_powRound_panicked {fuel : ℕ} :
    Loop.run (powRound sha256 overflowChecks challenge target) fuel 0 = some .panicked ↔
      overflowChecks ∧ 2 ^ 64 ≤ fuel ∧ ∀ n, ¬ powValue sha256 challenge n ≤ target := by
  refine (congrArg (· = _) (run_powRound fuel 0)).to_iff.trans ?_
  simp only [Loop.run_scan_eq_some, Nat.zero_add, powVisit_eq_panicked_iff, powVisit_eq_none_iff]
  constructor
  · rintro ⟨n, hn, ⟨hlt, hchecks, hlast⟩, hbefore⟩
    have hmax := (succ_eq_zero_iff _).mp hlast
    have hle := ofNat_toNat_le (n := n) rfl
    refine ⟨hchecks, by omega, fun k => ?_⟩
    have hk := k.toNat_lt
    obtain heq | hne := Nat.eq_or_lt_of_le (show k.toNat ≤ n by omega)
    · rwa [← heq, UInt64.ofNat_toNat] at hlt
    · have htried := (hbefore k.toNat hne).1
      rwa [UInt64.ofNat_toNat] at htried
  · rintro ⟨hchecks, hfuel, hnone⟩
    refine ⟨2 ^ 64 - 1, by omega, ⟨hnone _, hchecks, (succ_eq_zero_iff _).mpr rfl⟩, fun m hm => ?_⟩
    refine ⟨hnone _, fun hlast => ?_⟩
    have hmax := (succ_eq_zero_iff _).mp hlast.2
    rw [ofNat_of_lt (by omega)] at hmax
    omega

theorem exists_least_nonce {P : UInt64 → Prop} (h : ∃ n, P n) : ∃ n, P n ∧ ∀ m < n, ¬ P m := by
  classical
  obtain ⟨n, hn⟩ := h
  have hex : ∃ k, ∃ m : UInt64, m.toNat = k ∧ P m := ⟨n.toNat, n, rfl, hn⟩
  obtain ⟨m, hm, hP⟩ := Nat.find_spec hex
  refine ⟨m, hP, fun k hk hPk => Nat.find_min hex ?_ ⟨k, rfl, hPk⟩⟩
  rw [← hm]
  exact UInt64.lt_iff_toNat_lt.mp hk

theorem run_powRound_diverges_iff :
    (∀ fuel, Loop.run (powRound sha256 overflowChecks challenge target) fuel 0 = none) ↔
      overflowChecks = false ∧ ∀ n, ¬ powValue sha256 challenge n ≤ target := by
  constructor
  · intro hnever
    have hnone : ∀ n, ¬ powValue sha256 challenge n ≤ target := by
      by_contra hsome
      push Not at hsome
      obtain ⟨nonce, hle, hleast⟩ := exists_least_nonce hsome
      have hrun : Loop.run (powRound sha256 overflowChecks challenge target) (nonce.toNat + 1) 0 =
          some (.solved nonce) := run_powRound_solved.mpr ⟨Nat.lt_succ_self _, hle, hleast⟩
      cases (hnever _).symm.trans hrun
    refine ⟨?_, hnone⟩
    by_contra hchecks
    have hrun : Loop.run (powRound sha256 overflowChecks challenge target) (2 ^ 64) 0 =
        some .panicked := run_powRound_panicked.mpr ⟨by simpa using hchecks, le_refl _, hnone⟩
    cases (hnever _).symm.trans hrun
  · rintro ⟨hchecks, hnone⟩ fuel
    rw [Option.eq_none_iff_forall_ne_some]
    rintro (nonce | _) hrun
    · exact hnone nonce (run_powRound_solved.mp hrun).2.1
    · have hpanic := (run_powRound_panicked.mp hrun).1
      rw [hchecks] at hpanic
      cases hpanic

end Pow

/-- `solve_pow`, for every challenge, target and hash function: it returns a nonce
exactly when that is the least one to meet the target, after one hash for each nonce up
to it. Where there is none it panics after all of them, if the build checks overflows,
and runs forever if not; a challenge that is no hex panics. -/
theorem solvePow_spec (sha256 : List UInt8 → Digest) (overflowChecks : Bool)
    (challengeHex : String) (target : UInt64) :
    (∀ fuel nonce, solvePow sha256 overflowChecks fuel challengeHex target =
        some (.solved nonce) ↔ nonce.toNat < fuel ∧ Solves sha256 challengeHex target nonce ∧
          ∀ n < nonce, ¬ Solves sha256 challengeHex target n) ∧
    (∀ fuel, solvePow sha256 overflowChecks fuel challengeHex target = some .panicked ↔
      Hex.decode challengeHex.toList = none ∨
        overflowChecks ∧ 2 ^ 64 ≤ fuel ∧ ∀ n, ¬ Solves sha256 challengeHex target n) ∧
    ((∀ fuel, solvePow sha256 overflowChecks fuel challengeHex target = none) ↔
      overflowChecks = false ∧ (Hex.decode challengeHex.toList).isSome ∧
        ∀ n, ¬ Solves sha256 challengeHex target n) := by
  cases hdecode : Hex.decode challengeHex.toList with
  | none =>
    have hsolves (n : UInt64) : ¬ Solves sha256 challengeHex target n := by
      simp [Solves, hdecode]
    simp [solvePow, hdecode, hsolves]
  | some challenge =>
    have hsolves (n : UInt64) : Solves sha256 challengeHex target n ↔
        powValue sha256 challenge n ≤ target := by
      simp [Solves, hdecode]
    simp only [solvePow, hdecode, hsolves, reduceCtorEq, false_or, Option.isSome_some, true_and]
    exact ⟨fun _ _ => run_powRound_solved, fun _ => run_powRound_panicked,
      run_powRound_diverges_iff⟩

section Waits

variable (sync : ℕ → Except ClientError UInt32)

/-- `wait_for_new_block`; `sync` is what the node answers, round by round. -/
def waitForNewBlock (fromBlock : UInt32) : ℕ → ℕ ⊕ Except ClientError UInt32 :=
  Loop.poll fun i => do
    let block ← sync i
    return if block > fromBlock then some block else none

def waitForConsumableNote (consumable : ℕ → Except ClientError (List (ClientNote Forest))) :
    ℕ → ℕ ⊕ Except ClientError Unit :=
  Loop.poll fun i => do
    let _ ← sync i
    let notes ← consumable i
    return if notes.isEmpty then none else some ()

variable {sync} {fromBlock block : UInt32}
  {consumable : ℕ → Except ClientError (List (ClientNote Forest))}

theorem returns_waitForNewBlock_iff : Loop.Returns (waitForNewBlock sync fromBlock) 0 (.ok block) ↔
    ∃ n, sync n = .ok block ∧ fromBlock < block ∧
      ∀ m < n, ∃ earlier, sync m = .ok earlier ∧ earlier ≤ fromBlock := by
  simp only [waitForNewBlock, Loop.returns_poll_ok_iff, Nat.zero_add, except_bind_eq_ok]
  refine exists_congr fun n => ?_
  simp only [except_pure_eq_ok, Option.ite_none_right_eq_some, Option.some.injEq, ite_eq_right_iff,
    reduceCtorEq, imp_false, gt_iff_lt, UInt32.not_lt]
  constructor
  · rintro ⟨⟨b, hb, hlt, rfl⟩, hbefore⟩
    exact ⟨hb, hlt, hbefore⟩
  · rintro ⟨hb, hlt, hbefore⟩
    exact ⟨⟨block, hb, hlt, rfl⟩, hbefore⟩

theorem diverges_waitForNewBlock_iff : Loop.Diverges (waitForNewBlock sync fromBlock) 0 ↔
    ∀ n, ∃ block, sync n = .ok block ∧ block ≤ fromBlock := by
  simp only [waitForNewBlock, Loop.diverges_poll_iff, Nat.zero_add, except_bind_eq_ok,
    except_pure_eq_ok, ite_eq_right_iff, reduceCtorEq, imp_false, gt_iff_lt, UInt32.not_lt]

theorem returns_waitForConsumableNote_iff :
    Loop.Returns (waitForConsumableNote sync consumable) 0 (.ok ()) ↔
      ∃ n, (∃ block notes, sync n = .ok block ∧ consumable n = .ok notes ∧ notes ≠ []) ∧
        ∀ m < n, ∃ block, sync m = .ok block ∧ consumable m = .ok [] := by
  simp only [waitForConsumableNote, Loop.returns_poll_ok_iff, Nat.zero_add, except_bind_eq_ok]
  refine exists_congr fun n => ?_
  simp only [except_pure_eq_ok, List.isEmpty_iff, Option.ite_none_left_eq_some, ite_eq_left_iff,
    reduceCtorEq, imp_false, not_not, and_true]
  constructor
  · rintro ⟨⟨block, hblock, notes, hnotes, hne⟩, hbefore⟩
    refine ⟨⟨block, notes, hblock, hnotes, hne⟩, fun m hm => ?_⟩
    obtain ⟨earlier, hearlier, none, hnone, rfl⟩ := hbefore m hm
    exact ⟨earlier, hearlier, hnone⟩
  · rintro ⟨⟨block, notes, hblock, hnotes, hne⟩, hbefore⟩
    refine ⟨⟨block, hblock, notes, hnotes, hne⟩, fun m hm => ?_⟩
    obtain ⟨earlier, hearlier, hnone⟩ := hbefore m hm
    exact ⟨earlier, hearlier, [], hnone, rfl⟩

theorem diverges_waitForConsumableNote_iff :
    Loop.Diverges (waitForConsumableNote sync consumable) 0 ↔
      ∀ n, ∃ block, sync n = .ok block ∧ consumable n = .ok [] := by
  simp only [waitForConsumableNote, Loop.diverges_poll_iff, Nat.zero_add, except_bind_eq_ok,
    except_pure_eq_ok, List.isEmpty_iff, ite_eq_left_iff, reduceCtorEq, imp_false, not_not,
    exists_eq_right]

end Waits

end AllaMorra
