import AllaMorra.Acceptance

/-! The payout arithmetic of the script, in wrapping `u64` on a bet value that is
a bare field element. On a reachable house nothing wraps, because the deposit and
the opponent's equal stake both lie in one capped vault. What the two truncating
divisions keep from the players is one percent, but not for every bet value that
the script's comment admits. -/

namespace AllaMorra

open HouseAccount BetNote

variable {cap : KernelCap}

namespace BetNote

/-- Every check is passed, and the opponent's bet is there to settle with. -/
structure ReachesPayout (s : House cap) (block : Felt) (note : Note) (i : Inputs) (a : Asset) :
    Prop where
  inputs : Inputs.ofList note.inputs = some i
  assets : note.assets = [a]
  fungible : a.IsFungible
  accepts : Accepts s block i a
  inTime : ¬ i.expiryBlock.val < block.val
  registered : s.storage.isPlayerRegistered i.roundId i.oppNum ≠ 0

namespace ReachesPayout

variable {s : House cap} {block : Felt} {note : Note} {i : Inputs} {a : Asset}

theorem valid (h : ReachesPayout s block note i a) : i.Valid s.id a :=
  ⟨h.accepts.playerNum, h.accepts.h_le, h.accepts.g_le, h.accepts.amount,
    AccountId.ext h.accepts.houseSuffix h.accepts.housePrefix, h.fungible⟩

theorem notSettled (h : ReachesPayout s block note i a) :
    s.storage.isRoundSettled i.roundId = 0 := (h.accepts.branch.resolve_left h.inTime).1

theorem matchesOpponent (h : ReachesPayout s block note i a) : i.MatchesOpponent a s.storage :=
  (h.accepts.branch.resolve_left h.inTime).2.resolve_left h.registered

/-- A stored commitment has been converted before. -/
theorem xorFits (h : ReachesPayout s block note i a) : (i.wager h.valid).XorFits :=
  ⟨(Felt.fromU64Unchecked_eq_some.mp h.matchesOpponent.idXorS).1,
    (Felt.fromU64Unchecked_eq_some.mp h.matchesOpponent.idXorP).1⟩

theorem of_settle {s' : House cap} {c : Consumption} {rc : Receipt} (hs : Reachable s)
    (h : House.consume s c = some (s', rc)) (hpath : rc.path = .settle) :
    ∃ i a, ReachesPayout s c.block c.note i a := by
  obtain ⟨L, hsolvent, rfl⟩ := hs.exists_solvent
  obtain ⟨w, ps, hw, heffect, rfl⟩ := House.consume_eq_some.mp h
  obtain ⟨i, a, hi, ha, hv, rfl⟩ := exists_wager_iff.mp ⟨w, hw, rfl⟩
  have hsome : (L.consume c.block (i.wager hv)).isSome := by
    rw [Ledger.effect_house] at heffect
    obtain ⟨r, hr, -⟩ := Option.map_eq_some_iff.mp heffect
    exact Option.isSome_of_eq_some hr
  have htime : ¬ i.expiryBlock.val < c.block.val := by
    intro hlate
    have hrefund : path c.block L.house.storage (i.wager hv) = .refund :=
      path_eq_refund_iff.mpr hlate
    cases hrefund.symm.trans hpath
  obtain ⟨haccepts, -⟩ := (accepts_iff hsolvent c.block hv.fungible).mpr ⟨hv, hsome⟩
  refine ⟨i, a, hi, ha, hv.fungible, haccepts, htime, fun hfree => ?_⟩
  -- without a registered opponent the note would have registered
  have hregister : path c.block L.house.storage (i.wager hv) = .register := by
    rw [Inputs.oppNum, ← i.player_other_num] at hfree
    exact path_eq_register_iff.mpr ⟨htime, hfree⟩
  cases hregister.symm.trans hpath

theorem run_deposited {t : TxState cap HouseAccount} (hinputs : Inputs.ofList note.inputs = some i)
    (hassets : note.assets = [a]) (hv : i.Valid t.account.id a) {v : AssetVault cap}
    (hadd : t.account.vault.add a.faucet a.amount = some v) :
    (run note : Kernel cap HouseAccount Unit).run t =
      (if (t.setVault v).blockNumber.asU64 > i.expiryBlock.asU64 then
        expiryRecall i a.inner.e2 a.inner.e3
      else play i a.inner.e2 a.inner.e3 : Kernel cap HouseAccount Unit).run (t.setVault v) := by
  obtain ⟨h₁, h₂, h₃, h₄, h₅, h₆⟩ := valid_iff.mp hv
  have hlength : Felt.fromU64Unchecked (UInt64.ofNat 1) = some 1 := by decide
  have hdeposit : t.account.vault.add ⟨a.inner.e2, a.inner.e3⟩ i.betValue.val = some v := by
    rw [← h₄]
    exact hadd
  simp only [run, StateT.run_bind, run_readInputs, Kernel.run_assert, Kernel.run_assertEq,
    Kernel.run_index, Kernel.run_getId, Kernel.run_fromU64Unchecked,
    Kernel.run_getBlockNumber, run_receiveAsset,
    Option.bind_eq_bind, Option.bind_some, Kernel.bind_guard, Felt.fromU64Unchecked_bool,
    decide_eq_true_eq, hlength, hinputs, hassets, Option.map_some, List.length_singleton,
    List.getElem?_cons_zero, h₁, h₂, h₃, h₄, h₅, h₆, hdeposit, if_true]

theorem run_eq {t : TxState cap HouseAccount}
    (h : ReachesPayout t.account t.blockNumber note i a) {v : AssetVault cap}
    (hadd : t.account.vault.add a.faucet a.amount = some v) :
    (run note : Kernel cap HouseAccount Unit).run t =
      (do
        let oppH := t.account.storage.getPlayerH i.roundId i.oppNum
        let oppG := t.account.storage.getPlayerG i.roundId i.oppNum
        let (h1, g1, h2, g2) :=
          if i.playerNum.asU64 == 1 then (i.h, i.g, oppH, oppG) else (oppH, oppG, i.h, i.g)
        payOut i a.inner.e2 a.inner.e3 h1 g1 h2 g2
        Kernel.write (·.markRoundSettled i.roundId)
        Kernel.write (·.clearPlayerBet i.roundId i.oppNum) :
          Kernel cap HouseAccount Unit).run (t.setVault v) := by
  have htime : ¬ (t.setVault v).blockNumber.asU64 > i.expiryBlock.asU64 :=
    h.inTime ∘ (asU64_lt _ _).mp
  have hstorage : (t.setVault v).account.storage = t.account.storage := rfl
  have hopp : (if i.playerNum = 1 then (2 : Felt) else 1) = i.oppNum := rfl
  obtain ⟨m₁, m₂, m₃, m₄, m₅⟩ := h.matchesOpponent
  rw [run_deposited h.inputs h.assets h.valid hadd, if_neg htime]
  simp only [play, settle, StateT.run_bind, Kernel.run_read, Kernel.run_assertEq,
    Kernel.run_fromU64Unchecked, Option.bind_eq_bind, Option.bind_some, Option.map_some,
    Kernel.bind_guard, hstorage, h.notSettled, asU64_beq_one, asU64_beq_zero, decide_eq_true_eq,
    hopp, h.registered, m₄, m₅, if_true, if_false]
  rw [if_pos m₁, if_pos m₂, if_pos m₃]

theorem two_mul_le {L : Ledger cap} (h : ReachesPayout L.house block note i a)
    (hsolvent : L.Solvent) {v : AssetVault cap}
    (hadd : L.vault.add a.faucet a.amount = some v) :
    2 * i.betValue.val ≤ v.balance a.faucet := by
  obtain ⟨bet, hround⟩ : ∃ bet, L.rounds i.roundId = .waiting i.player.other bet := by
    refine Round.waiting_of_registered ?_
    rw [← L.isPlayerRegistered_house, i.player_other_num]
    exact h.registered
  have hterms : (i.wager h.valid).terms = bet.terms := by
    have hmatch := (matchesOpponent_iff h.valid h.xorFits L.house.storage).mp h.matchesOpponent
    rwa [L.slot_house, hround, Round.slot_waiting_self] at hmatch
  have hstake : i.betValue.val ≤ L.vault.balance a.faucet := by
    have hle := hsolvent.betValue_le hround
    rwa [← hterms] at hle
  have hv := (AssetVault.add_eq_some.mp hadd).2 a.faucet
  have hamount : a.amount = i.betValue.val := congrArg Fin.val h.valid.amount
  rw [if_pos rfl] at hv
  omega

/-- The opponent's fingers are in range, although the script does not check them again. -/
theorem oppH_le {L : Ledger cap} (h : ReachesPayout L.house block note i a) :
    (L.house.storage.getPlayerH i.roundId i.oppNum).val ≤ 3 := by
  have hregistered := h.registered
  have hslot := L.slot_house i.roundId i.player.other.num
  rw [Inputs.oppNum, ← i.player_other_num] at hregistered ⊢
  rw [L.isPlayerRegistered_house] at hregistered
  obtain ⟨bet, hround⟩ := Round.waiting_of_registered hregistered
  rw [hround, Round.slot_waiting_self] at hslot
  have hh : L.house.storage.getPlayerH i.roundId i.player.other.num = bet.move.h :=
    congrArg Slot.h hslot
  rw [hh]
  exact bet.move.h_le

end ReachesPayout

/-- On every reachable house, for every note whose execution reaches the payout
computation: no `u64` operation wraps, both payouts are field elements unchanged, and
the vault, with the deposit in it, holds either of them and two draw payouts. -/
theorem payout_arithmetic (s : House cap) (hs : Reachable s) (block : Felt) (note : Note)
    (i : Inputs) (a : Asset) (h : ReachesPayout s block note i a) :
    let oppH := s.storage.getPlayerH i.roundId i.oppNum
    let bv := i.betValue.asU64
    let pot := payoutMath bv
    pot.totalPot.toNat = bv.toNat * 2 ∧ pot.fee ≤ pot.totalPot ∧
    (i.h.asU64 + oppH.asU64).toNat = i.h.val + oppH.val ∧ i.h.val + oppH.val ≤ 6 ∧
    pot.winnerPayout.toNat < Felt.modulus ∧ pot.drawPayout.toNat < Felt.modulus ∧
    (Felt.fromU64Unchecked pot.winnerPayout).map Felt.asU64 = some pot.winnerPayout ∧
    (Felt.fromU64Unchecked pot.drawPayout).map Felt.asU64 = some pot.drawPayout ∧
    ∃ v, s.vault.add a.faucet a.amount = some v ∧ v.balance a.faucet < 2 ^ 63 ∧
      pot.winnerPayout.toNat ≤ v.balance a.faucet ∧
      2 * pot.drawPayout.toNat ≤ v.balance a.faucet := by
  intro oppH bv pot
  obtain ⟨L, hsolvent, rfl⟩ := hs.exists_solvent
  obtain ⟨v, hadd⟩ := L.vault.add_isSome a.faucet a.amount h.accepts.deposit
  have hboth := h.two_mul_le hsolvent hadd
  have hcap : v.balance a.faucet < 2 ^ 63 := (v.balance_le a.faucet).trans_lt cap.value_lt
  have hbv : bv.toNat = i.betValue.val := Felt.asU64_toNat _
  have hlt : bv.toNat < 2 ^ 63 := by omega
  have hpot : pot.totalPot.toNat = bv.toNat * 2 := by
    change (bv * 2).toNat = _
    rw [UInt64.toNat_mul]
    exact Nat.mod_eq_of_lt (by change bv.toNat * 2 < 2 ^ 64; omega)
  have hwinner : pot.winnerPayout.toNat = winnerPayout bv.toNat := toNat_winnerPayout hlt
  have hdraw : pot.drawPayout.toNat = drawPayout bv.toNat := toNat_drawPayout hlt
  have hwinner_lt := hwinner ▸ winnerPayout_lt hlt
  have hdraw_lt := hdraw ▸ drawPayout_lt hlt
  have htotal : i.h.val + oppH.val ≤ 6 := Nat.add_le_add h.accepts.h_le h.oppH_le
  have hfelt {x : UInt64} (hx : x.toNat < Felt.modulus) :
      (Felt.fromU64Unchecked x).map Felt.asU64 = some x := by
    rw [Felt.fromU64Unchecked_of_le hx.le, Option.map_some, Option.some.injEq,
      ← UInt64.toNat_inj, Felt.asU64_toNat, Felt.ofNat_val_of_lt hx]
  have hwinner_le := winnerPayout_le bv.toNat
  have hdraw_le := two_mul_drawPayout_le bv.toNat
  refine ⟨hpot, ?_, ?_, htotal, hwinner_lt, hdraw_lt, hfelt hwinner_lt, hfelt hdraw_lt, v, hadd,
    hcap, by omega, by omega⟩
  · change pot.totalPot / 100 ≤ pot.totalPot
    rw [UInt64.le_iff_toNat_le, UInt64.toNat_div]
    exact Nat.div_le_self _ _
  · rw [UInt64.toNat_add, Felt.asU64_toNat, Felt.asU64_toNat]
    exact Nat.mod_eq_of_lt (by omega)

theorem payout_arithmetic_sample :
    ReachesPayout Sample.registered.1 6 (Sample.note .two)
      ⟨7, 2, 1, 0, 11, 12, 21, 22, 1, 2, 100, 50⟩ ⟨⟨100, 0, 31, 32⟩⟩ ∧
    (Felt.fromU64Unchecked (payoutMath (Felt.asU64 100)).winnerPayout).map Felt.asU64 =
      some (payoutMath (Felt.asU64 100)).winnerPayout := by
  have h : ReachesPayout Sample.registered.1 6 (Sample.note .two)
      ⟨7, 2, 1, 0, 11, 12, 21, 22, 1, 2, 100, 50⟩ ⟨⟨100, 0, 31, 32⟩⟩ := by
    refine ⟨rfl, rfl, rfl, ⟨by decide, by decide, by decide, rfl, by decide +kernel,
      by decide +kernel, by decide +kernel, .inr ⟨by decide +kernel, .inr ?_⟩⟩, by decide,
      by decide +kernel⟩
    exact ⟨by decide +kernel, by decide +kernel, by decide +kernel, by decide +kernel,
      by decide +kernel⟩
  exact ⟨h, (payout_arithmetic _ Sample.reachable_registered 6 _ _ _ h).2.2.2.2.2.2.1⟩

end BetNote

/-! The fee. -/

def OutputNote.amount (n : OutputNote) : Nat := (n.assets.map Asset.amount).sum

theorem Payment.amount_note {p : Payment} (h : p.amount < Felt.modulus) :
    p.note.amount = p.amount := Felt.ofNat_val_of_lt h

/-- One percent of the pot stays with the house, and a draw pays each player 0.99 of
the bet. -/
structure FeeExact (betValue : Nat) (amounts : List Nat) : Prop where
  total : 100 * amounts.sum = 99 * (2 * betValue)
  draw : amounts.length = 2 → ∀ amount ∈ amounts, 100 * amount = 99 * betValue

def SoleGuess (m₁ m₂ : Hand) : Prop :=
  ¬ (m₁.g.val = m₁.h.val + m₂.h.val ↔ m₂.g.val = m₁.h.val + m₂.h.val)

instance (m₁ m₂ : Hand) : Decidable (SoleGuess m₁ m₂) := inferInstanceAs (Decidable (¬ _))

theorem feeExact_payouts_iff {m₁ m₂ : Hand} {betValue : Nat} (h : 50 ∣ betValue) :
    FeeExact betValue ((payouts m₁ m₂ betValue).map Prod.snd) ↔
      100 ∣ betValue ∨ SoleGuess m₁ m₂ := by
  obtain ⟨k, rfl⟩ := h
  have hwinner : winnerPayout (50 * k) = 99 * k := by
    unfold winnerPayout
    omega
  have hone : FeeExact (50 * k) [winnerPayout (50 * k)] := by
    refine ⟨?_, fun hlen => by cases hlen⟩
    rw [List.sum_singleton, hwinner]
    omega
  have htwo : FeeExact (50 * k) [drawPayout (50 * k), drawPayout (50 * k)] ↔ 100 ∣ 50 * k := by
    rw [drawPayout, hwinner]
    constructor
    · intro hexact
      have htotal := hexact.total
      simp only [List.sum_cons, List.sum_nil] at htotal
      omega
    · intro hdvd
      refine ⟨?_, fun _ amount hmem => ?_⟩
      · simp only [List.sum_cons, List.sum_nil]
        omega
      · obtain rfl : amount = 99 * k / 2 := by simpa using hmem
        omega
  simp only [payouts, SoleGuess]
  by_cases h₁ : m₁.g.val = m₁.h.val + m₂.h.val <;>
    by_cases h₂ : m₂.g.val = m₁.h.val + m₂.h.val
  · simp [h₁, h₂, htwo]
  · simp [h₁, h₂, hone]
  · simp [h₁, h₂, hone]
  · simp [h₁, h₂, htwo]

namespace House

theorem amounts_of_settle {s s' : House cap} {c : Consumption} {rc : Receipt} {w : Wager}
    (h : consume s c = some (s', rc)) (hpath : rc.path = .settle)
    (hw : BetNote.wager s.id c.note = some w) :
    let opponent := (s.storage.slot w.roundId w.player.other.num).hand
    rc.payouts.map OutputNote.amount =
      (payouts (w.hands opponent).1 (w.hands opponent).2 w.betValue.val).map Prod.snd := by
  intro opponent
  obtain ⟨w', ps, hw', heffect, rfl⟩ := consume_eq_some.mp h
  obtain rfl : w = w' := Option.some.inj (hw.symm.trans hw')
  obtain ⟨v, hadd, ⟨hrefund, -⟩ | ⟨hregister, -⟩ | ⟨-, -, -, v', -, -, rfl⟩⟩ :=
    effect_eq_some.mp heffect
  · exact absurd (hrefund.symm.trans hpath) (by decide)
  · exact absurd (hregister.symm.trans hpath) (by decide)
  have hbet : w.betValue.val < 2 ^ 63 := by
    have hle := (AssetVault.add_eq_some.mp hadd).1
    have hcap := cap.value_lt
    omega
  rw [Wager.prizes, List.map_map, List.map_map]
  refine List.map_congr_left fun x hx => ?_
  exact Payment.amount_note ((payouts_le x hx).trans_lt (winnerPayout_lt hbet))

/-- In any state, for a bet value divisible by 50: what a settlement pays out is
exactly 99 percent of the pot, in equal parts in a draw, when the bet value is
divisible by 100 or one player alone guesses the total, and only then. -/
theorem fee_exact_iff (s s' : House cap) (c : Consumption) (rc : Receipt) (w : Wager)
    (h : consume s c = some (s', rc)) (hpath : rc.path = .settle)
    (hw : BetNote.wager s.id c.note = some w) (hbet : 50 ∣ w.betValue.val) :
    let opponent := (s.storage.slot w.roundId w.player.other.num).hand
    FeeExact w.betValue.val (rc.payouts.map OutputNote.amount) ↔
      100 ∣ w.betValue.val ∨ SoleGuess (w.hands opponent).1 (w.hands opponent).2 := by
  intro opponent
  rw [amounts_of_settle h hpath hw]
  exact feeExact_payouts_iff hbet

end House

namespace Sample

/-- The smallest stake the published condition admits; nobody guesses the total. -/
def smallWager (p : Player) : Wager :=
  { game with betValue := 50 }.wager p (moves .two) faucet

def smallNote (p : Player) : Note := (smallWager p).toNote houseId ⟨0, 0, 0, p.num⟩

def smallRegistered : House kernelCap × Receipt :=
  (House.consume house ⟨smallNote .one, 5⟩).get (by decide +kernel)

theorem reachable_smallRegistered : Reachable smallRegistered.1 := by
  have hconsume : House.consume house ⟨smallNote .one, 5⟩ = some smallRegistered :=
    (Option.some_get _).symm
  exact (Reachable.of_empty rfl).run
    ((Machine.run_singleton ..).mpr ⟨smallRegistered.2, hconsume, rfl⟩)

end Sample

theorem draw_overcharged : Reachable Sample.smallRegistered.1 ∧
    50 ∣ (Sample.smallWager .two).betValue.val ∧
    ∃ s rc, House.consume Sample.smallRegistered.1 ⟨Sample.smallNote .two, 6⟩ = some (s, rc) ∧
      rc.path = .settle ∧ rc.payouts.map OutputNote.amount = [49, 49] ∧
        ¬ FeeExact (Sample.smallWager .two).betValue.val (rc.payouts.map OutputNote.amount) := by
  have hrun : (House.consume Sample.smallRegistered.1 ⟨Sample.smallNote .two, 6⟩).map
      (fun r => (r.2.path, r.2.payouts.map OutputNote.amount)) = some (.settle, [49, 49]) := by
    decide +kernel
  obtain ⟨⟨s, rc⟩, hconsume, heq⟩ := Option.map_eq_some_iff.mp hrun
  obtain ⟨hpath, hamounts⟩ := Prod.mk.inj heq
  refine ⟨Sample.reachable_smallRegistered, by decide, s, rc, hconsume, hpath, hamounts, ?_⟩
  rw [hamounts]
  exact fun hexact => absurd hexact.total (by decide)

theorem fee_exact_sample : ∃ s rc,
    House.consume Sample.registered.1 ⟨Sample.note .two, 6⟩ = some (s, rc) ∧
      FeeExact 100 (rc.payouts.map OutputNote.amount) := by
  have hrun : (House.consume Sample.registered.1 ⟨Sample.note .two, 6⟩).map
      (fun r => r.2.path) = some .settle := by
    decide +kernel
  obtain ⟨⟨s, rc⟩, hconsume, hpath⟩ := Option.map_eq_some_iff.mp hrun
  have hw : BetNote.wager Sample.registered.1.id (Sample.note .two) = some (Sample.wager .two) :=
    BetNote.wager_toNote ..
  exact ⟨s, rc, hconsume, (House.fee_exact_iff _ s ⟨Sample.note .two, 6⟩ rc (Sample.wager .two)
    hconsume hpath hw (by decide)).mpr (.inl (by decide))⟩

end AllaMorra
