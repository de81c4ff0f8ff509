import AllaMorra.WholeGame

/-! A bet is published with the hand in the open. Whoever plays second can read it in
the note and answer with a hand that takes the whole pot: fingers that make the first
guess wrong, and the total they make as the guess. -/

namespace AllaMorra

open HouseAccount BetNote

variable {cap : KernelCap} {Forest : Type}

theorem payouts_of_only_guess {hands : Player → Hand} {p : Player} (betValue : Nat)
    (hright : (hands p).g.val = (hands .one).h.val + (hands .two).h.val)
    (hwrong : (hands p.other).g.val ≠ (hands .one).h.val + (hands .two).h.val) :
    payouts (hands .one) (hands .two) betValue = [(p, winnerPayout betValue)] := by
  cases p with
  | one => exact if_pos ⟨hright, hwrong⟩
  | two =>
    have hnone : ¬ ((hands .one).g.val = (hands .one).h.val + (hands .two).h.val ∧
        (hands .two).g.val ≠ (hands .one).h.val + (hands .two).h.val) := fun h => hwrong h.1
    exact (if_neg hnone).trans (if_pos ⟨hright, hwrong⟩)

namespace PublishBet

def Args.answer (bet : Args) (p : Player) : Args :=
  let h : UInt64 := if bet.g = bet.h then 1 else 0
  { bet with
    playerNum := SettleRound.num p.other
    myId := SettleRound.playerId bet p.other
    h := h
    g := bet.h + h }

variable {sdk : Sdk} {bet : Args} {ids : Accounts}

theorem Accepts.answer_h (h : Accepts sdk cap bet ids) (p : Player) :
    (bet.answer p).h.toNat ≤ 1 ∧ (bet.answer p).g.toNat = bet.h.toNat + (bet.answer p).h.toNat ∧
      bet.g.toNat ≠ bet.h.toNat + (bet.answer p).h.toNat := by
  have hh := UInt64.le_iff_toNat_le.mp h.h_le
  change bet.h.toNat ≤ 3 at hh
  have hfingers : (bet.answer p).h = if bet.g = bet.h then 1 else 0 := rfl
  have hguess : (bet.answer p).g = bet.h + (bet.answer p).h := rfl
  have hone : (bet.answer p).h.toNat = if bet.g = bet.h then 1 else 0 := by
    rw [hfingers]
    split <;> rfl
  rw [hguess, UInt64.toNat_add, hone]
  split
  · next heq =>
    rw [heq]
    omega
  · next hne =>
    rw [← UInt64.toNat_inj] at hne
    omega

theorem Accepts.answer (h : Accepts sdk cap bet ids) (p : Player) :
    ∃ ids', Accepts sdk cap (bet.answer p) ids' := by
  obtain ⟨hfingers, hguess, -⟩ := h.answer_h p
  have hh := UInt64.le_iff_toNat_le.mp h.h_le
  obtain ⟨my, hmy⟩ : ∃ my, sdk.fromBech32 (bet.answer p).myId = some my := by
    cases p with
    | one => exact ⟨ids.p2, h.p2⟩
    | two => exact ⟨ids.p1, h.p1⟩
  refine ⟨{ ids with my := my },
    { h with playerNum := ?_, h_le := ?_, g_le := ?_, my := hmy }⟩
  · cases p with
    | one => exact .inr rfl
    | two => exact .inl rfl
  · rw [UInt64.le_iff_toNat_le]
    exact hfingers.trans (by decide)
  · rw [UInt64.le_iff_toNat_le, hguess]
    exact (Nat.add_le_add hh hfingers).trans (by decide)

end PublishBet

namespace SettleRound

theorem payouts_answer {sdk : Sdk} {bet : PublishBet.Args} {ids : PublishBet.Accounts}
    {p : Player} {args : Args} {hex hex' : String} (hacc : PublishBet.Accepts sdk cap bet ids)
    (hbet : Repeats p bet hex args) (hanswer : Repeats p.other (bet.answer p) hex' args) :
    payouts (args.hand .one) (args.hand .two) args.betValue.toNat =
      [(p.other, winnerPayout bet.betValue.toNat)] := by
  obtain ⟨hfingers, hguess, hwrong⟩ := hacc.answer_h p
  have hh := UInt64.le_iff_toNat_le.mp hacc.h_le
  have hg := UInt64.le_iff_toNat_le.mp hacc.g_le
  change bet.h.toNat ≤ 3 at hh
  change bet.g.toNat ≤ 6 at hg
  have hval {v : UInt64} (hv : v.toNat ≤ 6) : (Felt.new v).val = v.toNat :=
    Nat.mod_eq_of_lt (hv.trans_lt (by decide))
  have hown : (args.hand p).h.val = bet.h.toNat ∧ (args.hand p).g.val = bet.g.toNat := by
    rw [Args.hand, hbet.h, hbet.g]
    exact ⟨hval (hh.trans (by decide)), hval hg⟩
  have hother : (args.hand p.other).h.val = (bet.answer p).h.toNat ∧
      (args.hand p.other).g.val = (bet.answer p).g.toNat := by
    rw [Args.hand, hanswer.h, hanswer.g]
    exact ⟨hval (hfingers.trans (by decide)), hval (by omega)⟩
  have htotal : (args.hand .one).h.val + (args.hand .two).h.val =
      bet.h.toNat + (bet.answer p).h.toNat := by
    rw [← hown.1, ← hother.1]
    cases p with
    | one => rfl
    | two => exact Nat.add_comm ..
  rw [hbet.betValue]
  refine @payouts_of_only_guess args.hand p.other _ ?_ ?_
  · rw [htotal, hother.2, hguess]
  · rw [htotal, p.other_other, hown.2]
    exact hwrong

/-- Whatever one player publishes, the answer is a bet that `publish_bet` takes from the
other player, with any serial number; and whenever the house settles the two in time,
the other player alone is paid, and gets the pot less the fee. -/
theorem last_mover_wins (sdk : Sdk) (package : Package Forest) (p : Player)
    (bet : PublishBet.Args) (serialNum : Word) (note : ClientNote Forest) (hex : String)
    (hpublish : PublishBet.main sdk cap package serialNum bet = .ok (note, hex))
    (serialNum' : Word) :
    ∃ note' hex', PublishBet.main sdk cap package serialNum' (bet.answer p) = .ok (note', hex') ∧
      ∀ args, Repeats p bet hex args → Repeats p.other (bet.answer p) hex' args →
        ∃ plan, main sdk cap package args = .ok plan ∧
          ∀ (s : House cap) (block : Felt) s' outs, block.val ≤ (Felt.new args.expiryBlock).val →
            Transaction.execute s ⟨block, [plan.note1.toNote, plan.note2.toNote]⟩ =
              some (s', outs) →
            PaysOut plan.ids [(p.other, winnerPayout bet.betValue.toNat)] outs := by
  obtain ⟨ids, hacc, heq⟩ := PublishBet.main_eq_ok.mp hpublish
  obtain ⟨ids', hacc'⟩ := hacc.answer p
  have hpublish' : PublishBet.main sdk cap package serialNum' (bet.answer p) =
      .ok ((bet.answer p).note package serialNum' ids', encodeWord serialNum') :=
    PublishBet.main_eq_ok.mpr ⟨ids', hacc', rfl⟩
  refine ⟨_, _, hpublish', fun args hbet hanswer => ?_⟩
  obtain ⟨bets, serialNums, published, hexes, hpublished, hrepeats⟩ :
      ∃ (bets : Player → PublishBet.Args) (serialNums : Player → Word)
        (published : Player → ClientNote Forest) (hexes : Player → String),
        (∀ q, PublishBet.main sdk cap package (serialNums q) (bets q) =
          .ok (published q, hexes q)) ∧
        ∀ q, Repeats q (bets q) (hexes q) args := by
    cases p with
    | one => exact ⟨Player.pick bet (bet.answer .one), Player.pick serialNum serialNum',
        Player.pick note _, Player.pick hex _, Player.forall_iff.mpr ⟨hpublish, hpublish'⟩,
        Player.forall_iff.mpr ⟨hbet, hanswer⟩⟩
    | two => exact ⟨Player.pick (bet.answer .two) bet, Player.pick serialNum' serialNum,
        Player.pick _ note, Player.pick _ hex, Player.forall_iff.mpr ⟨hpublish', hpublish⟩,
        Player.forall_iff.mpr ⟨hanswer, hbet⟩⟩
  obtain ⟨ids, -, -, hcap, hplan, -⟩ := plan_of_published hpublished hrepeats
  refine ⟨_, hplan, fun s block s' outs htime hexec => ?_⟩
  obtain ⟨moves, hcarries, hnotes⟩ := Args.exists_carriedBy hexec
  rw [hnotes.outs_of_inTime htime hexec, ← payouts_answer hacc hbet hanswer]
  exact paysOut_prizes hcap hcarries

end SettleRound

namespace Testnet

def answeredArgs : SettleRound.Args := { settleArgs with p2H := 0, p2G := 2 }

theorem answered_main : SettleRound.main sdk Sample.kernelCap package answeredArgs =
    .ok ⟨accounts, answeredArgs.outcome.text, answeredArgs.note package serialNum accounts .one,
      answeredArgs.note package ⟨5, 6, 7, 8⟩ accounts .two⟩ := by
  refine SettleRound.main_eq_ok.mpr ⟨accounts, Player.pick serialNum ⟨5, 6, 7, 8⟩,
    settle_accounts, Player.forall_iff.mpr ⟨?_, ?_⟩, accepts.asset, rfl⟩
  · exact decodeWord_encodeWord _
  · exact decodeWord_encodeWord _

end Testnet

theorem SettleRound.last_mover_wins_sample : ∃ plan s outs,
    SettleRound.main Testnet.sdk Sample.kernelCap Testnet.package Testnet.answeredArgs =
      .ok plan ∧
    Transaction.execute Testnet.houseAccount ⟨5, [plan.note1.toNote, plan.note2.toNote]⟩ =
      some (s, outs) ∧ PaysOut plan.ids [(.two, 1980000)] outs := by
  obtain ⟨note, hex, hpublish, hsettle⟩ := SettleRound.last_mover_wins Testnet.sdk
    Testnet.package .one Testnet.args Testnet.serialNum _ _ Testnet.published ⟨5, 6, 7, 8⟩
  obtain ⟨ids, -, heq⟩ := PublishBet.main_eq_ok.mp hpublish
  obtain ⟨-, rfl⟩ := Prod.mk.inj heq
  obtain ⟨plan, hplan, hpays⟩ := hsettle Testnet.answeredArgs
    ⟨rfl, rfl, rfl, rfl, rfl, rfl, rfl, rfl, rfl, rfl, rfl⟩
    ⟨rfl, rfl, rfl, rfl, rfl, rfl, rfl, rfl, rfl, rfl, rfl⟩
  obtain rfl := Except.ok.inj (Testnet.answered_main.symm.trans hplan)
  have hsome : (Transaction.execute Testnet.houseAccount ⟨5,
      [(Testnet.answeredArgs.note Testnet.package Testnet.serialNum Testnet.accounts .one).toNote,
        (Testnet.answeredArgs.note Testnet.package ⟨5, 6, 7, 8⟩ Testnet.accounts
          .two).toNote]⟩).isSome := by decide +kernel
  obtain ⟨⟨s, outs⟩, hexec⟩ := Option.isSome_iff_exists.mp hsome
  exact ⟨_, s, outs, hplan, hexec, hpays Testnet.houseAccount 5 s outs (by decide) hexec⟩

end AllaMorra
