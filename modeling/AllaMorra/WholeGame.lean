import AllaMorra.Report
import AllaMorra.Uniqueness

/-! A round from the command lines to the payout notes. Two players publish, the
operator repeats their flags, and the house consumes the rebuilt notes in one
transaction: when it goes through, and what everyone then has. -/

namespace AllaMorra

open HouseAccount BetNote

variable {cap : KernelCap} {Forest : Type}

namespace SettleRound

def PaysOut (ids : Accounts) (xs : List (Player × Nat)) (outs : List OutputNote) : Prop :=
  List.Forall₂ (fun x n => PaysTo ids n x.1 ∧ n.amount = x.2) xs outs

namespace Args

variable (args : Args)

def hand (p : Player) : Hand := ⟨.new (args.h p), .new (args.g p)⟩

theorem hand_le {sdk : Sdk} {bets : Player → PublishBet.Args} {ids : Player → PublishBet.Accounts}
    {hex : Player → String} (haccepts : ∀ p, PublishBet.Accepts sdk cap (bets p) (ids p))
    (hrepeats : ∀ p, Repeats p (bets p) (hex p) args) (p : Player) :
    (args.hand p).h.val ≤ 3 ∧ (args.hand p).g.val ≤ 6 := by
  have hh := UInt64.le_iff_toNat_le.mp (haccepts p).h_le
  have hg := UInt64.le_iff_toNat_le.mp (haccepts p).g_le
  rw [← (hrepeats p).h] at hh
  rw [← (hrepeats p).g] at hg
  exact ⟨(Nat.mod_le ..).trans hh, (Nat.mod_le ..).trans hg⟩

variable {args}

theorem wager_note_iff {package : Package Forest} {serialNum : Word} {ids : Accounts} {p : Player}
    {houseId : AccountId} {move : Move} (hmove : move.toHand = args.hand p) {w : Wager} :
    wager houseId (args.note package serialNum ids p).toNote = some w ↔
      houseId = ids.house ∧ w = (args.game ids).wager p move ids.faucet := by
  have hnote : (args.note package serialNum ids p).toNote =
      ((args.game ids).wager p move ids.faucet).toNote ids.house serialNum := by
    have hh : move.h = .new (args.h p) := congrArg Hand.h hmove
    have hg : move.g = .new (args.g p) := congrArg Hand.g hmove
    cases p <;> simp only [Wager.toNote, Match.wager, hh, hg] <;> rfl
  constructor
  · intro hw
    obtain ⟨i, a, hi, -, hv, -⟩ := exists_wager_iff.mp ⟨w, hw, rfl⟩
    obtain rfl := Option.some.inj hi
    obtain rfl : houseId = ids.house := hv.house
    rw [hnote] at hw
    exact ⟨rfl, (wager_toNote_inj hw).symm⟩
  · rintro ⟨rfl, rfl⟩
    rw [hnote, wager_toNote]

end Args

section Notes

variable {args : Args} {package : Package Forest} {serialNums : Player → Word} {ids : Accounts}
  {moves : Player → Move} (hmoves : ∀ p, (moves p).toHand = args.hand p)

include hmoves

theorem carriedBy_notes : (args.game ids).CarriedBy moves (fun _ => ids.faucet) ids.house
    fun p => (args.note package (serialNums p) ids p).toNote :=
  fun p => (Args.wager_note_iff (hmoves p)).mpr ⟨rfl, rfl⟩

end Notes

theorem describes_iff_paysOut {outcome : Outcome} {ids : Accounts} {outs : List OutputNote} :
    Describes outcome.text ids outs ↔
      PaysOut ids (outcome.payouts.map fun x => (x.1, x.2.toNat)) outs := by
  rw [describes_text_iff, PaysOut, List.forall₂_map_left_iff]

theorem paysOut_prizes {args : Args} {ids : Accounts} {moves : Player → Move}
    (hcap : args.betValue.toNat ≤ cap.value) (hcarries : args.Carries moves) :
    PaysOut ids (payouts (args.hand .one) (args.hand .two) args.betValue.toNat)
      (((args.game ids).prizes moves ids.faucet).map Payment.note) := by
  have hbet : args.betValue.toNat < 2 ^ 63 := hcap.trans_lt cap.value_lt
  have hgame : (args.game ids).betValue.val = args.betValue.toNat :=
    Felt.ofNat_val_of_lt (hbet.trans (by decide))
  have hhand (p : Player) : (moves p).toHand = args.hand p :=
    congrArg₂ Hand.mk (hcarries.h p) (hcarries.g p)
  rw [PaysOut, Match.prizes, hhand, hhand, hgame, List.map_map, List.forall₂_map_right_iff,
    List.forall₂_same]
  intro x hx
  refine ⟨paysTo_note.mpr ⟨Args.game_account ids x.1, .inl rfl⟩, ?_⟩
  exact Payment.amount_note ((payouts_le x hx).trans_lt (winnerPayout_lt hbet))

theorem paysOut_refunds {args : Args} {ids : Accounts}
    (hgame : (args.game ids).betValue.val = args.betValue.toNat) (moves : Player → Move) :
    PaysOut ids [(.one, args.betValue.toNat), (.two, args.betValue.toNat)]
      [((args.game ids).wager .one (moves .one) ids.faucet).refund.note,
        ((args.game ids).wager .two (moves .two) ids.faucet).refund.note] := by
  have hplayer (p : Player) : ((args.game ids).wager p (moves p) ids.faucet).account
      ((args.game ids).wager p (moves p) ids.faucet).player = ids.player p := by
    cases p <;> rfl
  have hdraw := (@describes_refunds_iff (.draw args.betValue) ids _ _ hplayer fun _ => rfl).mpr
    ⟨args.betValue, rfl, hgame.symm⟩
  exact describes_iff_paysOut.mp hdraw

theorem plan_of_published {sdk : Sdk} {package : Package Forest} {bets : Player → PublishBet.Args}
    {serialNums : Player → Word} {published : Player → ClientNote Forest} {hex : Player → String}
    (hpublish : ∀ p, PublishBet.main sdk cap package (serialNums p) (bets p) =
      .ok (published p, hex p))
    {args : Args} (hrepeats : ∀ p, Repeats p (bets p) (hex p) args) :
    ∃ (ids : Accounts) (moves : Player → Move), args.accounts sdk = .ok ids ∧
      args.betValue.toNat ≤ cap.value ∧
      main sdk cap package args = .ok ⟨ids, args.outcome.text,
        args.note package (serialNums .one) ids .one,
        args.note package (serialNums .two) ids .two⟩ ∧
      (∀ p, (args.note package (serialNums p) ids p).id = (published p).id) ∧
      (∀ p, (moves p).toHand = args.hand p) ∧ ∀ p, args.Kept p := by
  have haccepts (p : Player) : ∃ ids, PublishBet.Accepts sdk cap (bets p) ids ∧
      published p = (bets p).note package (serialNums p) ids ∧
        hex p = encodeWord (serialNums p) := by
    obtain ⟨ids, hacc, heq⟩ := PublishBet.main_eq_ok.mp (hpublish p)
    exact ⟨ids, hacc, Prod.mk.inj heq⟩
  choose pids hacc hnote hhex using haccepts
  let ids : Accounts := ⟨(pids .one).house, (pids .one).faucet, (pids .one).p1, (pids .one).p2⟩
  have hids : args.accounts sdk = .ok ids := Args.accounts_eq_ok.mpr
    ⟨(hrepeats .one).houseId ▸ (hacc .one).house, (hrepeats .one).faucetId ▸ (hacc .one).faucet,
      (hrepeats .one).player1Id ▸ (hacc .one).p1, (hrepeats .one).player2Id ▸ (hacc .one).p2⟩
  have hasset : sdk.isFungibleFaucet ids.faucet ∧ args.betValue.toNat ≤ cap.value :=
    (hrepeats .one).betValue ▸ (hacc .one).asset
  have hserial (p : Player) : decodeWord (args.serial p) = .ok (serialNums p) := by
    rw [(hrepeats p).serial, hhex p]
    exact decodeWord_encodeWord _
  have hhand := args.hand_le hacc hrepeats
  refine ⟨ids, fun p => ⟨args.hand p, (hhand p).1, (hhand p).2⟩, hids, hasset.2,
    main_eq_ok.mpr ⟨ids, serialNums, hids, hserial, hasset, rfl⟩, fun p => ?_, fun _ => rfl,
    Args.kept_of_repeats hacc hrepeats⟩
  -- both players name the same accounts, those the operator names
  obtain ⟨hhouse, hfaucet, hp1, hp2⟩ := Args.accounts_eq_ok.mp hids
  rw [(hrepeats p).houseId, (hacc p).house, Option.some.injEq] at hhouse
  rw [(hrepeats p).faucetId, (hacc p).faucet, Option.some.injEq] at hfaucet
  rw [(hrepeats p).player1Id, (hacc p).p1, Option.some.injEq] at hp1
  rw [(hrepeats p).player2Id, (hacc p).p2, Option.some.injEq] at hp2
  rw [hnote p]
  simp only [Args.note, PublishBet.Args.note, betNote, ClientNote.id, hhouse, hfaucet, hp1, hp2,
    (hrepeats p).roundId, (hrepeats p).h, (hrepeats p).g, (hrepeats p).betValue,
    (hrepeats p).expiryBlock, (hrepeats p).playerNum]

end SettleRound

namespace Testnet

def bets : Player → PublishBet.Args
  | .one => args
  | .two => { args with playerNum := 2, h := 1, g := 0, myId := args.player2Id }

def serialNums : Player → Word
  | .one => serialNum
  | .two => ⟨5, 6, 7, 8⟩

def owners : Player → PublishBet.Accounts
  | .one => ids
  | .two => { ids with my := player2 }

end Testnet

end AllaMorra
