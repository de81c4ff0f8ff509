import AllaMorra.BetNote
import AllaMorra.Game

/-! The bet-note script in closed form, for any account it runs on. A note
that passes the script's own checks is a wager; `effect` says what the wager
does to the account, and `run_eq` that the script does exactly this. -/

namespace AllaMorra

open HouseAccount

variable {cap : KernelCap}

def Reason.serial : Reason → Felt
  | .refund => 3
  | .prize p => p.num

def Payment.note (p : Payment) : OutputNote :=
  payoutNote ⟨p.roundId, p.reason.serial, 0, 0⟩ (.ofNat p.amount) p.faucet p.recipient

/-- Serial number, recipient account, and asset: the rest of a payout note is the
same in all of them. -/
def OutputNote.identity (n : OutputNote) : Word × List Felt × List Asset :=
  (n.recipient.serialNum, n.recipient.inputs, n.assets)

theorem OutputNote.nodup_id {notes : List OutputNote}
    (h : (notes.map OutputNote.identity).Nodup) : (notes.map OutputNote.id).Nodup := by
  refine List.Nodup.of_map (fun id => (id.1.serialNum, id.1.inputs, id.2)) ?_
  rw [List.map_map]
  exact h

theorem prizes_identity_nodup (r : Felt) (faucet : AccountId) (account : Player → AccountId)
    (m₁ m₂ : Hand) (betValue : Nat) :
    ((((payouts m₁ m₂ betValue).map fun (p, amount) =>
      (⟨r, .prize p, amount, faucet, account p⟩ : Payment)).map Payment.note).map
        OutputNote.identity).Nodup := by
  -- the second element of the serial number tells the players apart
  refine List.Nodup.of_map (fun k => k.1.e1) ?_
  have hnum : ((payouts m₁ m₂ betValue).map fun x => x.1.num).Nodup := by
    simp only [payouts]
    split_ifs <;> simp [Player.num]
  rw [List.map_map, List.map_map, List.map_map]
  exact hnum

theorem length_payouts_le (m₁ m₂ : Hand) (betValue : Nat) :
    (payouts m₁ m₂ betValue).length ≤ 2 := by
  simp only [payouts]
  split_ifs <;> simp

namespace Slot

def hand (slot : Slot) : Hand := ⟨slot.h, slot.g⟩

def terms (slot : Slot) : Terms :=
  ⟨⟨slot.faucetSuffix, slot.faucetPrefix⟩, slot.betValue, slot.idXorS, slot.idXorP⟩

end Slot

def Bet.slot (bet : Bet) : Slot where
  h := bet.move.h
  g := bet.move.g
  registered := 1
  faucetSuffix := bet.terms.faucet.idSuffix
  faucetPrefix := bet.terms.faucet.idPrefix
  betValue := bet.terms.betValue
  idXorS := bet.terms.idXorS
  idXorP := bet.terms.idXorP

def Wager.toNote (w : Wager) (houseId : AccountId) (serialNum : Word) : Note where
  serialNum := serialNum
  inputs := [w.roundId, w.player.num, w.move.h, w.move.g, w.player1.idSuffix, w.player1.idPrefix,
    w.player2.idSuffix, w.player2.idPrefix, houseId.idSuffix, houseId.idPrefix, w.betValue,
    w.expiryBlock]
  assets := [⟨⟨w.betValue, 0, w.faucet.idSuffix, w.faucet.idPrefix⟩⟩]
  assets_length := by simp

namespace BetNote

open Kernel

def Inputs.ofList : List Felt → Option Inputs
  | roundId :: playerNum :: h :: g :: p1Suffix :: p1Prefix :: p2Suffix :: p2Prefix ::
      houseSuffix :: housePrefix :: betValue :: expiryBlock :: _ =>
    some ⟨roundId, playerNum, h, g, p1Suffix, p1Prefix, p2Suffix, p2Prefix,
      houseSuffix, housePrefix, betValue, expiryBlock⟩
  | _ => none

theorem Inputs.ofList_eq_some {inputs : List Felt} {i : Inputs}
    (h : Inputs.ofList inputs = some i) :
    ∃ rest, inputs = i.roundId :: i.playerNum :: i.h :: i.g :: i.p1Suffix :: i.p1Prefix ::
      i.p2Suffix :: i.p2Prefix :: i.houseSuffix :: i.housePrefix :: i.betValue ::
        i.expiryBlock :: rest := by
  unfold Inputs.ofList at h
  split at h
  · cases h
    exact ⟨_, rfl⟩
  · cases h

theorem run_readInputs (t : TxState cap HouseAccount) (inputs : List Felt) :
    (readInputs inputs : Kernel cap HouseAccount Inputs).run t =
      (Inputs.ofList inputs).map fun i => (i, t) := by
  rcases inputs with _ | ⟨_, _ | ⟨_, _ | ⟨_, _ | ⟨_, _ | ⟨_, _ | ⟨_, _ | ⟨_, _ | ⟨_, _ | ⟨_,
    _ | ⟨_, _ | ⟨_, _ | ⟨_, _⟩⟩⟩⟩⟩⟩⟩⟩⟩⟩⟩⟩ <;>
    rfl

structure Inputs.Valid (houseId : AccountId) (i : Inputs) (a : Asset) : Prop where
  playerNum : i.playerNum = 1 ∨ i.playerNum = 2
  h_le : i.h.val ≤ 3
  g_le : i.g.val ≤ 6
  amount : a.inner.e0 = i.betValue
  house : houseId = ⟨i.houseSuffix, i.housePrefix⟩
  fungible : a.IsFungible

instance (houseId : AccountId) (i : Inputs) (a : Asset) : Decidable (i.Valid houseId a) :=
  decidable_of_iff
    ((i.playerNum = 1 ∨ i.playerNum = 2) ∧ i.h.val ≤ 3 ∧ i.g.val ≤ 6 ∧
      a.inner.e0 = i.betValue ∧ houseId = ⟨i.houseSuffix, i.housePrefix⟩ ∧ a.IsFungible)
    ⟨fun ⟨h₁, h₂, h₃, h₄, h₅, h₆⟩ => ⟨h₁, h₂, h₃, h₄, h₅, h₆⟩,
      fun ⟨h₁, h₂, h₃, h₄, h₅, h₆⟩ => ⟨h₁, h₂, h₃, h₄, h₅, h₆⟩⟩

def Inputs.player (i : Inputs) : Player := if i.playerNum = 1 then .one else .two

def Inputs.wager {houseId : AccountId} {a : Asset} (i : Inputs) (hv : i.Valid houseId a) :
    Wager where
  roundId := i.roundId
  player := i.player
  move := ⟨⟨i.h, i.g⟩, hv.h_le, hv.g_le⟩
  player1 := ⟨i.p1Suffix, i.p1Prefix⟩
  player2 := ⟨i.p2Suffix, i.p2Prefix⟩
  faucet := a.faucet
  betValue := i.betValue
  expiryBlock := i.expiryBlock

def wager (houseId : AccountId) (note : Note) : Option Wager :=
  match Inputs.ofList note.inputs, note.assets with
  | some i, [a] => if hv : i.Valid houseId a then some (i.wager hv) else none
  | _, _ => none

theorem Inputs.player_num {houseId : AccountId} {i : Inputs} {a : Asset}
    (hv : i.Valid houseId a) : i.player.num = i.playerNum := by
  unfold Inputs.player
  split
  · next h => exact h.symm
  · next h => exact (hv.playerNum.resolve_left h).symm

theorem Inputs.Valid.asset_eq {houseId : AccountId} {i : Inputs} {a : Asset}
    (hv : i.Valid houseId a) : a = ⟨⟨i.betValue, 0, a.faucet.idSuffix, a.faucet.idPrefix⟩⟩ := by
  have hfungible : a.inner.e1 = 0 := hv.fungible
  rw [← hv.amount, ← hfungible]
  rfl

theorem wager_toNote (w : Wager) (houseId : AccountId) (serialNum : Word) :
    wager houseId (w.toNote houseId serialNum) = some w := by
  have hplayer : w.player.num = 1 ∨ w.player.num = 2 := by cases w.player <;> decide
  have hvalid : Inputs.Valid houseId ⟨w.roundId, w.player.num, w.move.h, w.move.g,
      w.player1.idSuffix, w.player1.idPrefix, w.player2.idSuffix, w.player2.idPrefix,
      houseId.idSuffix, houseId.idPrefix, w.betValue, w.expiryBlock⟩
      ⟨⟨w.betValue, 0, w.faucet.idSuffix, w.faucet.idPrefix⟩⟩ :=
    ⟨hplayer, w.move.h_le, w.move.g_le, rfl, rfl, rfl⟩
  refine (dif_pos hvalid).trans ?_
  obtain ⟨r, p, m, p1, p2, f, bv, e⟩ := w
  cases p <;> rfl

theorem wager_toNote_inj {w w' : Wager} {houseId : AccountId} {serialNum : Word}
    (h : wager houseId (w.toNote houseId serialNum) = some w') : w = w' :=
  Option.some.inj ((wager_toNote w houseId serialNum).symm.trans h)

theorem wager_eq_some {houseId : AccountId} {note : Note} {w : Wager} :
    wager houseId note = some w ↔
      (∃ rest, note.inputs = (w.toNote houseId note.serialNum).inputs ++ rest) ∧
        note.assets = (w.toNote houseId note.serialNum).assets := by
  constructor
  · intro h
    unfold wager at h
    split at h
    · next i a hi ha =>
      split at h
      · next hv =>
        obtain rfl := Option.some.inj h
        obtain ⟨rest, hrest⟩ := Inputs.ofList_eq_some hi
        refine ⟨⟨rest, ?_⟩, ha.trans (congrArg (fun a => [a]) hv.asset_eq)⟩
        rw [hrest, ← Inputs.player_num hv]
        simp only [Wager.toNote, hv.house]
        rfl
      · cases h
    · cases h
  · rintro ⟨⟨rest, hinputs⟩, hassets⟩
    rw [← wager_toNote w houseId note.serialNum]
    simp only [wager, hinputs, hassets]
    rfl

def path (block : Felt) (house : HouseAccount) (w : Wager) : Path :=
  if w.expiryBlock.val < block.val then .refund
  else if house.isPlayerRegistered w.roundId w.player.other.num = 0 then .register
  else .settle

theorem path_eq_refund_iff {block : Felt} {house : HouseAccount} {w : Wager} :
    path block house w = .refund ↔ w.expiryBlock.val < block.val := by
  constructor
  · intro h
    by_contra htime
    rw [path, if_neg htime] at h
    split at h <;> cases h
  · exact fun hlate => if_pos hlate

theorem path_of_inTime {block : Felt} {house : HouseAccount} {w : Wager}
    (htime : ¬ w.expiryBlock.val < block.val) :
    path block house w =
      if house.isPlayerRegistered w.roundId w.player.other.num = 0 then .register else .settle :=
  if_neg htime

theorem path_eq_register_iff {block : Felt} {house : HouseAccount} {w : Wager} :
    path block house w = .register ↔ ¬ w.expiryBlock.val < block.val ∧
      house.isPlayerRegistered w.roundId w.player.other.num = 0 := by
  unfold path
  split_ifs <;> simp [*]

theorem path_eq_settle_iff {block : Felt} {house : HouseAccount} {w : Wager} :
    path block house w = .settle ↔ ¬ w.expiryBlock.val < block.val ∧
      house.isPlayerRegistered w.roundId w.player.other.num ≠ 0 := by
  unfold path
  split_ifs <;> simp [*]

def register (house : HouseAccount) (w : Wager) : HouseAccount :=
  (house.storePlayerBet w.roundId w.player.num w.move.h w.move.g
      w.faucet.idSuffix w.faucet.idPrefix).storePlayerRoundParams
    w.roundId w.player.num w.betValue w.idXorS w.idXorP

def close (house : HouseAccount) (w : Wager) : HouseAccount :=
  (house.markRoundSettled w.roundId).clearPlayerBet w.roundId w.player.other.num

theorem slot_register (house : HouseAccount) (w : Wager) (r p : Felt) :
    (register house w).slot r p =
      if r = w.roundId ∧ p = w.player.num then w.bet.slot else house.slot r p := by
  rw [register, slot_storePlayerRoundParams, slot_storePlayerBet]
  split <;> rfl

theorem isRoundSettled_register (house : HouseAccount) (w : Wager) (r : Felt) :
    (register house w).isRoundSettled r = house.isRoundSettled r := by
  rw [register, isRoundSettled_storePlayerRoundParams, isRoundSettled_storePlayerBet]

theorem slot_close (house : HouseAccount) (w : Wager) (r p : Felt) :
    (close house w).slot r p =
      if r = w.roundId ∧ p = w.player.other.num then Slot.empty else house.slot r p := by
  rw [close, slot_clearPlayerBet, slot_markRoundSettled]

theorem isRoundSettled_close (house : HouseAccount) (w : Wager) (r : Felt) :
    (close house w).isRoundSettled r = if r = w.roundId then 1 else house.isRoundSettled r := by
  rw [close, isRoundSettled_clearPlayerBet, isRoundSettled_markRoundSettled]

/-- What the script does to an account, after the deposit. -/
def effectAfter (block : Felt) (a : Account cap HouseAccount) (w : Wager) :
    Option (Account cap HouseAccount × List Payment) :=
  let opponent := a.storage.slot w.roundId w.player.other.num
  match path block a.storage w with
  | .refund =>
    (a.vault.remove w.faucet w.betValue.val).map fun vault =>
      ({ a with vault := vault }, [w.refund])
  | .register =>
    if w.XorFits ∧ a.storage.isRoundSettled w.roundId = 0 then
      some ({ a with storage := register a.storage w }, [])
    else none
  | .settle =>
    if (w.XorFits ∧ a.storage.isRoundSettled w.roundId = 0) ∧ w.terms = opponent.terms then
      (a.vault.remove w.faucet (w.totalPrize opponent.hand)).map fun vault =>
        ({ a with storage := close a.storage w, vault := vault }, w.prizes opponent.hand)
    else none

def effect (block : Felt) (a : Account cap HouseAccount) (w : Wager) :
    Option (Account cap HouseAccount × List Payment) :=
  (a.vault.add w.faucet w.betValue.val).bind fun vault =>
    effectAfter block { a with vault := vault } w

/-! The script against its closed form, branch by branch. -/

section Run

variable (t : TxState cap HouseAccount)

theorem asU64_beq_zero (a : Felt) : (a.asU64 == 0) = decide (a = 0) := by
  rw [Bool.eq_iff_iff, beq_iff_eq, decide_eq_true_iff]
  exact Felt.asU64_inj a 0

theorem asU64_beq_one (a : Felt) : (a.asU64 == 1) = decide (a = 1) := by
  rw [Bool.eq_iff_iff, beq_iff_eq, decide_eq_true_iff]
  exact Felt.asU64_inj a 1

theorem run_expiryRecall {houseId : AccountId} {i : Inputs} {a : Asset} (hv : i.Valid houseId a) :
    (expiryRecall i a.inner.e2 a.inner.e3 : Kernel cap HouseAccount Unit).run t =
      (t.account.vault.remove a.faucet i.betValue.val).map fun v =>
        ((), (t.setVault v).emit [(i.wager hv).refund.note]) := by
  simp only [expiryRecall, run_createPayoutNote, asU64_beq_one]
  by_cases hone : i.playerNum = 1 <;>
    simp [hone, Payment.note, Wager.refund, Wager.account, Inputs.wager, Inputs.player,
      Reason.serial, Asset.faucet, Felt.ofNat_val]

theorem toNat_winnerPayout {bv : UInt64} (h : bv.toNat < 2 ^ 63) :
    (bv * 2 - bv * 2 / 100).toNat = winnerPayout bv.toNat := by
  have hpot : (bv * 2).toNat = 2 * bv.toNat := by
    rw [UInt64.toNat_mul]
    change bv.toNat * 2 % 2 ^ 64 = _
    omega
  have hfee : (bv * 2 / 100).toNat = 2 * bv.toNat / 100 := by
    rw [UInt64.toNat_div, hpot]
    rfl
  rw [UInt64.toNat_sub_of_le, hpot, hfee, winnerPayout]
  rw [UInt64.le_iff_toNat_le, hpot, hfee]
  exact Nat.div_le_self _ _

theorem toNat_drawPayout {bv : UInt64} (h : bv.toNat < 2 ^ 63) :
    ((bv * 2 - bv * 2 / 100) / 2).toNat = drawPayout bv.toNat := by
  rw [UInt64.toNat_div, toNat_winnerPayout h]
  rfl

theorem winnerPayout_lt {bv : Nat} (h : bv < 2 ^ 63) : winnerPayout bv < Felt.modulus := by
  unfold winnerPayout Felt.modulus
  omega

theorem drawPayout_lt {bv : Nat} (h : bv < 2 ^ 63) : drawPayout bv < Felt.modulus :=
  (Nat.div_le_self _ _).trans_lt (winnerPayout_lt h)

theorem fromU64_winnerPayout {bv : Felt} (h : bv.val < 2 ^ 63) :
    Felt.fromU64Unchecked (payoutMath bv.asU64).winnerPayout =
      some (Felt.ofNat (winnerPayout bv.val)) := by
  have hnat : (payoutMath bv.asU64).winnerPayout.toNat = winnerPayout bv.asU64.toNat :=
    toNat_winnerPayout (by rwa [Felt.asU64_toNat])
  rw [Felt.asU64_toNat] at hnat
  rw [Felt.fromU64Unchecked_of_le (hnat ▸ (winnerPayout_lt h).le), hnat]

theorem fromU64_drawPayout {bv : Felt} (h : bv.val < 2 ^ 63) :
    Felt.fromU64Unchecked (payoutMath bv.asU64).drawPayout =
      some (Felt.ofNat (drawPayout bv.val)) := by
  have hnat : (payoutMath bv.asU64).drawPayout.toNat = drawPayout bv.asU64.toNat :=
    toNat_drawPayout (by rwa [Felt.asU64_toNat])
  rw [Felt.asU64_toNat] at hnat
  rw [Felt.fromU64Unchecked_of_le (hnat ▸ (drawPayout_lt h).le), hnat]

def pay (p : Payment) : Kernel cap HouseAccount Unit :=
  createPayoutNote p.roundId p.reason.serial 0 0 (.ofNat p.amount) p.faucet.idSuffix
    p.faucet.idPrefix p.recipient.idSuffix p.recipient.idPrefix

theorem run_pay (p : Payment) (h : p.amount < Felt.modulus) :
    (pay p : Kernel cap HouseAccount Unit).run t =
      (t.account.vault.remove p.faucet p.amount).map fun v =>
        ((), (t.setVault v).emit [p.note]) := by
  rw [pay, run_createPayoutNote, Felt.ofNat_val_of_lt h]
  rfl

theorem run_pay_pay (p q : Payment) (hp : p.amount < Felt.modulus) (hq : q.amount < Felt.modulus)
    (hfaucet : q.faucet = p.faucet) :
    (do pay p; pay q : Kernel cap HouseAccount Unit).run t =
      (t.account.vault.remove p.faucet (p.amount + q.amount)).map fun v =>
        ((), (t.setVault v).emit [p.note, q.note]) := by
  rw [StateT.run_bind, run_pay t p hp, ← AssetVault.remove_remove]
  cases t.account.vault.remove p.faucet p.amount with
  | none => rfl
  | some v =>
    simp only [Option.map_some, Option.bind_eq_bind, Option.bind_some, run_pay _ q hq, hfaucet]
    change (v.remove p.faucet q.amount).map _ = (v.remove p.faucet q.amount).map _
    congr 1
    funext v'
    simp [TxState.emit, TxState.setVault]

theorem asU64_beq_total (g h1 h2 : Felt) (h : h1.val + h2.val < 2 ^ 64) :
    (g.asU64 == h1.asU64 + h2.asU64) = decide (g.val = h1.val + h2.val) := by
  rw [Bool.eq_iff_iff, beq_iff_eq, decide_eq_true_iff, ← UInt64.toNat_inj, UInt64.toNat_add,
    Felt.asU64_toNat, Felt.asU64_toNat, Felt.asU64_toNat, Nat.mod_eq_of_lt h]

def Inputs.prizes (i : Inputs) (faucet : AccountId) (m₁ m₂ : Hand) : List Payment :=
  (payouts m₁ m₂ i.betValue.val).map fun (p, amount) =>
    ⟨i.roundId, .prize p, amount, faucet,
      match p with
      | .one => ⟨i.p1Suffix, i.p1Prefix⟩
      | .two => ⟨i.p2Suffix, i.p2Prefix⟩⟩

theorem run_payOut (i : Inputs) (faucet : AccountId) (m₁ m₂ : Hand)
    (htotal : m₁.h.val + m₂.h.val < 2 ^ 64) (hbv : i.betValue.val < 2 ^ 63) :
    (payOut i faucet.idSuffix faucet.idPrefix m₁.h m₁.g m₂.h m₂.g :
        Kernel cap HouseAccount Unit).run t =
      (t.account.vault.remove faucet (totalPayout m₁ m₂ i.betValue.val)).map fun v =>
        ((), (t.setVault v).emit ((i.prizes faucet m₁ m₂).map Payment.note)) := by
  have hwinner := winnerPayout_lt hbv
  have hdraw := drawPayout_lt hbv
  have hone (n : Nat) : createPayoutNote i.roundId 1 0 0 (.ofNat n) faucet.idSuffix
      faucet.idPrefix i.p1Suffix i.p1Prefix =
    (pay ⟨i.roundId, .prize .one, n, faucet, ⟨i.p1Suffix, i.p1Prefix⟩⟩ :
      Kernel cap HouseAccount Unit) := rfl
  have htwo (n : Nat) : createPayoutNote i.roundId 2 0 0 (.ofNat n) faucet.idSuffix
      faucet.idPrefix i.p2Suffix i.p2Prefix =
    (pay ⟨i.roundId, .prize .two, n, faucet, ⟨i.p2Suffix, i.p2Prefix⟩⟩ :
      Kernel cap HouseAccount Unit) := rfl
  have hconvert_winner : (fromU64Unchecked (payoutMath i.betValue.asU64).winnerPayout :
      Kernel cap HouseAccount Felt) = pure (.ofNat (winnerPayout i.betValue.val)) := by
    simp only [fromU64Unchecked, fromU64_winnerPayout hbv]
  have hconvert_draw : (fromU64Unchecked (payoutMath i.betValue.asU64).drawPayout :
      Kernel cap HouseAccount Felt) = pure (.ofNat (drawPayout i.betValue.val)) := by
    simp only [fromU64Unchecked, fromU64_drawPayout hbv]
  simp only [payOut, asU64_beq_total _ _ _ htotal, hconvert_winner, hconvert_draw, pure_bind,
    hone, htwo]
  -- one winner, or a draw in which both or neither guessed the total
  by_cases h₁ : m₁.g.val = m₁.h.val + m₂.h.val <;>
    by_cases h₂ : m₂.g.val = m₁.h.val + m₂.h.val <;>
    simp only [h₁, h₂, decide_true, decide_false, Bool.and_true, Bool.and_false, Bool.not_true,
      Bool.not_false, if_true, if_false, Bool.false_eq_true, totalPayout, payouts, Inputs.prizes,
      not_true_eq_false, not_false_eq_true, ne_eq, and_true, and_false, List.map_cons,
      List.map_nil, List.sum_cons, List.sum_nil, Nat.add_zero]
  · exact run_pay_pay t _ _ hdraw hdraw rfl
  · exact run_pay t _ hwinner
  · exact run_pay t _ hwinner
  · exact run_pay_pay t _ _ hdraw hdraw rfl

def commit (r : Account cap HouseAccount × List Payment) : TxState cap HouseAccount :=
  { t with account := r.1, outputNotes := t.outputNotes ++ r.2.map Payment.note }

variable {houseId : AccountId} {i : Inputs} {a : Asset} (hv : i.Valid houseId a)

theorem Inputs.player_other_num (i : Inputs) :
    i.player.other.num = if i.playerNum = 1 then 2 else 1 := by
  unfold Inputs.player
  split <;> rfl

theorem prizes_eq (opponent : Hand) :
    i.prizes a.faucet ((i.wager hv).hands opponent).1 ((i.wager hv).hands opponent).2 =
      (i.wager hv).prizes opponent := by
  simp only [Inputs.prizes, Wager.prizes]
  congr 1

theorem terms_eq_iff (slot : Slot) :
    (i.wager hv).terms = slot.terms ↔
      a.inner.e2 = slot.faucetSuffix ∧ a.inner.e3 = slot.faucetPrefix ∧
        i.betValue = slot.betValue ∧ (i.wager hv).idXorS = slot.idXorS ∧
          (i.wager hv).idXorP = slot.idXorP := by
  simp [Wager.terms, Slot.terms, Inputs.wager, Asset.faucet, and_assoc]

theorem run_settle (hbv : i.betValue.val < 2 ^ 63) :
    let w := i.wager hv
    let opponent := t.account.storage.slot w.roundId w.player.other.num
    (settle i a.inner.e2 a.inner.e3 w.player.other.num w.idXorS w.idXorP :
        Kernel cap HouseAccount Unit).run t =
      if w.terms = opponent.terms then
        (t.account.vault.remove w.faucet (w.totalPrize opponent.hand)).map fun v =>
          ((), commit t ({ t.account with storage := close t.account.storage w, vault := v },
            w.prizes opponent.hand))
      else none := by
  intro w opponent
  let oppH := t.account.storage.getPlayerH i.roundId w.player.other.num
  let oppG := t.account.storage.getPlayerG i.roundId w.player.other.num
  have hhands : (if i.playerNum = 1 then (i.h, i.g, oppH, oppG) else (oppH, oppG, i.h, i.g)) =
      ((w.hands opponent.hand).1.h, (w.hands opponent.hand).1.g,
        (w.hands opponent.hand).2.h, (w.hands opponent.hand).2.g) := by
    by_cases hone : i.playerNum = 1 <;>
      simp [hone, w, Wager.hands, Inputs.wager, Inputs.player] <;> exact ⟨rfl, rfl⟩
  have htotal : (w.hands opponent.hand).1.h.val + (w.hands opponent.hand).2.h.val < 2 ^ 64 := by
    have hopp := opponent.h.isLt
    have hown : w.move.h.val ≤ 3 := hv.h_le
    unfold Wager.hands
    cases w.player <;> simp only [Slot.hand] <;> omega
  have hpay : (payOut i a.inner.e2 a.inner.e3 (w.hands opponent.hand).1.h
        (w.hands opponent.hand).1.g (w.hands opponent.hand).2.h (w.hands opponent.hand).2.g :
          Kernel cap HouseAccount Unit).run t =
      (t.account.vault.remove w.faucet (w.totalPrize opponent.hand)).map fun v =>
        ((), (t.setVault v).emit ((w.prizes opponent.hand).map Payment.note)) := by
    rw [← prizes_eq hv]
    exact run_payOut t i a.faucet _ _ htotal hbv
  simp only [settle, StateT.run_bind, run_read, run_assertEq, run_write, Option.bind_eq_bind,
    Option.bind_some, bind_guard, asU64_beq_one, decide_eq_true_eq, ← ite_and]
  refine if_congr (terms_eq_iff hv opponent).symm ?_ rfl
  rw [hhands, hpay]
  cases t.account.vault.remove w.faucet (w.totalPrize opponent.hand) <;> rfl

theorem bind_commitment {α : Type} (w : Wager) (f : Felt → Felt → Option α) :
    (Felt.fromU64Unchecked (w.player1.idSuffix.asU64 ^^^ w.player2.idSuffix.asU64)).bind
        (fun s => (Felt.fromU64Unchecked
          (w.player1.idPrefix.asU64 ^^^ w.player2.idPrefix.asU64)).bind fun p => f s p) =
      if w.XorFits then f w.idXorS w.idXorP else none := by
  by_cases hfits : w.XorFits
  · rw [Felt.fromU64Unchecked_of_le hfits.1, Felt.fromU64Unchecked_of_le hfits.2, if_pos hfits]
    rfl
  · rw [if_neg hfits, Option.bind_eq_none_iff]
    intro s hs
    rw [Option.bind_eq_none_iff]
    intro p hp
    exact absurd ⟨(Felt.fromU64Unchecked_eq_some.mp hs).1,
      (Felt.fromU64Unchecked_eq_some.mp hp).1⟩ hfits

theorem run_play (hbv : i.betValue.val < 2 ^ 63)
    (htime : ¬ i.expiryBlock.val < t.blockNumber.val) :
    (play i a.inner.e2 a.inner.e3 : Kernel cap HouseAccount Unit).run t =
      (effectAfter t.blockNumber t.account (i.wager hv)).map fun r => ((), commit t r) := by
  have hother : (if i.playerNum = 1 then (2 : Felt) else 1) = (i.wager hv).player.other.num :=
    (Inputs.player_other_num i).symm
  have hpath : path t.blockNumber t.account.storage (i.wager hv) =
      if t.account.storage.isPlayerRegistered i.roundId (i.wager hv).player.other.num = 0
      then .register else .settle := path_of_inTime htime
  have hcommitment (f : Felt → Felt → Option (Unit × TxState cap HouseAccount)) :
      (Felt.fromU64Unchecked (i.p1Suffix.asU64 ^^^ i.p2Suffix.asU64)).bind
          (fun s => (Felt.fromU64Unchecked (i.p1Prefix.asU64 ^^^ i.p2Prefix.asU64)).bind
            fun p => f s p) =
        if (i.wager hv).XorFits then f (i.wager hv).idXorS (i.wager hv).idXorP else none :=
    bind_commitment (i.wager hv) f
  simp only [play, effectAfter, StateT.run_bind, run_read, run_assertEq, run_fromU64Unchecked,
    Option.bind_eq_bind, Option.bind_some, Option.bind_map, Function.comp_def, bind_guard,
    asU64_beq_one, asU64_beq_zero, decide_eq_true_eq, hother, hpath, hcommitment]
  by_cases hreg : t.account.storage.isPlayerRegistered i.roundId (i.wager hv).player.other.num = 0
  · -- first note: nothing is paid, the slot under the note's own number is written
    simp only [hreg, if_true, StateT.run_bind, run_write, Option.bind_eq_bind, Option.bind_some]
    rw [← Inputs.player_num hv]
    by_cases hfits : (i.wager hv).XorFits
    · simp only [hfits, if_true, true_and]
      change (if t.account.storage.isRoundSettled i.roundId = 0 then _ else none) =
        Option.map _ (if t.account.storage.isRoundSettled i.roundId = 0 then _ else none)
      split
      · simp only [commit, TxState.setStorage, Option.map_some, List.map_nil, List.append_nil]
        rfl
      · rfl
    · simp only [hfits, if_false, false_and, ite_self, Option.map_none]
  · simp only [hreg, if_false]
    by_cases hfits : (i.wager hv).XorFits
    · simp only [hfits, if_true, true_and]
      rw [ite_and]
      change (if t.account.storage.isRoundSettled i.roundId = 0 then _ else none) =
        Option.map _ (if t.account.storage.isRoundSettled i.roundId = 0 then _ else none)
      split
      · rw [run_settle t hv hbv]
        split
        · rw [Option.map_map]
          rfl
        · rfl
      · rfl
    · simp only [hfits, if_false, false_and, ite_self, Option.map_none]

theorem asU64_le (a : Felt) (n : UInt64) : a.asU64 ≤ n ↔ a.val ≤ n.toNat := by
  rw [UInt64.le_iff_toNat_le, Felt.asU64_toNat]

theorem asU64_lt (a b : Felt) : a.asU64 < b.asU64 ↔ a.val < b.val := by
  rw [UInt64.lt_iff_toNat_lt, Felt.asU64_toNat, Felt.asU64_toNat]

theorem fromU64_length {n : Nat} (h : n < 2 ^ 32) :
    Felt.fromU64Unchecked (UInt64.ofNat n) = some (.ofNat n) := by
  have hto : (UInt64.ofNat n).toNat = n := by
    rw [UInt64.toNat_ofNat']
    exact Nat.mod_eq_of_lt (h.trans (by decide))
  have hlt : n < Felt.modulus := h.trans (by decide)
  rw [Felt.fromU64Unchecked_of_le (hto.trans_le hlt.le), hto]

theorem ofNat_eq_one {n : Nat} (h : n < 2 ^ 32) : Felt.ofNat n = 1 ↔ n = 1 := by
  rw [Fin.ext_iff, Felt.ofNat_val_of_lt (h.trans (by decide))]
  rfl

theorem ite_eq_one (c : Prop) [Decidable c] : (if c then (1 : Felt) else 0) = 1 ↔ c := by
  split
  · next h => exact iff_of_true rfl h
  · next h => exact iff_of_false (by decide) h

theorem valid_iff :
    i.Valid houseId a ↔
      (i.playerNum.asU64 == 1 || i.playerNum.asU64 == 2) = true ∧
      i.h.asU64 ≤ 3 ∧ i.g.asU64 ≤ 6 ∧ a.inner.e0 = i.betValue ∧
      (houseId.idSuffix.asU64 == i.houseSuffix.asU64 &&
        houseId.idPrefix.asU64 == i.housePrefix.asU64) = true ∧ a.inner.e1 = 0 := by
  have hone : i.playerNum.asU64 = 1 ↔ i.playerNum = 1 := Felt.asU64_inj i.playerNum 1
  have htwo : i.playerNum.asU64 = 2 ↔ i.playerNum = 2 := Felt.asU64_inj i.playerNum 2
  have hhouse : houseId = ⟨i.houseSuffix, i.housePrefix⟩ ↔
      houseId.idSuffix = i.houseSuffix ∧ houseId.idPrefix = i.housePrefix := by
    cases houseId
    simp
  simp only [Bool.or_eq_true, Bool.and_eq_true, beq_iff_eq, hone, htwo, Felt.asU64_inj,
    asU64_le, ← hhouse]
  constructor
  · intro hv
    exact ⟨hv.playerNum, hv.h_le, hv.g_le, hv.amount, hv.house, hv.fungible⟩
  · rintro ⟨h₁, h₂, h₃, h₄, h₅, h₆⟩
    exact ⟨h₁, h₂, h₃, h₄, h₅, h₆⟩

theorem run_branches (hv : i.Valid t.account.id a) :
    (((t.account.vault.add ⟨a.inner.e2, a.inner.e3⟩ i.betValue.val).map fun v =>
        ((), t.setVault v)).bind fun p =>
      (if p.2.blockNumber.asU64 > i.expiryBlock.asU64 then expiryRecall i a.inner.e2 a.inner.e3
        else play i a.inner.e2 a.inner.e3 : Kernel cap HouseAccount Unit).run p.2) =
      (effect t.blockNumber t.account (i.wager hv)).map fun r => ((), commit t r) := by
  have hadd : t.account.vault.add ⟨a.inner.e2, a.inner.e3⟩ i.betValue.val =
    t.account.vault.add (i.wager hv).faucet (i.wager hv).betValue.val := rfl
  rw [effect, hadd]
  cases hvault : t.account.vault.add (i.wager hv).faucet (i.wager hv).betValue.val with
  | none => rfl
  | some v =>
    have hbv : i.betValue.val < 2 ^ 63 := by
      have hle := (AssetVault.add_eq_some.mp hvault).1
      have hcap := cap.value_lt
      change _ + i.betValue.val ≤ _ at hle
      omega
    change (if i.expiryBlock.asU64 < t.blockNumber.asU64 then expiryRecall i a.inner.e2 a.inner.e3
      else play i a.inner.e2 a.inner.e3 : Kernel cap HouseAccount Unit).run (t.setVault v) =
        (effectAfter t.blockNumber { t.account with vault := v } (i.wager hv)).map _
    by_cases htime : i.expiryBlock.val < t.blockNumber.val
    · have hpath : path t.blockNumber t.account.storage (i.wager hv) = .refund := if_pos htime
      rw [if_pos ((asU64_lt _ _).mpr htime), run_expiryRecall (t.setVault v) hv]
      simp only [effectAfter, hpath, Option.map_map]
      rfl
    · rw [if_neg (htime ∘ (asU64_lt _ _).mp), run_play (t.setVault v) hv hbv htime]
      rfl

/-- The script completes exactly when its note is a wager whose effect is
defined on the account, and then leaves that effect behind. -/
theorem run_eq (note : Note) :
    (run note : Kernel cap HouseAccount Unit).run t =
      ((wager t.account.id note).bind (effect t.blockNumber t.account)).map fun r =>
        ((), commit t r) := by
  have hlength := ofNat_eq_one note.assets_length
  simp only [run, StateT.run_bind, run_readInputs, run_assert, run_assertEq, run_index, run_getId,
    run_fromU64Unchecked, run_getBlockNumber, run_receiveAsset, Option.bind_eq_bind,
    Option.bind_some, Option.map_some, bind_guard, Felt.fromU64Unchecked_bool,
    fromU64_length note.assets_length, ite_eq_one, decide_eq_true_eq, hlength, wager]
  cases hinputs : Inputs.ofList note.inputs with
  | none => rfl
  | some i =>
    rcases hassets : note.assets with _ | ⟨a, _ | ⟨b, assets⟩⟩
    · simp
    · have hvalid := @valid_iff t.account.id i a
      simp only [Option.map_some, Option.bind_some, List.length_singleton, if_true,
        List.getElem?_cons_zero]
      by_cases hv : i.Valid t.account.id a
      · obtain ⟨h₁, h₂, h₃, h₄, h₅, h₆⟩ := hvalid.mp hv
        simp only [h₁, h₂, h₃, h₄, h₅, h₆, hv, if_true, dif_pos, Option.bind_some]
        exact run_branches t hv
      · rw [dif_neg hv, Option.bind_none, Option.map_none]
        simp only [← ite_and]
        split
        · next h =>
          obtain ⟨h₁, h₂, h₃, h₄, h₅⟩ := h
          rw [if_neg fun h₆ => hv (hvalid.mpr ⟨h₁, h₂, h₃, h₄, h₅, h₆⟩)]
          rfl
        · rfl
    · simp

end Run

theorem effect_eq_some {s s' : Account cap HouseAccount} {block : Felt} {w : Wager}
    {ps : List Payment} :
    effect block s w = some (s', ps) ↔
      ∃ v, s.vault.add w.faucet w.betValue.val = some v ∧
        (path block s.storage w = .refund ∧ s' = s ∧ ps = [w.refund] ∨
        path block s.storage w = .register ∧
          (w.XorFits ∧ s.storage.isRoundSettled w.roundId = 0) ∧
          s' = { s with storage := register s.storage w, vault := v } ∧ ps = [] ∨
        path block s.storage w = .settle ∧
          (w.XorFits ∧ s.storage.isRoundSettled w.roundId = 0) ∧
          w.terms = (s.storage.slot w.roundId w.player.other.num).terms ∧
          ∃ v', v.remove w.faucet
              (w.totalPrize (s.storage.slot w.roundId w.player.other.num).hand) = some v' ∧
            s' = { s with storage := close s.storage w, vault := v' } ∧
            ps = w.prizes (s.storage.slot w.roundId w.player.other.num).hand) := by
  rw [effect, Option.bind_eq_some_iff]
  refine exists_congr fun v => and_congr_right fun hv => ?_
  unfold effectAfter
  cases hpath : path block s.storage w with
  | refund =>
    simp only [AssetVault.remove_add hv, Option.map_some, Option.some.injEq, Prod.mk.injEq,
      true_and, reduceCtorEq, false_and, or_false]
    exact and_congr eq_comm eq_comm
  | register =>
    simp [and_comm, eq_comm]
  | settle =>
    simp only [reduceCtorEq, false_and, false_or, true_and]
    rw [ite_eq_iff]
    simp [and_assoc, eq_comm]

end BetNote

end AllaMorra
