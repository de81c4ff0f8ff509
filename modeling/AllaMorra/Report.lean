import AllaMorra.Matches
import AllaMorra.Payouts
import AllaMorra.Settling

/-! The outcome that `settle_round` reports, against the notes its transaction pays
out. The report is computed before the transaction, in `u64` on the flags as they
were typed, and knows neither the block nor the state of the house. -/

namespace AllaMorra

open HouseAccount BetNote

variable {cap : KernelCap} {Forest : Type}

theorem Transaction.execute_pair {s s' : House cap} {block : Felt} {n₁ n₂ : Note}
    {outs : List OutputNote} (h : Transaction.execute s ⟨block, [n₁, n₂]⟩ = some (s', outs)) :
    ∃ t rc₁ rc₂, House.consume s ⟨n₁, block⟩ = some (t, rc₁) ∧
      House.consume t ⟨n₂, block⟩ = some (s', rc₂) ∧ outs = rc₁.payouts ++ rc₂.payouts := by
  obtain ⟨log, hrun, rfl, -⟩ := Transaction.execute_eq_some.mp h
  obtain ⟨t, rc₁, log', hfirst, hrest, rfl⟩ := (Machine.run_cons ..).mp hrun
  obtain ⟨rc₂, hsecond, rfl⟩ := (Machine.run_singleton ..).mp hrest
  exact ⟨t, rc₁, rc₂, hfirst, hsecond, by simp⟩

theorem House.payouts_of_late {s s' : House cap} {c : Consumption} {rc : Receipt} {w : Wager}
    (h : House.consume s c = some (s', rc)) (hw : wager s.id c.note = some w)
    (hlate : w.expiryBlock.val < c.block.val) : rc.payouts = [w.refund.note] := by
  obtain ⟨w', ps, hw', heffect, rfl⟩ := House.consume_eq_some.mp h
  obtain rfl : w = w' := Option.some.inj (hw.symm.trans hw')
  have hpath : path c.block s.storage w = .refund := path_eq_refund_iff.mpr hlate
  obtain ⟨v, -, ⟨-, -, rfl⟩ | ⟨hregister, -⟩ | ⟨hsettle, -⟩⟩ := effect_eq_some.mp heffect
  · rfl
  · exact absurd (hpath.symm.trans hregister) (by decide)
  · exact absurd (hpath.symm.trans hsettle) (by decide)

namespace Match

variable {m : Match} {moves : Player → Move} {faucets : Player → AccountId}
  {notes : Player → Note} {s s' : House cap} {block : Felt} {outs : List OutputNote}

theorem CarriedBy.outs_of_late (hnotes : m.CarriedBy moves faucets s.id notes)
    (hlate : m.expiryBlock.val < block.val)
    (h : Transaction.execute s ⟨block, [notes .one, notes .two]⟩ = some (s', outs)) :
    outs = [(m.wager .one (moves .one) (faucets .one)).refund.note,
      (m.wager .two (moves .two) (faucets .two)).refund.note] := by
  obtain ⟨t, rc₁, rc₂, hfirst, hsecond, rfl⟩ := Transaction.execute_pair h
  have hid : t.id = s.id := House.consume_id hfirst
  rw [House.payouts_of_late hfirst (hnotes .one) hlate,
    House.payouts_of_late hsecond (hid ▸ hnotes .two) hlate]
  rfl

theorem CarriedBy.outs_of_inTime (hnotes : m.CarriedBy moves faucets s.id notes)
    (htime : block.val ≤ m.expiryBlock.val)
    (h : Transaction.execute s ⟨block, [notes .one, notes .two]⟩ = some (s', outs)) :
    outs = (m.prizes moves (faucets .two)).map Payment.note := by
  obtain ⟨t, rc₁, rc₂, hfirst, hsecond, rfl⟩ := Transaction.execute_pair h
  have hid : t.id = s.id := House.consume_id hfirst
  obtain ⟨w₁, ps₁, hw₁, heffect₁, rfl⟩ := House.consume_eq_some.mp hfirst
  obtain ⟨w₂, ps₂, hw₂, heffect₂, rfl⟩ := House.consume_eq_some.mp hsecond
  obtain rfl := Option.some.inj ((hnotes .one).symm.trans hw₁)
  obtain rfl := Option.some.inj ((hid ▸ hnotes .two).symm.trans hw₂)
  have hinTime (s : House cap) (p : Player) :
      path block s.storage (m.wager p (moves p) (faucets p)) ≠ .refund :=
    fun hpath => absurd (path_eq_refund_iff.mp hpath) (Nat.not_lt.mpr htime)
  let w := m.wager .one (moves .one) (faucets .one)
  obtain ⟨v, -, ⟨hpath, -⟩ | ⟨-, -, rfl, rfl⟩ | ⟨-, -, -, v', -, rfl, -⟩⟩ :=
    effect_eq_some.mp heffect₁
  · exact absurd hpath (hinTime _ _)
  · -- the slot of the first player holds the bet that the second note meets
    have hslot : (register s.storage w).slot m.roundId 1 = w.bet.slot := by
      rw [slot_register]
      exact if_pos ⟨rfl, rfl⟩
    obtain ⟨u, -, ⟨hpath, -⟩ | ⟨hpath, -⟩ | ⟨-, -, -, u', -, -, rfl⟩⟩ :=
      effect_eq_some.mp heffect₂
    · exact absurd hpath (hinTime _ _)
    · have hfree := (path_eq_register_iff.mp hpath).2
      cases (congrArg Slot.registered hslot).symm.trans hfree
    · change [] ++ ((m.wager .two (moves .two) (faucets .two)).prizes
        ((register s.storage w).slot m.roundId 1).hand).map Payment.note = _
      rw [hslot]
      rfl
  · -- the first note has closed the round
    have hclosed : (close s.storage w).isRoundSettled m.roundId = 1 := by
      rw [isRoundSettled_close]
      exact if_pos rfl
    obtain ⟨u, -, ⟨hpath, -⟩ | ⟨-, ⟨-, hopen⟩, -⟩ | ⟨-, ⟨-, hopen⟩, -⟩⟩ :=
      effect_eq_some.mp heffect₂
    · exact absurd hpath (hinTime _ _)
    · cases hclosed.symm.trans hopen
    · cases hclosed.symm.trans hopen

end Match

namespace SettleRound

theorem append_ne {a b : String} (h : a.toList.take 2 ≠ b.toList.take 2)
    (ha : 2 ≤ a.toList.length) (hb : 2 ≤ b.toList.length) (s t : String) : a ++ s ≠ b ++ t := by
  intro heq
  have htake := congrArg (fun s => s.toList.take 2) heq
  simp only [String.toList_append, List.take_append_of_le_length ha,
    List.take_append_of_le_length hb] at htake
  exact h htake

theorem toString_inj {x y : UInt64} : toString x = toString y ↔ x = y :=
  Nat.repr_inj.trans UInt64.toNat_inj

theorem Outcome.text_inj {o o' : Outcome} : o.text = o'.text ↔ o = o' := by
  have hp1p2 := @append_ne "P1 WINS — payout " "P2 WINS — payout " (by decide) (by decide)
    (by decide)
  have hp1draw := @append_ne "P1 WINS — payout " "DRAW — " (by decide) (by decide) (by decide)
  have hp2draw := @append_ne "P2 WINS — payout " "DRAW — " (by decide) (by decide) (by decide)
  have hp1 (x : UInt64) : (p1Wins x).text = "P1 WINS — payout " ++ (toString x ++ " base units") :=
    String.append_assoc ..
  have hp2 (x : UInt64) : (p2Wins x).text = "P2 WINS — payout " ++ (toString x ++ " base units") :=
    String.append_assoc ..
  have hdraw (x : UInt64) : (draw x).text = "DRAW — " ++ (toString x ++ " base units each") :=
    String.append_assoc ..
  cases o <;> cases o' <;>
    simp only [hp1, hp2, hdraw, String.append_right_inj, String.append_left_inj, toString_inj,
      hp1p2, hp1draw, hp2draw, Ne.symm (hp1p2 _ _), Ne.symm (hp1draw _ _), Ne.symm (hp2draw _ _),
      reduceCtorEq, Outcome.p1Wins.injEq, Outcome.p2Wins.injEq, Outcome.draw.injEq]

def Outcome.payouts : Outcome → List (Player × UInt64)
  | .p1Wins payout => [(.one, payout)]
  | .p2Wins payout => [(.two, payout)]
  | .draw each => [(.one, each), (.two, each)]

/-- A note for this player: to the player's account, and with the player's number in
its serial number unless it is a refund. -/
def PaysTo (ids : Accounts) (n : OutputNote) (p : Player) : Prop :=
  n.recipient.inputs = [(ids.player p).idSuffix, (ids.player p).idPrefix] ∧
    (n.recipient.serialNum.e1 = p.num ∨ n.recipient.serialNum.e1 = 3)

def Describes (text : String) (ids : Accounts) (outs : List OutputNote) : Prop :=
  ∃ outcome : Outcome, outcome.text = text ∧
    List.Forall₂ (fun x n => PaysTo ids n x.1 ∧ n.amount = x.2.toNat) outcome.payouts outs

theorem describes_text_iff {outcome : Outcome} {ids : Accounts} {outs : List OutputNote} :
    Describes outcome.text ids outs ↔
      List.Forall₂ (fun x n => PaysTo ids n x.1 ∧ n.amount = x.2.toNat) outcome.payouts outs := by
  constructor
  · rintro ⟨o, htext, houts⟩
    rwa [Outcome.text_inj.mp htext] at houts
  · intro houts
    exact ⟨outcome, rfl, houts⟩

theorem paysTo_note {ids : Accounts} {q : Payment} {p : Player} :
    PaysTo ids q.note p ↔
      q.recipient = ids.player p ∧ (q.reason = .prize p ∨ q.reason = .refund) := by
  have hto : q.note.recipient.inputs = [(ids.player p).idSuffix, (ids.player p).idPrefix] ↔
      q.recipient = ids.player p := by
    rw [AccountId.ext_iff]
    simp [Payment.note, payoutNote]
  have hserial : q.note.recipient.serialNum.e1 = q.reason.serial := rfl
  rw [PaysTo, hto, hserial]
  refine and_congr_right fun _ => ?_
  cases q.reason with
  | refund => simp [Reason.serial]
  | prize p' =>
    have hthree : p'.num ≠ 3 := by cases p' <;> decide
    simp [Reason.serial, Player.num_inj, hthree]

theorem forall₂_iff_map_eq {α β : Type} {R : α → β → Prop} {f : α → β} {ys : List β}
    (h : ∀ y ∈ ys, ∀ x, R x y ↔ f x = y) (xs : List α) :
    List.Forall₂ R xs ys ↔ xs.map f = ys := by
  induction ys generalizing xs with
  | nil => rw [List.forall₂_nil_right_iff, List.map_eq_nil_iff]
  | cons y ys ih =>
    obtain ⟨hy, hys⟩ := List.forall_mem_cons.mp h
    cases xs with
    | nil => simp
    | cons x xs => rw [List.forall₂_cons, hy, ih hys, List.map_cons, List.cons.injEq]

theorem describes_prizes_iff {outcome : Outcome} {ids : Accounts} {m : Match}
    (haccount : ∀ p, m.account p = ids.player p) (hbet : m.betValue.val < 2 ^ 63)
    (moves : Player → Move) (faucet : AccountId) :
    Describes outcome.text ids ((m.prizes moves faucet).map Payment.note) ↔
      outcome.payouts.map (fun x => (x.1, x.2.toNat)) =
        AllaMorra.payouts (moves .one).toHand (moves .two).toHand m.betValue.val := by
  rw [describes_text_iff, Match.prizes, List.map_map, List.forall₂_map_right_iff]
  refine forall₂_iff_map_eq (fun y hmem x => ?_) _
  obtain ⟨p, amount⟩ := y
  obtain ⟨q, x⟩ := x
  let prize : Payment := ⟨m.roundId, .prize p, amount, faucet, m.account p⟩
  have hamount : prize.note.amount = amount :=
    Payment.amount_note ((payouts_le _ hmem).trans_lt (winnerPayout_lt hbet))
  change PaysTo ids prize.note q ∧ prize.note.amount = x.toNat ↔ _
  rw [paysTo_note, hamount]
  simp only [prize, haccount, Reason.prize.injEq, reduceCtorEq, or_false, Prod.mk.injEq]
  constructor
  · rintro ⟨⟨-, rfl⟩, rfl⟩
    exact ⟨rfl, rfl⟩
  · rintro ⟨rfl, rfl⟩
    exact ⟨⟨rfl, rfl⟩, rfl⟩

theorem describes_refunds_iff {outcome : Outcome} {ids : Accounts} {w : Player → Wager}
    {betValue : Felt} (hplayer : ∀ p, (w p).account (w p).player = ids.player p)
    (hbet : ∀ p, (w p).betValue = betValue) :
    Describes outcome.text ids [(w .one).refund.note, (w .two).refund.note] ↔
      ∃ each, outcome = .draw each ∧ each.toNat = betValue.val := by
  have hpays (p : Player) : PaysTo ids (w p).refund.note p :=
    paysTo_note.mpr ⟨hplayer p, .inr rfl⟩
  have hamount (p : Player) : (w p).refund.note.amount = betValue.val := by
    rw [← hbet p]
    exact Payment.amount_note (w p).betValue.isLt
  rw [describes_text_iff]
  cases outcome with
  | p1Wins payout => simp [Outcome.payouts]
  | p2Wins payout => simp [Outcome.payouts]
  | draw each => simp [Outcome.payouts, hpays, hamount, eq_comm]

theorem eq_add_mod_iff {a b c : Nat} (ha : a < 2 ^ 64) (hb : b < 2 ^ 64) (hc : c < 2 ^ 64)
    (ha' : a % Felt.modulus ≤ 3) (hb' : b % Felt.modulus ≤ 3) (hc' : c % Felt.modulus ≤ 6) :
    c = (a + b) % 2 ^ 64 ↔ c % Felt.modulus = a % Felt.modulus + b % Felt.modulus ∧
      c / Felt.modulus = a / Felt.modulus + b / Felt.modulus := by
  unfold Felt.modulus at *
  have hquotient {x : Nat} (hx : x < 2 ^ 64) :
      x / 18446744069414584321 = 0 ∨ x / 18446744069414584321 = 1 := by
    omega
  obtain h₁ | h₁ := hquotient ha <;> obtain h₂ | h₂ := hquotient hb <;>
    obtain h₃ | h₃ := hquotient hc <;> omega

namespace Args

variable (args : Args)

/-- The guess of a player is the total, as the contract reads the flags. -/
def Guesses (p : Player) : Prop :=
  (Felt.new (args.g p)).val = (Felt.new args.p1H).val + (Felt.new args.p2H).val

instance (p : Player) : Decidable (args.Guesses p) := inferInstanceAs (Decidable (_ = _))

/-- How often the field order goes into a flag, which the field does not keep. -/
def reductions (v : UInt64) : Nat := v.toNat / Felt.modulus

def Kept (p : Player) : Prop :=
  reductions (args.g p) = reductions args.p1H + reductions args.p2H

instance (p : Player) : Decidable (args.Kept p) := inferInstanceAs (Decidable (_ = _))

structure Carries (moves : Player → Move) : Prop where
  h : ∀ p, (moves p).h = Felt.new (args.h p)
  g : ∀ p, (moves p).g = Felt.new (args.g p)

variable {args} {moves : Player → Move}

theorem Carries.eq_total_iff (h : args.Carries moves) (p : Player) :
    args.g p = args.p1H + args.p2H ↔ args.Guesses p ∧ args.Kept p := by
  have hone := h.h .one ▸ (moves .one).h_le
  have htwo := h.h .two ▸ (moves .two).h_le
  have hg := h.g p ▸ (moves p).g_le
  rw [← UInt64.toNat_inj, UInt64.toNat_add]
  exact eq_add_mod_iff args.p1H.toNat_lt args.p2H.toNat_lt (args.g p).toNat_lt hone htwo hg

theorem kept_of_lt (hh : ∀ p, (args.h p).toNat < Felt.modulus)
    (hg : ∀ p, (args.g p).toNat < Felt.modulus) (p : Player) : args.Kept p := by
  have hone : reductions args.p1H = 0 := Nat.div_eq_of_lt (hh .one)
  have htwo : reductions args.p2H = 0 := Nat.div_eq_of_lt (hh .two)
  have hguess : reductions (args.g p) = 0 := Nat.div_eq_of_lt (hg p)
  rw [Kept, hone, htwo, hguess]

theorem kept_of_repeats {sdk : Sdk} {bets : Player → PublishBet.Args}
    {ids : Player → PublishBet.Accounts} {hex : Player → String}
    (haccepts : ∀ p, PublishBet.Accepts sdk cap (bets p) (ids p))
    (hrepeats : ∀ p, Repeats p (bets p) (hex p) args) (p : Player) : args.Kept p := by
  refine kept_of_lt (fun q => ?_) (fun q => ?_) p
  · rw [(hrepeats q).h]
    exact (UInt64.le_iff_toNat_le.mp (haccepts q).h_le).trans_lt (by decide)
  · rw [(hrepeats q).g]
    exact (UInt64.le_iff_toNat_le.mp (haccepts q).g_le).trans_lt (by decide)

theorem outcome_eq_draw_iff {each : UInt64} :
    args.outcome = .draw each ↔
      (args.p1G = args.p1H + args.p2H ↔ args.p2G = args.p1H + args.p2H) ∧
        each = (args.betValue * 2 - args.betValue * 2 / 100) / 2 := by
  simp only [outcome, beq_iff_eq, bne_iff_ne, Bool.and_eq_true]
  by_cases hone : args.p1G = args.p1H + args.p2H <;>
    by_cases htwo : args.p2G = args.p1H + args.p2H <;>
    simp only [hone, htwo, ne_eq, not_true_eq_false, not_false_eq_true, and_true, and_false,
      if_true, if_false, reduceCtorEq, false_and, true_and, Outcome.draw.injEq, iff_self, iff_true,
      iff_false]
  · exact eq_comm
  · exact eq_comm

theorem Carries.outcome_payouts_iff (h : args.Carries moves)
    (hbet : args.betValue.toNat < 2 ^ 63) :
    args.outcome.payouts.map (fun x => (x.1, x.2.toNat)) =
        AllaMorra.payouts (moves .one).toHand (moves .two).toHand args.betValue.toNat ↔
      ∀ p, args.Guesses p → args.Kept p ∨ args.Guesses p.other ∧ ¬ args.Kept p.other := by
  have hone : args.p1G = args.p1H + args.p2H ↔ args.Guesses .one ∧ args.Kept .one :=
    h.eq_total_iff .one
  have htwo : args.p2G = args.p1H + args.p2H ↔ args.Guesses .two ∧ args.Kept .two :=
    h.eq_total_iff .two
  have hguess (p : Player) :
      (moves p).g.val = (moves .one).h.val + (moves .two).h.val ↔ args.Guesses p := by
    rw [h.g, h.h, h.h]
    rfl
  simp only [outcome, AllaMorra.payouts, Player.forall_iff, Player.other, hguess, beq_iff_eq,
    bne_iff_ne, Bool.and_eq_true, ne_eq, hone, htwo]
  -- who guesses the total, and for whom nothing is lost
  by_cases hg₁ : args.Guesses .one <;> by_cases hg₂ : args.Guesses .two <;>
    by_cases hk₁ : args.Kept .one <;> by_cases hk₂ : args.Kept .two <;>
    simp [hg₁, hg₂, hk₁, hk₂, Outcome.payouts, toNat_winnerPayout hbet, toNat_drawPayout hbet]

def game (args : Args) (ids : Accounts) : Match :=
  ⟨.new args.roundId, ids.p1, ids.p2, .new args.betValue, .new args.expiryBlock⟩

theorem game_account (ids : Accounts) (p : Player) :
    (args.game ids).account p = ids.player p := by cases p <;> rfl

theorem wager_note {package : Package Forest} {serialNum : Word} {ids : Accounts} {p : Player}
    {houseId : AccountId} {w : Wager}
    (h : wager houseId (args.note package serialNum ids p).toNote = some w) :
    w = (args.game ids).wager p w.move ids.faucet ∧ w.move.h = Felt.new (args.h p) ∧
      w.move.g = Felt.new (args.g p) := by
  obtain ⟨i, a, hi, ha, hv, rfl⟩ := exists_wager_iff.mp ⟨w, h, rfl⟩
  obtain rfl := Option.some.inj hi
  obtain rfl := (List.cons.inj ha).1
  refine ⟨?_, rfl, rfl⟩
  cases p <;> rfl

theorem exists_carriedBy {package : Package Forest} {serialNums : Player → Word}
    {ids : Accounts} {s s' : House cap} {block : Felt} {outs : List OutputNote}
    (h : Transaction.execute s ⟨block, [(args.note package (serialNums .one) ids .one).toNote,
      (args.note package (serialNums .two) ids .two).toNote]⟩ = some (s', outs)) :
    ∃ moves, args.Carries moves ∧ (args.game ids).CarriedBy moves (fun _ => ids.faucet) s.id
      fun p => (args.note package (serialNums p) ids p).toNote := by
  obtain ⟨t, rc₁, rc₂, hfirst, hsecond, -⟩ := Transaction.execute_pair h
  obtain ⟨w₁, -, hw₁, -⟩ := House.consume_eq_some.mp hfirst
  obtain ⟨w₂, -, hw₂, -⟩ := House.consume_eq_some.mp hsecond
  rw [House.consume_id hfirst] at hw₂
  obtain ⟨hone, hone_h, hone_g⟩ := wager_note hw₁
  obtain ⟨htwo, htwo_h, htwo_g⟩ := wager_note hw₂
  refine ⟨Player.pick w₁.move w₂.move, ⟨fun p => ?_, fun p => ?_⟩, fun p => ?_⟩
  · cases p <;> assumption
  · cases p <;> assumption
  · cases p with
    | one => exact hw₁.trans (congrArg some hone)
    | two => exact hw₂.trans (congrArg some htwo)

end Args

/-- Whenever the settlement goes through, on any house and at any block: in time, the
report describes the payout notes exactly when the field keeps what decides the winner;
after the expiry it does exactly when it reports a draw of a stake too small for a fee,
which is what the refunds amount to. -/
theorem report_agrees_iff (sdk : Sdk) (package : Package Forest) (args : Args)
    (plan : Plan Forest) (h : main sdk cap package args = .ok plan) (s s' : House cap)
    (block : Felt) (outs : List OutputNote)
    (hexec : Transaction.execute s ⟨block, [plan.note1.toNote, plan.note2.toNote]⟩ =
      some (s', outs)) :
    Describes plan.outcome plan.ids outs ↔
      if (Felt.new args.expiryBlock).val < block.val then
        (args.p1G = args.p1H + args.p2H ↔ args.p2G = args.p1H + args.p2H) ∧ args.betValue < 50
      else
        ∀ p, args.Guesses p → args.Kept p ∨ args.Guesses p.other ∧ ¬ args.Kept p.other := by
  obtain ⟨ids, serialNums, -, -, ⟨-, hcap⟩, rfl⟩ := main_eq_ok.mp h
  have hbet : args.betValue.toNat < 2 ^ 63 := hcap.trans_lt cap.value_lt
  have hgame : (args.game ids).betValue.val = args.betValue.toNat :=
    Felt.ofNat_val_of_lt (hbet.trans (by decide))
  obtain ⟨moves, hmoves, hnotes⟩ := Args.exists_carriedBy hexec
  split
  · next hlate =>
    obtain rfl := hnotes.outs_of_late hlate hexec
    let w (p : Player) : Wager := (args.game ids).wager p (moves p) ids.faucet
    have hplayer (p : Player) : (w p).account (w p).player = ids.player p := by
      cases p <;> rfl
    have hrefunds : Describes args.outcome.text ids [(w .one).refund.note, (w .two).refund.note] ↔
        ∃ each, args.outcome = .draw each ∧ each.toNat = (args.game ids).betValue.val :=
      describes_refunds_iff hplayer fun _ => rfl
    refine hrefunds.trans ?_
    simp only [Args.outcome_eq_draw_iff, hgame, and_assoc, exists_and_left, exists_eq_left,
      toNat_drawPayout hbet]
    refine and_congr_right fun _ => ?_
    rw [UInt64.lt_iff_toNat_lt]
    change _ ↔ args.betValue.toNat < 50
    unfold drawPayout winnerPayout
    omega
  · next htime =>
    obtain rfl := hnotes.outs_of_inTime (Nat.not_lt.mp htime) hexec
    rw [describes_prizes_iff (Args.game_account ids) (hgame ▸ hbet), hgame]
    exact hmoves.outcome_payouts_iff hbet

end SettleRound

namespace Testnet

def houseAccount : House Sample.kernelCap := House.fresh house AssetVault.empty

def plan : SettleRound.Plan Unit where
  ids := accounts
  outcome := "P1 WINS — payout 1980000 base units"
  note1 := settleArgs.note package serialNum accounts .one
  note2 := settleArgs.note package ⟨5, 6, 7, 8⟩ accounts .two

theorem settle_main : SettleRound.main sdk Sample.kernelCap package settleArgs = .ok plan := by
  refine SettleRound.main_eq_ok.mpr ⟨accounts, Player.pick serialNum ⟨5, 6, 7, 8⟩,
    settle_accounts, fun p => ?_, accepts.asset, ?_⟩
  · cases p <;> exact decodeWord_encodeWord _
  · have htext : settleArgs.outcome.text = "P1 WINS — payout 1980000 base units" := by
      decide +kernel
    rw [htext]
    rfl

def settlement (block : Felt) : Transaction := ⟨block, [plan.note1.toNote, plan.note2.toNote]⟩

end Testnet

namespace SettleRound

/-- One block after the expiry the house refunds both stakes; the report stays that
the first player wins. -/
theorem refund_reported_as_win : Reachable Testnet.houseAccount ∧
    main Testnet.sdk Sample.kernelCap Testnet.package Testnet.settleArgs = .ok Testnet.plan ∧
    ∃ s outs, Transaction.execute Testnet.houseAccount (Testnet.settlement 1000000) =
        some (s, outs) ∧ outs.map OutputNote.amount = [1000000, 1000000] ∧
      ¬ Describes Testnet.plan.outcome Testnet.plan.ids outs := by
  have hamounts : (Transaction.execute Testnet.houseAccount (Testnet.settlement 1000000)).map
      (fun r => r.2.map OutputNote.amount) = some [1000000, 1000000] := by
    decide +kernel
  obtain ⟨⟨s, outs⟩, hexec, heq⟩ := Option.map_eq_some_iff.mp hamounts
  refine ⟨Reachable.of_empty rfl, Testnet.settle_main, s, outs, hexec, heq, fun hdescribes => ?_⟩
  -- the report has one line for two notes
  have htext : Testnet.plan.outcome = (Outcome.p1Wins 1980000).text := by decide +kernel
  rw [htext, describes_text_iff] at hdescribes
  have hlen := hdescribes.length_eq.trans (List.length_map OutputNote.amount).symm
  rw [heq] at hlen
  cases hlen

theorem report_agrees_sample : ∃ s outs,
    Transaction.execute Testnet.houseAccount (Testnet.settlement 5) = some (s, outs) ∧
      Describes Testnet.plan.outcome Testnet.plan.ids outs := by
  have hsome : (Transaction.execute Testnet.houseAccount (Testnet.settlement 5)).isSome := by
    decide +kernel
  obtain ⟨⟨s, outs⟩, hexec⟩ := Option.isSome_iff_exists.mp hsome
  refine ⟨s, outs, hexec, ?_⟩
  refine (report_agrees_iff Testnet.sdk Testnet.package Testnet.settleArgs Testnet.plan
    Testnet.settle_main Testnet.houseAccount s 5 outs hexec).mpr ?_
  rw [if_neg (by decide)]
  intro p
  cases p <;> decide

end SettleRound

end AllaMorra
