import AllaMorra.Runs

/-! The contracts refine the ledger of rounds. `encode` lays rounds out in the
bets map; on an encoded house the script is the ledger's `consume`, so every
run from an empty bets map is a run of the ledger and every state it reaches
is the layout of one. The layout is the whole representation invariant: what a
ledger cannot express, no reachable bets map contains. -/

namespace AllaMorra

open HouseAccount BetNote

variable {cap : KernelCap}

namespace Round

def slot (round : Round) (playerNum : Felt) : Slot :=
  match round with
  | .waiting p bet => if playerNum = p.num then bet.slot else Slot.empty
  | _ => Slot.empty

def flag : Round → Felt
  | .settled => 1
  | _ => 0

theorem slot_waiting_self (p : Player) (bet : Bet) :
    (waiting p bet).slot p.num = bet.slot := if_pos rfl

theorem Free.slot_of_ne {round : Round} {p : Player} (h : round.Free p) {playerNum : Felt}
    (hne : playerNum ≠ p.num) : round.slot playerNum = Slot.empty := by
  obtain rfl | ⟨bet, rfl⟩ := h
  · rfl
  · exact if_neg hne

theorem Free.slot_other {round : Round} {p : Player} (h : round.Free p) :
    round.slot p.other.num = Slot.empty := h.slot_of_ne p.num_other_ne

theorem Free.flag {round : Round} {p : Player} (h : round.Free p) : round.flag = 0 := by
  obtain rfl | ⟨bet, rfl⟩ := h <;> rfl

end Round

structure HouseAccount.Holds (house : HouseAccount) (r : Felt) (round : Round) : Prop where
  slot : ∀ p, house.slot r p = round.slot p
  flag : house.isRoundSettled r = round.flag

namespace HouseAccount.Holds

variable {house : HouseAccount} {r block : Felt} {round : Round} {w : Wager}

theorem isPlayerRegistered (h : house.Holds r round) (p : Felt) :
    house.isPlayerRegistered r p = (round.slot p).registered := congrArg Slot.registered (h.slot p)

theorem free_of_register (h : house.Holds w.roundId round)
    (hpath : path block house w = .register) (hopen : house.isRoundSettled w.roundId = 0) :
    round.Free w.player := by
  obtain ⟨-, hregistered⟩ := path_eq_register_iff.mp hpath
  rw [h.isPlayerRegistered] at hregistered
  rw [h.flag] at hopen
  obtain hfree | ⟨bet, rfl⟩ | rfl := round.cases_of_player w.player
  · exact hfree
  · rw [Round.slot_waiting_self] at hregistered
    cases hregistered
  · cases hopen

theorem waiting_of_settle (h : house.Holds w.roundId round)
    (hpath : path block house w = .settle) : ∃ bet, round = .waiting w.player.other bet := by
  obtain ⟨-, hregistered⟩ := path_eq_settle_iff.mp hpath
  rw [h.isPlayerRegistered] at hregistered
  obtain hfree | hwait | rfl := round.cases_of_player w.player
  · rw [hfree.slot_other] at hregistered
    exact absurd rfl hregistered
  · exact hwait
  · exact absurd rfl hregistered

theorem register (h : house.Holds w.roundId round) (hfree : round.Free w.player) :
    (register house w).Holds w.roundId (.waiting w.player w.bet) where
  slot p := by
    rw [slot_register]
    by_cases hp : p = w.player.num
    · rw [if_pos ⟨rfl, hp⟩, hp]
      exact (Round.slot_waiting_self ..).symm
    · rw [if_neg fun h => hp h.2, h.slot, hfree.slot_of_ne hp]
      exact ((Round.free_waiting w.player w.bet).slot_of_ne hp).symm
  flag := by
    rw [isRoundSettled_register, h.flag, hfree.flag]
    rfl

theorem register_of_ne (h : house.Holds r round) (hr : r ≠ w.roundId) :
    (BetNote.register house w).Holds r round where
  slot p := by rw [slot_register, if_neg fun h => hr h.1, h.slot]
  flag := by rw [isRoundSettled_register, h.flag]

theorem close {bet : Bet} (h : house.Holds w.roundId (.waiting w.player.other bet)) :
    (close house w).Holds w.roundId .settled where
  slot p := by
    rw [slot_close]
    by_cases hp : p = w.player.other.num
    · rw [if_pos ⟨rfl, hp⟩]
      rfl
    · rw [if_neg fun h => hp h.2, h.slot]
      exact (Round.free_waiting w.player.other bet).slot_of_ne hp
  flag := by
    rw [isRoundSettled_close, if_pos rfl]
    rfl

theorem close_of_ne (h : house.Holds r round) (hr : r ≠ w.roundId) :
    (BetNote.close house w).Holds r round where
  slot p := by rw [slot_close, if_neg fun h => hr h.1, h.slot]
  flag := by rw [isRoundSettled_close, if_neg hr, h.flag]

end HouseAccount.Holds

/-- The bets map that holds the given rounds and nothing else. -/
def encode (rounds : Felt → Round) : HouseAccount where
  bets := ⟨fun k =>
    if k.e3 = 0 then
      if k.e1 = 0 ∧ k.e2 = 99 then (rounds k.e0).flag
      else ((rounds k.e0).slot k.e1).field k.e2
    else 0⟩

theorem slot_encode (rounds : Felt → Round) (r p : Felt) :
    (encode rounds).slot r p = (rounds r).slot p := by
  have hget (idx : Felt) (hidx : idx ≠ 99) :
      (encode rounds).bets.get (playerKey r p idx) = ((rounds r).slot p).field idx := by
    simp [encode, StorageMap.get, playerKey, hidx]
  simp only [slot, getPlayerH, getPlayerG, isPlayerRegistered, getPlayerFaucetSuffix,
    getPlayerFaucetPrefix, getPlayerBetValue, getPlayerIdXorS, getPlayerIdXorP]
  rw [hget 0 (by decide), hget 1 (by decide), hget 2 (by decide), hget 3 (by decide),
    hget 4 (by decide), hget 5 (by decide), hget 6 (by decide), hget 7 (by decide)]
  rfl

theorem isRoundSettled_encode (rounds : Felt → Round) (r : Felt) :
    (encode rounds).isRoundSettled r = (rounds r).flag := rfl

theorem holds_encode (rounds : Felt → Round) (r : Felt) : (encode rounds).Holds r (rounds r) :=
  ⟨slot_encode rounds r, isRoundSettled_encode rounds r⟩

theorem get_encode_of_not_isCell (rounds : Felt → Round) {k : Word} (hk : ¬ IsCell k) :
    (encode rounds).bets.get k = 0 := by
  simp only [IsCell, not_and_or, not_or, Nat.not_lt] at hk
  simp only [encode, StorageMap.get]
  split
  · next h3 =>
    obtain ⟨h2, hsettled⟩ := hk.resolve_left (· h3)
    rw [if_neg (by tauto), Slot.field_of_le _ h2]
  · rfl

theorem get_encode_congr {rounds rounds' : Felt → Round} {k : Word}
    (h : rounds k.e0 = rounds' k.e0) :
    (encode rounds).bets.get k = (encode rounds').bets.get k := by
  simp only [encode, StorageMap.get, h]

theorem eq_encode {house : HouseAccount} {rounds : Felt → Round}
    (hholds : ∀ r, house.Holds r (rounds r))
    (hrest : ∀ k, ¬ IsCell k → house.bets.get k = 0) : house = encode rounds :=
  ext_cells (fun r p => ((hholds r).slot p).trans (slot_encode rounds r p).symm)
    (fun r => (hholds r).flag)
    fun k hk => (hrest k hk).trans (get_encode_of_not_isCell rounds hk).symm

theorem encode_idle : encode (fun _ => .idle) = HouseAccount.empty :=
  (eq_encode (fun _ => ⟨fun _ => rfl, rfl⟩) fun _ _ => rfl).symm

theorem register_encode {rounds : Felt → Round} {w : Wager}
    (h : (rounds w.roundId).Free w.player) :
    register (encode rounds) w =
      encode (Function.update rounds w.roundId (.waiting w.player w.bet)) := by
  refine eq_encode (fun r => ?_) fun k hk => ?_
  · by_cases hr : r = w.roundId
    · rw [hr, Function.update_self]
      exact (holds_encode rounds w.roundId).register h
    · rw [Function.update_of_ne hr]
      exact (holds_encode rounds r).register_of_ne hr
  · rw [register, get_storePlayerRoundParams _ _ _ _ _ _ hk, get_storePlayerBet _ _ _ _ _ _ _ hk,
      get_encode_of_not_isCell rounds hk]

theorem close_encode {rounds : Felt → Round} {w : Wager} {bet : Bet}
    (h : rounds w.roundId = .waiting w.player.other bet) :
    close (encode rounds) w = encode (Function.update rounds w.roundId .settled) := by
  have hholds := holds_encode rounds w.roundId
  rw [h] at hholds
  refine eq_encode (fun r => ?_) fun k hk => ?_
  · by_cases hr : r = w.roundId
    · rw [hr, Function.update_self]
      exact hholds.close
    · rw [Function.update_of_ne hr]
      exact (holds_encode rounds r).close_of_ne hr
  · rw [close, get_clearPlayerBet _ _ _ hk, get_markRoundSettled _ _ hk,
      get_encode_of_not_isCell rounds hk]

theorem receipt_eq_some {τ : Type} {id : AccountId} {c : Consumption} {t : τ} {rc : Receipt}
    {f : Wager → Option (τ × Path × List Payment)} :
    ((wager id c.note).bind fun w => (f w).map fun (t, path, ps) =>
        (t, (⟨c.note, c.block, path, ps.map Payment.note⟩ : Receipt))) = some (t, rc) ↔
      ∃ w path ps, wager id c.note = some w ∧ f w = some (t, path, ps) ∧
        rc = ⟨c.note, c.block, path, ps.map Payment.note⟩ := by
  rw [Option.bind_eq_some_iff]
  constructor
  · rintro ⟨w, hw, h⟩
    obtain ⟨⟨t', path, ps⟩, hconsume, heq⟩ := Option.map_eq_some_iff.mp h
    obtain ⟨rfl, rfl⟩ := Prod.mk.inj heq
    exact ⟨w, path, ps, hw, hconsume, rfl⟩
  · rintro ⟨w, path, ps, hw, hconsume, rfl⟩
    exact ⟨w, hw, Option.map_eq_some_iff.mpr ⟨(t, path, ps), hconsume, rfl⟩⟩

namespace Ledger

def house (L : Ledger cap) : House cap := ⟨L.id, encode L.rounds, L.vault⟩

def start (id : AccountId) (vault : AssetVault cap) : Ledger cap := ⟨id, fun _ => .idle, vault⟩

theorem house_start {s : House cap} (h : s.storage = HouseAccount.empty) :
    (start s.id s.vault).house = s := by
  obtain ⟨id, storage, vault⟩ := s
  subst h
  simp only [house, start, encode_idle]

theorem slot_house (L : Ledger cap) (r p : Felt) :
    L.house.storage.slot r p = (L.rounds r).slot p := slot_encode L.rounds r p

theorem isPlayerRegistered_house (L : Ledger cap) (r p : Felt) :
    L.house.storage.isPlayerRegistered r p = ((L.rounds r).slot p).registered :=
  congrArg Slot.registered (L.slot_house r p)

theorem path_of_time (L : Ledger cap) {block : Felt} {w : Wager}
    (htime : ¬ w.expiryBlock.val < block.val) :
    path block L.house.storage w =
      if ((L.rounds w.roundId).slot w.player.other.num).registered = 0 then .register
      else .settle := by
  rw [path_of_inTime htime, isPlayerRegistered_house]

theorem path_house {L : Ledger cap} {block : Felt} {w : Wager} {round : Round} {branch : Path}
    {ps : List Payment} (h : (L.rounds w.roundId).consume block w = some (round, branch, ps)) :
    path block L.house.storage w = branch := by
  obtain ⟨htime, -, rfl, -⟩ | ⟨hplay, hfree, -, rfl, -⟩ | ⟨hplay, bet, hround, -, -, rfl, -⟩ :=
    Round.consume_eq_some.mp h
  · exact if_pos htime
  · rw [L.path_of_time hplay.inTime, hfree.slot_other]
    rfl
  · rw [L.path_of_time hplay.inTime, hround, Round.slot_waiting_self]
    rfl

/-- On an encoded house the script is the ledger's `consume`. -/
theorem effect_house (L : Ledger cap) (block : Felt) (w : Wager) :
    effect block L.house w = (L.consume block w).map fun r => (r.1.house, r.2.2) := by
  rw [effect, consume]
  change (L.vault.add w.faucet w.betValue.val).bind _ = _
  cases L.vault.add w.faucet w.betValue.val with
  | none => rfl
  | some v =>
    have hflag : L.house.storage.isRoundSettled w.roundId = (L.rounds w.roundId).flag := rfl
    simp only [Option.bind_some, effectAfter, slot_house, hflag]
    by_cases htime : w.expiryBlock.val < block.val
    · have hround := (L.rounds w.roundId).consume_expired htime
      simp only [path_house hround, hround, Option.bind_some, Option.map_map]
      refine Option.map_congr fun v' _ => ?_
      simp only [Function.comp_apply, house, setRound, Function.update_eq_self]
    by_cases hfits : w.XorFits
    swap
    · -- without a commitment both sides abort, on either path
      have hnone := (L.rounds w.roundId).consume_unfit htime hfits
      cases hpath : path block L.house.storage w with
      | refund => exact absurd (path_eq_refund_iff.mp hpath) htime
      | register => simp [hnone, hfits]
      | settle => simp [hnone, hfits]
    have hplay : w.Playable block := ⟨htime, hfits⟩
    obtain hfree | ⟨bet, hround⟩ | hround := (L.rounds w.roundId).cases_of_player w.player
    · have hround := Round.consume_free hplay hfree
      have hkeep : v.remove w.faucet 0 = some v := AssetVault.remove_zero v w.faucet
      simp only [path_house hround, hround, hfits, hfree.flag, and_self, if_true,
        Option.bind_some, List.map_nil, List.sum_nil, hkeep, Option.map_some]
      change some ({ L.house with storage := register (encode L.rounds) w, vault := v }, []) = _
      rw [register_encode hfree]
      rfl
    · have hpath : path block L.house.storage w = .settle := by
        rw [L.path_of_time htime, hround, Round.slot_waiting_self]
        rfl
      simp only [hpath, hround, Round.slot_waiting_self, Round.consume_waiting bet hplay, hfits,
        true_and]
      change (if (0 : Felt) = 0 ∧ w.terms = bet.terms then
        (v.remove w.faucet (w.totalPrize bet.move.toHand)).map fun v' =>
          ({ L.house with storage := close (encode L.rounds) w, vault := v' },
            w.prizes bet.move.toHand) else none) = _
      rw [close_encode hround]
      by_cases hterms : w.terms = bet.terms
      · simp only [hterms, and_self, if_true, Option.bind_some, w.prizes_amount, Option.map_map]
        rfl
      · rw [if_neg (fun h => hterms h.2), if_neg hterms]
        rfl
    · have hpath : path block L.house.storage w = .register := by
        rw [L.path_of_time htime, hround]
        rfl
      simp only [hpath, hround, Round.consume_settled htime, hfits, true_and]
      rfl

def step (L : Ledger cap) (c : Consumption) : Option (Ledger cap × Receipt) :=
  (wager L.id c.note).bind fun w => (L.consume c.block w).map fun (L', path, ps) =>
    (L', ⟨c.note, c.block, path, ps.map Payment.note⟩)

theorem consume_house (L : Ledger cap) (c : Consumption) :
    House.consume L.house c = (L.step c).map fun r => (r.1.house, r.2) := by
  rw [House.consume_eq, step]
  change (wager L.id c.note).bind _ = _
  cases wager L.id c.note with
  | none => rfl
  | some w =>
    simp only [Option.bind_some, effect_house, Option.map_map]
    refine Option.map_congr fun r hr => ?_
    obtain ⟨v, round, v', -, hround, -, -⟩ := consume_eq_some.mp hr
    simp only [Function.comp_apply, path_house hround]

theorem consume_house_eq_some {L : Ledger cap} {c : Consumption} {s : House cap} {rc : Receipt}
    (h : House.consume L.house c = some (s, rc)) :
    ∃ L', L.step c = some (L', rc) ∧ s = L'.house := by
  rw [consume_house] at h
  obtain ⟨⟨L', rc'⟩, hstep, heq⟩ := Option.map_eq_some_iff.mp h
  obtain ⟨rfl, rfl⟩ := Prod.mk.inj heq
  exact ⟨L', hstep, rfl⟩

theorem run_house (L : Ledger cap) (cs : List Consumption) :
    Machine.run House.consume L.house cs =
      (Machine.run step L cs).map fun r => (r.1.house, r.2) :=
  Machine.run_map house consume_house L cs

theorem run_house_eq_some {L : Ledger cap} {cs : List Consumption} {s : House cap}
    {log : List Receipt} (h : Machine.run House.consume L.house cs = some (s, log)) :
    ∃ L', Machine.run step L cs = some (L', log) ∧ s = L'.house := by
  rw [run_house] at h
  obtain ⟨⟨L', log'⟩, hrun, heq⟩ := Option.map_eq_some_iff.mp h
  obtain ⟨rfl, rfl⟩ := Prod.mk.inj heq
  exact ⟨L', hrun, rfl⟩

theorem step_eq_some {L L' : Ledger cap} {c : Consumption} {rc : Receipt} :
    L.step c = some (L', rc) ↔ ∃ w path ps, wager L.id c.note = some w ∧
      L.consume c.block w = some (L', path, ps) ∧
        rc = ⟨c.note, c.block, path, ps.map Payment.note⟩ := receipt_eq_some

inductive Step (L : Ledger cap) (c : Consumption) : Ledger cap → Receipt → Prop
  | refund (w : Wager) (v : AssetVault cap) (hw : wager L.id c.note = some w)
      (hadd : L.vault.add w.faucet w.betValue.val = some v)
      (htime : w.expiryBlock.val < c.block.val) :
      Step L c L ⟨c.note, c.block, .refund, [w.refund.note]⟩
  | register (w : Wager) (v : AssetVault cap) (hw : wager L.id c.note = some w)
      (hadd : L.vault.add w.faucet w.betValue.val = some v)
      (hplay : w.Playable c.block) (hfree : (L.rounds w.roundId).Free w.player) :
      Step L c (L.setRound w.roundId (.waiting w.player w.bet) v)
        ⟨c.note, c.block, .register, []⟩
  | settle (w : Wager) (bet : Bet) (v v' : AssetVault cap) (hw : wager L.id c.note = some w)
      (hadd : L.vault.add w.faucet w.betValue.val = some v) (hplay : w.Playable c.block)
      (hround : L.rounds w.roundId = .waiting w.player.other bet)
      (hterms : w.terms = bet.terms)
      (hremove : v.remove w.faucet (w.totalPrize bet.move.toHand) = some v') :
      Step L c (L.setRound w.roundId .settled v')
        ⟨c.note, c.block, .settle, (w.prizes bet.move.toHand).map Payment.note⟩

theorem step_iff {L L' : Ledger cap} {c : Consumption} {rc : Receipt} :
    L.step c = some (L', rc) ↔ Step L c L' rc := by
  rw [step_eq_some]
  constructor
  · rintro ⟨w, path, ps, hw, hconsume, rfl⟩
    obtain ⟨v, round, v', hadd, hround, hremove, rfl⟩ := consume_eq_some.mp hconsume
    obtain ⟨htime, rfl, rfl, rfl⟩ | ⟨hplay, hfree, rfl, rfl, rfl⟩ |
      ⟨hplay, bet, hwait, hterms, rfl, rfl, rfl⟩ := Round.consume_eq_some.mp hround
    · -- a refund takes out exactly what the deposit brought in
      have hback : v.remove w.faucet w.betValue.val = some L.vault := AssetVault.remove_add hadd
      obtain rfl : L.vault = v' := Option.some.inj (hback.symm.trans hremove)
      rw [setRound_eq_self]
      exact .refund w v hw hadd htime
    · obtain rfl : v = v' := Option.some.inj ((v.remove_zero w.faucet).symm.trans hremove)
      exact .register w v hw hadd hplay hfree
    · rw [w.prizes_amount] at hremove
      exact .settle w bet v v' hw hadd hplay hwait hterms hremove
  · intro h
    cases h with
    | refund w v hw hadd htime =>
      refine ⟨w, .refund, [w.refund], hw, consume_eq_some.mpr ⟨v, L.rounds w.roundId, L.vault,
        hadd, Round.consume_expired _ htime, ?_, L.setRound_eq_self _ |>.symm⟩, rfl⟩
      exact AssetVault.remove_add hadd
    | register w v hw hadd hplay hfree =>
      exact ⟨w, .register, [], hw, consume_eq_some.mpr ⟨v, _, v, hadd,
        Round.consume_free hplay hfree, v.remove_zero w.faucet, rfl⟩, rfl⟩
    | settle w bet v v' hw hadd hplay hround hterms hremove =>
      refine ⟨w, .settle, w.prizes bet.move.toHand, hw, consume_eq_some.mpr ⟨v, .settled, v', hadd,
        ?_, ?_, rfl⟩, rfl⟩
      · rw [hround, Round.consume_waiting bet hplay, if_pos hterms]
      · rwa [w.prizes_amount]

theorem Step.id_eq {L L' : Ledger cap} {c : Consumption} {rc : Receipt} (h : Step L c L' rc) :
    L'.id = L.id := by
  cases h <;> rfl

theorem execute_house {L : Ledger cap} {tx : Transaction} {s : House cap}
    {outs : List OutputNote} :
    Transaction.execute L.house tx = some (s, outs) ↔
      ∃ L' log, Machine.run step L tx.consumptions = some (L', log) ∧ s = L'.house ∧
        outs = log.flatMap Receipt.payouts ∧ Transaction.Admits cap tx outs := by
  rw [Transaction.execute_eq_some]
  constructor
  · rintro ⟨log, hrun, houts, hadmits⟩
    obtain ⟨L', hledger, rfl⟩ := run_house_eq_some hrun
    exact ⟨L', log, hledger, rfl, houts, hadmits⟩
  · rintro ⟨L', log, hledger, rfl, houts, hadmits⟩
    exact ⟨log, (run_house L _).trans (congrArg _ hledger), houts, hadmits⟩

theorem execute_house_eq_none {L : Ledger cap} {tx : Transaction}
    (h : Machine.run step L tx.consumptions = none) : Transaction.execute L.house tx = none :=
  Transaction.execute_eq_none ((run_house L _).trans (congrArg _ h))

end Ledger

theorem Reachable.exists_run {s : House cap} (h : Reachable s) :
    ∃ id vault cs log L, Machine.run Ledger.step (Ledger.start id vault) cs = some (L, log) ∧
      s = L.house := by
  obtain ⟨init, cs, log, hinit, hrun⟩ := h
  rw [← Ledger.house_start hinit] at hrun
  obtain ⟨L, hL, rfl⟩ := Ledger.run_house_eq_some hrun
  exact ⟨_, _, cs, log, L, hL, rfl⟩

end AllaMorra
