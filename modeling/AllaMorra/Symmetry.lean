import AllaMorra.Matches

/-! No round number and no player number is privileged. A renaming permutes the rounds
and lets the two players of some rounds change numbers; renamed notes do to a renamed
house what the notes did to the house, and are refused when they were. The players keep
their accounts, so each is paid what they were paid before; only the two notes of a draw
come in the other order. -/

namespace AllaMorra

open HouseAccount BetNote

variable {cap : KernelCap}

/-- A permutation of the rounds, and the rounds in which the players change numbers. -/
structure Renaming where
  round : Equiv.Perm Felt
  swaps : Felt → Bool

def Renaming.symm (ρ : Renaming) : Renaming := ⟨ρ.round.symm, fun r => ρ.swaps (ρ.round.symm r)⟩

def Player.swapIf (b : Bool) (p : Player) : Player := if b then p.other else p

def swapNum (b : Bool) (playerNum : Felt) : Felt :=
  if b = true ∧ playerNum = 1 then 2 else if b = true ∧ playerNum = 2 then 1 else playerNum

theorem Player.swapIf_other (b : Bool) (p : Player) : (p.swapIf b).other = p.other.swapIf b := by
  cases b <;> cases p <;> rfl

theorem Player.num_swapIf (b : Bool) (p : Player) : (p.swapIf b).num = swapNum b p.num := by
  cases b <;> cases p <;> rfl

theorem swapNum_swapNum (b : Bool) (n : Felt) : swapNum b (swapNum b n) = n := by
  cases b with
  | false => simp [swapNum]
  | true =>
    by_cases h1 : n = 1
    · subst h1
      rfl
    · by_cases h2 : n = 2
      · subst h2
        rfl
      · simp [swapNum, h1, h2]

theorem swapNum_eq_iff {b : Bool} {m n : Felt} : swapNum b m = n ↔ m = swapNum b n := by
  constructor
  · rintro rfl
    exact (swapNum_swapNum b m).symm
  · rintro rfl
    exact swapNum_swapNum b n

/-- The order of the two notes of a draw. -/
def flipIf {α : Type} (b : Bool) (xs : List α) : List α := if b then xs.reverse else xs

theorem map_flipIf {α β : Type} (f : α → β) (b : Bool) (xs : List α) :
    (flipIf b xs).map f = flipIf b (xs.map f) := by
  cases b with
  | false => rfl
  | true => exact List.map_reverse

theorem sum_flipIf (b : Bool) (xs : List Nat) : (flipIf b xs).sum = xs.sum := by
  cases b with
  | false => rfl
  | true => exact (List.reverse_perm xs).sum_eq

/-! One round. -/

def Reason.swapIf (b : Bool) : Reason → Reason
  | .refund => .refund
  | .prize p => .prize (p.swapIf b)

def Payment.renumber (p : Payment) (r : Felt) (b : Bool) : Payment :=
  { p with roundId := r, reason := p.reason.swapIf b }

/-- The same person's wager on the same game, under other numbers. -/
def Wager.renumber (w : Wager) (r : Felt) (b : Bool) : Wager :=
  { w with
    roundId := r
    player := w.player.swapIf b
    player1 := w.account (Player.one.swapIf b)
    player2 := w.account (Player.two.swapIf b) }

def Round.swapIf (b : Bool) : Round → Round
  | .waiting p bet => .waiting (p.swapIf b) bet
  | round => round

namespace Wager

variable (w : Wager) (r : Felt) (b : Bool)

theorem account_renumber (p : Player) : (w.renumber r b).account (p.swapIf b) = w.account p := by
  cases b <;> cases p <;> rfl

theorem terms_renumber : (w.renumber r b).terms = w.terms := by
  cases b with
  | false => rfl
  | true =>
    -- the commitment does not see which player is which
    simp only [terms, idXorS, idXorP, renumber, Player.swapIf, Player.other, account, if_true,
      UInt64.xor_comm]

theorem xorFits_renumber : (w.renumber r b).XorFits ↔ w.XorFits := by
  cases b with
  | false => rfl
  | true =>
    simp only [XorFits, AllaMorra.XorFits, renumber, Player.swapIf, Player.other, account,
      if_true, UInt64.xor_comm]

theorem refund_renumber : (w.renumber r b).refund = w.refund.renumber r b :=
  congrArg (Payment.mk r .refund w.betValue.val w.faucet) (w.account_renumber r b w.player)

theorem hands_renumber (opponent : Hand) :
    (w.renumber r b).hands opponent =
      if b then (w.hands opponent).swap else w.hands opponent := by
  obtain ⟨r', p, move, p1, p2, faucet, bet, expiry⟩ := w
  cases b <;> cases p <;> rfl

end Wager

theorem payouts_swap (m₁ m₂ : Hand) (betValue : Nat) :
    payouts m₂ m₁ betValue =
      ((payouts m₁ m₂ betValue).map fun x => (x.1.other, x.2)).reverse := by
  simp only [payouts, Nat.add_comm m₂.h.val]
  by_cases h₁ : m₁.g.val = m₁.h.val + m₂.h.val <;>
    by_cases h₂ : m₂.g.val = m₁.h.val + m₂.h.val <;>
    simp [h₁, h₂, Player.other]

theorem payouts_flipIf (b : Bool) (hands : Hand × Hand) (betValue : Nat) :
    payouts (if b then hands.swap else hands).1 (if b then hands.swap else hands).2 betValue =
      flipIf b ((payouts hands.1 hands.2 betValue).map fun x => (x.1.swapIf b, x.2)) := by
  cases b with
  | false => simp [flipIf, Player.swapIf]
  | true => exact payouts_swap hands.1 hands.2 betValue

theorem Wager.prizes_renumber (w : Wager) (r : Felt) (b : Bool) (opponent : Hand) :
    (w.renumber r b).prizes opponent =
      flipIf b ((w.prizes opponent).map fun p => p.renumber r b) := by
  rw [prizes, hands_renumber]
  change (payouts _ _ w.betValue.val).map _ = _
  rw [payouts_flipIf, map_flipIf, prizes, List.map_map, List.map_map]
  refine congrArg (flipIf b) (List.map_congr_left fun x _ => ?_)
  exact congrArg (Payment.mk r (.prize (x.1.swapIf b)) x.2 w.faucet) (w.account_renumber r b x.1)

theorem Round.consume_renumber (round : Round) (block : Felt) (w : Wager) (r : Felt) (b : Bool) :
    (round.swapIf b).consume block (w.renumber r b) =
      (round.consume block w).map fun (round, path, ps) =>
        (round.swapIf b, path, flipIf b (ps.map fun p => p.renumber r b)) := by
  by_cases htime : w.expiryBlock.val < block.val
  · rw [consume_expired _ htime, consume_expired (w := w.renumber r b) _ htime,
      w.refund_renumber]
    cases b <;> rfl
  · have htime' : ¬ (w.renumber r b).expiryBlock.val < block.val := htime
    by_cases hfits : w.XorFits
    swap
    · rw [consume_unfit _ htime hfits,
        consume_unfit (w := w.renumber r b) _ htime' (mt (w.xorFits_renumber r b).mp hfits)]
      rfl
    have hplay : w.Playable block := ⟨htime, hfits⟩
    have hplay' : (w.renumber r b).Playable block :=
      ⟨htime', (w.xorFits_renumber r b).mpr hfits⟩
    obtain hfree | ⟨bet, rfl⟩ | rfl := round.cases_of_player w.player
    · have hfree' : (round.swapIf b).Free (w.renumber r b).player := by
        obtain rfl | ⟨bet, rfl⟩ := hfree
        · exact .inl rfl
        · exact .inr ⟨bet, rfl⟩
      rw [consume_free hplay hfree, consume_free hplay' hfree', Wager.bet, w.terms_renumber]
      cases b <;> rfl
    · have hother : (waiting w.player.other bet).swapIf b =
          waiting (w.renumber r b).player.other bet :=
        congrArg (waiting · bet) (w.player.swapIf_other b).symm
      rw [hother, consume_waiting bet hplay, consume_waiting bet hplay', w.terms_renumber,
        w.prizes_renumber]
      split <;> rfl
    · have hsettled : settled.swapIf b = settled := rfl
      rw [hsettled, consume_settled htime, consume_settled htime']
      rfl

theorem Round.roundId_of_consume {round round' : Round} {block : Felt} {w : Wager} {path : Path}
    {ps : List Payment} (h : round.consume block w = some (round', path, ps)) :
    ∀ p ∈ ps, p.roundId = w.roundId := by
  obtain ⟨-, -, -, rfl⟩ | ⟨-, -, -, -, rfl⟩ | ⟨-, bet, -, -, -, -, rfl⟩ := consume_eq_some.mp h
  · intro p hp
    obtain rfl := List.mem_singleton.mp hp
    rfl
  · exact fun p hp => absurd hp List.not_mem_nil
  · intro p hp
    obtain ⟨x, -, rfl⟩ := List.mem_map.mp hp
    rfl

theorem Round.slot_swapIf (round : Round) (b : Bool) (playerNum : Felt) :
    (round.swapIf b).slot playerNum = round.slot (swapNum b playerNum) := by
  cases round with
  | idle => rfl
  | settled => rfl
  | waiting p bet =>
    refine if_congr ?_ rfl rfl
    rw [p.num_swapIf, eq_comm, swapNum_eq_iff, eq_comm]

theorem Round.flag_swapIf (round : Round) (b : Bool) : (round.swapIf b).flag = round.flag := by
  cases round <;> rfl

/-! Notes, receipts and the bets map. -/

def Renaming.inputs (ρ : Renaming) : List Felt → List Felt
  | r :: n :: h :: g :: s1 :: p1 :: s2 :: p2 :: rest =>
    if ρ.swaps r then ρ.round r :: swapNum true n :: h :: g :: s2 :: p2 :: s1 :: p1 :: rest
    else ρ.round r :: n :: h :: g :: s1 :: p1 :: s2 :: p2 :: rest
  | inputs => inputs

def Note.rename (ρ : Renaming) (note : Note) : Note :=
  { note with inputs := ρ.inputs note.inputs }

def Consumption.rename (ρ : Renaming) (c : Consumption) : Consumption :=
  ⟨c.note.rename ρ, c.block⟩

/-- A payout names its round and player in its serial number. -/
def OutputNote.rename (ρ : Renaming) (n : OutputNote) : OutputNote :=
  let serialNum := n.recipient.serialNum
  { n with recipient.serialNum := { serialNum with
      e0 := ρ.round serialNum.e0
      e1 := swapNum (ρ.swaps serialNum.e0) serialNum.e1 } }

def Receipt.rename (ρ : Renaming) (rc : Receipt) : Receipt where
  note := rc.note.rename ρ
  block := rc.block
  path := rc.path
  payouts := flipIf ((roundId rc.note).elim false ρ.swaps) (rc.payouts.map (OutputNote.rename ρ))

def HouseAccount.rename (ρ : Renaming) (self : HouseAccount) : HouseAccount where
  bets := ⟨fun k => self.bets.get { k with
    e0 := ρ.round.symm k.e0
    e1 := swapNum (ρ.swaps (ρ.round.symm k.e0)) k.e1 }⟩

def House.rename (ρ : Renaming) (s : House cap) : House cap :=
  { s with storage := s.storage.rename ρ }

def Ledger.rename (ρ : Renaming) (L : Ledger cap) : Ledger cap :=
  { L with rounds := fun r => (L.rounds (ρ.round.symm r)).swapIf (ρ.swaps (ρ.round.symm r)) }

def Wager.rename (ρ : Renaming) (w : Wager) : Wager :=
  w.renumber (ρ.round w.roundId) (ρ.swaps w.roundId)

namespace Renaming

variable (ρ : Renaming)

theorem inputs_symm (inputs : List Felt) : ρ.symm.inputs (ρ.inputs inputs) = inputs := by
  rcases inputs with
      _ | ⟨r, _ | ⟨n, _ | ⟨h, _ | ⟨g, _ | ⟨s1, _ | ⟨p1, _ | ⟨s2, _ | ⟨p2, rest⟩⟩⟩⟩⟩⟩⟩⟩
    <;> try rfl
  have hback : ρ.symm.swaps (ρ.round r) = ρ.swaps r :=
    congrArg ρ.swaps (ρ.round.symm_apply_apply r)
  have hround : ρ.symm.round (ρ.round r) = r := ρ.round.symm_apply_apply r
  by_cases hswap : ρ.swaps r = true
  · simp only [inputs, hswap, if_true, hback, hround, swapNum_swapNum]
  · simp only [inputs, hswap, if_false, hback, hround, Bool.false_eq_true]

theorem note_symm (note : Note) : (note.rename ρ).rename ρ.symm = note := by
  obtain ⟨serialNum, inputs, assets, hlength⟩ := note
  simp only [Note.rename, ρ.inputs_symm inputs]

theorem inputs_toNote (w : Wager) (id : AccountId) (serialNum : Word) (rest : List Felt) :
    ρ.inputs ((w.toNote id serialNum).inputs ++ rest) =
      ((w.rename ρ).toNote id serialNum).inputs ++ rest := by
  obtain ⟨r, p, move, p1, p2, faucet, bet, expiry⟩ := w
  simp only [Wager.toNote, Wager.rename, List.cons_append, inputs, List.nil_append]
  by_cases hswap : ρ.swaps r = true
  · rw [hswap, if_pos rfl]
    cases p <;> rfl
  · rw [eq_false_of_ne_true hswap]
    rfl

theorem wager_rename (id : AccountId) (note : Note) :
    wager id (note.rename ρ) = (wager id note).map (Wager.rename ρ) := by
  have hsome (ρ : Renaming) {note : Note} {w : Wager} (hw : wager id note = some w) :
      wager id (note.rename ρ) = some (w.rename ρ) := by
    obtain ⟨⟨rest, hinputs⟩, hassets⟩ := wager_eq_some.mp hw
    refine wager_eq_some.mpr ⟨⟨rest, ?_⟩, hassets⟩
    exact (congrArg ρ.inputs hinputs).trans (ρ.inputs_toNote w id note.serialNum rest)
  cases hw : wager id note with
  | some w => exact hsome ρ hw
  | none =>
    -- a wager after the renaming would be one before it
    rw [Option.map_none, Option.eq_none_iff_forall_ne_some]
    intro w hw'
    have hback := hsome ρ.symm hw'
    rw [ρ.note_symm, hw] at hback
    cases hback

theorem payment_rename (p : Payment) :
    (p.renumber (ρ.round p.roundId) (ρ.swaps p.roundId)).note = p.note.rename ρ := by
  obtain ⟨r, reason, amount, faucet, recipient⟩ := p
  cases reason with
  | refund =>
    have hnum : swapNum (ρ.swaps r) Reason.refund.serial = Reason.refund.serial := by
      cases ρ.swaps r <;> rfl
    simp only [Payment.note, OutputNote.rename, payoutNote, hnum]
    rfl
  | prize q =>
    have hnum : swapNum (ρ.swaps r) (Reason.prize q).serial = (q.swapIf (ρ.swaps r)).num :=
      (q.num_swapIf _).symm
    simp only [Payment.note, OutputNote.rename, payoutNote, hnum]
    rfl

theorem encode_rename (L : Ledger cap) :
    encode (L.rename ρ).rounds = (encode L.rounds).rename ρ := by
  refine congrArg (fun f => HouseAccount.mk (StorageMap.mk f)) (funext fun k => ?_)
  have hzero (b : Bool) : swapNum b k.e1 = 0 ↔ k.e1 = 0 := by
    rw [swapNum_eq_iff]
    cases b <;> rfl
  simp only [StorageMap.get, encode, Ledger.rename, Round.flag_swapIf, Round.slot_swapIf, hzero]

theorem house_rename (L : Ledger cap) : (L.rename ρ).house = L.house.rename ρ :=
  congrArg (fun storage => (⟨L.id, storage, L.vault⟩ : House cap)) (ρ.encode_rename L)

theorem setRound_rename (L : Ledger cap) (r : Felt) (round : Round) (vault : AssetVault cap) :
    (L.setRound r round vault).rename ρ =
      (L.rename ρ).setRound (ρ.round r) (round.swapIf (ρ.swaps r)) vault := by
  refine congrArg (fun rounds => Ledger.mk L.id rounds vault) (funext fun r' => ?_)
  by_cases hr : r' = ρ.round r
  · subst hr
    simp only [Ledger.setRound, Equiv.symm_apply_apply, Function.update_self]
  · have hr' : ρ.round.symm r' ≠ r := fun h => hr (ρ.round.symm_apply_eq.mp h)
    simp only [Ledger.setRound, Function.update_of_ne hr, Function.update_of_ne hr']
    rfl

theorem step_rename (L : Ledger cap) (c : Consumption) :
    (L.rename ρ).step (c.rename ρ) =
      (L.step c).map fun r => (r.1.rename ρ, r.2.rename ρ) := by
  have hid : (L.rename ρ).id = L.id := rfl
  cases hw : wager L.id c.note with
  | none =>
    have hnone : wager L.id (c.rename ρ).note = none := by
      rw [Consumption.rename, ρ.wager_rename, hw, Option.map_none]
    rw [Ledger.step, Ledger.step, hid, hnone, hw]
    rfl
  | some w =>
    have hrenamed : wager (L.rename ρ).id (c.rename ρ).note = some (w.rename ρ) := by
      rw [Consumption.rename, hid, ρ.wager_rename, hw, Option.map_some]
    have hround : (L.rename ρ).rounds (w.rename ρ).roundId =
        (L.rounds w.roundId).swapIf (ρ.swaps w.roundId) := by
      have hback : ρ.round.symm (ρ.round w.roundId) = w.roundId := ρ.round.symm_apply_apply _
      change (L.rounds (ρ.round.symm (ρ.round w.roundId))).swapIf
        (ρ.swaps (ρ.round.symm (ρ.round w.roundId))) = _
      rw [hback]
    rw [Ledger.step_of_wager hw, Ledger.step_of_wager hrenamed, hround, Wager.rename,
      Round.consume_renumber]
    change (L.vault.add w.faucet w.betValue.val).bind _ = _
    cases L.vault.add w.faucet w.betValue.val with
    | none => rfl
    | some v =>
      cases hconsume : (L.rounds w.roundId).consume c.block w with
      | none =>
        have hconsume' : (L.rounds w.roundId).consume (c.rename ρ).block w = none := hconsume
        simp only [Option.bind_some, hconsume', Option.map_none, Option.bind_none]
      | some r =>
        obtain ⟨round, path, ps⟩ := r
        have hconsume' : (L.rounds w.roundId).consume (c.rename ρ).block w =
          some (round, path, ps) := hconsume
        have hpayouts : (flipIf (ρ.swaps w.roundId) (ps.map fun p =>
              p.renumber (ρ.round w.roundId) (ρ.swaps w.roundId))).map Payment.note =
            flipIf ((roundId c.note).elim false ρ.swaps)
              ((ps.map Payment.note).map (OutputNote.rename ρ)) := by
          rw [map_flipIf, roundId_of_wager hw, List.map_map, List.map_map]
          refine congrArg (flipIf _) (List.map_congr_left fun p hp => ?_)
          rw [Function.comp_apply, ← Round.roundId_of_consume hconsume p hp]
          exact ρ.payment_rename p
        have hamount : ((flipIf (ρ.swaps w.roundId) (ps.map fun p =>
              p.renumber (ρ.round w.roundId) (ρ.swaps w.roundId))).map Payment.amount).sum =
            (ps.map Payment.amount).sum := by
          rw [map_flipIf, sum_flipIf, List.map_map]
          rfl
        simp only [Option.bind_some, hconsume', Option.map_some, hpayouts, hamount,
          Option.map_map]
        change (v.remove w.faucet _).map _ = _
        refine Option.map_congr fun v' _ => ?_
        rw [Function.comp_apply, ρ.setRound_rename]
        rfl

end Renaming

/-- Renaming the rounds, and the players within them, makes no difference: from any
reachable house the renamed notes leave the renamed house and the renamed receipts, and
are refused when the notes were. -/
theorem renaming_immaterial (ρ : Renaming) (s : House cap) (hs : Reachable s)
    (cs : List Consumption) :
    Reachable (s.rename ρ) ∧
      Machine.run House.consume (s.rename ρ) (cs.map (Consumption.rename ρ)) =
        (Machine.run House.consume s cs).map fun r =>
          (r.1.rename ρ, r.2.map (Receipt.rename ρ)) := by
  have hrun (L : Ledger cap) (ds : List Consumption) :
      Machine.run House.consume (L.house.rename ρ) (ds.map (Consumption.rename ρ)) =
        (Machine.run House.consume L.house ds).map fun r =>
          (r.1.rename ρ, r.2.map (Receipt.rename ρ)) := by
    rw [← ρ.house_rename, Ledger.run_house, Ledger.run_house,
      Machine.run_equivariant _ _ _ ρ.step_rename, Option.map_map, Option.map_map]
    refine Option.map_congr fun r _ => ?_
    simp only [Function.comp_apply, ρ.house_rename]
  obtain ⟨init, ds, log, hinit, hreach⟩ := hs
  have hstart := Ledger.house_start hinit
  have hempty : (init.rename ρ).storage = HouseAccount.empty := by
    change init.storage.rename ρ = _
    rw [hinit]
    rfl
  have hrenamed := hrun (Ledger.start init.id init.vault) ds
  rw [hstart, hreach] at hrenamed
  refine ⟨⟨init.rename ρ, ds.map (Consumption.rename ρ), _, hempty, hrenamed⟩, ?_⟩
  rw [← hstart] at hreach
  obtain ⟨L, -, rfl⟩ := Ledger.run_house_eq_some hreach
  exact hrun L cs

namespace Sample

/-- Rounds seven and nine change places, and the players of round seven change numbers. -/
def exchange : Renaming := ⟨Equiv.swap 7 9, fun r => r = 7⟩

end Sample

theorem renaming_immaterial_sample : ∃ (s : House Sample.kernelCap) (log : List Receipt),
    Machine.run House.consume Sample.house [⟨Sample.note .one, 5⟩, ⟨Sample.note .two, 6⟩] =
      some (s, log) ∧
    Machine.run House.consume (Sample.house.rename Sample.exchange)
        ([⟨Sample.note .one, 5⟩, ⟨Sample.note .two, 6⟩].map (Consumption.rename Sample.exchange)) =
      some (s.rename Sample.exchange, log.map (Receipt.rename Sample.exchange)) := by
  have hrun : (Machine.run House.consume Sample.house
      [⟨Sample.note .one, 5⟩, ⟨Sample.note .two, 6⟩]).isSome := by decide +kernel
  obtain ⟨⟨s, log⟩, hrun⟩ := Option.isSome_iff_exists.mp hrun
  have hrenamed := (renaming_immaterial Sample.exchange Sample.house (Reachable.of_empty rfl)
    [⟨Sample.note .one, 5⟩, ⟨Sample.note .two, 6⟩]).2
  rw [hrun] at hrenamed
  exact ⟨s, log, hrun, hrenamed⟩

end AllaMorra
