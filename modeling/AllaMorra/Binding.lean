import AllaMorra.Network

/-! What a published bet binds the operator to. `settle_round` takes fingers, guesses
and terms from its own command line, and the chain compares nothing but note IDs. That
is enough: whatever is typed, a settlement that goes through repeats the flags of two
published bets, up to what a field element cannot hold. -/

namespace AllaMorra

open HouseAccount BetNote

variable {cap : KernelCap} {Forest : Type}

namespace SettleRound

/-- The flags for one player are those of a bet, as far as its note can tell. -/
structure Agrees (p : Player) (bet : PublishBet.Args) (owners : PublishBet.Accounts) (args : Args)
    (ids : Accounts) : Prop where
  playerNum : bet.playerNum = num p
  roundId : Felt.new args.roundId = .new bet.roundId
  h : Felt.new (args.h p) = .new bet.h
  g : Felt.new (args.g p) = .new bet.g
  accounts : ids = ⟨owners.house, owners.faucet, owners.p1, owners.p2⟩
  betValue : args.betValue = bet.betValue
  expiryBlock : Felt.new args.expiryBlock = .new bet.expiryBlock

theorem new_num_iff {p : Player} {playerNum : UInt64} (h : playerNum = 1 ∨ playerNum = 2) :
    Felt.new (num p) = .new playerNum ↔ playerNum = num p := by
  obtain rfl | rfl := h <;> cases p <;> decide

theorem id_note_iff {package : Package Forest} {bet : PublishBet.Args}
    {owners : PublishBet.Accounts} {args : Args} {ids : Accounts} {serialNum serialNum' : Word}
    {p : Player} (hnum : bet.playerNum = 1 ∨ bet.playerNum = 2) :
    (args.note package serialNum ids p).id = (bet.note package serialNum' owners).id ↔
      serialNum = serialNum' ∧ Agrees p bet owners args ids := by
  obtain ⟨house, faucet, p1, p2⟩ := ids
  simp only [ClientNote.id, Args.note, PublishBet.Args.note, betNote, makeNoteInputs, idFelts,
    Prod.mk.injEq, NoteRecipient.mk.injEq, NoteAssets.mk.injEq, List.cons.injEq,
    FungibleAsset.mk.injEq, and_true, true_and, new_num_iff hnum]
  constructor
  · rintro ⟨⟨hserial, hround, hplayer, hh, hg, hp1s, hp1p, hp2s, hp2p, hhs, hhp, -, hexpiry⟩,
      hfaucet, hbet⟩
    have haccounts : (⟨house, faucet, p1, p2⟩ : Accounts) =
        ⟨owners.house, owners.faucet, owners.p1, owners.p2⟩ := by
      rw [AccountId.ext hhs hhp, hfaucet, AccountId.ext hp1s hp1p, AccountId.ext hp2s hp2p]
    exact ⟨hserial, hplayer, hround, hh, hg, haccounts, hbet, hexpiry⟩
  · rintro ⟨hserial, hplayer, hround, hh, hg, haccounts, hbet, hexpiry⟩
    obtain ⟨rfl, rfl, rfl, rfl⟩ := Accounts.mk.inj haccounts
    exact ⟨⟨hserial, hround, hplayer, hh, hg, rfl, rfl, rfl, rfl, rfl, rfl, congrArg _ hbet,
      hexpiry⟩, rfl, hbet⟩

end SettleRound

theorem Publication.exists_move {sdk : Sdk} {q : Publication}
    (hacc : PublishBet.Accepts sdk cap q.bet q.ids) : ∃ move : Move, move.toHand = q.hand := by
  have hh := (Nat.mod_le q.bet.h.toNat Felt.modulus).trans (UInt64.le_iff_toNat_le.mp hacc.h_le)
  have hg := (Nat.mod_le q.bet.g.toNat Felt.modulus).trans (UInt64.le_iff_toNat_le.mp hacc.g_le)
  exact ⟨⟨q.hand, hh, hg⟩, rfl⟩

namespace Network

structure Bound (sdk : Sdk) (package : Package Forest) (t t' : Network cap Forest)
    (args : SettleRound.Args) (ids : SettleRound.Accounts) (p : Player) (q : Publication) :
    Prop where
  accepts : PublishBet.Accepts sdk cap q.bet q.ids
  published : q.note package ∈ t.published
  fresh : (q.note package).id ∉ t.spent
  spent : (q.note package).id ∈ t'.spent
  serial : decodeWord (args.serial p) = .ok q.serialNum
  agrees : SettleRound.Agrees p q.bet q.ids args ids

variable [DecidableEq Forest] {sdk : Sdk} {package : Package Forest}

theorem settle_eq_some {t t' : Network cap Forest} {args : SettleRound.Args} {e : Event Forest}
    (h : t.step sdk package (.settle args) = some (t', e)) :
    ∃ (ids : SettleRound.Accounts) (serialNums : Player → Word), args.accounts sdk = .ok ids ∧
      (∀ p, decodeWord (args.serial p) = .ok (serialNums p)) ∧
      args.betValue.toNat ≤ cap.value ∧ ids.house = t.house.id ∧
      t.spend [args.note package (serialNums .one) ids .one,
        args.note package (serialNums .two) ids .two] = some (t', e) := by
  obtain ⟨plan, hmain, hsettle⟩ := Option.bind_eq_some_iff.mp h
  obtain ⟨ids, serialNums, hids, hserial, ⟨-, hcap⟩, rfl⟩ :=
    SettleRound.main_eq_ok.mp (except_toOption_eq_some.mp hmain)
  obtain ⟨hhouse, hspend⟩ := Option.ite_none_right_eq_some.mp hsettle
  exact ⟨ids, serialNums, hids, hserial, hcap, hhouse, hspend⟩

theorem Traced.exists_bound {s : House cap} {hist : List (Event Forest)} {t t' : Network cap Forest}
    {args : SettleRound.Args} {ids : SettleRound.Accounts} {serialNums : Player → Word}
    {e : Event Forest} (h : Traced sdk package s hist t)
    (hserial : ∀ p, decodeWord (args.serial p) = .ok (serialNums p))
    (hspend : t.spend [args.note package (serialNums .one) ids .one,
      args.note package (serialNums .two) ids .two] = some (t', e)) (p : Player) :
    ∃ q, Bound sdk package t t' args ids p q := by
  obtain ⟨hfresh, -, house, outs, -, rfl, -⟩ := spend_eq_some.mp hspend
  have hnote : args.note package (serialNums p) ids p ∈
      [args.note package (serialNums .one) ids .one,
        args.note package (serialNums .two) ids .two] := by
    cases p <;> simp
  obtain ⟨hpublished, hunspent⟩ := hfresh _ hnote
  obtain ⟨m, hm, hid⟩ := List.mem_map.mp hpublished
  obtain ⟨q, hacc, rfl⟩ := h.published m hm
  obtain ⟨hnum, hagrees⟩ := (SettleRound.id_note_iff hacc.playerNum).mp hid.symm
  exact ⟨q, hacc, hm, hid ▸ hunspent,
    List.mem_append_right _ (hid ▸ List.mem_map_of_mem hnote), hnum ▸ hserial p, hagrees⟩

/-- In every interleaving, direct calls included: a settlement that goes through spends
two published bets that it repeats, one of each player, and the house pays the game of
the hands they were published with, or both stakes back after the expiry they were
published with. -/
theorem settlement_bound (sdk : Sdk) (package : Package Forest) (id : AccountId)
    (vault : AssetVault cap) (wallets : AccountId → AssetVault cap) (block : Felt)
    (actions : List (Action Forest)) (t : Network cap Forest) (log : List (Event Forest))
    (hrun : Machine.run (step sdk package) (genesis id vault wallets block) actions =
      some (t, log))
    (args : SettleRound.Args) (t' : Network cap Forest) (e : Event Forest)
    (hstep : t.step sdk package (.settle args) = some (t', e)) :
    ∃ (ids : SettleRound.Accounts) (q : Player → Publication),
      args.accounts sdk = .ok ids ∧ ids.house = id ∧
      (∀ p, Bound sdk package t t' args ids p (q p)) ∧
      SettleRound.PaysOut ids
        (if (Felt.new (q .one).bet.expiryBlock).val < t.block.val then
          [(.one, (q .one).bet.betValue.toNat), (.two, (q .two).bet.betValue.toNat)]
        else payouts (q .one).hand (q .two).hand (q .one).bet.betValue.toNat) e.payouts := by
  have htraced := run_traced hrun
  obtain ⟨ids, serialNums, hids, hserial, hcap, hhouse, hspend⟩ := settle_eq_some hstep
  choose q hq using htraced.exists_bound hserial hspend
  refine ⟨ids, q, hids, hhouse.trans htraced.id_eq, hq, ?_⟩
  obtain ⟨-, -, house, outs, hexec, -, rfl⟩ := spend_eq_some.mp hspend
  -- the typed flags carry the moves of the published bets
  choose moves hmoves using fun p => Publication.exists_move (hq p).accepts
  have hhand (p : Player) : (q p).hand = args.hand p :=
    congrArg₂ Hand.mk (hq p).agrees.h.symm (hq p).agrees.g.symm
  have hcarries : args.Carries moves :=
    ⟨fun p => congrArg Hand.h ((hmoves p).trans (hhand p)),
      fun p => congrArg Hand.g ((hmoves p).trans (hhand p))⟩
  have hnotes : (args.game ids).CarriedBy moves (fun _ => ids.faucet) t.house.id
      fun p => (args.note package (serialNums p) ids p).toNote :=
    hhouse ▸ SettleRound.carriedBy_notes fun p => (hmoves p).trans (hhand p)
  have hgame : (args.game ids).betValue.val = args.betValue.toNat :=
    Felt.ofNat_val_of_lt ((hcap.trans_lt cap.value_lt).trans (by decide))
  rw [hhand, hhand, ← (hq .one).agrees.betValue, ← (hq .two).agrees.betValue,
    ← (hq .one).agrees.expiryBlock]
  split
  · next hlate =>
    have houts := hnotes.outs_of_late hlate hexec
    exact houts ▸ SettleRound.paysOut_refunds hgame moves
  · next htime =>
    have houts := hnotes.outs_of_inTime (Nat.not_lt.mp htime) hexec
    exact houts ▸ SettleRound.paysOut_prizes hcap hcarries

theorem settlement_bound_sample : ∃ t log t' e ids, ∃ q : Player → Publication,
    Machine.run (step Testnet.sdk Testnet.package) Testnet.chain Testnet.actions.dropLast =
      some (t, log) ∧
    t.step Testnet.sdk Testnet.package (.settle Testnet.settleArgs) = some (t', e) ∧
    ∀ p, Bound Testnet.sdk Testnet.package t t' Testnet.settleArgs ids p (q p) := by
  have hsettle : ((Machine.run (step Testnet.sdk Testnet.package) Testnet.chain
      Testnet.actions.dropLast).bind fun r =>
        r.1.step Testnet.sdk Testnet.package (.settle Testnet.settleArgs)).isSome := by
    decide +kernel
  obtain ⟨⟨t', e⟩, hsettle⟩ := Option.isSome_iff_exists.mp hsettle
  obtain ⟨⟨t, log⟩, hrun, hstep⟩ := Option.bind_eq_some_iff.mp hsettle
  obtain ⟨ids, q, -, -, hbound, -⟩ := settlement_bound Testnet.sdk Testnet.package Testnet.house
    .empty (fun _ => .empty) 3 Testnet.actions.dropLast t log hrun Testnet.settleArgs t' e hstep
  exact ⟨t, log, t', e, ids, q, hrun, hstep, hbound⟩

end Network

end AllaMorra
