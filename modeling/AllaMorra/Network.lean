import AllaMorra.Chronicle
import AllaMorra.Conservation
import AllaMorra.Uniqueness
import AllaMorra.WholeGame

/-! Players, operator and house together. Players run `publish_bet` with any arguments;
the operator runs `settle_round` with any arguments, lets the house consume any other
list of published bets, or calls its public methods directly, as anyone else may, by a
script or by a note of another kind. Of the chain between them the clients rely on this:
publishing takes the stake out of the sender's vault, a note can be consumed once it is
published and not again, and a failed transaction leaves no trace. -/

namespace AllaMorra

open HouseAccount BetNote

variable {cap : KernelCap} {Forest : Type}

abbrev NoteId (Forest : Type) := NoteRecipient Forest × NoteAssets

structure Network (cap : KernelCap) (Forest : Type) where
  house : House cap
  wallets : AccountId → AssetVault cap
  published : List (ClientNote Forest)
  spent : List (NoteId Forest)
  block : Felt

namespace Network

inductive Action (Forest : Type) where
  /-- `setup_player`: a wallet takes in a note of the faucet. -/
  | fund (account faucet : AccountId) (amount : Nat)
  | publish (bet : PublishBet.Args) (serialNum : Word)
  | settle (args : SettleRound.Args)
  /-- Any other transaction over published bets. -/
  | consume (notes : List (ClientNote Forest))
  | call (m : HouseCall)
  | advance (block : Felt)

inductive Event (Forest : Type) where
  | funded (account faucet : AccountId) (amount : Nat)
  | published (note : ClientNote Forest)
  | consumed (notes : List (ClientNote Forest)) (payouts : List OutputNote)
  | called (m : HouseCall) (result : List Felt) (payouts : List OutputNote)
  | advanced (block : Felt)

def Event.notes : Event Forest → List (ClientNote Forest)
  | consumed notes _ => notes
  | _ => []

def Event.payouts : Event Forest → List OutputNote
  | consumed _ payouts => payouts
  | called _ _ payouts => payouts
  | _ => []

def Event.betPayouts : Event Forest → List OutputNote
  | consumed _ payouts => payouts
  | _ => []

def Event.calls : Event Forest → List HouseCall
  | called m _ _ => [m]
  | _ => []

def Event.publishes : Event Forest → List (ClientNote Forest)
  | published note => [note]
  | _ => []

def Event.funds (account faucet : AccountId) : Event Forest → Nat
  | funded a f amount => if a = account ∧ f = faucet then amount else 0
  | _ => 0

def Event.stakes (account faucet : AccountId) : Event Forest → Nat
  | published note =>
    if note.metadata.sender = account then holding faucet note.toNote.assets else 0
  | _ => 0

variable [DecidableEq Forest]

/-- A transaction of the house on published notes, none of them spent. -/
def spend (t : Network cap Forest) (notes : List (ClientNote Forest)) :
    Option (Network cap Forest × Event Forest) :=
  let ids := notes.map ClientNote.id
  if (∀ id ∈ ids, id ∈ t.published.map ClientNote.id ∧ id ∉ t.spent) ∧ ids.Nodup then
    (Transaction.execute t.house ⟨t.block, notes.map ClientNote.toNote⟩).map fun (house, outs) =>
      ({ t with house := house, spent := t.spent ++ ids }, .consumed notes outs)
  else none

def pay (vault : AssetVault cap) : List FungibleAsset → Option (AssetVault cap)
  | [] => some vault
  | asset :: assets => (vault.remove asset.faucetId asset.amount.toNat).bind fun v => pay v assets

def publish (t : Network cap Forest) (note : ClientNote Forest) :
    Option (Network cap Forest × Event Forest) :=
  let sender := note.metadata.sender
  (pay (t.wallets sender) note.assets.assets).map fun vault =>
    ({ t with
      wallets := Function.update t.wallets sender vault
      published := t.published ++ [note] }, .published note)

def step (sdk : Sdk) (package : Package Forest) (t : Network cap Forest) :
    Action Forest → Option (Network cap Forest × Event Forest)
  | .fund account faucet amount => ((t.wallets account).add faucet amount).map fun vault =>
    ({ t with wallets := Function.update t.wallets account vault }, .funded account faucet amount)
  | .publish bet serialNum =>
    (PublishBet.main sdk cap package serialNum bet).toOption.bind fun (note, _) => t.publish note
  | .settle args => (SettleRound.main sdk cap package args).toOption.bind fun plan =>
    if plan.ids.house = t.house.id then t.spend [plan.note1, plan.note2] else none
  | .consume notes => t.spend notes
  | .call m => (m.exec.run ⟨t.block, t.house, []⟩).map fun (res, tx) =>
    ({ t with house := tx.account }, .called m res tx.outputNotes)
  | .advance block =>
    if t.block.val < block.val then some ({ t with block := block }, .advanced block) else none

theorem spend_eq_some {t t' : Network cap Forest} {notes : List (ClientNote Forest)}
    {e : Event Forest} :
    t.spend notes = some (t', e) ↔
      (∀ n ∈ notes, n.id ∈ t.published.map ClientNote.id ∧ n.id ∉ t.spent) ∧
      (notes.map ClientNote.id).Nodup ∧ ∃ house outs,
        Transaction.execute t.house ⟨t.block, notes.map ClientNote.toNote⟩ = some (house, outs) ∧
        t' = { t with house := house, spent := t.spent ++ notes.map ClientNote.id } ∧
        e = .consumed notes outs := by
  unfold spend
  simp only [Option.ite_none_right_eq_some, Option.map_eq_some_iff, Prod.exists, Prod.mk.injEq,
    List.forall_mem_map, and_assoc]
  refine and_congr_right fun _ => and_congr_right fun _ => exists_congr fun house =>
    exists_congr fun outs => and_congr_right fun _ => ?_
  exact and_congr eq_comm eq_comm

theorem pay_eq_some {v v' : AssetVault cap} {assets : List FungibleAsset}
    (h : pay v assets = some v') (hlt : ∀ a ∈ assets, a.amount.toNat < Felt.modulus)
    (f : AccountId) :
    v'.balance f + holding f (assets.map FungibleAsset.word) = v.balance f := by
  induction assets generalizing v with
  | nil =>
    obtain rfl := Option.some.inj h
    rfl
  | cons a assets ih =>
    obtain ⟨m, hremove, hrest⟩ := Option.bind_eq_some_iff.mp h
    have hm := (AssetVault.remove_eq_some.mp hremove).2 f
    have hrec := ih hrest fun b hb => hlt b (List.mem_cons_of_mem _ hb)
    have hword : holding f [a.word] = if f = a.faucetId then a.amount.toNat else 0 := by
      rw [holding_singleton]
      exact if_congr eq_comm (Nat.mod_eq_of_lt (hlt a List.mem_cons_self)) rfl
    have hcons : holding f ((a :: assets).map FungibleAsset.word) =
        holding f [a.word] + holding f (assets.map FungibleAsset.word) := by
      simp [holding]
    rw [hcons, hword]
    omega

end Network

/-- A command line of `publish_bet` with the serial number drawn for it, and the
accounts it names. -/
structure Publication where
  bet : PublishBet.Args
  serialNum : Word
  ids : PublishBet.Accounts

namespace Publication

def note (q : Publication) (package : Package Forest) : ClientNote Forest :=
  q.bet.note package q.serialNum q.ids

def hand (q : Publication) : Hand := ⟨.new q.bet.h, .new q.bet.g⟩

def accounts (q : Publication) : SettleRound.Accounts :=
  ⟨q.ids.house, q.ids.faucet, q.ids.p1, q.ids.p2⟩

structure Reads (q : Publication) (id : AccountId) (w : Wager) : Prop where
  house : q.ids.house = id
  roundId : w.roundId = .new q.bet.roundId
  playerNum : q.bet.playerNum = SettleRound.num w.player
  hand : w.move.toHand = q.hand
  faucet : w.faucet = q.ids.faucet
  betValue : w.betValue.val = q.bet.betValue.toNat
  expiryBlock : w.expiryBlock = .new q.bet.expiryBlock
  account : ∀ p, w.account p = q.accounts.player p

variable {sdk : Sdk} {package : Package Forest} {q : Publication}

theorem reads_of_wager (hacc : PublishBet.Accepts sdk cap q.bet q.ids) {id : AccountId} {w : Wager}
    (hw : wager id (q.note package).toNote = some w) : q.Reads id w := by
  obtain ⟨i, a, hi, ha, hv, rfl⟩ := exists_wager_iff.mp ⟨w, hw, rfl⟩
  obtain rfl := Option.some.inj hi
  obtain rfl := (List.cons.inj ha).1
  refine ⟨hv.house.symm, rfl, ?_, rfl, rfl, Nat.mod_eq_of_lt hacc.betValue_lt, rfl, fun p => ?_⟩
  · change q.bet.playerNum = SettleRound.num (if Felt.new q.bet.playerNum = 1 then .one else .two)
    obtain hnum | hnum := hacc.playerNum <;> rw [hnum] <;> decide
  · cases p <;> rfl

theorem Reads.paysOut {id : AccountId} {w : Wager} (h : q.Reads id w)
    (hacc : PublishBet.Accepts sdk cap q.bet q.ids) (opponent : Hand) :
    SettleRound.PaysOut q.accounts
      (payouts (w.hands opponent).1 (w.hands opponent).2 q.bet.betValue.toNat)
      ((w.prizes opponent).map Payment.note) := by
  have hbet : q.bet.betValue.toNat < 2 ^ 63 := hacc.asset.2.trans_lt cap.value_lt
  rw [SettleRound.PaysOut, Wager.prizes, h.betValue, List.map_map, List.forall₂_map_right_iff,
    List.forall₂_same]
  intro x hx
  refine ⟨SettleRound.paysTo_note.mpr ⟨h.account x.1, .inl rfl⟩, ?_⟩
  exact Payment.amount_note ((payouts_le x hx).trans_lt (winnerPayout_lt hbet))

end Publication

namespace Network

variable {sdk : Sdk} {package : Package Forest}

/-- Where a network comes from: every published note from a command line, every spent
note from a published one and spent once, and the house from a run of the spent notes
and the direct calls. -/
structure Traced (sdk : Sdk) (package : Package Forest) (s : House cap)
    (hist : List (Event Forest)) (t : Network cap Forest) : Prop where
  published : ∀ n ∈ t.published, ∃ q : Publication,
    PublishBet.Accepts sdk cap q.bet q.ids ∧ n = q.note package
  publishes : t.published = hist.flatMap Event.publishes
  spent : t.spent = (hist.flatMap Event.notes).map ClientNote.id
  nodup : t.spent.Nodup
  subset : ∀ id ∈ t.spent, id ∈ t.published.map ClientNote.id
  house : ∃ ops log, Machine.run House.operate s ops = some (t.house, log) ∧
    (log.flatMap AllaMorra.Event.receipts).map Receipt.note =
      (hist.flatMap Event.notes).map ClientNote.toNote ∧
    (log.flatMap AllaMorra.Event.receipts).flatMap Receipt.payouts =
      hist.flatMap Event.betPayouts ∧
    log.flatMap AllaMorra.Event.payouts = hist.flatMap Event.payouts ∧
    log.flatMap AllaMorra.Event.calls = hist.flatMap Event.calls

theorem Traced.id_eq {s : House cap} {hist : List (Event Forest)} {t : Network cap Forest}
    (h : Traced sdk package s hist t) : t.house.id = s.id := by
  obtain ⟨ops, log, hrun, -⟩ := h.house
  exact House.run_operate_id hrun

def genesis (id : AccountId) (vault : AssetVault cap) (wallets : AccountId → AssetVault cap)
    (block : Felt) : Network cap Forest :=
  ⟨House.fresh id vault, wallets, [], [], block⟩

def holdingOf (faucet : AccountId) (id : NoteId Forest) : Nat :=
  holding faucet (id.2.assets.map FungibleAsset.word)

theorem Traced.house_balance {s : House cap} {hist : List (Event Forest)} {t : Network cap Forest}
    (h : Traced sdk package s hist t) (f : AccountId) :
    t.house.vault.balance f + outflow f (hist.flatMap Event.payouts) =
      s.vault.balance f + ((t.spent.map (holdingOf f)).sum +
        holding f ((hist.flatMap Event.calls).flatMap HouseCall.assets)) := by
  obtain ⟨ops, log, hrun, hnotes, -, hpaid, hcalls⟩ := h.house
  have hbalance := Machine.run_flow (fun t : House cap => t.vault.balance f)
    (AllaMorra.Event.deposited f) (AllaMorra.Event.paid f)
    (fun _ _ _ _ hop => House.operate_balance hop f) s ops t.house log hrun
  rw [AllaMorra.Event.sum_paid, AllaMorra.Event.sum_deposited, hpaid, hcalls] at hbalance
  have hin : (log.flatMap AllaMorra.Event.receipts).map (·.stake f) =
      t.spent.map (holdingOf f) := by
    have hmap := congrArg (List.map fun n : Note => holding f n.assets) hnotes
    rw [h.spent]
    simp only [List.map_map] at hmap ⊢
    exact hmap
  rw [← hin]
  exact hbalance

theorem Traced.spent_le {s : House cap} {hist : List (Event Forest)} {t : Network cap Forest}
    (h : Traced sdk package s hist t) (f : AccountId) :
    (t.spent.map (holdingOf f)).sum ≤
      ((t.published.map ClientNote.id).map (holdingOf f)).sum := by
  obtain ⟨ids, hperm, hsub⟩ := h.nodup.subperm h.subset
  rw [← (hperm.map _).sum_eq]
  exact (hsub.map _).sum_le_sum fun _ _ => Nat.zero_le _

def prizesOf (r : Felt) (log : List (Event Forest)) : List OutputNote :=
  (log.flatMap Event.betPayouts).filter (·.isPrizeOf r)

structure Plays (sdk : Sdk) (package : Package Forest) (t : Network cap Forest) (r : Felt)
    (p : Player) (q : Publication) : Prop where
  accepts : PublishBet.Accepts sdk cap q.bet q.ids
  roundId : .new q.bet.roundId = r
  playerNum : q.bet.playerNum = SettleRound.num p
  house : q.ids.house = t.house.id
  published : q.note package ∈ t.published
  spent : (q.note package).id ∈ t.spent

theorem Traced.exists_publication {s : House cap} {hist : List (Event Forest)}
    {t : Network cap Forest} (h : Traced sdk package s hist t) {note : Note}
    (hnote : note ∈ (hist.flatMap Event.notes).map ClientNote.toNote) :
    ∃ q : Publication, PublishBet.Accepts sdk cap q.bet q.ids ∧ q.note package ∈ t.published ∧
      (q.note package).id ∈ t.spent ∧ (q.note package).toNote = note := by
  obtain ⟨n, hn, rfl⟩ := List.mem_map.mp hnote
  have hspent : n.id ∈ t.spent := h.spent ▸ List.mem_map_of_mem hn
  obtain ⟨m, hm, hid⟩ := List.mem_map.mp (h.subset _ hspent)
  obtain ⟨q, hacc, rfl⟩ := h.published m hm
  exact ⟨q, hacc, hm, hid ▸ hspent, ClientNote.toNote_congr hid⟩

theorem Traced.exists_plays {s : House cap} {hist : List (Event Forest)}
    {t : Network cap Forest} (h : Traced sdk package s hist t) {r : Felt} {p : Player}
    {path : Path} {rc : Receipt} {w : Wager}
    (hrc : rc.note ∈ (hist.flatMap Event.notes).map ClientNote.toNote)
    (hplays : rc.Plays t.house.id r p path w) :
    ∃ q : Publication, Plays sdk package t r p q ∧ q.Reads t.house.id w := by
  obtain ⟨q, hacc, hpublished, hspent, hnote⟩ := h.exists_publication hrc
  have hreads := Publication.reads_of_wager hacc (hnote.symm ▸ hplays.wager)
  refine ⟨q, ⟨hacc, ?_, ?_, hreads.house, hpublished, hspent⟩, hreads⟩
  · rw [← hreads.roundId, hplays.round]
  · rw [hreads.playerNum, hplays.player]

/-- The notes of a settled round were published by both players, and what the settling
one is paid is the game of the hands they typed. -/
theorem Traced.exists_game {s : House cap} {hist : List (Event Forest)} {t : Network cap Forest}
    (h : Traced sdk package s hist t) {r : Felt} {p : Player} {regs : List Receipt} {rc : Receipt}
    {w w' : Wager}
    (hmem : ∀ x ∈ regs ++ [rc], x.note ∈ (hist.flatMap Event.notes).map ClientNote.toNote)
    (hregs : Registrations t.house.id r p regs w)
    (hplays : rc.Plays t.house.id r p.other .settle w') (hterms : w'.terms = w.terms)
    (hpayouts : rc.payouts = (w'.prizes w.move.toHand).map Payment.note) :
    ∃ (q : Player → Publication) (x : Player), (∀ y, Plays sdk package t r y (q y)) ∧
      (q .one).ids.faucet = (q .two).ids.faucet ∧
      (q .one).bet.betValue = (q .two).bet.betValue ∧
      SettleRound.PaysOut (q x).accounts
        (payouts (q .one).hand (q .two).hand (q x).bet.betValue.toNat) rc.payouts := by
  obtain ⟨rc₀, hlast, hfirst⟩ := hregs.last
  obtain ⟨q₀, hq₀, hreads₀⟩ := h.exists_plays
    (hmem rc₀ (List.mem_append_left _ (List.mem_of_getLast? hlast))) hfirst
  obtain ⟨q₁, hq₁, hreads₁⟩ := h.exists_plays
    (hmem rc (List.mem_append_right _ (List.mem_singleton_self _))) hplays
  have hfaucet : q₀.ids.faucet = q₁.ids.faucet := by
    rw [← hreads₀.faucet, ← hreads₁.faucet]
    exact (congrArg Terms.faucet hterms).symm
  have hbet : q₀.bet.betValue = q₁.bet.betValue := by
    rw [← UInt64.toNat_inj, ← hreads₀.betValue, ← hreads₁.betValue]
    exact congrArg Fin.val (congrArg Terms.betValue hterms).symm
  have hpays := hreads₁.paysOut hq₁.accepts w.move.toHand
  rw [← hpayouts] at hpays
  simp only [Wager.hands, hplays.player, hreads₀.hand, hreads₁.hand] at hpays
  cases p with
  | one =>
    refine ⟨Player.pick q₀ q₁, .two, Player.forall_iff.mpr ⟨hq₀, hq₁⟩, hfaucet, hbet, ?_⟩
    exact hreads₀.hand ▸ hpays
  | two =>
    refine ⟨Player.pick q₁ q₀, .one, Player.forall_iff.mpr ⟨hq₁, hq₀⟩, hfaucet.symm, hbet.symm, ?_⟩
    exact hreads₀.hand ▸ hpays

theorem Traced.call {s : House cap} {hist : List (Event Forest)} {t : Network cap Forest}
    {m : HouseCall} {res : List Felt} {tx : TxState cap HouseAccount}
    (h : Traced sdk package s hist t) (hexec : m.exec.run ⟨t.block, t.house, []⟩ = some (res, tx)) :
    Traced sdk package s (hist ++ [.called m res tx.outputNotes])
      { t with house := tx.account } := by
  obtain ⟨hpublished, hpublishes, hspent, hnodup, hsubset, ops, log, hrun, hlog, hbets, hpaid,
    hcalled⟩ := h
  have hop : House.operate t.house (.call m t.block) =
    some (tx.account, .called m res tx.outputNotes) := congrArg (Option.map _) hexec
  refine ⟨hpublished, ?_, ?_, hnodup, hsubset, _, _, (Machine.run_append ..).mpr
    ⟨t.house, log, _, hrun, (Machine.run_singleton ..).mpr ⟨_, hop, rfl⟩, rfl⟩, ?_, ?_, ?_, ?_⟩
  · simpa [Event.publishes]
  · simpa [Event.notes]
  · simpa [Event.notes, AllaMorra.Event.receipts]
  · simpa [Event.betPayouts, AllaMorra.Event.receipts]
  · simpa [Event.payouts, AllaMorra.Event.payouts]
  · simpa [Event.calls, AllaMorra.Event.calls]

variable [DecidableEq Forest]

theorem step_cases {t t' : Network cap Forest} {a : Action Forest} {e : Event Forest}
    (h : t.step sdk package a = some (t', e)) :
    (∃ account faucet amount vault, (t.wallets account).add faucet amount = some vault ∧
      t' = { t with wallets := Function.update t.wallets account vault } ∧
      e = .funded account faucet amount) ∨
    (∃ (q : Publication) (vault : AssetVault cap), PublishBet.Accepts sdk cap q.bet q.ids ∧
      pay (t.wallets q.ids.my) [⟨q.ids.faucet, q.bet.betValue⟩] = some vault ∧
      t' = { t with
        wallets := Function.update t.wallets q.ids.my vault
        published := t.published ++ [q.note package] } ∧
      e = .published (q.note package)) ∨
    (∃ notes, t.spend notes = some (t', e)) ∨
    (∃ m res tx, m.exec.run ⟨t.block, t.house, []⟩ = some (res, tx) ∧
      t' = { t with house := tx.account } ∧ e = .called m res tx.outputNotes) ∨
    ∃ block, t.block.val < block.val ∧ t' = { t with block := block } ∧ e = .advanced block := by
  cases a with
  | fund account faucet amount =>
    obtain ⟨vault, hadd, heq⟩ := Option.map_eq_some_iff.mp h
    obtain ⟨rfl, rfl⟩ := Prod.mk.inj heq
    exact .inl ⟨account, faucet, amount, vault, hadd, rfl, rfl⟩
  | publish bet serialNum =>
    obtain ⟨⟨note, hex⟩, hmain, hpublish⟩ := Option.bind_eq_some_iff.mp h
    obtain ⟨ids, hacc, hnote⟩ := PublishBet.main_eq_ok.mp (except_toOption_eq_some.mp hmain)
    obtain ⟨rfl, rfl⟩ := Prod.mk.inj hnote
    obtain ⟨vault, hpay, heq⟩ := Option.map_eq_some_iff.mp hpublish
    obtain ⟨rfl, rfl⟩ := Prod.mk.inj heq
    exact .inr (.inl ⟨⟨bet, serialNum, ids⟩, vault, hacc, hpay, rfl, rfl⟩)
  | settle args =>
    obtain ⟨plan, -, hspend⟩ := Option.bind_eq_some_iff.mp h
    exact .inr (.inr (.inl ⟨_, (Option.ite_none_right_eq_some.mp hspend).2⟩))
  | consume notes => exact .inr (.inr (.inl ⟨notes, h⟩))
  | call m =>
    obtain ⟨⟨res, tx⟩, hexec, heq⟩ := Option.map_eq_some_iff.mp h
    obtain ⟨rfl, rfl⟩ := Prod.mk.inj heq
    exact .inr (.inr (.inr (.inl ⟨m, res, tx, hexec, rfl, rfl⟩)))
  | advance block =>
    obtain ⟨hlt, heq⟩ := Option.ite_none_right_eq_some.mp h
    obtain ⟨rfl, rfl⟩ := Prod.mk.inj (Option.some.inj heq)
    exact .inr (.inr (.inr (.inr ⟨block, hlt, rfl, rfl⟩)))

theorem Traced.spend {s : House cap} {hist : List (Event Forest)} {t t' : Network cap Forest}
    {notes : List (ClientNote Forest)} {e : Event Forest} (h : Traced sdk package s hist t)
    (hspend : t.spend notes = some (t', e)) : Traced sdk package s (hist ++ [e]) t' := by
  obtain ⟨hfresh, hnodup, house, outs, hexec, rfl, rfl⟩ := spend_eq_some.mp hspend
  obtain ⟨log', hrun', rfl, -⟩ := Transaction.execute_eq_some.mp hexec
  have hreceipts : (log'.map AllaMorra.Event.consumed).flatMap AllaMorra.Event.receipts =
      log' := by
    rw [List.flatMap_map]
    exact List.flatMap_singleton' log'
  have hpayouts : (log'.map AllaMorra.Event.consumed).flatMap AllaMorra.Event.payouts =
      log'.flatMap Receipt.payouts := List.flatMap_map ..
  have hcalls : (log'.map AllaMorra.Event.consumed).flatMap AllaMorra.Event.calls = [] := by
    simp [AllaMorra.Event.calls]
  have hnotes : log'.map Receipt.note = notes.map ClientNote.toNote := by
    have hinputs := Machine.run_inputs Receipt.consumption
      (fun _ _ _ _ => House.consume_consumption) _ _ _ _ hrun'
    have hmap := congrArg (List.map Consumption.note) hinputs
    simp only [Transaction.consumptions, List.map_map] at hmap
    exact hmap
  obtain ⟨ops, log, hrun, hlog, hbets, hpaid, hcalled⟩ := h.house
  refine ⟨h.published, ?_, ?_, ?_, ?_, _, _, (Machine.run_append ..).mpr
    ⟨t.house, log, _, hrun, House.run_operate_consume hrun', rfl⟩, ?_, ?_, ?_, ?_⟩
  · rw [h.publishes]
    simp [Event.publishes]
  · rw [h.spent]
    simp [Event.notes]
  · refine h.nodup.append hnodup fun id hold hnew => ?_
    obtain ⟨n, hn, rfl⟩ := List.mem_map.mp hnew
    exact (hfresh n hn).2 hold
  · intro id hid
    obtain hid | hid := List.mem_append.mp hid
    · exact h.subset id hid
    · obtain ⟨n, hn, rfl⟩ := List.mem_map.mp hid
      exact (hfresh n hn).1
  · rw [List.flatMap_append, List.map_append, hlog, hreceipts, hnotes]
    simp [Event.notes]
  · rw [List.flatMap_append, List.flatMap_append, hbets, hreceipts]
    simp [Event.betPayouts]
  · rw [List.flatMap_append, hpaid, hpayouts]
    simp [Event.payouts]
  · rw [List.flatMap_append, hcalled, hcalls]
    simp [Event.calls]

theorem Traced.step {s : House cap} {hist : List (Event Forest)} {t t' : Network cap Forest}
    {a : Action Forest} {e : Event Forest} (h : Traced sdk package s hist t)
    (hstep : t.step sdk package a = some (t', e)) : Traced sdk package s (hist ++ [e]) t' := by
  obtain ⟨account, faucet, amount, vault, -, rfl, rfl⟩ | ⟨q, vault, hacc, -, rfl, rfl⟩ |
    ⟨notes, hspend⟩ | ⟨m, res, tx, hexec, rfl, rfl⟩ | ⟨block, -, rfl, rfl⟩ := step_cases hstep
  · obtain ⟨hpublished, hpublishes, hspent, hnodup, hsubset, hhouse⟩ := h
    refine ⟨hpublished, ?_, ?_, hnodup, hsubset, ?_⟩
    all_goals simpa [Event.publishes, Event.notes, Event.betPayouts, Event.payouts, Event.calls]
  · obtain ⟨hpublished, hpublishes, hspent, hnodup, hsubset, hhouse⟩ := h
    refine ⟨fun n hn => ?_, ?_, ?_, hnodup, fun id hid => ?_, ?_⟩
    · obtain hn | hn := List.mem_append.mp hn
      · exact hpublished n hn
      · exact ⟨q, hacc, List.mem_singleton.mp hn⟩
    · simpa [Event.publishes]
    · simpa [Event.notes]
    · rw [List.map_append]
      exact List.mem_append_left _ (hsubset id hid)
    · simpa [Event.notes, Event.betPayouts, Event.payouts, Event.calls]
  · exact h.spend hspend
  · exact h.call hexec
  · obtain ⟨hpublished, hpublishes, hspent, hnodup, hsubset, hhouse⟩ := h
    refine ⟨hpublished, ?_, ?_, hnodup, hsubset, ?_⟩
    all_goals simpa [Event.publishes, Event.notes, Event.betPayouts, Event.payouts, Event.calls]

theorem run_traced {id : AccountId} {vault : AssetVault cap} {wallets : AccountId → AssetVault cap}
    {block : Felt} {actions : List (Action Forest)} {t : Network cap Forest}
    {log : List (Event Forest)}
    (h : Machine.run (step sdk package) (genesis id vault wallets block) actions = some (t, log)) :
    Traced sdk package (House.fresh id vault) log t :=
  Machine.run_history (Traced sdk package (House.fresh id vault))
    (fun _ _ _ _ _ hinv hstep => hinv.step hstep) [] _ actions t log
    ⟨fun _ hn => absurd hn List.not_mem_nil, rfl, rfl, List.nodup_nil,
      fun _ hid => absurd hid List.not_mem_nil, [], [], rfl, rfl, rfl, rfl, rfl⟩ h

theorem step_wallet {t t' : Network cap Forest} {a : Action Forest} {e : Event Forest}
    (h : t.step sdk package a = some (t', e)) (account f : AccountId) :
    (t'.wallets account).balance f + e.stakes account f =
      (t.wallets account).balance f + e.funds account f := by
  obtain ⟨b, faucet, amount, vault, hadd, rfl, rfl⟩ | ⟨q, vault, hacc, hpay, rfl, rfl⟩ |
    ⟨notes, hspend⟩ | ⟨m, res, tx, -, rfl, rfl⟩ | ⟨block, -, rfl, rfl⟩ := step_cases h
  · have hv := (AssetVault.add_eq_some.mp hadd).2 f
    simp only [Event.stakes, Event.funds, add_zero]
    by_cases hb : b = account
    · rw [← hb, Function.update_self, hv]
      simp [eq_comm]
    · rw [Function.update_of_ne (Ne.symm hb), if_neg fun h => hb h.1, add_zero]
  · have hv := pay_eq_some hpay (by simpa using hacc.betValue_lt) f
    have hsender : (q.note package).metadata.sender = q.ids.my := rfl
    simp only [Event.stakes, Event.funds, hsender, add_zero]
    by_cases hb : q.ids.my = account
    · rw [← hb, Function.update_self, if_pos rfl]
      exact hv
    · rw [Function.update_of_ne (Ne.symm hb), if_neg hb, add_zero]
  · obtain ⟨-, -, house, outs, -, rfl, rfl⟩ := spend_eq_some.mp hspend
    rfl
  · rfl
  · rfl

end Network

namespace Testnet

/-- The sample round with a block between both bets, and a stranger who forges a bet of
another round. -/
def actions : List (Network.Action Unit) :=
  [.fund player1 faucet 1000000, .fund player2 faucet 1000000,
    .call (.storePlayerBet 43 1 3 6 0 0), .publish (bets .one) (serialNums .one), .advance 4,
    .publish (bets .two) (serialNums .two), .advance 5, .settle settleArgs]

def chain : Network Sample.kernelCap Unit :=
  .genesis house .empty (fun _ => .empty) 3

theorem run_actions :
    ∃ t log, Machine.run (Network.step sdk package) chain actions = some (t, log) ∧
      t.house.storage.isRoundSettled 42 = 1 ∧
      log.flatMap Network.Event.calls = [.storePlayerBet 43 1 3 6 0 0] := by
  have hrun : (Machine.run (Network.step sdk package) chain actions).map
      (fun r => (r.1.house.storage.isRoundSettled 42, r.2.flatMap Network.Event.calls)) =
        some (1, [.storePlayerBet 43 1 3 6 0 0]) := by
    decide +kernel
  obtain ⟨⟨t, log⟩, hrun, hfacts⟩ := Option.map_eq_some_iff.mp hrun
  exact ⟨t, log, hrun, Prod.mk.inj hfacts⟩

end Testnet

namespace Network

variable [DecidableEq Forest]

/-- In every interleaving of players and operator: an account has what it was funded
with less what it staked; every spent note was published, and is spent once; and the
house has what it had, the stakes of the spent notes and what direct calls brought, less
what it paid. -/
theorem network_conserves (sdk : Sdk) (package : Package Forest) (id : AccountId)
    (vault : AssetVault cap) (wallets : AccountId → AssetVault cap) (block : Felt)
    (actions : List (Action Forest)) (t : Network cap Forest) (log : List (Event Forest))
    (hrun : Machine.run (step sdk package) (genesis id vault wallets block) actions =
      some (t, log)) :
    t.published = log.flatMap Event.publishes ∧ t.spent.Nodup ∧
    (∀ n ∈ t.spent, n ∈ t.published.map ClientNote.id) ∧
    ∀ f, (∀ account,
        (t.wallets account).balance f + (log.map (Event.stakes account f)).sum =
          (wallets account).balance f + (log.map (Event.funds account f)).sum) ∧
      t.house.vault.balance f + outflow f (log.flatMap Event.payouts) =
        vault.balance f + ((t.spent.map (holdingOf f)).sum +
          holding f ((log.flatMap Event.calls).flatMap HouseCall.assets)) ∧
      (t.spent.map (holdingOf f)).sum ≤
        ((t.published.map ClientNote.id).map (holdingOf f)).sum := by
  have htraced := run_traced hrun
  refine ⟨htraced.publishes, htraced.nodup, htraced.subset, fun f => ⟨fun account => ?_,
    htraced.house_balance f, htraced.spent_le f⟩⟩
  exact Machine.run_flow (fun u : Network cap Forest => (u.wallets account).balance f)
    (Event.funds account f) (Event.stakes account f)
    (fun _ _ _ _ h => step_wallet h account f) _ actions t log hrun

theorem network_conserves_sample : ∃ t log,
    Machine.run (step Testnet.sdk Testnet.package) Testnet.chain Testnet.actions = some (t, log) ∧
      t.spent.Nodup ∧ t.house.vault.balance Testnet.faucet +
        outflow Testnet.faucet (log.flatMap Event.payouts) =
          (t.spent.map (holdingOf Testnet.faucet)).sum +
            holding Testnet.faucet ((log.flatMap Event.calls).flatMap HouseCall.assets) := by
  obtain ⟨t, log, hrun, -⟩ := Testnet.run_actions
  obtain ⟨-, hnodup, -, hbalance⟩ := network_conserves Testnet.sdk Testnet.package Testnet.house
    .empty (fun _ => .empty) 3 Testnet.actions t log hrun
  have hhouse := (hbalance Testnet.faucet).2.1
  exact ⟨t, log, hrun, hnodup, hhouse.trans (Nat.zero_add _)⟩

/-- In every interleaving, for every round that no direct call writes to: it is open and
has paid no prize, or it is settled, and its prizes are the rules of the game on the
fingers and guesses that both players gave `publish_bet`, for notes of one faucet and
stake that are spent. -/
theorem prizes_of_published_hands (sdk : Sdk) (package : Package Forest) (id : AccountId)
    (vault : AssetVault cap) (wallets : AccountId → AssetVault cap) (block : Felt)
    (actions : List (Action Forest)) (t : Network cap Forest) (log : List (Event Forest))
    (hrun : Machine.run (step sdk package) (genesis id vault wallets block) actions =
      some (t, log))
    (r : Felt) (hspares : ∀ m ∈ log.flatMap Event.calls, m.writes ≠ some r) :
    t.house.storage.isRoundSettled r = 0 ∧ prizesOf r log = [] ∨
    t.house.storage.isRoundSettled r = 1 ∧ ∃ (q : Player → Publication) (p : Player),
      (∀ x, Plays sdk package t r x (q x)) ∧
      (q .one).ids.faucet = (q .two).ids.faucet ∧
      (q .one).bet.betValue = (q .two).bet.betValue ∧
      SettleRound.PaysOut (q p).accounts
        (payouts (q .one).hand (q .two).hand (q p).bet.betValue.toNat) (prizesOf r log) := by
  have htraced := run_traced hrun
  obtain ⟨ops, evs, hops, hnotes, hbets, -, hcalls⟩ := htraced.house
  obtain ⟨⟨round, hholds, hround⟩, hpaid⟩ :=
    House.Chronicled.run_operate (r := r) hops (hcalls ▸ hspares)
  have hprizes : prizesOf r log =
      (played ((evs.flatMap AllaMorra.Event.receipts).filter (·.ofRound r))).flatMap
        Receipt.payouts := by
    rw [prizesOf, ← hbets, hpaid]
  have hmem : ∀ rc ∈ played ((evs.flatMap AllaMorra.Event.receipts).filter (·.ofRound r)),
      rc.note ∈ (log.flatMap Event.notes).map ClientNote.toNote := fun rc hrc => by
    rw [← hnotes]
    exact List.mem_map_of_mem (List.mem_filter.mp (List.mem_filter.mp hrc).1).1
  rw [hprizes, hholds.flag]
  generalize played ((evs.flatMap AllaMorra.Event.receipts).filter (·.ofRound r)) = plays
    at hround hmem ⊢
  cases hround with
  | idle => exact .inl ⟨rfl, rfl⟩
  | waiting hregs =>
    exact .inl ⟨rfl, hregs.payouts⟩
  | settled hregs hplays hterms hpayouts =>
    refine .inr ⟨rfl, ?_⟩
    rw [List.flatMap_append, hregs.payouts, List.flatMap_singleton, List.nil_append]
    exact htraced.exists_game hmem hregs hplays hterms hpayouts

theorem prizes_of_published_hands_sample : ∃ t log,
    Machine.run (step Testnet.sdk Testnet.package) Testnet.chain Testnet.actions = some (t, log) ∧
      ∃ (q : Player → Publication) (p : Player),
        (∀ x, Plays Testnet.sdk Testnet.package t 42 x (q x)) ∧
        SettleRound.PaysOut (q p).accounts
          (payouts (q .one).hand (q .two).hand (q p).bet.betValue.toNat) (prizesOf 42 log) := by
  obtain ⟨t, log, hrun, hflag, hcalls⟩ := Testnet.run_actions
  have hspares : ∀ m ∈ log.flatMap Event.calls, m.writes ≠ some 42 := by
    rw [hcalls]
    decide
  obtain ⟨hopen, -⟩ | ⟨-, q, p, hplays, -, -, hpays⟩ := prizes_of_published_hands Testnet.sdk
    Testnet.package Testnet.house .empty (fun _ => .empty) 3 Testnet.actions t log hrun 42 hspares
  · cases hopen.symm.trans hflag
  · exact ⟨t, log, hrun, q, p, hplays, hpays⟩

end Network

end AllaMorra
