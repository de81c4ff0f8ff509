import AllaMorra.Network

/-! What becomes of a bet that nobody settles. After its expiry the house can consume
its note at any time, and pays the stake back; what it takes is the right house and room
in its vault for the moment between deposit and payout. Two bets of one round, account
and stake are paid back by one and the same note, so not in one transaction. -/

namespace AllaMorra

open HouseAccount BetNote

variable {cap : KernelCap} {Forest : Type}

namespace Publication

/-- The player a bet is for, by its number; not who published it. -/
def owner (q : Publication) : AccountId := if q.bet.playerNum = 1 then q.ids.p1 else q.ids.p2

def refund (q : Publication) : OutputNote :=
  payoutNote ⟨.new q.bet.roundId, 3, 0, 0⟩ (.new q.bet.betValue) q.ids.faucet q.owner

def RefundsAlike (a b : Publication) : Prop :=
  Felt.new a.bet.roundId = .new b.bet.roundId ∧ a.owner = b.owner ∧
    a.ids.faucet = b.ids.faucet ∧ a.bet.betValue = b.bet.betValue

variable {sdk : Sdk} {package : Package Forest} {q : Publication}

theorem refund_id_iff {a b : Publication} (ha : PublishBet.Accepts sdk cap a.bet a.ids)
    (hb : PublishBet.Accepts sdk cap b.bet b.ids) :
    a.refund.id = b.refund.id ↔ a.RefundsAlike b := by
  have hbet : Felt.new a.bet.betValue = .new b.bet.betValue ↔ a.bet.betValue = b.bet.betValue :=
    Felt.ofNat_toNat_inj ha.betValue_lt hb.betValue_lt
  simp only [OutputNote.id, refund, payoutNote, RefundsAlike, Prod.mk.injEq, Recipient.mk.injEq,
    Word.mk.injEq, List.cons.injEq, Asset.mk.injEq, AccountId.ext_iff, and_true, true_and, hbet]
  tauto

theorem id_eq_of_toNote_eq {a b : Publication} (ha : PublishBet.Accepts sdk cap a.bet a.ids)
    (hb : PublishBet.Accepts sdk cap b.bet b.ids)
    (h : (a.note package).toNote = (b.note package).toNote) :
    (a.note package).id = (b.note package).id := by
  have hserial : a.serialNum = b.serialNum := congrArg Note.serialNum h
  have hinputs : (a.note package).recipient.inputs = (b.note package).recipient.inputs :=
    congrArg Note.inputs h
  have hassets : (⟨⟨.new a.bet.betValue, 0, a.ids.faucet.idSuffix, a.ids.faucet.idPrefix⟩⟩ :
      Asset) = ⟨⟨.new b.bet.betValue, 0, b.ids.faucet.idSuffix, b.ids.faucet.idPrefix⟩⟩ :=
    (List.cons.inj (congrArg Note.assets h)).1
  obtain ⟨hamount, -, hsuffix, hprefix⟩ := Word.mk.inj (Asset.mk.inj hassets)
  have hbet : a.bet.betValue = b.bet.betValue :=
    (Felt.ofNat_toNat_inj ha.betValue_lt hb.betValue_lt).mp hamount
  have hfaucet : a.ids.faucet = b.ids.faucet := AccountId.ext hsuffix hprefix
  refine Prod.ext ?_ ?_
  · change (⟨_, _, _⟩ : NoteRecipient Forest) = ⟨_, _, _⟩
    rw [NoteRecipient.mk.injEq]
    exact ⟨hserial, rfl, hinputs⟩
  · change (⟨[⟨_, _⟩], _⟩ : NoteAssets) = ⟨[⟨_, _⟩], _⟩
    rw [NoteAssets.mk.injEq, hbet, hfaucet]

theorem exists_wager_iff_house (hacc : PublishBet.Accepts sdk cap q.bet q.ids) {id : AccountId} :
    (∃ w, wager id (q.note package).toNote = some w) ↔ q.ids.house = id := by
  constructor
  · rintro ⟨w, hw⟩
    exact (reads_of_wager hacc hw).house
  · rintro rfl
    have hh : (Felt.new q.bet.h).val ≤ 3 :=
      (Nat.mod_le ..).trans (UInt64.le_iff_toNat_le.mp hacc.h_le)
    have hg : (Felt.new q.bet.g).val ≤ 6 :=
      (Nat.mod_le ..).trans (UInt64.le_iff_toNat_le.mp hacc.g_le)
    have hnum : Felt.new q.bet.playerNum = 1 ∨ Felt.new q.bet.playerNum = 2 := by
      obtain h | h := hacc.playerNum <;> rw [h] <;> decide
    exact ⟨_, dif_pos ⟨hnum, hh, hg, rfl, rfl, rfl⟩⟩

theorem Reads.refund_note {id : AccountId} {w : Wager} (h : q.Reads id w) :
    w.refund.note = q.refund := by
  have howner : w.account w.player = q.owner := by
    rw [h.account, owner, h.playerNum]
    cases w.player <;> rfl
  have hbet : Felt.ofNat w.betValue.val = .new q.bet.betValue := congrArg Felt.ofNat h.betValue
  rw [Payment.note, Wager.refund, refund, ← howner, ← h.roundId, ← h.faucet, ← hbet]
  rfl

theorem consume_expired (hacc : PublishBet.Accepts sdk cap q.bet q.ids) {s : House cap}
    {block : Felt} (hlate : (Felt.new q.bet.expiryBlock).val < block.val) (s' : House cap)
    (rc : Receipt) :
    House.consume s ⟨(q.note package).toNote, block⟩ = some (s', rc) ↔
      (q.ids.house = s.id ∧
        s.vault.balance q.ids.faucet + q.bet.betValue.toNat ≤ cap.value) ∧
      s' = s ∧ rc = ⟨(q.note package).toNote, block, .refund, [q.refund]⟩ := by
  by_cases hhouse : q.ids.house = s.id
  · obtain ⟨w, hw⟩ : ∃ w, wager s.id (q.note package).toNote = some w :=
      (exists_wager_iff_house hacc).mpr hhouse
    have hreads := reads_of_wager hacc hw
    refine (House.consume_late hw (hreads.expiryBlock ▸ hlate)).trans ?_
    rw [hreads.refund_note, hreads.faucet, hreads.betValue, and_iff_right hhouse]
  · refine iff_of_false (fun h => hhouse ?_) fun h => hhouse h.1.1
    obtain ⟨w, -, hw, -⟩ := House.consume_eq_some.mp h
    exact (exists_wager_iff_house hacc).mp ⟨w, hw⟩

end Publication

namespace Network

variable {sdk : Sdk} {package : Package Forest}

structure Refundable (s : House cap) (qs : List Publication) : Prop where
  ne_nil : qs ≠ []
  house : ∀ q ∈ qs, q.ids.house = s.id
  room : ∀ q ∈ qs, s.vault.balance q.ids.faucet + q.bet.betValue.toNat ≤ cap.value
  distinct : qs.Pairwise fun a b => ¬ a.RefundsAlike b
  inputs_le : qs.length ≤ cap.inputNotes
  outputs_le : qs.length ≤ cap.outputNotes

theorem admits_expired_iff {qs : List Publication}
    (hacc : ∀ q ∈ qs, PublishBet.Accepts sdk cap q.bet q.ids)
    (hnodup : (qs.map fun q => (q.note package).id).Nodup) (block : Felt) :
    Transaction.Admits cap ⟨block, qs.map fun q => (q.note package).toNote⟩
        (qs.map Publication.refund) ↔
      qs ≠ [] ∧ qs.Pairwise (fun a b => ¬ a.RefundsAlike b) ∧ qs.length ≤ cap.inputNotes ∧
        qs.length ≤ cap.outputNotes := by
  have hinputs : (qs.map fun q => (q.note package).toNote).Nodup := by
    refine List.pairwise_map.mpr ((List.pairwise_map.mp hnodup).imp_of_mem ?_)
    intro a b ha hb hne heq
    exact hne (Publication.id_eq_of_toNote_eq (hacc a ha) (hacc b hb) heq)
  have houtputs : ((qs.map Publication.refund).map OutputNote.id).Nodup ↔
      qs.Pairwise fun a b => ¬ a.RefundsAlike b := by
    rw [List.map_map, List.Nodup, List.pairwise_map]
    refine List.Pairwise.iff_of_mem fun {a b} ha hb => not_congr ?_
    exact Publication.refund_id_iff (hacc a ha) (hacc b hb)
  constructor
  · rintro ⟨hne, hin, -, hout, hdistinct⟩
    rw [List.length_map] at hin hout
    exact ⟨fun hnil => hne (List.map_eq_nil_iff.mpr hnil), houtputs.mp hdistinct, hin, hout⟩
  · rintro ⟨hne, hdistinct, hin, hout⟩
    refine ⟨fun hnil => hne (List.map_eq_nil_iff.mp hnil), ?_, hinputs, ?_,
      houtputs.mpr hdistinct⟩
    · exact (List.length_map _).trans_le hin
    · exact (List.length_map _).trans_le hout

theorem execute_expired {qs : List Publication}
    (hacc : ∀ q ∈ qs, PublishBet.Accepts sdk cap q.bet q.ids)
    (hnodup : (qs.map fun q => (q.note package).id).Nodup) {s : House cap} {block : Felt}
    (hlate : ∀ q ∈ qs, (Felt.new q.bet.expiryBlock).val < block.val) {s' : House cap}
    {outs : List OutputNote} :
    Transaction.execute s ⟨block, qs.map fun q => (q.note package).toNote⟩ = some (s', outs) ↔
      Refundable s qs ∧ s' = s ∧ outs = qs.map Publication.refund := by
  refine (Transaction.execute_stay _ _ _ fun q hq =>
    Publication.consume_expired (hacc q hq) (hlate q hq)).trans ?_
  rw [admits_expired_iff hacc hnodup block]
  constructor
  · rintro ⟨hfits, rfl, rfl, hne, hdistinct, hin, hout⟩
    exact ⟨⟨hne, fun q hq => (hfits q hq).1, fun q hq => (hfits q hq).2, hdistinct, hin, hout⟩,
      rfl, rfl⟩
  · rintro ⟨⟨hne, hhouse, hroom, hdistinct, hin, hout⟩, rfl, rfl⟩
    exact ⟨fun q hq => ⟨hhouse q hq, hroom q hq⟩, rfl, rfl, hne, hdistinct, hin, hout⟩

theorem Traced.exists_publications {s : House cap} {hist : List (Event Forest)}
    {t : Network cap Forest} (h : Traced sdk package s hist t) {notes : List (ClientNote Forest)}
    (hnotes : ∀ n ∈ notes, n ∈ t.published) :
    ∃ qs : List Publication, notes = qs.map (·.note package) ∧
      ∀ q ∈ qs, PublishBet.Accepts sdk cap q.bet q.ids := by
  induction notes with
  | nil => exact ⟨[], rfl, fun q hq => absurd hq List.not_mem_nil⟩
  | cons n notes ih =>
    obtain ⟨hn, hrest⟩ := List.forall_mem_cons.mp hnotes
    obtain ⟨q, hq, rfl⟩ := h.published n hn
    obtain ⟨qs, rfl, hqs⟩ := ih hrest
    exact ⟨q :: qs, rfl, List.forall_mem_cons.mpr ⟨hq, hqs⟩⟩

variable [DecidableEq Forest]

/-- In every interleaving: all published notes not yet spent are bets that `publish_bet`
took, and once they have expired any of them go through in one transaction exactly when
they are refundable. Then nothing moves but the stakes, each to the player its bet is
for. -/
theorem expired_bets_refunded (sdk : Sdk) (package : Package Forest) (id : AccountId)
    (vault : AssetVault cap) (wallets : AccountId → AssetVault cap) (block : Felt)
    (actions : List (Action Forest)) (t : Network cap Forest) (log : List (Event Forest))
    (hrun : Machine.run (step sdk package) (genesis id vault wallets block) actions =
      some (t, log))
    (notes : List (ClientNote Forest))
    (hopen : ∀ n ∈ notes, n ∈ t.published ∧ n.id ∉ t.spent)
    (hnodup : (notes.map ClientNote.id).Nodup) :
    ∃ qs : List Publication, notes = qs.map (·.note package) ∧
      (∀ q ∈ qs, PublishBet.Accepts sdk cap q.bet q.ids) ∧
      ((∀ q ∈ qs, (Felt.new q.bet.expiryBlock).val < t.block.val) → ∀ t' e,
        t.step sdk package (.consume notes) = some (t', e) ↔
          Refundable t.house qs ∧ t' = { t with spent := t.spent ++ notes.map ClientNote.id } ∧
          e = .consumed notes (qs.map Publication.refund)) := by
  have htraced := run_traced hrun
  obtain ⟨qs, rfl, hacc⟩ := htraced.exists_publications fun n hn => (hopen n hn).1
  refine ⟨qs, rfl, hacc, fun hlate t' e => ?_⟩
  have hmap : (qs.map (·.note package)).map ClientNote.toNote =
      qs.map fun q => (q.note package).toNote := List.map_map
  have hpublished : ∀ n ∈ qs.map (·.note package),
      n.id ∈ t.published.map ClientNote.id ∧ n.id ∉ t.spent := fun n hn =>
    ⟨List.mem_map_of_mem (hopen n hn).1, (hopen n hn).2⟩
  refine spend_eq_some.trans ?_
  have hids : (qs.map fun q => (q.note package).id).Nodup := by
    rwa [List.map_map] at hnodup
  rw [and_iff_right hpublished, and_iff_right hnodup, hmap]
  constructor
  · rintro ⟨house, outs, hexec, rfl, rfl⟩
    obtain ⟨hrefundable, rfl, rfl⟩ := (execute_expired hacc hids hlate).mp hexec
    exact ⟨hrefundable, rfl, rfl⟩
  · rintro ⟨hrefundable, rfl, rfl⟩
    exact ⟨t.house, _, (execute_expired hacc hids hlate).mpr ⟨hrefundable, rfl, rfl⟩, rfl, rfl⟩

theorem expired_bets_refunded_sample : ∃ t log t' e, ∃ qs : List Publication,
    Machine.run (step Testnet.sdk Testnet.package) Testnet.chain
      (Testnet.actions.take 6 ++ [.advance 1000000]) = some (t, log) ∧
    t.step Testnet.sdk Testnet.package (.consume t.published) = some (t', e) ∧
    t.published = qs.map (·.note Testnet.package) ∧ e.payouts = qs.map Publication.refund ∧
    t'.house = t.house := by
  have hrefund : (Machine.run (step Testnet.sdk Testnet.package) Testnet.chain
      (Testnet.actions.take 6 ++ [.advance 1000000])).any fun r =>
        (r.1.step Testnet.sdk Testnet.package (.consume r.1.published)).isSome &&
          r.1.published.all (fun n => n.recipient.inputs[11]? = some 999999) &&
          (r.1.published.map ClientNote.id).Nodup && r.1.spent = [] && r.1.block = 1000000 := by
    decide +kernel
  obtain ⟨⟨t, log⟩, hrun, hfacts⟩ := (Option.any_eq_true ..).mp hrefund
  simp only [Bool.and_eq_true, decide_eq_true_eq, List.all_eq_true] at hfacts
  obtain ⟨⟨⟨⟨hstep, hexpiry⟩, hnodup⟩, hspent⟩, hblock⟩ := hfacts
  obtain ⟨⟨t', e⟩, hstep⟩ := Option.isSome_iff_exists.mp hstep
  obtain ⟨qs, hqs, -, hiff⟩ := expired_bets_refunded Testnet.sdk Testnet.package Testnet.house
    .empty (fun _ => .empty) 3 _ t log hrun t.published
    (fun n hn => ⟨hn, hspent ▸ List.not_mem_nil⟩) hnodup
  have hlate (q : Publication) (hq : q ∈ qs) :
      (Felt.new q.bet.expiryBlock).val < t.block.val := by
    have hinput := hexpiry (q.note Testnet.package) (hqs ▸ List.mem_map_of_mem hq)
    have hfelt : Felt.new q.bet.expiryBlock = 999999 := Option.some.inj hinput
    rw [hfelt, hblock]
    decide
  obtain ⟨-, rfl, rfl⟩ := (hiff hlate t' e).mp hstep
  exact ⟨t, log, _, _, qs, hrun, hstep, hqs, rfl, rfl⟩

end Network

end AllaMorra
