import AllaMorra.Calls

/-! Which payout notes of a run are the same note. Serial numbers are constants of
the branch that pays: the two prizes of a round carry different ones, and a round
settles once, so no prize is issued twice. The refunds of a round all carry one
serial number, and are told apart by account, faucet and amount only. -/

namespace AllaMorra

open HouseAccount BetNote

variable {cap : KernelCap}

theorem Reason.serial_inj {a b : Reason} : a.serial = b.serial ↔ a = b := by
  cases a with
  | refund =>
    cases b with
    | refund => simp
    | prize p => cases p <;> decide
  | prize p =>
    cases b with
    | refund => cases p <;> decide
    | prize q => simp [serial, Player.num_inj]

theorem Payment.of_identity_eq {p q : Payment} (h : p.note.identity = q.note.identity) :
    p.roundId = q.roundId ∧ p.reason = q.reason := by
  have hserial : (⟨p.roundId, p.reason.serial, 0, 0⟩ : Word) = ⟨q.roundId, q.reason.serial, 0, 0⟩ :=
    congrArg Prod.fst h
  exact ⟨congrArg Word.e0 hserial, Reason.serial_inj.mp (congrArg Word.e1 hserial)⟩

theorem Payment.id_note_eq_iff (p q : Payment) :
    p.note.id = q.note.id ↔ p.note.identity = q.note.identity := by
  simp only [OutputNote.id, OutputNote.identity, note, payoutNote, Prod.mk.injEq,
    Recipient.mk.injEq, true_and, and_assoc]

namespace Wager

def RefundsAlike (w w' : Wager) : Prop :=
  w.roundId = w'.roundId ∧ w.account w.player = w'.account w'.player ∧ w.faucet = w'.faucet ∧
    w.betValue = w'.betValue

instance (w w' : Wager) : Decidable (w.RefundsAlike w') := inferInstanceAs (Decidable (_ ∧ _))

theorem refund_identity_iff (w w' : Wager) :
    w.refund.note.identity = w'.refund.note.identity ↔ w.RefundsAlike w' := by
  simp only [OutputNote.identity, Payment.note, payoutNote, refund, Prod.mk.injEq, Word.mk.injEq,
    List.cons.injEq, Asset.mk.injEq, and_true, Felt.ofNat_val, RefundsAlike, AccountId.ext_iff]
  tauto

theorem refund_id_iff (w w' : Wager) : w.refund.note.id = w'.refund.note.id ↔ w.RefundsAlike w' :=
  (Payment.id_note_eq_iff ..).trans (refund_identity_iff w w')

end Wager

/-- What is paid for a consumed note, as far as its identity goes. -/
structure Receipt.Emits (id : AccountId) (rc : Receipt) : Prop where
  wager : ∃ w, BetNote.wager id rc.note = some w
  nodup : (rc.payouts.map OutputNote.identity).Nodup
  inTime : rc.path = .settle → ∀ w ∈ BetNote.wager id rc.note,
    ¬ w.expiryBlock.val < rc.block.val
  refund : ∀ w ∈ BetNote.wager id rc.note, w.expiryBlock.val < rc.block.val →
    w.refund.note ∈ rc.payouts
  mem : ∀ n ∈ rc.payouts, ∃ w ∈ BetNote.wager id rc.note,
    w.expiryBlock.val < rc.block.val ∧ n = w.refund.note ∨
    rc.path = .settle ∧ ∃ p amount,
      n = Payment.note ⟨w.roundId, .prize p, amount, w.faucet, w.account p⟩

def Receipt.consumption (rc : Receipt) : Consumption := ⟨rc.note, rc.block⟩

namespace House

theorem consume_consumption {s s' : House cap} {c : Consumption} {rc : Receipt}
    (h : consume s c = some (s', rc)) : rc.consumption = c := by
  obtain ⟨w, ps, -, -, rfl⟩ := consume_eq_some.mp h
  rfl

theorem consume_emits {s s' : House cap} {c : Consumption} {rc : Receipt}
    (h : consume s c = some (s', rc)) : rc.Emits s.id := by
  obtain ⟨w, ps, hw, heffect, rfl⟩ := consume_eq_some.mp h
  have honly {P : Wager → Prop} (hP : P w) : ∀ w' ∈ wager s.id c.note, P w' := fun w' hw' =>
    Option.some.inj (hw.symm.trans hw') ▸ hP
  have hearly (hpath : path c.block s.storage w = .settle) :
      ¬ w.expiryBlock.val < c.block.val := fun hlate =>
    absurd ((path_eq_refund_iff.mpr hlate).symm.trans hpath) (by decide)
  obtain ⟨v, -, ⟨hrefund, rfl, rfl⟩ | ⟨hregister, -, -, rfl⟩ | ⟨hsettle, -, -, v', -, -, rfl⟩⟩ :=
    effect_eq_some.mp heffect
  · refine ⟨⟨w, hw⟩, List.nodup_singleton _, fun hpath => honly (hearly hpath),
      honly fun _ => List.mem_singleton_self _, fun n hn => ?_⟩
    exact ⟨w, hw, .inl ⟨path_eq_refund_iff.mp hrefund, List.mem_singleton.mp hn⟩⟩
  · refine ⟨⟨w, hw⟩, List.nodup_nil, fun hpath => honly (hearly hpath), honly fun hlate => ?_,
      fun n hn => absurd hn List.not_mem_nil⟩
    exact absurd ((path_eq_refund_iff.mpr hlate).symm.trans hregister) (by decide)
  · refine ⟨⟨w, hw⟩, prizes_identity_nodup w.roundId w.faucet w.account _ _ _,
      fun hpath => honly (hearly hpath), honly fun hlate => absurd hlate (hearly hsettle),
      fun n hn => ?_⟩
    obtain ⟨pay, hpay, rfl⟩ := List.mem_map.mp hn
    obtain ⟨⟨p, amount⟩, -, rfl⟩ := List.mem_map.mp hpay
    exact ⟨w, hw, .inr ⟨hsettle, p, amount, rfl⟩⟩

theorem run_emits {s s' : House cap} {cs : List Consumption} {log : List Receipt}
    (h : Machine.run consume s cs = some (s', log)) : ∀ rc ∈ log, rc.Emits s.id := by
  have hrun := Machine.run_history
    (fun hist (t : House cap) => t.id = s.id ∧ ∀ rc ∈ hist, Receipt.Emits s.id rc)
    (fun hist t c t' rc hinv hc => by
      obtain ⟨hid, hemits⟩ := hinv
      refine ⟨(consume_id hc).trans hid, fun rc' hrc' => ?_⟩
      obtain hrc' | hrc' := List.mem_append.mp hrc'
      · exact hemits rc' hrc'
      · obtain rfl := List.mem_singleton.mp hrc'
        exact hid ▸ consume_emits hc)
    [] s cs s' log ⟨rfl, fun _ hrc => absurd hrc List.not_mem_nil⟩ h
  exact hrun.2

theorem run_settlements {s s' : House cap} {cs : List Consumption} {log : List Receipt}
    (h : Machine.run consume s cs = some (s', log)) :
    log.Pairwise fun a b => ∀ r, a.path = .settle → a.ofRound r = true → b.path = .settle →
      b.ofRound r = false := by
  refine Machine.run_pairwise
    (fun (t : House cap) (a : Receipt) => ∀ r, a.path = .settle → a.ofRound r = true →
      t.storage.isRoundSettled r = 1) _ (fun t c t' rc hc r hpath hr => ?_)
    (fun t c t' rc a hmark hc r hpath hr => ?_) (fun t c t' rc a hmark hc r hpath hr hpath' => ?_)
    s cs s' log h
  · exact ((consume_flag hc r).2 hpath hr).2
  · exact (consume_flag hc r).1 (hmark r hpath hr)
  · -- the flag that the earlier settlement left would have stopped the later one
    by_contra hr'
    have hopen := ((consume_flag hc r).2 hpath' (by simpa using hr')).1
    rw [hmark r hpath hr] at hopen
    cases hopen

end House

def Consumption.RefundsAlike (id : AccountId) (c d : Consumption) : Prop :=
  ∃ w ∈ wager id c.note, ∃ w' ∈ wager id d.note, w.expiryBlock.val < c.block.val ∧
    w'.expiryBlock.val < d.block.val ∧ w.RefundsAlike w'

instance (id : AccountId) (c d : Consumption) : Decidable (c.RefundsAlike id d) :=
  inferInstanceAs (Decidable (∃ w ∈ wager id c.note, _))

theorem Receipt.Emits.disjoint_iff {id : AccountId} {a b : Receipt} (ha : a.Emits id)
    (hb : b.Emits id)
    (hsettle : ∀ r, a.path = .settle → a.ofRound r = true → b.path = .settle →
      b.ofRound r = false) :
    List.Disjoint (a.payouts.map OutputNote.identity) (b.payouts.map OutputNote.identity) ↔
      ¬ Consumption.RefundsAlike id a.consumption b.consumption := by
  constructor
  · rintro hdisjoint ⟨w, hw, w', hw', htime, htime', halike⟩
    have hidentity := (w.refund_identity_iff w').mpr halike
    exact hdisjoint (List.mem_map_of_mem (ha.refund w hw htime))
      (hidentity ▸ List.mem_map_of_mem (hb.refund w' hw' htime'))
  · intro halike k hka hkb
    obtain ⟨n, hn, rfl⟩ := List.mem_map.mp hka
    obtain ⟨n', hn', hidentity⟩ := List.mem_map.mp hkb
    obtain ⟨w, hw, ⟨htime, rfl⟩ | ⟨hpath, p, amount, rfl⟩⟩ := ha.mem n hn
    · obtain ⟨w', hw', ⟨htime', rfl⟩ | ⟨-, p', amount', rfl⟩⟩ := hb.mem n' hn'
      · exact halike ⟨w, hw, w', hw', htime, htime', (w.refund_identity_iff w').mp hidentity.symm⟩
      · exact absurd (Payment.of_identity_eq hidentity).2 (by simp [Wager.refund])
    · obtain ⟨w', hw', ⟨-, rfl⟩ | ⟨hpath', p', amount', rfl⟩⟩ := hb.mem n' hn'
      · exact absurd (Payment.of_identity_eq hidentity).2 (by simp [Wager.refund])
      · have hround : w'.roundId = w.roundId := (Payment.of_identity_eq hidentity).1
        have hother := hsettle w.roundId hpath (by simp [Receipt.ofRound, roundId_of_wager hw])
          hpath'
        simp [Receipt.ofRound, roundId_of_wager hw', hround] at hother

theorem House.nodup_of_settlements {s s' : House cap} {cs : List Consumption}
    {log : List Receipt} (h : Machine.run House.consume s cs = some (s', log))
    (hsettle : ∀ rc ∈ log, rc.path = .settle) :
    (cs.map Consumption.note).Nodup ∧ ((log.flatMap Receipt.payouts).map OutputNote.id).Nodup := by
  have hemits := House.run_emits h
  have hrounds := House.run_settlements h
  refine ⟨?_, OutputNote.nodup_id ?_⟩
  · rw [← Machine.run_inputs Receipt.consumption (fun _ _ _ _ => House.consume_consumption) s cs
      s' log h, List.map_map, List.Nodup, List.pairwise_map]
    refine hrounds.imp_of_mem fun {a b} ha hb hother heq => ?_
    obtain ⟨w, hw⟩ := (hemits a ha).wager
    have hround : a.ofRound w.roundId = true := by simp [Receipt.ofRound, roundId_of_wager hw]
    have hround' : b.ofRound w.roundId = a.ofRound w.roundId :=
      congrArg (fun n => decide (roundId n = some w.roundId)) heq.symm
    rw [hother _ (hsettle a ha) hround (hsettle b hb), hround] at hround'
    cases hround'
  · rw [List.map_flatMap, List.nodup_flatMap]
    refine ⟨fun rc hrc => (hemits rc hrc).nodup, hrounds.imp_of_mem fun {a b} ha hb hother => ?_⟩
    refine ((hemits a ha).disjoint_iff (hemits b hb) hother).mpr ?_
    rintro ⟨w, hw, -, -, hlate, -⟩
    exact (hemits a ha).inTime (hsettle a ha) w hw hlate

/-- In every run, from any state: all payout notes are different, exactly when no two
of the consumed notes have expired in one round with the same account, faucet and bet
value. -/
theorem payouts_unique_iff (s s' : House cap) (cs : List Consumption) (log : List Receipt)
    (hrun : Machine.run House.consume s cs = some (s', log)) :
    ((log.flatMap Receipt.payouts).map OutputNote.identity).Nodup ↔
      cs.Pairwise fun c d => ¬ Consumption.RefundsAlike s.id c d := by
  have hemits := House.run_emits hrun
  have hsettle := House.run_settlements hrun
  rw [← Machine.run_inputs Receipt.consumption (fun _ _ _ _ => House.consume_consumption) s cs s'
    log hrun, List.pairwise_map, List.map_flatMap, List.nodup_flatMap]
  constructor
  · rintro ⟨-, hdisjoint⟩
    refine (hdisjoint.and hsettle).imp_of_mem fun ha hb h => ?_
    exact ((hemits _ ha).disjoint_iff (hemits _ hb) h.2).mp h.1
  · intro halike
    refine ⟨fun rc hrc => (hemits rc hrc).nodup, ?_⟩
    refine (halike.and hsettle).imp_of_mem fun ha hb h => ?_
    exact ((hemits _ ha).disjoint_iff (hemits _ hb) h.2).mpr h.1

theorem refunds_identical : Sample.note .one ≠ Sample.rival ∧ ∃ s log,
    Machine.run House.consume Sample.house [⟨Sample.note .one, 51⟩, ⟨Sample.rival, 51⟩] =
      some (s, log) ∧
    ¬ ((log.flatMap Receipt.payouts).map OutputNote.identity).Nodup := by
  have hrun : (Machine.run House.consume Sample.house
      [⟨Sample.note .one, 51⟩, ⟨Sample.rival, 51⟩]).map
        (fun r => (r.2.flatMap Receipt.payouts).map OutputNote.identity) =
      some (List.replicate 2 (⟨7, 3, 0, 0⟩, [11, 12], [⟨⟨100, 0, 31, 32⟩⟩])) := by
    decide +kernel
  obtain ⟨⟨s, log⟩, hlog, hidentities⟩ := Option.map_eq_some_iff.mp hrun
  refine ⟨by decide +kernel, s, log, hlog, ?_⟩
  rw [hidentities]
  decide

theorem payouts_unique_sample : ∃ s log,
    Machine.run House.consume Sample.house
        [⟨Sample.note .one, 5⟩, ⟨Sample.note .two, 6⟩, ⟨Sample.rival, 51⟩] = some (s, log) ∧
      ((log.flatMap Receipt.payouts).map OutputNote.identity).Nodup := by
  have hrun : (Machine.run House.consume Sample.house
      [⟨Sample.note .one, 5⟩, ⟨Sample.note .two, 6⟩, ⟨Sample.rival, 51⟩]).isSome := by
    decide +kernel
  have hsome := (Option.some_get hrun).symm
  exact ⟨_, _, hsome, (payouts_unique_iff _ _ _ _ hsome).mpr (by decide +kernel)⟩

end AllaMorra
