import AllaMorra.Calls

/-! The whole history of a round. Of its notes some are refunded and the others are
played, and in every run the played ones come in one form only: registrations of one
player number, and after them at most one settlement, by the other player number,
against the last registration. How far this has come is the state of the round. -/

namespace AllaMorra

open HouseAccount BetNote

variable {cap : KernelCap}

/-- The receipts of a log but for the refunds. -/
def played (log : List Receipt) : List Receipt := log.filter fun rc => rc.path ≠ .refund

theorem played_snoc (log : List Receipt) (rc : Receipt) :
    played (log ++ [rc]) = if rc.path = .refund then played log else played log ++ [rc] := by
  rw [played, List.filter_append, List.filter_singleton]
  by_cases h : rc.path = .refund <;> simp [h, played]

/-- A note of round `r` and player `p`, consumed in time, and the branch it took. -/
structure Receipt.Plays (id : AccountId) (r : Felt) (p : Player) (path : Path) (rc : Receipt)
    (w : Wager) : Prop where
  wager : wager id rc.note = some w
  round : w.roundId = r
  player : w.player = p
  inTime : rc.block.val ≤ w.expiryBlock.val
  path_eq : rc.path = path

/-- Registrations of one player, which pay nothing; `w` is the wager of the last. -/
structure Registrations (id : AccountId) (r : Felt) (p : Player) (regs : List Receipt)
    (w : Wager) : Prop where
  all : ∀ rc ∈ regs, rc.payouts = [] ∧ ∃ w', rc.Plays id r p .register w'
  last : ∃ rc, regs.getLast? = some rc ∧ rc.Plays id r p .register w

/-- What the played notes of a round may be, and the state they leave it in. -/
inductive Chronicle (id : AccountId) (r : Felt) : List Receipt → Round → Prop
  | idle : Chronicle id r [] .idle
  | waiting {p : Player} {regs : List Receipt} {w : Wager}
      (hregs : Registrations id r p regs w) : Chronicle id r regs (.waiting p w.bet)
  | settled {p : Player} {regs : List Receipt} {w w' : Wager} {rc : Receipt}
      (hregs : Registrations id r p regs w) (hplays : rc.Plays id r p.other .settle w')
      (hterms : w'.terms = w.terms)
      (hpayouts : rc.payouts = (w'.prizes w.move.toHand).map Payment.note) :
      Chronicle id r (regs ++ [rc]) .settled

theorem registrations_snoc {id : AccountId} {r : Felt} {p : Player} {regs : List Receipt}
    {rc : Receipt} {w : Wager}
    (hall : ∀ rc ∈ regs, rc.payouts = [] ∧ ∃ w', rc.Plays id r p .register w')
    (hplays : rc.Plays id r p .register w) (hpayouts : rc.payouts = []) :
    Registrations id r p (regs ++ [rc]) w := by
  refine ⟨fun rc' hrc' => ?_, rc, List.getLast?_concat, hplays⟩
  obtain hrc' | hrc' := List.mem_append.mp hrc'
  · exact hall rc' hrc'
  · obtain rfl := List.mem_singleton.mp hrc'
    exact ⟨hpayouts, w, hplays⟩

theorem Registrations.payouts {id : AccountId} {r : Felt} {p : Player} {regs : List Receipt}
    {w : Wager} (h : Registrations id r p regs w) : regs.flatMap Receipt.payouts = [] :=
  List.flatMap_eq_nil_iff.mpr fun rc hrc => (h.all rc hrc).1

namespace Chronicle

variable {id : AccountId} {r : Felt} {log : List Receipt}

theorem registrations_of_free {round : Round} {p : Player} (h : Chronicle id r log round)
    (hfree : round.Free p) :
    ∀ rc ∈ log, rc.payouts = [] ∧ ∃ w, rc.Plays id r p .register w := by
  cases h with
  | idle => exact fun rc hrc => absurd hrc List.not_mem_nil
  | waiting hregs =>
    obtain rfl := Round.free_waiting_iff.mp hfree
    exact hregs.all
  | settled => exact absurd rfl hfree.ne_settled

theorem registrations_of_waiting {p : Player} {bet : Bet}
    (h : Chronicle id r log (.waiting p bet)) :
    ∃ w, w.bet = bet ∧ Registrations id r p log w := by
  cases h with
  | waiting hregs => exact ⟨_, rfl, hregs⟩

theorem step {round round' : Round} {c : Consumption} {rc : Receipt}
    (h : Chronicle id r (played log) round) (hc : c.ofRound r = true)
    (hstep : round.step id c = some (round', rc)) :
    Chronicle id r (played (log ++ [rc])) round' := by
  obtain ⟨w, path, ps, hw, hconsume, rfl⟩ := Round.step_eq_some.mp hstep
  rw [Consumption.ofRound_eq hw, decide_eq_true_iff] at hc
  obtain ⟨htime, rfl, rfl, rfl⟩ | ⟨hplay, hfree, rfl, rfl, rfl⟩ |
    ⟨hplay, bet, rfl, hterms, rfl, rfl, rfl⟩ := Round.consume_eq_some.mp hconsume
  · rwa [played_snoc, if_pos rfl]
  · rw [played_snoc, if_neg (by simp)]
    have hall := h.registrations_of_free hfree
    exact .waiting (registrations_snoc hall ⟨hw, hc, rfl, Nat.not_lt.mp hplay.inTime, rfl⟩ rfl)
  · rw [played_snoc, if_neg (by simp)]
    obtain ⟨w', rfl, hregs⟩ := h.registrations_of_waiting
    refine .settled hregs ⟨hw, hc, ?_, Nat.not_lt.mp hplay.inTime, rfl⟩ hterms rfl
    exact w.player.other_other.symm

end Chronicle

structure Receipt.Refunds (id : AccountId) (rc : Receipt) (w : Wager) : Prop where
  wager : wager id rc.note = some w
  expired : w.expiryBlock.val < rc.block.val
  payouts : rc.payouts = [w.refund.note]

theorem House.consume_refunds {s s' : House cap} {c : Consumption} {rc : Receipt}
    (h : House.consume s c = some (s', rc)) (hpath : rc.path = .refund) :
    ∃ w, rc.Refunds s.id w := by
  obtain ⟨w, ps, hw, heffect, rfl⟩ := House.consume_eq_some.mp h
  have hlate := path_eq_refund_iff.mp hpath
  obtain ⟨v, -, ⟨-, -, rfl⟩ | ⟨hregister, -⟩ | ⟨hsettle, -⟩⟩ := effect_eq_some.mp heffect
  · exact ⟨w, hw, hlate, rfl⟩
  · exact absurd (hregister.symm.trans hpath) (by decide)
  · exact absurd (hsettle.symm.trans hpath) (by decide)

theorem House.run_refunds {s s' : House cap} {cs : List Consumption} {log : List Receipt}
    (h : Machine.run House.consume s cs = some (s', log)) :
    ∀ rc ∈ log, rc.path = .refund → ∃ w, rc.Refunds s.id w := by
  have hrun := Machine.run_history
    (fun hist (t : House cap) => t.id = s.id ∧
      ∀ rc ∈ hist, rc.path = .refund → ∃ w, Receipt.Refunds s.id rc w)
    (fun hist t c t' rc hinv hc => by
      obtain ⟨hid, hrefunds⟩ := hinv
      refine ⟨(House.consume_id hc).trans hid, fun rc' hrc' hpath => ?_⟩
      obtain hrc' | hrc' := List.mem_append.mp hrc'
      · exact hrefunds rc' hrc' hpath
      · obtain rfl := List.mem_singleton.mp hrc'
        exact hid ▸ House.consume_refunds hc hpath)
    [] s cs s' log ⟨rfl, fun _ hrc => absurd hrc List.not_mem_nil⟩ h
  exact hrun.2

/-- A payout note for a player of round `r`, by its serial number. -/
def OutputNote.isPrizeOf (r : Felt) (n : OutputNote) : Bool :=
  n.recipient.serialNum.e0 = r ∧ n.recipient.serialNum.e1 ≠ 3

theorem Payment.isPrizeOf_note (p : Payment) (r : Felt) :
    p.note.isPrizeOf r = decide (p.roundId = r ∧ p.reason ≠ .refund) := by
  refine decide_eq_decide.mpr (and_congr_right fun _ => not_congr ?_)
  change p.reason.serial = 3 ↔ _
  cases p.reason with
  | refund => simp [Reason.serial]
  | prize q => cases q <;> simp [Reason.serial, Player.num]

theorem House.consume_prizes {s s' : House cap} {c : Consumption} {rc : Receipt}
    (h : House.consume s c = some (s', rc)) (r : Felt) :
    rc.payouts.filter (·.isPrizeOf r) =
      if rc.ofRound r ∧ rc.path ≠ .refund then rc.payouts else [] := by
  obtain ⟨w, ps, hw, heffect, rfl⟩ := House.consume_eq_some.mp h
  have hof : Receipt.ofRound r ⟨c.note, c.block, path c.block s.storage w,
      ps.map Payment.note⟩ ↔ w.roundId = r := by
    simp [Receipt.ofRound, roundId_of_wager hw]
  simp only [hof]
  obtain ⟨v, -, ⟨hpath, -, rfl⟩ | ⟨-, -, -, rfl⟩ | ⟨hpath, -, -, v', -, -, rfl⟩⟩ :=
    effect_eq_some.mp heffect
  · rw [hpath, if_neg fun h => h.2 rfl]
    refine List.filter_eq_nil_iff.mpr fun n hn => ?_
    obtain rfl := List.mem_singleton.mp hn
    simp [Payment.isPrizeOf_note, Wager.refund]
  · simp
  · have hprize (n : OutputNote) (hn : n ∈ (w.prizes (s.storage.slot w.roundId
        w.player.other.num).hand).map Payment.note) : n.isPrizeOf r = decide (w.roundId = r) := by
      obtain ⟨p, hp, rfl⟩ := List.mem_map.mp hn
      obtain ⟨x, -, rfl⟩ := List.mem_map.mp hp
      simp [Payment.isPrizeOf_note]
    rw [hpath]
    by_cases hr : w.roundId = r
    · rw [if_pos ⟨hr, by simp⟩]
      exact List.filter_eq_self.mpr fun n hn => (hprize n hn).trans (decide_eq_true hr)
    · rw [if_neg fun h => hr h.1]
      refine List.filter_eq_nil_iff.mpr fun n hn => ?_
      rw [hprize n hn, decide_eq_false hr]
      simp

/-- The history of a round in the log of a house: the state of the round, and all the
prizes it has paid. -/
structure House.Chronicled (r : Felt) (log : List Receipt) (s : House cap) : Prop where
  round : ∃ round, s.storage.Holds r round ∧
    Chronicle s.id r (played (log.filter (·.ofRound r))) round
  prizes : (log.flatMap Receipt.payouts).filter (·.isPrizeOf r) =
    (played (log.filter (·.ofRound r))).flatMap Receipt.payouts

namespace House.Chronicled

variable {r : Felt} {log : List Receipt} {s s' : House cap}

theorem fresh (r : Felt) (id : AccountId) (vault : AssetVault cap) :
    Chronicled r [] (House.fresh id vault) :=
  ⟨⟨.idle, ⟨fun _ => rfl, rfl⟩, .idle⟩, rfl⟩

theorem consume {c : Consumption} {rc : Receipt} (h : Chronicled r log s)
    (hc : House.consume s c = some (s', rc)) : Chronicled r (log ++ [rc]) s' := by
  obtain ⟨⟨round, hholds, hchronicle⟩, hprizes⟩ := h
  refine ⟨?_, ?_⟩
  · obtain ⟨hrc, hround⟩ := House.consume_round hc hholds
    rw [House.consume_id hc, List.filter_append, List.filter_singleton, hrc]
    split at hround
    · next hof =>
      obtain ⟨round', hstep, hholds'⟩ := hround
      rw [hof, cond_true]
      exact ⟨round', hholds', hchronicle.step hof hstep⟩
    · next hof =>
      rw [eq_false_of_ne_true hof, cond_false, List.append_nil]
      exact ⟨round, hround, hchronicle⟩
  · rw [List.flatMap_append, List.filter_append, hprizes, List.flatMap_singleton,
      House.consume_prizes hc, List.filter_append, List.filter_singleton]
    by_cases hr : rc.ofRound r = true
    · rw [hr, cond_true, played_snoc]
      by_cases hpath : rc.path = .refund
      · simp [hpath]
      · simp [hpath]
    · simp [eq_false_of_ne_true hr]

theorem run {id : AccountId} {vault : AssetVault cap} {cs : List Consumption}
    (hrun : Machine.run House.consume (House.fresh id vault) cs = some (s, log)) :
    Chronicled r log s :=
  Machine.run_history (Chronicled r) (fun _ _ _ _ _ h hc => h.consume hc) [] _ cs s log
    (fresh r id vault) hrun

theorem operate {op : Operation} {e : Event} (h : Chronicled r log s)
    (hop : House.operate s op = some (s', e)) (hspares : ∀ m ∈ e.calls, m.writes ≠ some r) :
    Chronicled r (log ++ e.receipts) s' := by
  obtain ⟨c, rc, -, rfl, hc⟩ | ⟨m, block, res, notes, -, rfl, hstorage, hid⟩ :=
    House.operate_cases hop
  · exact h.consume hc
  · obtain ⟨⟨round, hholds, hchronicle⟩, hprizes⟩ := h
    simp only [Event.receipts, List.append_nil]
    refine ⟨⟨round, ?_, hid.symm ▸ hchronicle⟩, hprizes⟩
    rw [hstorage]
    exact HouseCall.holds_update hholds (hspares m (List.mem_singleton_self m))

theorem run_operate {id : AccountId} {vault : AssetVault cap} {ops : List Operation}
    {evs : List Event}
    (hrun : Machine.run House.operate (House.fresh id vault) ops = some (s, evs))
    (hspares : ∀ m ∈ evs.flatMap Event.calls, m.writes ≠ some r) :
    Chronicled r (evs.flatMap Event.receipts) s :=
  Machine.run_history
    (fun hist (t : House cap) => (∀ m ∈ hist.flatMap Event.calls, m.writes ≠ some r) →
      Chronicled r (hist.flatMap Event.receipts) t)
    (fun hist t op t' e hinv hop hspares => by
      rw [List.flatMap_append, List.flatMap_singleton] at hspares ⊢
      exact (hinv fun m hm => hspares m (List.mem_append_left _ hm)).operate hop
        fun m hm => hspares m (List.mem_append_right _ hm))
    [] _ ops s evs (fun _ => fresh r id vault) hrun hspares

end House.Chronicled

/-- In every run from an empty bets map, for every round: the played notes are
registrations of one player number, then at most one settlement by the other, which
pays the rules on the last registered move; the storage of the round is determined by
them; and every note that was not played was late and had its stake paid back. -/
theorem round_chronicle (id : AccountId) (vault : AssetVault cap) (cs : List Consumption)
    (s : House cap) (log : List Receipt)
    (hrun : Machine.run House.consume (House.fresh id vault) cs = some (s, log)) (r : Felt) :
    (∃ round, Chronicle id r (played (log.filter (·.ofRound r))) round ∧
      (∀ p : Player, s.storage.slot r p.num = round.slot p.num) ∧
      s.storage.isRoundSettled r = round.flag) ∧
    ∀ rc ∈ log, rc.path = .refund → ∃ w, rc.Refunds id w := by
  obtain ⟨round, hholds, hchronicle⟩ := (House.Chronicled.run (r := r) hrun).round
  rw [House.run_id hrun] at hchronicle
  exact ⟨⟨round, hchronicle, fun p => hholds.slot p.num, hholds.flag⟩, House.run_refunds hrun⟩

theorem round_chronicle_sample : ∃ (s : House Sample.kernelCap) (log : List Receipt),
    Machine.run House.consume Sample.house
      [⟨Sample.note .one, 5⟩, ⟨Sample.rival, 6⟩, ⟨Sample.note .two, 7⟩] = some (s, log) ∧
    ∃ round, Chronicle Sample.houseId 7 (played (log.filter (·.ofRound 7))) round ∧
      s.storage.isRoundSettled 7 = round.flag := by
  have hrun : (Machine.run House.consume Sample.house
      [⟨Sample.note .one, 5⟩, ⟨Sample.rival, 6⟩, ⟨Sample.note .two, 7⟩]).isSome := by
    decide +kernel
  obtain ⟨⟨s, log⟩, hrun⟩ := Option.isSome_iff_exists.mp hrun
  obtain ⟨⟨round, hround, -, hflag⟩, -⟩ :=
    round_chronicle Sample.houseId AssetVault.empty _ s log hrun 7
  exact ⟨s, log, hrun, round, hround, hflag⟩

end AllaMorra
