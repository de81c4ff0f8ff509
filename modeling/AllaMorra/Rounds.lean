import AllaMorra.History

/-! One round at a time. Apart from the vault, what a bet-note does depends on
its own round only, so a run of the house, restricted to the notes of one round,
is a run of that round on its own with the same receipts. What must hold of a
single round in every run is proved on this small machine. -/

namespace AllaMorra

open HouseAccount BetNote

variable {cap : KernelCap}

namespace BetNote

def roundId (note : Note) : Option Felt := note.inputs[0]?

theorem roundId_of_wager {id : AccountId} {note : Note} {w : Wager}
    (h : wager id note = some w) : roundId note = some w.roundId := by
  obtain ⟨⟨rest, hinputs⟩, -⟩ := wager_eq_some.mp h
  rw [roundId, hinputs]
  rfl

end BetNote

def Consumption.ofRound (r : Felt) (c : Consumption) : Bool := roundId c.note = some r

def Receipt.ofRound (r : Felt) (rc : Receipt) : Bool := roundId rc.note = some r

theorem Consumption.ofRound_eq {id : AccountId} {r : Felt} {c : Consumption} {w : Wager}
    (h : wager id c.note = some w) : c.ofRound r = decide (w.roundId = r) := by
  simp [Consumption.ofRound, roundId_of_wager h]

namespace Round

def step (id : AccountId) (round : Round) (c : Consumption) : Option (Round × Receipt) :=
  (wager id c.note).bind fun w => (round.consume c.block w).map fun (round, path, ps) =>
    (round, ⟨c.note, c.block, path, ps.map Payment.note⟩)

theorem step_of_wager {id : AccountId} {round : Round} {c : Consumption} {w : Wager}
    (hw : wager id c.note = some w) :
    round.step id c = (round.consume c.block w).map fun (round, path, ps) =>
      (round, ⟨c.note, c.block, path, ps.map Payment.note⟩) := by
  rw [step, hw, Option.bind_some]

theorem step_eq_some {id : AccountId} {round round' : Round} {c : Consumption} {rc : Receipt} :
    round.step id c = some (round', rc) ↔ ∃ w path ps, wager id c.note = some w ∧
      round.consume c.block w = some (round', path, ps) ∧
        rc = ⟨c.note, c.block, path, ps.map Payment.note⟩ := receipt_eq_some

end Round

theorem House.consume_round {s s' : House cap} {c : Consumption} {rc : Receipt} {r : Felt}
    {round : Round} (h : House.consume s c = some (s', rc)) (hround : s.storage.Holds r round) :
    rc.ofRound r = c.ofRound r ∧
      if c.ofRound r then ∃ round', round.step s.id c = some (round', rc) ∧
        s'.storage.Holds r round'
      else s'.storage.Holds r round := by
  obtain ⟨w, ps, hw, heffect, rfl⟩ := House.consume_eq_some.mp h
  refine ⟨rfl, ?_⟩
  rw [Consumption.ofRound_eq hw]
  obtain ⟨v, -, hcase⟩ := effect_eq_some.mp heffect
  by_cases hr : r = w.roundId
  swap
  · simp only [Ne.symm hr, decide_false, Bool.false_eq_true, if_false]
    obtain ⟨-, rfl, -⟩ | ⟨-, -, rfl, -⟩ | ⟨-, -, -, v', -, rfl, -⟩ := hcase
    · exact hround
    · exact hround.register_of_ne hr
    · exact hround.close_of_ne hr
  subst hr
  simp only [decide_true, if_true]
  obtain ⟨hpath, rfl, rfl⟩ | ⟨hpath, ⟨hfits, hopen⟩, rfl, rfl⟩ |
    ⟨hpath, ⟨hfits, -⟩, hterms, v', -, rfl, rfl⟩ := hcase
  · have hlate := path_eq_refund_iff.mp hpath
    exact ⟨round, Round.step_eq_some.mpr ⟨w, _, _, hw, round.consume_expired hlate, hpath ▸ rfl⟩,
      hround⟩
  · have hplay : w.Playable c.block := ⟨(path_eq_register_iff.mp hpath).1, hfits⟩
    have hfree := hround.free_of_register hpath hopen
    exact ⟨_, Round.step_eq_some.mpr ⟨w, _, _, hw, Round.consume_free hplay hfree, hpath ▸ rfl⟩,
      hround.register hfree⟩
  · have hplay : w.Playable c.block := ⟨(path_eq_settle_iff.mp hpath).1, hfits⟩
    obtain ⟨bet, rfl⟩ := hround.waiting_of_settle hpath
    rw [hround.slot, Round.slot_waiting_self] at hterms ⊢
    have hconsume := (Round.consume_waiting bet hplay).trans (if_pos hterms)
    exact ⟨_, Round.step_eq_some.mpr ⟨w, _, _, hw, hconsume, hpath ▸ rfl⟩, hround.close⟩

namespace Ledger

theorem step_round {L L' : Ledger cap} {c : Consumption} {rc : Receipt} (r : Felt)
    (h : L.step c = some (L', rc)) :
    rc.ofRound r = c.ofRound r ∧
      if c.ofRound r then (L.rounds r).step L.id c = some (L'.rounds r, rc)
      else L'.rounds r = L.rounds r := by
  obtain ⟨w, path, ps, hw, hconsume, rfl⟩ := step_eq_some.mp h
  obtain ⟨v, round, v', -, hround, -, rfl⟩ := consume_eq_some.mp hconsume
  refine ⟨rfl, ?_⟩
  rw [Consumption.ofRound_eq hw]
  by_cases hr : w.roundId = r
  · subst hr
    simp only [decide_true, if_true, setRound_self]
    exact Round.step_eq_some.mpr ⟨w, path, ps, hw, hround, rfl⟩
  · simp only [hr, decide_false, Bool.false_eq_true, if_false]
    exact L.setRound_of_ne _ _ (Ne.symm hr)

theorem run_round {L L' : Ledger cap} {cs : List Consumption} {log : List Receipt} (r : Felt)
    (h : Machine.run step L cs = some (L', log)) :
    Machine.run (Round.step L.id) (L.rounds r) (cs.filter (·.ofRound r)) =
      some (L'.rounds r, log.filter (·.ofRound r)) := by
  obtain ⟨round, hrun, -, rfl⟩ := Machine.run_filter (Round.step L.id)
    (fun (M : Ledger cap) round => M.id = L.id ∧ M.rounds r = round)
    (·.ofRound r) (·.ofRound r)
    (fun M round c M' rc hR hc hstep => by
      obtain ⟨hid, rfl⟩ := hR
      obtain ⟨hrc, hround⟩ := step_round r hstep
      rw [if_pos hc, hid] at hround
      exact ⟨hrc.trans hc, _, hround, (step_iff.mp hstep).id_eq.trans hid, rfl⟩)
    (fun M round c M' rc hR hc hstep => by
      obtain ⟨hid, rfl⟩ := hR
      obtain ⟨hrc, hround⟩ := step_round r hstep
      rw [if_neg (by simp [hc])] at hround
      exact ⟨hrc.trans hc, (step_iff.mp hstep).id_eq.trans hid, hround⟩)
    L _ cs L' log ⟨rfl, rfl⟩ h
  exact hrun

end Ledger

/-! What becomes of a registered bet. -/

namespace Round

theorem run_waiting {id : AccountId} {p : Player} {bet : Bet} {round : Round}
    {cs : List Consumption} {log : List Receipt}
    (h : Machine.run (Round.step id) (.waiting p bet) cs = some (round, log))
    (hopen : ∀ rc ∈ log, rc.path ≠ .settle)
    (hexpired : ∀ c ∈ cs, ∀ w ∈ wager id c.note, w.player = p →
      w.expiryBlock.val < c.block.val) :
    round = .waiting p bet ∧ ∀ rc ∈ log, rc.path = .refund := by
  induction cs generalizing log with
  | nil =>
    simp only [Machine.run_nil, Option.some.injEq, Prod.mk.injEq] at h
    obtain ⟨rfl, rfl⟩ := h
    simp
  | cons c cs ih =>
    obtain ⟨m, rc, log', hstep, hrun, rfl⟩ := (Machine.run_cons ..).mp h
    obtain ⟨w, path, ps, hw, hconsume, rfl⟩ := step_eq_some.mp hstep
    obtain ⟨-, rfl, rfl, rfl⟩ | ⟨hplay, hfree, -⟩ | ⟨-, bet', -, -, -, rfl, -⟩ :=
      consume_eq_some.mp hconsume
    · obtain ⟨hround, hlog⟩ := ih hrun (fun rc hrc => hopen rc (List.mem_cons_of_mem _ hrc))
        fun c hc => hexpired c (List.mem_cons_of_mem _ hc)
      exact ⟨hround, List.forall_mem_cons.mpr ⟨rfl, hlog⟩⟩
    · have hplayer : p = w.player := free_waiting_iff.mp hfree
      exact absurd (hexpired c List.mem_cons_self w hw hplayer.symm) hplay.inTime
    · exact absurd rfl (hopen _ List.mem_cons_self)

end Round

theorem Ledger.step_registers {L L' : Ledger cap} {c : Consumption} {rc : Receipt} {w : Wager}
    (h : L.step c = some (L', rc)) (hw : wager L.id c.note = some w)
    (htime : ¬ w.expiryBlock.val < c.block.val) (hfree : (L.rounds w.roundId).Free w.player) :
    rc.Registers L.id w.roundId w.player := by
  obtain ⟨w', path, ps, hw', hconsume, rfl⟩ := step_eq_some.mp h
  obtain rfl : w = w' := Option.some.inj (hw.symm.trans hw')
  obtain ⟨v, round, v', -, hround, -, -⟩ := consume_eq_some.mp hconsume
  obtain ⟨hlate, -⟩ | ⟨-, -, -, rfl, -⟩ | ⟨-, bet, hwait, -⟩ := Round.consume_eq_some.mp hround
  · exact absurd hlate htime
  · exact ⟨rfl, w, hw, rfl, rfl⟩
  · rw [hwait, Round.free_waiting_iff] at hfree
    exact absurd hfree w.player.other_ne

/-- The bet of player `p` in round `r` is neither changed nor registered over,
at any point of the notes `cs`. -/
def BetKept (s : House cap) (r : Felt) (p : Player) (cs : List Consumption) : Prop :=
  ∀ cs₁ cs₂ t log, cs = cs₁ ++ cs₂ → Machine.run House.consume s cs₁ = some (t, log) →
    t.storage.slot r p.num = s.storage.slot r p.num ∧ ∀ rc ∈ log, ¬ rc.Registers s.id r p

theorem Receipt.Registers.ofRound {id : AccountId} {r : Felt} {p : Player} {rc : Receipt}
    (h : rc.Registers id r p) : rc.ofRound r = true := by
  obtain ⟨-, w, hw, rfl, -⟩ := h
  simp [Receipt.ofRound, roundId_of_wager hw]

/-- A registered bet survives the notes before its settlement exactly when each
of them that carries its round and player number has expired. -/
theorem bet_kept_iff (s : House cap) (hs : Reachable s) (r : Felt) (p : Player)
    (hreg : s.storage.isPlayerRegistered r p.num = 1) (cs : List Consumption) (s' : House cap)
    (log : List Receipt) (hrun : Machine.run House.consume s cs = some (s', log))
    (hopen : ∀ rc ∈ log, rc.ofRound r → rc.path ≠ .settle) :
    BetKept s r p cs ↔ ∀ c ∈ cs, ∀ w ∈ wager s.id c.note, w.roundId = r → w.player = p →
      w.expiryBlock.val < c.block.val := by
  obtain ⟨L, -, rfl⟩ := hs.exists_solvent
  obtain ⟨bet, hbet⟩ := L.waiting_of_registered hreg
  constructor
  · intro hkept c hc w hw hr hp
    by_contra htime
    obtain ⟨cs₁, cs₂, rfl⟩ := List.append_of_mem hc
    obtain ⟨t, log₁, log₂, h₁, h₂, rfl⟩ := (Machine.run_append ..).mp hrun
    obtain ⟨t', rc, log₃, hstep, h₃, rfl⟩ := (Machine.run_cons ..).mp h₂
    -- the slot is still registered when the note comes, so it registers again
    have hbefore := hkept cs₁ (c :: cs₂) t log₁ rfl h₁
    have hafter := hkept (cs₁ ++ [c]) cs₂ t' (log₁ ++ [rc]) (by simp)
      ((Machine.run_append ..).mpr ⟨t, log₁, [rc], h₁, (Machine.run_singleton ..).mpr
        ⟨rc, hstep, rfl⟩, rfl⟩)
    obtain ⟨M, -, rfl⟩ := Ledger.run_house_eq_some h₁
    have hid : M.id = L.id := House.run_id h₁
    obtain ⟨bet', hbet'⟩ :=
      M.waiting_of_registered ((congrArg Slot.registered hbefore.1).trans hreg)
    obtain ⟨M', hledger, rfl⟩ := Ledger.consume_house_eq_some hstep
    subst hr hp
    have hw : wager M.id c.note = some w := by rwa [hid]
    have hagain := Ledger.step_registers hledger hw htime (.inr ⟨bet', hbet'⟩)
    rw [hid] at hagain
    exact hafter.2 rc (List.mem_append_right _ List.mem_cons_self) hagain
  · intro hexpired cs₁ cs₂ t log₁ hcs h₁
    subst hcs
    obtain ⟨t', log₁', log₂, h₁', -, rfl⟩ := (Machine.run_append ..).mp hrun
    obtain ⟨rfl, rfl⟩ : t = t' ∧ log₁ = log₁' := by simpa using h₁.symm.trans h₁'
    obtain ⟨M, hM, rfl⟩ := Ledger.run_house_eq_some h₁
    have hround := Ledger.run_round r hM
    rw [hbet] at hround
    obtain ⟨hbet', hlog⟩ := Round.run_waiting hround
      (fun rc hrc => hopen rc (List.mem_append_left _ (List.mem_of_mem_filter hrc))
        (List.of_mem_filter hrc))
      fun c hc w hw hp => by
        have hr := List.of_mem_filter hc
        rw [Consumption.ofRound_eq hw, decide_eq_true_iff] at hr
        exact hexpired c (List.mem_append_left _ (List.mem_of_mem_filter hc)) w hw hr hp
    refine ⟨?_, fun rc hrc hreg => ?_⟩
    · rw [M.slot_house, L.slot_house, hbet', hbet]
    · have hpath := hlog rc (List.mem_filter.mpr ⟨hrc, hreg.ofRound⟩)
      exact absurd (hreg.1.symm.trans hpath) (by decide)

namespace Sample

def rivalMove : Move := ⟨⟨3, 6⟩, by decide, by decide⟩

def rival : Note :=
  (game.wager .one rivalMove faucet).toNote houseId ⟨0, 0, 0, 9⟩

def elsewhere : Note :=
  ({ game with roundId := 8, expiryBlock := 90 }.wager .one (moves .one) faucet).toNote houseId
    ⟨0, 0, 0, 8⟩

end Sample

/-- In time, the second note replaces the first one's bet: the round is open,
both stakes are in the vault, and only the later bet is stored. -/
theorem bet_replaced :
    Reachable Sample.registered.1 ∧ Sample.registered.1.storage.slot 7 1 =
        (Sample.wager .one).bet.slot ∧
    ∃ s log, Machine.run House.consume Sample.registered.1 [⟨Sample.rival, 6⟩] = some (s, log) ∧
      s.storage.isRoundSettled 7 = 0 ∧ s.vault.balance Sample.faucet = 200 ∧
        (s.storage.slot 7 1).hand = ⟨3, 6⟩ ∧
          ¬ BetKept Sample.registered.1 7 .one [⟨Sample.rival, 6⟩] := by
  have hrun : (Machine.run House.consume Sample.registered.1 [⟨Sample.rival, 6⟩]).isSome := by
    decide +kernel
  have hsome := (Option.some_get hrun).symm
  refine ⟨Sample.reachable_registered, by decide +kernel, _, _, hsome, by decide +kernel,
    by decide +kernel, by decide +kernel, fun hkept => ?_⟩
  have hslot := (hkept [⟨Sample.rival, 6⟩] [] _ _ rfl hsome).1
  revert hslot
  decide +kernel

theorem bet_kept_sample : BetKept Sample.registered.1 7 .one [⟨Sample.rival, 51⟩] := by
  have hrun : (Machine.run House.consume Sample.registered.1 [⟨Sample.rival, 51⟩]).isSome := by
    decide +kernel
  refine (bet_kept_iff Sample.registered.1 Sample.reachable_registered 7 .one (by decide +kernel)
    [⟨Sample.rival, 51⟩] _ _ (Option.some_get hrun).symm (by decide +kernel)).mpr ?_
  intro c hc w hw _ _
  obtain rfl := List.mem_singleton.mp hc
  obtain rfl := wager_toNote_inj hw
  decide

end AllaMorra
