import AllaMorra.Rounds

/-! Rounds share one vault and one storage map, and still no round depends on
another. A run restricted to the notes of one round is again a run of the house:
the round finds its own bets, and what the vault holds beyond the stakes of all
other rounds is at least the vault of the restricted run. -/

namespace AllaMorra

open HouseAccount BetNote

variable {cap : KernelCap}

namespace Ledger

theorem Solvent.payable {L : Ledger cap} (h : L.Solvent) {block : Felt} {w : Wager}
    {round : Round} {path : Path} {ps : List Payment}
    (hround : (L.rounds w.roundId).consume block w = some (round, path, ps)) :
    (ps.map Payment.amount).sum ≤ L.vault.balance w.faucet + w.betValue.val := by
  obtain ⟨-, -, -, rfl⟩ | ⟨-, -, -, -, rfl⟩ | ⟨-, bet, hwait, hterms, -, -, rfl⟩ :=
    Round.consume_eq_some.mp hround
  · exact Nat.le_add_left ..
  · exact Nat.zero_le _
  · -- the waiting stake is in the vault, and the prizes are at most both stakes
    have hstake := h.betValue_le hwait
    rw [← hterms] at hstake
    change w.betValue.val ≤ L.vault.balance w.faucet at hstake
    have hprize := w.totalPrize_le bet.move.toHand
    rw [w.prizes_amount]
    omega

/-- What the slots of all rounds but one are owed. -/
def owedElsewhere (L : Ledger cap) (r : Felt) (slot : Felt × Felt) (faucet : AccountId) : Nat :=
  if slot.1 = r then 0 else L.owed slot faucet

/-- What the vault holds of a faucet beyond the stakes of all rounds but one. -/
def share (L : Ledger cap) (r : Felt) (faucet : AccountId) : Int :=
  Escrow.surplus L.vault.balance (L.owedElsewhere r) faucet

theorem share_le_balance (L : Ledger cap) (r : Felt) (f : AccountId) :
    L.share r f ≤ L.vault.balance f := by
  unfold share Escrow.surplus
  omega

theorem share_start (id : AccountId) (vault : AssetVault cap) (r : Felt) (f : AccountId) :
    (start id vault).share r f = vault.balance f := by
  have hzero : Escrow.total ((start id vault).owedElsewhere r) f = 0 := by
    refine Escrow.total_eq_zero fun slot => ?_
    unfold owedElsewhere
    split
    · rfl
    · exact Slot.owed_empty f
  rw [share, Escrow.surplus, hzero]
  exact sub_zero _

theorem share_le_of_other {L L' : Ledger cap} {c : Consumption} {rc : Receipt} {r : Felt}
    (hstep : L.step c = some (L', rc)) (hround : L'.rounds r = L.rounds r) (f : AccountId) :
    L.share r f ≤ L'.share r f := by
  obtain ⟨slot, hoff, hle⟩ := (step_iff.mp hstep).owed
  refine Escrow.surplus_le_of_slot slot (fun other hother => ?_) ?_
  · unfold owedElsewhere
    rw [hoff other hother f]
  · have hslot := hle f
    unfold owedElsewhere
    split
    · next hr =>
      have hsame : L'.owed slot f = L.owed slot f := owed_of_rounds (by rw [hr, hround]) f
      omega
    · exact hslot

structure Follows (r : Felt) (L I : Ledger cap) : Prop where
  id_eq : I.id = L.id
  round_eq : I.rounds r = L.rounds r
  solvent : I.Solvent
  vault_le : ∀ f, I.vault.balance f ≤ L.share r f

theorem Follows.step {r : Felt} {L L' I : Ledger cap} (h : Follows r L I) {c : Consumption}
    {rc : Receipt} (hc : c.ofRound r = true) (hstep : L.step c = some (L', rc)) :
    ∃ I', I.step c = some (I', rc) ∧ Follows r L' I' := by
  obtain ⟨w, path, ps, hw, hconsume, rfl⟩ := step_eq_some.mp hstep
  obtain ⟨v, round, v', hadd, hround, hremove, rfl⟩ := consume_eq_some.mp hconsume
  rw [Consumption.ofRound_eq hw, decide_eq_true_iff] at hc
  subst hc
  rw [← h.round_eq] at hround
  obtain ⟨hcap, hv⟩ := AssetVault.add_eq_some.mp hadd
  obtain ⟨-, hv'⟩ := AssetVault.remove_eq_some.mp hremove
  have hle (f : AccountId) : I.vault.balance f ≤ L.vault.balance f := by
    have hshare := (h.vault_le f).trans (L.share_le_balance w.roundId f)
    omega
  -- the deposit fits under the cap, because the smaller vault has more room
  obtain ⟨u, huadd⟩ := I.vault.add_isSome w.faucet w.betValue.val
    ((Nat.add_le_add_right (hle w.faucet) _).trans hcap)
  have hu := (AssetVault.add_eq_some.mp huadd).2
  have hpay : (ps.map Payment.amount).sum ≤ u.balance w.faucet := by
    rw [hu, if_pos rfl]
    exact h.solvent.payable hround
  obtain ⟨u', huremove⟩ := u.remove_isSome w.faucet _ hpay
  have hu' := (AssetVault.remove_eq_some.mp huremove).2
  have hI : I.step c = some (I.setRound w.roundId round u',
      ⟨c.note, c.block, path, ps.map Payment.note⟩) :=
    step_eq_some.mpr ⟨w, path, ps, h.id_eq ▸ hw,
      consume_eq_some.mpr ⟨u, round, u', huadd, hround, huremove, rfl⟩, rfl⟩
  refine ⟨_, hI, h.id_eq, ?_, h.solvent.step hI, fun f => ?_⟩
  · rw [setRound_self, setRound_self]
  · -- both vaults move by the same amounts, and the other rounds stay
    have hother : Escrow.total ((L.setRound w.roundId round v').owedElsewhere w.roundId) f =
        Escrow.total (L.owedElsewhere w.roundId) f := by
      refine Escrow.total_congr fun slot => ?_
      unfold owedElsewhere
      split
      · rfl
      · next hr => exact owed_of_rounds (by rw [L.setRound_of_ne _ _ hr]) f
    have hshare := h.vault_le f
    unfold share Escrow.surplus at hshare ⊢
    rw [hother, setRound_vault, setRound_vault]
    have h₁ := hv f
    have h₂ := hv' f
    have h₃ := hu f
    have h₄ := hu' f
    omega

theorem Follows.skip {r : Felt} {L L' I : Ledger cap} (h : Follows r L I) {c : Consumption}
    {rc : Receipt} (hc : c.ofRound r = false) (hstep : L.step c = some (L', rc)) :
    Follows r L' I := by
  obtain ⟨-, hround⟩ := step_round r hstep
  rw [if_neg (by simp [hc])] at hround
  exact ⟨h.id_eq.trans (step_iff.mp hstep).id_eq.symm, h.round_eq.trans hround.symm, h.solvent,
    fun f => (h.vault_le f).trans (share_le_of_other hstep hround f)⟩

theorem Follows.run {r : Felt} {L L' I : Ledger cap} (h : Follows r L I) {cs : List Consumption}
    {log : List Receipt} (hrun : Machine.run Ledger.step L cs = some (L', log)) :
    ∃ I', Machine.run Ledger.step I (cs.filter (·.ofRound r)) =
      some (I', log.filter (·.ofRound r)) ∧ Follows r L' I' :=
  Machine.run_filter Ledger.step (Follows r) (·.ofRound r) (·.ofRound r)
    (fun _ _ _ _ _ hR hc hstep => ⟨(step_round r hstep).1.trans hc, hR.step hc hstep⟩)
    (fun _ _ _ _ _ hR hc hstep => ⟨(step_round r hstep).1.trans hc, hR.skip hc hstep⟩)
    L I cs L' log h hrun

theorem follows_start (id : AccountId) (vault : AssetVault cap) (r : Felt) :
    Follows r (start id vault) (start id vault) :=
  ⟨rfl, rfl, solvent_start id vault, fun f => (share_start id vault r f).ge⟩

end Ledger

/-- From an empty bets map, the notes of any round, run on their own from the same
house, go through with the same receipts and leave the round as the full run does. -/
theorem rounds_isolated (id : AccountId) (vault : AssetVault cap) (cs : List Consumption)
    (s : House cap) (log : List Receipt)
    (hrun : Machine.run House.consume (House.fresh id vault) cs = some (s, log)) (r : Felt) :
    ∃ t, Machine.run House.consume (House.fresh id vault) (cs.filter (·.ofRound r)) =
        some (t, log.filter (·.ofRound r)) ∧
      (∀ p : Player, t.storage.slot r p.num = s.storage.slot r p.num) ∧
      t.storage.isRoundSettled r = s.storage.isRoundSettled r := by
  rw [← House.house_start] at hrun ⊢
  obtain ⟨L, hL, rfl⟩ := Ledger.run_house_eq_some hrun
  obtain ⟨I, hI, hfollows⟩ := (Ledger.follows_start id vault r).run hL
  refine ⟨I.house, ?_, fun p => ?_, ?_⟩
  · rw [Ledger.run_house, hI]
    rfl
  · rw [I.slot_house, L.slot_house, hfollows.round_eq]
  · exact congrArg Round.flag hfollows.round_eq

theorem rounds_isolated_sample : ∃ (s : House Sample.kernelCap) (log : List Receipt),
    Machine.run House.consume Sample.house
      [⟨Sample.note .one, 5⟩, ⟨Sample.elsewhere, 6⟩, ⟨Sample.note .two, 7⟩] = some (s, log) ∧
    ∃ t, Machine.run House.consume Sample.house [⟨Sample.note .one, 5⟩, ⟨Sample.note .two, 7⟩] =
      some (t, log.filter (·.ofRound 7)) ∧
      t.storage.isRoundSettled 7 = s.storage.isRoundSettled 7 := by
  have hrun : (Machine.run House.consume Sample.house
      [⟨Sample.note .one, 5⟩, ⟨Sample.elsewhere, 6⟩, ⟨Sample.note .two, 7⟩]).isSome := by
    decide +kernel
  obtain ⟨⟨s, log⟩, hrun⟩ := Option.isSome_iff_exists.mp hrun
  obtain ⟨t, ht, -, hflag⟩ :=
    rounds_isolated Sample.houseId AssetVault.empty _ s log hrun 7
  exact ⟨s, log, hrun, t, ht, hflag⟩

end AllaMorra
