import AllaMorra.Conservation
import AllaMorra.Isolation
import AllaMorra.Uniqueness

/-! No bet is stuck. A registered bet leaves the house only through a note of the other
player number on the same terms, and such a note exists at every block, as long as the
vault has room for one more stake. A settlement pays out at least the stake it takes in,
so one transaction can settle every open round. -/

namespace AllaMorra

open HouseAccount BetNote

variable {cap : KernelCap}

def Wager.answer (w : Wager) (block : Felt) : Wager :=
  { w with player := w.player.other, expiryBlock := block }

theorem Wager.betValue_le_totalPrize (w : Wager) (opponent : Hand) :
    w.betValue.val ≤ w.totalPrize opponent := by
  have hwinner : w.betValue.val ≤ winnerPayout w.betValue.val := by
    unfold winnerPayout
    omega
  have hdraw : w.betValue.val ≤ 2 * drawPayout w.betValue.val := by
    unfold drawPayout winnerPayout
    omega
  simp only [totalPrize, totalPayout, payouts]
  split_ifs <;> simp <;> omega

namespace Ledger

/-- Every waiting bet is the bet of a wager of that round and player, with a
commitment to its players. -/
def Named (L : Ledger cap) : Prop :=
  ∀ r p bet, L.rounds r = .waiting p bet →
    ∃ w : Wager, w.XorFits ∧ w.roundId = r ∧ w.player = p ∧ w.bet = bet

theorem named_start (id : AccountId) (vault : AssetVault cap) : (start id vault).Named :=
  fun _ _ _ hround => absurd hround (by simp [start])

theorem Named.step {L L' : Ledger cap} (h : L.Named) {c : Consumption} {rc : Receipt}
    (hstep : L.step c = some (L', rc)) : L'.Named := by
  intro r p bet hround
  cases step_iff.mp hstep with
  | refund w v hw hadd htime => exact h r p bet hround
  | register w v hw hadd hplay hfree =>
    by_cases hr : r = w.roundId
    · subst hr
      rw [setRound_self, Round.waiting.injEq] at hround
      obtain ⟨rfl, rfl⟩ := hround
      exact ⟨w, hplay.fits, rfl, rfl, rfl⟩
    · rw [L.setRound_of_ne _ _ hr] at hround
      exact h r p bet hround
  | settle w bet' v v' hw hadd hplay hwait hterms hremove =>
    by_cases hr : r = w.roundId
    · subst hr
      rw [setRound_self] at hround
      cases hround
    · rw [L.setRound_of_ne _ _ hr] at hround
      exact h r p bet hround

theorem named_of_run {id : AccountId} {vault : AssetVault cap} {cs : List Consumption}
    {L : Ledger cap} {log : List Receipt}
    (h : Machine.run step (start id vault) cs = some (L, log)) : L.Named :=
  Machine.run_invariant Named (fun _ _ _ _ hnamed => hnamed.step) (start id vault) cs L log
    (named_start id vault) h

def Fits (L : Ledger cap) (bet : Bet) : Prop :=
  L.vault.balance bet.terms.faucet + bet.terms.betValue.val ≤ cap.value

theorem Solvent.exists_settlement {L : Ledger cap} (hsolvent : L.Solvent) (hnamed : L.Named)
    {r : Felt} {p : Player} {bet : Bet} (hround : L.rounds r = .waiting p bet)
    (hfits : L.Fits bet) (block : Felt) :
    ∃ note L' rc, L.step ⟨note, block⟩ = some (L', rc) ∧ rc.path = .settle ∧
      rc.ofRound r = true ∧ L'.rounds = Function.update L.rounds r .settled ∧
      ∀ f, L'.vault.balance f ≤ L.vault.balance f := by
  obtain ⟨reg, hcommitment, rfl, rfl, rfl⟩ := hnamed r p bet hround
  let w := reg.answer block
  let note := w.toNote L.id ⟨0, 0, 0, 0⟩
  have hw : wager L.id note = some w := wager_toNote w L.id _
  have hplay : w.Playable block := ⟨Nat.lt_irrefl block.val, hcommitment⟩
  have hwaiting : L.rounds w.roundId = .waiting w.player.other reg.bet := by
    rw [show w.player.other = reg.player from reg.player.other_other]
    exact hround
  have hconsume : (L.rounds w.roundId).consume block w =
      some (.settled, .settle, w.prizes reg.move.toHand) := by
    rw [hwaiting, Round.consume_waiting _ hplay]
    exact if_pos rfl
  obtain ⟨v, hadd⟩ := L.vault.add_isSome w.faucet w.betValue.val hfits
  have hv := (AssetVault.add_eq_some.mp hadd).2
  have hpay : w.totalPrize reg.move.toHand ≤ v.balance w.faucet := by
    rw [hv, if_pos rfl, ← w.prizes_amount]
    exact hsolvent.payable hconsume
  obtain ⟨v', hremove⟩ := v.remove_isSome w.faucet _ hpay
  have hv' := (AssetVault.remove_eq_some.mp hremove).2
  refine ⟨note, L.setRound w.roundId .settled v', _,
    step_iff.mpr (.settle w reg.bet v v' hw hadd hplay hwaiting rfl hremove), rfl, ?_, rfl,
    fun f => ?_⟩
  · simp only [Receipt.ofRound, roundId_of_wager hw]
    exact decide_eq_true rfl
  · have hstake := w.betValue_le_totalPrize reg.move.toHand
    have h₁ := hv f
    have h₂ := hv' f
    rw [setRound_vault]
    change v'.balance f + (if f = w.faucet then w.totalPrize reg.move.toHand else 0) = _ at h₂
    split_ifs at h₁ h₂ <;> omega

def AllFit (L : Ledger cap) : Prop := ∀ r p bet, L.rounds r = .waiting p bet → L.Fits bet

theorem Solvent.exists_clearing {L : Ledger cap} (hsolvent : L.Solvent) (hnamed : L.Named)
    (hfit : L.AllFit) (block : Felt) (rs : List Felt) :
    ∃ (notes : List Note) (L' : Ledger cap) (log : List Receipt),
      Machine.run Ledger.step L (Transaction.consumptions ⟨block, notes⟩) = some (L', log) ∧
      (∀ rc ∈ log, rc.path = .settle) ∧
      ∀ r p bet, L'.rounds r = .waiting p bet → r ∉ rs ∧ L.rounds r = .waiting p bet := by
  induction rs generalizing L with
  | nil =>
    exact ⟨[], L, [], rfl, fun _ hrc => absurd hrc List.not_mem_nil,
      fun r p bet hround => ⟨List.not_mem_nil, hround⟩⟩
  | cons r rs ih =>
    by_cases hwaiting : ∃ p bet, L.rounds r = .waiting p bet
    · obtain ⟨p, bet, hround⟩ := hwaiting
      obtain ⟨note, M, rc, hstep, hpath, -, hrounds, hle⟩ :=
        hsolvent.exists_settlement hnamed hround (hfit r p bet hround) block
      have hback {r' : Felt} {p' : Player} {bet' : Bet} (h : M.rounds r' = .waiting p' bet') :
          r' ≠ r ∧ L.rounds r' = .waiting p' bet' := by
        rw [hrounds, Function.update_apply] at h
        split at h
        · cases h
        · next hne => exact ⟨hne, h⟩
      have hfit' : M.AllFit := fun r' p' bet' h =>
        (Nat.add_le_add_right (hle _) _).trans (hfit r' p' bet' (hback h).2)
      obtain ⟨notes, L', log, hrun, hsettle, hrest⟩ :=
        ih (hsolvent.step hstep) (hnamed.step hstep) hfit'
      refine ⟨note :: notes, L', rc :: log, (Machine.run_cons ..).mpr ⟨M, rc, log, hstep, hrun,
        rfl⟩, List.forall_mem_cons.mpr ⟨hpath, hsettle⟩, fun r' p' bet' h => ?_⟩
      obtain ⟨hnot, hM⟩ := hrest r' p' bet' h
      exact ⟨List.not_mem_cons_of_ne_of_not_mem (hback hM).1 hnot, (hback hM).2⟩
    · obtain ⟨notes, L', log, hrun, hsettle, hrest⟩ := ih hsolvent hnamed hfit
      refine ⟨notes, L', log, hrun, hsettle, fun r' p' bet' h => ?_⟩
      obtain ⟨hnot, hL⟩ := hrest r' p' bet' h
      have hne : r' ≠ r := fun heq => hwaiting ⟨p', bet', heq ▸ hL⟩
      exact ⟨List.not_mem_cons_of_ne_of_not_mem hne hnot, hL⟩

end Ledger

theorem Reachable.exists_named {s : House cap} (h : Reachable s) :
    ∃ L : Ledger cap, L.Solvent ∧ L.Named ∧ s = L.house := by
  obtain ⟨id, vault, cs, log, L, hrun, rfl⟩ := h.exists_run
  exact ⟨L, Ledger.solvent_of_run hrun, Ledger.named_of_run hrun, rfl⟩

namespace House

def Fits (s : House cap) (r p : Felt) : Prop :=
  s.vault.balance ⟨s.storage.getPlayerFaucetSuffix r p, s.storage.getPlayerFaucetPrefix r p⟩ +
    (s.storage.getPlayerBetValue r p).val ≤ cap.value

instance (s : House cap) (r p : Felt) : Decidable (s.Fits r p) :=
  inferInstanceAs (Decidable (_ ≤ _))

theorem fits_house {L : Ledger cap} {r : Felt} {p : Player} {bet : Bet}
    (hround : L.rounds r = .waiting p bet) : L.house.Fits r p.num ↔ L.Fits bet := by
  have hslot : L.house.storage.slot r p.num = bet.slot := by
    rw [L.slot_house, hround, Round.slot_waiting_self]
  have hterms := congrArg Slot.terms hslot
  change (⟨⟨_, _⟩, _, _, _⟩ : Terms) = bet.terms at hterms
  rw [Ledger.Fits, ← hterms]
  rfl

/-- On a reachable house, at any block: some note settles the round of a registered bet
exactly when the vault has room for one more stake. -/
theorem settleable_iff (s : House cap) (hs : Reachable s) (r : Felt) (p : Player)
    (hreg : s.storage.isPlayerRegistered r p.num = 1) (block : Felt) :
    (∃ note s' rc, consume s ⟨note, block⟩ = some (s', rc) ∧ rc.path = .settle ∧
      rc.ofRound r = true) ↔ s.Fits r p.num := by
  obtain ⟨L, hsolvent, hnamed, rfl⟩ := hs.exists_named
  obtain ⟨bet, hround⟩ := L.waiting_of_registered hreg
  rw [fits_house hround]
  constructor
  · rintro ⟨note, s', rc, hconsume, hpath, hr⟩
    obtain ⟨L', hstep, rfl⟩ := Ledger.consume_house_eq_some hconsume
    cases Ledger.step_iff.mp hstep with
    | refund w v hw hadd htime => cases hpath
    | register w v hw hadd hplay hfree => cases hpath
    | settle w bet' v v' hw hadd hplay hwait hterms hremove =>
      simp only [Receipt.ofRound, roundId_of_wager hw, Option.some.injEq, decide_eq_true_eq] at hr
      subst hr
      obtain ⟨-, rfl⟩ := Round.waiting.inj (hwait.symm.trans hround)
      rw [Ledger.Fits, ← hterms]
      exact (AssetVault.add_eq_some.mp hadd).1
  · intro hfits
    obtain ⟨note, L', rc, hstep, hpath, hr, -, -⟩ :=
      hsolvent.exists_settlement hnamed hround hfits block
    refine ⟨note, L'.house, rc, ?_, hpath, hr⟩
    rw [Ledger.consume_house, hstep]
    rfl

/-- From every reachable house with room for one more stake of each registered bet, notes
at one block settle all open rounds, and no bet is left. If there are any, they go through
in one transaction, where they and what they pay out are not more than it may hold. -/
theorem all_bets_clear (s : House cap) (hs : Reachable s) (block : Felt)
    (hfits : ∀ r (p : Player), s.storage.isPlayerRegistered r p.num = 1 → s.Fits r p.num) :
    ∃ (notes : List Note) (s' : House cap) (log : List Receipt),
      Machine.run consume s (Transaction.consumptions ⟨block, notes⟩) = some (s', log) ∧
      (∀ rc ∈ log, rc.path = .settle) ∧
      (∀ r (p : Player), s'.storage.isPlayerRegistered r p.num = 0) ∧
      (notes ≠ [] → notes.length ≤ cap.inputNotes →
        (log.flatMap Receipt.payouts).length ≤ cap.outputNotes →
        Transaction.execute s ⟨block, notes⟩ = some (s', log.flatMap Receipt.payouts)) := by
  obtain ⟨L, hsolvent, hnamed, rfl⟩ := hs.exists_named
  have hallFit : L.AllFit := fun r p bet hround => by
    refine (fits_house hround).mp (hfits r p ?_)
    rw [L.isPlayerRegistered_house, hround, Round.slot_waiting_self]
    rfl
  obtain ⟨notes, L', log, hrun, hsettle, hrest⟩ :=
    hsolvent.exists_clearing hnamed hallFit block Finset.univ.toList
  have hhouse : Machine.run consume L.house (Transaction.consumptions ⟨block, notes⟩) =
    some (L'.house, log) := (Ledger.run_house L _).trans (congrArg _ hrun)
  refine ⟨notes, L'.house, log, hhouse, hsettle, fun r p => ?_, fun hne hinputs houtputs => ?_⟩
  · -- a slot that is still registered would be in no list of all rounds
    by_contra hreg
    rw [L'.isPlayerRegistered_house] at hreg
    obtain ⟨bet, hround⟩ := Round.waiting_of_registered hreg
    exact (hrest r p bet hround).1 (by simp)
  · obtain ⟨hnotes, houts⟩ := nodup_of_settlements hhouse hsettle
    simp only [Transaction.consumptions, List.map_map, Function.comp_def, List.map_id'] at hnotes
    exact Transaction.execute_eq_some.mpr
      ⟨log, hhouse, rfl, hne, hinputs, hnotes, houtputs, houts⟩

end House

theorem settleable_sample : ∃ note s' rc,
    House.consume Sample.registered.1 ⟨note, 6⟩ = some (s', rc) ∧ rc.path = .settle ∧
      rc.ofRound 7 = true :=
  (House.settleable_iff Sample.registered.1 Sample.reachable_registered 7 .one
    (by decide +kernel) 6).mpr (by decide +kernel)

theorem Sample.fits_registered (r : Felt) (p : Player)
    (hreg : registered.1.storage.isPlayerRegistered r p.num = 1) : registered.1.Fits r p.num := by
  have hrun : Machine.run House.consume house [⟨note .one, 5⟩] =
    some (registered.1, registered.2) := run_registered
  obtain ⟨L, hL, hid, hrec, -⟩ := House.exists_ledger hrun
  have hvault : registered.1.vault = L.vault := congrArg Account.vault hL
  rw [hL] at hreg ⊢
  obtain ⟨bet, hround⟩ := L.waiting_of_registered hreg
  rw [House.fits_house hround]
  obtain ⟨rc, w, hlast, hw, rfl⟩ := hrec r p bet hround
  have hnotes : ∀ rc ∈ registered.2, rc.note = note .one := by decide +kernel
  have hnote := hnotes rc (List.mem_reverse.mp (List.mem_of_find?_eq_some hlast))
  rw [hid, hnote] at hw
  obtain rfl := wager_toNote_inj hw
  rw [Ledger.Fits, ← hvault]
  decide +kernel

theorem all_bets_clear_sample : ∃ (notes : List Note) (s : House Sample.kernelCap)
    (log : List Receipt),
    Machine.run House.consume Sample.registered.1 (Transaction.consumptions ⟨6, notes⟩) =
      some (s, log) ∧
    ∀ r (p : Player), s.storage.isPlayerRegistered r p.num = 0 := by
  obtain ⟨notes, s, log, hrun, -, hclear, -⟩ := House.all_bets_clear Sample.registered.1
    Sample.reachable_registered 6 Sample.fits_registered
  exact ⟨notes, s, log, hrun, hclear⟩

end AllaMorra
