import AllaMorra.Escrow
import AllaMorra.Refinement

/-! The vault covers every registered bet. A slot is owed its stored bet in its
stored faucet while it is registered; the surplus of a faucet is the vault
balance less all that is owed. No consumed note lowers a surplus, because each
changes one slot and moves the balance of the slot's faucet with it. -/

namespace AllaMorra

open HouseAccount BetNote

variable {cap : KernelCap}

def Slot.owed (slot : Slot) (faucet : AccountId) : Nat :=
  if slot.registered = 1 ∧ slot.terms.faucet = faucet then slot.betValue.val else 0

theorem Slot.owed_empty (faucet : AccountId) : Slot.empty.owed faucet = 0 :=
  if_neg fun h => absurd h.1 (by decide)

theorem Bet.owed_slot (bet : Bet) (faucet : AccountId) :
    bet.slot.owed faucet = if faucet = bet.terms.faucet then bet.terms.betValue.val else 0 :=
  if_congr (by simp [Bet.slot, Slot.terms, eq_comm]) rfl rfl

namespace Ledger

def owed (L : Ledger cap) (slot : Felt × Felt) (faucet : AccountId) : Nat :=
  ((L.rounds slot.1).slot slot.2).owed faucet

theorem owed_of_rounds {L L' : Ledger cap} {slot : Felt × Felt}
    (h : (L'.rounds slot.1).slot slot.2 = (L.rounds slot.1).slot slot.2) (faucet : AccountId) :
    L'.owed slot faucet = L.owed slot faucet :=
  congrArg (Slot.owed · faucet) h

theorem owed_waiting {L : Ledger cap} {r : Felt} {p : Player} {bet : Bet}
    (h : L.rounds r = .waiting p bet) (faucet : AccountId) :
    L.owed (r, p.num) faucet =
      if faucet = bet.terms.faucet then bet.terms.betValue.val else 0 := by
  rw [owed, h, Round.slot_waiting_self]
  exact bet.owed_slot faucet

theorem owed_setRound_of_ne {L : Ledger cap} {r : Felt} {p : Player} {round : Round}
    (vault : AssetVault cap) (hold : ∀ q, q ≠ p.num → (L.rounds r).slot q = Slot.empty)
    (hnew : ∀ q, q ≠ p.num → round.slot q = Slot.empty) {slot : Felt × Felt}
    (hslot : slot ≠ (r, p.num)) (faucet : AccountId) :
    (L.setRound r round vault).owed slot faucet = L.owed slot faucet := by
  obtain ⟨r', q⟩ := slot
  refine owed_of_rounds ?_ faucet
  by_cases hr : r' = r
  · subst hr
    have hq : q ≠ p.num := fun hq => hslot (by rw [hq])
    rw [setRound_self, hold q hq, hnew q hq]
  · rw [L.setRound_of_ne _ _ hr]

theorem Step.owed {L L' : Ledger cap} {c : Consumption} {rc : Receipt} (h : Step L c L' rc) :
    ∃ slot, (∀ other, other ≠ slot → ∀ f, L'.owed other f = L.owed other f) ∧
      ∀ f, L.vault.balance f + L'.owed slot f ≤ L'.vault.balance f + L.owed slot f := by
  cases h with
  | refund w v hw hadd htime => exact ⟨(0, 0), fun _ _ _ => rfl, fun _ => le_rfl⟩
  | register w v hw hadd hplay hfree =>
    -- the deposit covers the slot it fills, whatever was in it
    have hv := (AssetVault.add_eq_some.mp hadd).2
    have hwaiting := Round.free_waiting w.player w.bet
    refine ⟨(w.roundId, w.player.num), fun other => owed_setRound_of_ne v
      (fun q => hfree.slot_of_ne) (fun q => hwaiting.slot_of_ne), fun f => ?_⟩
    have hnew := owed_waiting (L.setRound_self w.roundId (.waiting w.player w.bet) v) f
    change _ = if f = w.faucet then w.betValue.val else 0 at hnew
    rw [hnew, setRound_vault, hv f]
    omega
  | settle w bet v v' hw hadd hplay hround hterms hremove =>
    -- at most twice the stake leaves, and one stake is owed no more
    have hv := (AssetVault.add_eq_some.mp hadd).2
    have hv' := (AssetVault.remove_eq_some.mp hremove).2
    have hprize := w.totalPrize_le bet.move.toHand
    have hwaiting : (L.rounds w.roundId).Free w.player.other := .inr ⟨bet, hround⟩
    refine ⟨(w.roundId, w.player.other.num), fun other => owed_setRound_of_ne v'
      (fun q => hwaiting.slot_of_ne) (fun q _ => rfl), fun f => ?_⟩
    have hold := owed_waiting hround f
    rw [← hterms] at hold
    change _ = if f = w.faucet then w.betValue.val else 0 at hold
    have hnew : (L.setRound w.roundId .settled v').owed (w.roundId, w.player.other.num) f = 0 := by
      rw [Ledger.owed, setRound_self]
      exact Slot.owed_empty f
    rw [hold, hnew, setRound_vault]
    have h₁ := hv f
    have h₂ := hv' f
    split_ifs at h₁ h₂ ⊢ <;> omega

def surplus (L : Ledger cap) (faucet : AccountId) : Int :=
  Escrow.surplus L.vault.balance L.owed faucet

theorem step_surplus {L L' : Ledger cap} {c : Consumption} {rc : Receipt}
    (h : L.step c = some (L', rc)) (f : AccountId) : L.surplus f ≤ L'.surplus f := by
  obtain ⟨slot, hoff, hle⟩ := (step_iff.mp h).owed
  exact Escrow.surplus_le_of_slot slot (fun other hother => hoff other hother f) (hle f)

theorem run_surplus {L L' : Ledger cap} {cs : List Consumption} {log : List Receipt}
    (h : Machine.run step L cs = some (L', log)) (f : AccountId) : L.surplus f ≤ L'.surplus f :=
  Machine.run_mono (fun _ => True) (fun L : Ledger cap => L.surplus f)
    (fun _ _ _ _ _ hstep => ⟨trivial, step_surplus hstep f⟩) L cs L' log trivial h

def Solvent (L : Ledger cap) : Prop := ∀ f, Escrow.total L.owed f ≤ L.vault.balance f

theorem solvent_start (id : AccountId) (vault : AssetVault cap) : (start id vault).Solvent := by
  intro f
  have hzero : Escrow.total (start id vault).owed f = 0 :=
    Escrow.total_eq_zero fun _ => Slot.owed_empty f
  rw [hzero]
  exact Nat.zero_le _

theorem Solvent.step {L L' : Ledger cap} (h : L.Solvent) {c : Consumption} {rc : Receipt}
    (hstep : L.step c = some (L', rc)) : L'.Solvent := by
  intro f
  have hnonneg : 0 ≤ L.surplus f := Escrow.surplus_nonneg.mpr (h f)
  exact Escrow.surplus_nonneg.mp (hnonneg.trans (step_surplus hstep f))

theorem solvent_of_run {id : AccountId} {vault : AssetVault cap} {cs : List Consumption}
    {L : Ledger cap} {log : List Receipt}
    (h : Machine.run step (start id vault) cs = some (L, log)) : L.Solvent :=
  Machine.run_invariant Solvent (fun _ _ _ _ hsolvent => hsolvent.step) (start id vault) cs L log
    (solvent_start id vault) h

theorem Solvent.betValue_le {L : Ledger cap} (h : L.Solvent) {r : Felt} {p : Player} {bet : Bet}
    (hround : L.rounds r = .waiting p bet) :
    bet.terms.betValue.val ≤ L.vault.balance bet.terms.faucet := by
  have howed := owed_waiting hround bet.terms.faucet
  rw [if_pos rfl] at howed
  rw [← howed]
  exact (Escrow.owed_le_total L.owed (r, p.num) _).trans (h _)

end Ledger

theorem Reachable.exists_solvent {s : House cap} (h : Reachable s) :
    ∃ L : Ledger cap, L.Solvent ∧ s = L.house := by
  obtain ⟨id, vault, cs, log, L, hrun, rfl⟩ := h.exists_run
  exact ⟨L, Ledger.solvent_of_run hrun, rfl⟩

namespace House

/-- What one slot is owed in one faucet: its stored bet value, while the stored
registered field is one and the stored faucet is the given one. -/
def owed (s : House cap) (slot : Felt × Felt) (faucet : AccountId) : Nat :=
  (s.storage.slot slot.1 slot.2).owed faucet

def surplus (s : House cap) (faucet : AccountId) : Int :=
  Escrow.surplus s.vault.balance s.owed faucet

theorem surplus_house (L : Ledger cap) (f : AccountId) : L.house.surplus f = L.surplus f := by
  have howed : L.house.owed = L.owed := by
    funext slot f
    exact congrArg (Slot.owed · f) (slot_encode L.rounds slot.1 slot.2)
  rw [surplus, howed]
  rfl

theorem run_surplus {s s' : House cap} (hs : Reachable s) {cs : List Consumption}
    {log : List Receipt} (h : Machine.run consume s cs = some (s', log)) (f : AccountId) :
    s.surplus f ≤ s'.surplus f := by
  obtain ⟨id, vault, cs₀, log₀, L, -, rfl⟩ := hs.exists_run
  obtain ⟨L', hrun, rfl⟩ := Ledger.run_house_eq_some h
  rw [surplus_house, surplus_house]
  exact Ledger.run_surplus hrun f

theorem submit_surplus {s : House cap} (hs : Reachable s) (tx : Transaction) (f : AccountId) :
    s.surplus f ≤ (tx.submit s).surplus f := by
  unfold Transaction.submit
  cases hexec : tx.execute s with
  | none => exact le_rfl
  | some r =>
    obtain ⟨log, hrun, -⟩ := Transaction.execute_eq_some.mp hexec
    exact run_surplus hs hrun f

def fresh (id : AccountId) (vault : AssetVault cap) : House cap := ⟨id, HouseAccount.empty, vault⟩

theorem house_start (id : AccountId) (vault : AssetVault cap) :
    (Ledger.start id vault).house = fresh id vault := Ledger.house_start (s := fresh id vault) rfl

/-- From an empty bets map, after any transactions, some of them aborted: the
surplus of a faucet is not lowered by a further transaction, nor by any single
note inside one, and the vault covers all registered bets of the faucet. -/
theorem surplus_never_decreases (id : AccountId) (vault : AssetVault cap)
    (txs : List Transaction) (f : AccountId) :
    let s := txs.foldl (fun s tx => tx.submit s) (fresh id vault)
    (∀ tx : Transaction, s.surplus f ≤ (tx.submit s).surplus f) ∧
    (∀ cs c t t' log rc, Machine.run consume s cs = some (t, log) →
      consume t c = some (t', rc) → t.surplus f ≤ t'.surplus f) ∧
    ∑ slot : Felt × Felt, s.owed slot f ≤ s.vault.balance f := by
  intro s
  have hs : Reachable s := (Reachable.of_empty rfl).submitAll txs
  refine ⟨fun tx => submit_surplus hs tx f, fun cs c t t' log rc hrun hc => ?_, ?_⟩
  · exact run_surplus (hs.run hrun) ((Machine.run_singleton ..).mpr ⟨rc, hc, rfl⟩) f
  · obtain ⟨L, hL, hsL⟩ := hs.exists_solvent
    have hnonneg : 0 ≤ s.surplus f := by
      rw [hsL, surplus_house]
      exact Escrow.surplus_nonneg.mpr (hL f)
    exact Escrow.surplus_nonneg.mp hnonneg

end House

end AllaMorra
