import AllaMorra.History
import AllaMorra.Isolation

/-! What the house needs of its own money, which is none. Bets are paid out of bets: a
house whose vault just covers the registered ones does all that a richer one does. Money
beyond that only takes up room under the cap. -/

namespace AllaMorra

open HouseAccount BetNote

variable {cap : KernelCap}

namespace Ledger

/-- The same ledger with `d` more in its vault, where the first is solvent without it. -/
structure Leaner (d : AccountId → Nat) (L M : Ledger cap) : Prop where
  id_eq : M.id = L.id
  rounds_eq : M.rounds = L.rounds
  solvent : M.Solvent
  vault_eq : ∀ f, L.vault.balance f = M.vault.balance f + d f

theorem Leaner.step {d : AccountId → Nat} {L L' M : Ledger cap} (h : Leaner d L M)
    {c : Consumption} {rc : Receipt} (hstep : L.step c = some (L', rc)) :
    ∃ M', M.step c = some (M', rc) ∧ Leaner d L' M' := by
  obtain ⟨w, path, ps, hw, hconsume, rfl⟩ := step_eq_some.mp hstep
  obtain ⟨v, round, v', hadd, hround, hremove, rfl⟩ := consume_eq_some.mp hconsume
  obtain ⟨hcap, hv⟩ := AssetVault.add_eq_some.mp hadd
  have hv' := (AssetVault.remove_eq_some.mp hremove).2
  rw [← h.rounds_eq] at hround
  obtain ⟨u, huadd⟩ := M.vault.add_isSome w.faucet w.betValue.val (by
    rw [h.vault_eq] at hcap
    omega)
  have hu := (AssetVault.add_eq_some.mp huadd).2
  have hpay : (ps.map Payment.amount).sum ≤ u.balance w.faucet := by
    rw [hu, if_pos rfl]
    exact h.solvent.payable hround
  obtain ⟨u', huremove⟩ := u.remove_isSome w.faucet _ hpay
  have hu' := (AssetVault.remove_eq_some.mp huremove).2
  have hM : M.step c = some (M.setRound w.roundId round u',
      ⟨c.note, c.block, path, ps.map Payment.note⟩) :=
    step_eq_some.mpr ⟨w, path, ps, h.id_eq ▸ hw,
      consume_eq_some.mpr ⟨u, round, u', huadd, hround, huremove, rfl⟩, rfl⟩
  refine ⟨_, hM, h.id_eq, ?_, h.solvent.step hM, fun f => ?_⟩
  · rw [setRound, setRound, h.rounds_eq]
  · have h₁ := hv f
    have h₂ := hv' f
    have h₃ := hu f
    have h₄ := hu' f
    have h₅ := h.vault_eq f
    rw [setRound_vault, setRound_vault]
    omega

theorem Leaner.run {d : AccountId → Nat} {L L' M : Ledger cap} (h : Leaner d L M)
    {cs : List Consumption} {log : List Receipt}
    (hrun : Machine.run Ledger.step L cs = some (L', log)) :
    ∃ M', Machine.run Ledger.step M cs = some (M', log) ∧ Leaner d L' M' :=
  Machine.run_simulates Ledger.step (Leaner d) (fun _ _ _ _ _ hR hstep => hR.step hstep) L M cs L'
    log h hrun

end Ledger

/-- A reachable house and one with the same bets and more money: every run of the richer
one is a run of the other, with the same receipts and bets, and every balance moves by
the same amount. -/
theorem surplus_immaterial (s t : House cap) (ht : Reachable t) (hid : t.id = s.id)
    (hstorage : t.storage = s.storage) (hle : ∀ f, t.vault.balance f ≤ s.vault.balance f)
    (cs : List Consumption) (s' : House cap) (log : List Receipt)
    (hrun : Machine.run House.consume s cs = some (s', log)) :
    ∃ t', Machine.run House.consume t cs = some (t', log) ∧ t'.storage = s'.storage ∧
      ∀ f, t'.vault.balance f + s.vault.balance f = s'.vault.balance f + t.vault.balance f := by
  obtain ⟨M, hsolvent, rfl⟩ := ht.exists_solvent
  let L : Ledger cap := ⟨s.id, M.rounds, s.vault⟩
  have hs : s = L.house := by
    rw [Ledger.house]
    exact congrArg (fun storage => (⟨s.id, storage, s.vault⟩ : House cap)) hstorage.symm
  rw [hs] at hrun
  obtain ⟨L', hL, rfl⟩ := Ledger.run_house_eq_some hrun
  have hleaner : Ledger.Leaner (fun f => s.vault.balance f - M.vault.balance f) L M :=
    ⟨hid, rfl, hsolvent, fun f => (Nat.add_sub_cancel' (hle f)).symm⟩
  obtain ⟨M', hM, hleaner'⟩ := hleaner.run hL
  refine ⟨M'.house, by rw [Ledger.run_house, hM]; rfl, ?_, fun f => ?_⟩
  · exact congrArg encode hleaner'.rounds_eq
  · have hf := hle f
    have hf' := hleaner'.vault_eq f
    change M.vault.balance f ≤ _ at hf
    change M'.vault.balance f + _ = L'.vault.balance f + M.vault.balance f
    omega

def Sample.richHouse : House Sample.kernelCap :=
  House.fresh Sample.houseId ⟨fun _ => 1000, fun _ => by decide⟩

theorem surplus_immaterial_sample : ∃ (s t : House Sample.kernelCap) (log : List Receipt),
    Machine.run House.consume Sample.richHouse
        [⟨Sample.note .one, 5⟩, ⟨Sample.note .two, 6⟩] = some (s, log) ∧
      Machine.run House.consume Sample.house
        [⟨Sample.note .one, 5⟩, ⟨Sample.note .two, 6⟩] = some (t, log) ∧
      t.storage = s.storage := by
  have hrun : (Machine.run House.consume Sample.richHouse
      [⟨Sample.note .one, 5⟩, ⟨Sample.note .two, 6⟩]).isSome := by
    decide +kernel
  obtain ⟨⟨s, log⟩, hrun⟩ := Option.isSome_iff_exists.mp hrun
  obtain ⟨t, ht, hstorage, -⟩ := surplus_immaterial Sample.richHouse Sample.house
    (Reachable.of_empty rfl) rfl rfl (fun _ => Nat.zero_le _) _ s log hrun
  exact ⟨s, t, log, hrun, ht, hstorage⟩

end AllaMorra
