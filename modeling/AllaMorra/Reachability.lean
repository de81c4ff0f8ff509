import AllaMorra.Solvency

/-! Which states the house can be in. The layout of the bets map and the cover of the
registered bets are all that a run from an empty bets map guarantees: whatever satisfies
both is reached by some run, with any surplus in any faucet, unless no round was ever
touched. -/

namespace AllaMorra

open HouseAccount BetNote

variable {cap : KernelCap}

def Round.stake (round : Round) (faucet : AccountId) : Nat :=
  match round with
  | .waiting _ bet => if faucet = bet.terms.faucet then bet.terms.betValue.val else 0
  | _ => 0

namespace Ledger

theorem total_owed (L : Ledger cap) (f : AccountId) :
    Escrow.total L.owed f = ∑ r, (L.rounds r).stake f := by
  rw [Escrow.total, Fintype.sum_prod_type]
  refine Finset.sum_congr rfl fun r _ => ?_
  change ∑ q, ((L.rounds r).slot q).owed f = _
  cases hround : L.rounds r with
  | idle => exact Finset.sum_eq_zero fun q _ => Slot.owed_empty f
  | settled => exact Finset.sum_eq_zero fun q _ => Slot.owed_empty f
  | waiting p bet =>
    refine (Finset.sum_eq_single p.num (fun q _ hq => ?_) (by simp)).trans ?_
    · rw [(Round.free_waiting p bet).slot_of_ne hq]
      exact Slot.owed_empty f
    · rw [Round.slot_waiting_self]
      exact bet.owed_slot f

theorem vault_of_idle {id : AccountId} {vault : AssetVault cap} {cs : List Consumption}
    {L : Ledger cap} {log : List Receipt}
    (h : Machine.run step (start id vault) cs = some (L, log)) (hidle : ∀ r, L.rounds r = .idle) :
    L.vault = vault := by
  refine Machine.run_invariant (fun M : Ledger cap => (∀ r, M.rounds r = .idle) → M.vault = vault)
    (fun M c M' rc hinv hstep hidle => ?_) (start id vault) cs L log (fun _ => rfl) h hidle
  cases step_iff.mp hstep with
  | refund w v hw hadd htime => exact hinv hidle
  | register w v hw hadd hplay hfree =>
    cases (M.setRound_self w.roundId _ v).symm.trans (hidle w.roundId)
  | settle w bet v v' hw hadd hplay hround hterms hremove =>
    cases (M.setRound_self w.roundId _ v').symm.trans (hidle w.roundId)

end Ledger

instance : Finite AccountId :=
  Finite.of_injective (fun id : AccountId => (id.idSuffix, id.idPrefix)) fun _ _ h =>
    AccountId.ext (congrArg Prod.fst h) (congrArg Prod.snd h)

/-! Runs that build a state. -/

/-- A wager with this bet, for accounts whose names combine to the stored ones. -/
def Bet.wager (bet : Bet) (r : Felt) (p : Player) : Wager :=
  ⟨r, p, bet.move, ⟨bet.terms.idXorS, bet.terms.idXorP⟩, ⟨0, 0⟩, bet.terms.faucet,
    bet.terms.betValue, 0⟩

theorem Felt.toNat_xor_zero (a : Felt) : (a.asU64 ^^^ Felt.asU64 0).toNat = a.val := by
  have hzero : Felt.asU64 0 = 0 := rfl
  rw [hzero, UInt64.xor_zero, Felt.asU64_toNat]

theorem Bet.playable_wager (bet : Bet) (r : Felt) (p : Player) : (bet.wager r p).Playable 0 :=
  ⟨Nat.lt_irrefl 0, (Felt.toNat_xor_zero _).trans_le (Fin.is_lt _).le,
    (Felt.toNat_xor_zero _).trans_le (Fin.is_lt _).le⟩

theorem Bet.bet_wager (bet : Bet) (r : Felt) (p : Player) : (bet.wager r p).bet = bet := by
  have hxorS : (bet.wager r p).idXorS = bet.terms.idXorS :=
    (congrArg Felt.ofNat (Felt.toNat_xor_zero _)).trans (Felt.ofNat_val _)
  have hxorP : (bet.wager r p).idXorP = bet.terms.idXorP :=
    (congrArg Felt.ofNat (Felt.toNat_xor_zero _)).trans (Felt.ofNat_val _)
  rw [Wager.bet, Wager.terms, hxorS, hxorP]
  rfl

/-- Notes in time can lead from one round to the other. -/
def Round.Precedes (round round' : Round) : Prop :=
  round = .idle ∧ round' = .idle ∨
    ∃ p, round.Free p ∧ (round' = .settled ∨ ∃ bet, round' = .waiting p bet)

theorem Round.idle_precedes (round : Round) : Round.idle.Precedes round := by
  cases round with
  | idle => exact .inl ⟨rfl, rfl⟩
  | waiting p bet => exact .inr ⟨p, .inl rfl, .inr ⟨bet, rfl⟩⟩
  | settled => exact .inr ⟨.one, .inl rfl, .inl rfl⟩

namespace Ledger

abbrev Reaches (L L' : Ledger cap) : Prop := Machine.Reaches step L L'

theorem reaches_register {L : Ledger cap} {r : Felt} {p : Player} (hfree : (L.rounds r).Free p)
    (bet : Bet) {v : AssetVault cap}
    (hv : ∀ f, v.balance f = L.vault.balance f + (Round.waiting p bet).stake f) :
    L.Reaches (L.setRound r (.waiting p bet) v) := by
  have hle := v.balance_le bet.terms.faucet
  rw [hv, Round.stake, if_pos rfl] at hle
  have hstep := step_iff.mpr (.register (c := ⟨(bet.wager r p).toNote L.id ⟨0, 0, 0, 0⟩, 0⟩)
    (bet.wager r p) v (wager_toNote ..) (AssetVault.add_eq_some.mpr ⟨hle, hv⟩)
    (bet.playable_wager r p) hfree)
  rw [bet.bet_wager] at hstep
  exact .of_step hstep

theorem reaches_settled {L : Ledger cap} {r : Felt} {p : Player} {bet : Bet}
    (hround : L.rounds r = .waiting p bet) (hzero : bet.terms.betValue = 0) :
    L.Reaches (L.setRound r .settled L.vault) := by
  let w := bet.wager r p.other
  have hterms : w.terms = bet.terms := congrArg Bet.terms (bet.bet_wager r p.other)
  have hbet : w.betValue.val = 0 := congrArg Fin.val hzero
  have hadd : L.vault.add w.faucet w.betValue.val = some L.vault := by
    rw [hbet]
    exact AssetVault.add_eq_some.mpr ⟨L.vault.balance_le _, fun f => by simp⟩
  have hprize : w.totalPrize bet.move.toHand = 0 := by
    have hle := w.totalPrize_le bet.move.toHand
    omega
  have hwaiting : L.rounds w.roundId = .waiting w.player.other bet := by
    rw [show w.player.other = p from p.other_other]
    exact hround
  exact .of_step (step_iff.mpr (.settle (c := ⟨w.toNote L.id ⟨0, 0, 0, 0⟩, 0⟩) w bet L.vault L.vault
    (wager_toNote ..) hadd (bet.playable_wager r _) hwaiting hterms
    (hprize ▸ L.vault.remove_zero _)))

def noBet : Bet := ⟨⟨⟨0, 0⟩, by decide, by decide⟩, ⟨⟨0, 0⟩, 0, 0, 0⟩⟩

theorem stake_noBet (p : Player) (f : AccountId) : (Round.waiting p noBet).stake f = 0 :=
  ite_self 0

theorem reaches_round {L : Ledger cap} {r : Felt} {round : Round}
    (h : (L.rounds r).Precedes round) {v : AssetVault cap}
    (hv : ∀ f, v.balance f = L.vault.balance f + round.stake f) :
    L.Reaches (L.setRound r round v) := by
  obtain ⟨hidle, rfl⟩ | ⟨p, hfree, rfl | ⟨bet, rfl⟩⟩ := h
  · obtain rfl : v = L.vault := AssetVault.ext hv
    rw [← hidle, setRound_eq_self]
    exact .refl L
  · obtain rfl : v = L.vault := AssetVault.ext hv
    have hfirst := reaches_register hfree noBet (v := L.vault) fun f => by
      rw [stake_noBet, add_zero]
    have hsecond := reaches_settled (L := L.setRound r (.waiting p noBet) L.vault)
      (L.setRound_self ..) rfl
    rw [setRound_vault, setRound_setRound] at hsecond
    exact hfirst.trans hsecond
  · exact reaches_register hfree bet hv

theorem reaches_rounds (L : Ledger cap) (rounds : Felt → Round)
    (h : ∀ r, (L.rounds r).Precedes (rounds r)) (rs : Finset Felt) {v : AssetVault cap}
    (hv : ∀ f, v.balance f = L.vault.balance f + ∑ r ∈ rs, (rounds r).stake f) :
    L.Reaches ⟨L.id, fun r => if r ∈ rs then rounds r else L.rounds r, v⟩ := by
  induction rs using Finset.induction_on generalizing v with
  | empty =>
    obtain rfl : v = L.vault := AssetVault.ext hv
    exact .refl L
  | insert r rs hr ih =>
    have hle (f : AccountId) : L.vault.balance f + ∑ r ∈ rs, (rounds r).stake f ≤ cap.value := by
      have hcap := v.balance_le f
      rw [hv, Finset.sum_insert hr] at hcap
      omega
    let u : AssetVault cap := ⟨_, hle⟩
    let M : Ledger cap := ⟨L.id, fun r => if r ∈ rs then rounds r else L.rounds r, u⟩
    have hM : L.Reaches M := ih fun f => rfl
    have hround : (M.rounds r).Precedes (rounds r) := by
      rw [show M.rounds r = L.rounds r from if_neg hr]
      exact h r
    have hstep := reaches_round hround (v := v) fun f => by
      rw [hv, Finset.sum_insert hr, add_comm ((rounds r).stake f), ← add_assoc]
    have heq : M.setRound r (rounds r) v =
        ⟨L.id, fun k => if k ∈ insert r rs then rounds k else L.rounds k, v⟩ := by
      refine congrArg (fun g => (⟨L.id, g, v⟩ : Ledger cap)) (funext fun k => ?_)
      rw [Function.update_apply]
      by_cases hk : k = r
      · subst hk
        rw [if_pos rfl, if_pos (Finset.mem_insert_self k rs)]
      · rw [if_neg hk]
        exact if_congr (by simp [hk]) rfl rfl
    exact hM.trans (heq ▸ hstep)

theorem reaches_surplus {L : Ledger cap} {r : Felt} {p : Player} (hfree : (L.rounds r).Free p)
    {v : AssetVault cap} (hle : ∀ f, L.vault.balance f ≤ v.balance f) :
    ∃ bet, L.Reaches (L.setRound r (.waiting p bet) v) := by
  cases nonempty_fintype AccountId
  have hfaucets (fs : Finset AccountId) (u : AssetVault cap)
      (hu : ∀ f, u.balance f = if f ∈ fs then v.balance f else L.vault.balance f) :
      ∃ bet, L.Reaches (L.setRound r (.waiting p bet) u) := by
    induction fs using Finset.induction_on generalizing u with
    | empty =>
      exact ⟨noBet, reaches_register hfree noBet fun f => (hu f).trans (by rw [stake_noBet]; rfl)⟩
    | insert f fs hf ih =>
      have hle' (k : AccountId) :
          (if k ∈ fs then v.balance k else L.vault.balance k) ≤ cap.value := by
        split
        · exact v.balance_le k
        · exact L.vault.balance_le k
      obtain ⟨bet, hbet⟩ := ih ⟨_, hle'⟩ fun _ => rfl
      let M := L.setRound r (.waiting p bet) ⟨_, hle'⟩
      let extra : Bet := ⟨noBet.move, ⟨f, .ofNat (v.balance f - L.vault.balance f), 0, 0⟩⟩
      have hextra : extra.terms.betValue.val = v.balance f - L.vault.balance f := by
        have hlt := (v.balance_le f).trans_lt (cap.value_lt.trans (by decide : _ < Felt.modulus))
        exact Felt.ofNat_val_of_lt (by omega)
      have hstep := reaches_register (L := M) (.inr ⟨bet, L.setRound_self ..⟩) extra (v := u)
        fun k => by
          change u.balance k = (if k ∈ fs then v.balance k else L.vault.balance k) +
            if k = f then extra.terms.betValue.val else 0
          rw [hu, hextra]
          by_cases hk : k = f
          · have hk_le := hle f
            subst hk
            rw [if_pos (Finset.mem_insert_self k fs), if_neg hf, if_pos rfl]
            omega
          · rw [if_neg hk, add_zero]
            exact if_congr (by simp [hk]) rfl rfl
      rw [setRound_setRound] at hstep
      exact ⟨extra, hbet.trans hstep⟩
  exact hfaucets Finset.univ v fun f => (if_pos (Finset.mem_univ f)).symm

end Ledger

theorem Round.exists_precedes {round : Round} (h : round ≠ .idle) :
    ∃ p, ∀ bet, (Round.waiting p bet).Precedes round := by
  cases round with
  | idle => exact absurd rfl h
  | waiting p bet => exact ⟨p, fun bet' => .inr ⟨p, .inr ⟨bet', rfl⟩, .inr ⟨bet, rfl⟩⟩⟩
  | settled => exact ⟨.one, fun bet => .inr ⟨.one, .inr ⟨bet, rfl⟩, .inl rfl⟩⟩

namespace Ledger

theorem reaches_of_covered {id : AccountId} {L : Ledger cap} (vault : AssetVault cap)
    (hid : L.id = id) {r : Felt} (hr : L.rounds r ≠ .idle)
    (hcover : ∀ f, vault.balance f + ∑ k, (L.rounds k).stake f ≤ L.vault.balance f) :
    (start id vault).Reaches L := by
  subst hid
  obtain ⟨p, hp⟩ := Round.exists_precedes hr
  have hle (f : AccountId) : L.vault.balance f - ∑ k, (L.rounds k).stake f ≤ cap.value :=
    (Nat.sub_le ..).trans (L.vault.balance_le f)
  obtain ⟨bet, hsurplus⟩ := reaches_surplus (L := start L.id vault) (r := r) (p := p) (.inl rfl)
    (v := ⟨_, hle⟩) fun f => by
      have hf := hcover f
      change vault.balance f ≤ L.vault.balance f - _
      omega
  let M := (start L.id vault).setRound r (.waiting p bet) ⟨_, hle⟩
  have hprecedes (k : Felt) : (M.rounds k).Precedes (L.rounds k) := by
    by_cases hk : k = r
    · subst hk
      rw [show M.rounds k = .waiting p bet from setRound_self ..]
      exact hp bet
    · rw [show M.rounds k = .idle from setRound_of_ne _ _ _ hk]
      exact Round.idle_precedes _
  have hrounds := reaches_rounds M L.rounds hprecedes Finset.univ (v := L.vault) fun f => by
    have hf := hcover f
    change L.vault.balance f = L.vault.balance f - _ + _
    omega
  have heq : (⟨M.id, fun k => if k ∈ Finset.univ then L.rounds k else M.rounds k, L.vault⟩ :
      Ledger cap) = L := by
    simp only [Finset.mem_univ, if_true]
    rfl
  rw [heq] at hrounds
  exact hsurplus.trans hrounds

end Ledger

theorem House.owed_house (L : Ledger cap) : L.house.owed = L.owed := by
  funext slot f
  exact congrArg (Slot.owed · f) (L.slot_house slot.1 slot.2)

/-- The states of the house. A run from an empty bets map leads to a state exactly when
its bets map is a layout of rounds and its vault covers all registered bets beyond what
it held at the start, and holds just that if no round was touched. -/
theorem reachable_iff (id : AccountId) (vault : AssetVault cap) (s : House cap) :
    (∃ cs log, Machine.run House.consume (House.fresh id vault) cs = some (s, log)) ↔
      s.id = id ∧ ∃ rounds : Felt → Round, s.storage = encode rounds ∧
        ((∀ r, rounds r = .idle) → s.vault = vault) ∧
        ∀ f, vault.balance f + ∑ slot : Felt × Felt, s.owed slot f ≤ s.vault.balance f := by
  constructor
  · rintro ⟨cs, log, hrun⟩
    have hid : s.id = id := House.run_id hrun
    rw [← House.house_start] at hrun
    obtain ⟨L, hL, rfl⟩ := Ledger.run_house_eq_some hrun
    refine ⟨hid, L.rounds, rfl, Ledger.vault_of_idle hL, fun f => ?_⟩
    have hsurplus := Ledger.run_surplus hL f
    have hstart : Escrow.total (Ledger.start id vault).owed f = 0 :=
      Escrow.total_eq_zero fun _ => Slot.owed_empty f
    simp only [Ledger.surplus, Escrow.surplus, hstart] at hsurplus
    rw [House.owed_house]
    change vault.balance f + Escrow.total L.owed f ≤ L.vault.balance f
    change (vault.balance f : Int) - 0 ≤ _ at hsurplus
    omega
  · rintro ⟨rfl, rounds, hstorage, hidle, hcover⟩
    let L : Ledger cap := ⟨s.id, rounds, s.vault⟩
    have hs : s = L.house := by
      rw [Ledger.house, ← hstorage]
    by_cases hall : ∀ r, rounds r = .idle
    · have hfresh : House.fresh s.id vault = s := by
        rw [← hidle hall, hs, ← House.house_start]
        exact congrArg (fun g => Ledger.house ⟨s.id, g, s.vault⟩) (funext hall).symm
      exact ⟨[], [], hfresh ▸ rfl⟩
    · obtain ⟨r, hr⟩ := not_forall.mp hall
      obtain ⟨cs, log, hrun⟩ := Ledger.reaches_of_covered (L := L) vault rfl hr fun f => by
        rw [← Ledger.total_owed, ← House.owed_house, ← hs]
        exact hcover f
      refine ⟨cs, log, ?_⟩
      rw [← House.house_start, Ledger.run_house, hrun, hs]
      rfl

end AllaMorra
