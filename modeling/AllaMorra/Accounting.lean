import AllaMorra.Conservation
import AllaMorra.Expiry

/-! Whose the vault is, to the unit. Beyond the registered bets it holds what it held
at the start, the fees of the settlements, and the stakes of bets that a later note of
the same player number replaced. There is nothing else, so solvency is exact. -/

namespace AllaMorra

open HouseAccount BetNote

variable {cap : KernelCap}

/-- What the house keeps of the two stakes of a settlement. -/
def Receipt.fee (rc : Receipt) (faucet : AccountId) : Nat :=
  if rc.path = .settle then 2 * rc.stake faucet - rc.paid faucet else 0

def Receipt.ReplacedBy (id : AccountId) (rc later : Receipt) : Prop :=
  ∃ w ∈ wager id rc.note, rc.Registers id w.roundId w.player ∧
    later.Registers id w.roundId w.player

instance (id : AccountId) (rc later : Receipt) : Decidable (rc.ReplacedBy id later) :=
  inferInstanceAs (Decidable (∃ w ∈ wager id rc.note, _))

def replaced (id : AccountId) : List Receipt → List Receipt
  | [] => []
  | rc :: later =>
    if ∃ rc' ∈ later, rc.ReplacedBy id rc' then rc :: replaced id later else replaced id later

theorem Receipt.Registers.eq {id : AccountId} {r r' : Felt} {p p' : Player} {rc : Receipt}
    (h : rc.Registers id r p) (h' : rc.Registers id r' p') : r = r' ∧ p = p' := by
  obtain ⟨-, w, hw, rfl, rfl⟩ := h
  obtain ⟨-, w', hw', rfl, rfl⟩ := h'
  obtain rfl := Option.some.inj (hw.symm.trans hw')
  exact ⟨rfl, rfl⟩

theorem Receipt.Registers.replacedBy_iff {id : AccountId} {r : Felt} {p : Player} {rc : Receipt}
    (h : rc.Registers id r p) (later : Receipt) :
    rc.ReplacedBy id later ↔ later.Registers id r p := by
  constructor
  · rintro ⟨w, -, hrc, hlater⟩
    obtain ⟨rfl, rfl⟩ := h.eq hrc
    exact hlater
  · intro hlater
    obtain ⟨w, hw, hr, hp⟩ := h.2
    subst hr hp
    exact ⟨w, hw, h, hlater⟩

theorem Receipt.ReplacedBy.registers {id : AccountId} {r : Felt} {p : Player} {rc later : Receipt}
    (h : rc.ReplacedBy id later) (hlater : later.Registers id r p) : rc.Registers id r p := by
  obtain ⟨w, -, hrc, hlater'⟩ := h
  obtain ⟨rfl, rfl⟩ := hlater.eq hlater'
  exact hrc

theorem lastRegistration_cons (id : AccountId) (r : Felt) (p : Player) (rc : Receipt)
    (log : List Receipt) :
    lastRegistration id r p (rc :: log) =
      (lastRegistration id r p log).or (if rc.Registers id r p then some rc else none) := by
  rw [lastRegistration, List.reverse_cons, List.find?_append]
  refine congrArg (Option.or _) ?_
  by_cases h : rc.Registers id r p <;> simp [h]

theorem exists_registers_iff (id : AccountId) (r : Felt) (p : Player) (log : List Receipt) :
    (∃ rc ∈ log, rc.Registers id r p) ↔ lastRegistration id r p log ≠ none := by
  rw [lastRegistration, ne_eq, List.find?_eq_none]
  simp

theorem sum_replaced_snoc {id : AccountId} {r : Felt} {p : Player} {rc : Receipt}
    (h : rc.Registers id r p) (log : List Receipt) (value : Receipt → Nat) :
    ((replaced id (log ++ [rc])).map value).sum =
      ((replaced id log).map value).sum + (lastRegistration id r p log).elim 0 value := by
  induction log with
  | nil => simp [replaced, lastRegistration]
  | cons a log ih =>
    have hexists : (∃ rc' ∈ log ++ [rc], a.ReplacedBy id rc') ↔
        (∃ rc' ∈ log, a.ReplacedBy id rc') ∨ a.ReplacedBy id rc := by
      simp only [List.mem_append, List.mem_singleton, or_and_right, exists_or, exists_eq_left]
    rw [List.cons_append, replaced, replaced, lastRegistration_cons]
    by_cases ha : a.Registers id r p
    · -- `a` is replaced now; it was before exactly if it was not the last one
      rw [if_pos (hexists.mpr (.inr ((ha.replacedBy_iff rc).mpr h))), if_pos ha, List.map_cons,
        List.sum_cons, ih]
      have hbefore : (∃ rc' ∈ log, a.ReplacedBy id rc') ↔ lastRegistration id r p log ≠ none := by
        simp only [ha.replacedBy_iff, exists_registers_iff]
      cases hlast : lastRegistration id r p log with
      | none =>
        rw [hlast] at hbefore
        rw [if_neg (by simpa using hbefore)]
        simp only [Option.none_or, Option.elim_none, Option.elim_some]
        omega
      | some rc' =>
        rw [hlast] at hbefore
        rw [if_pos (by simpa using hbefore), List.map_cons, List.sum_cons]
        simp only [Option.some_or, Option.elim_some]
        omega
    · have hnot : ¬ a.ReplacedBy id rc := fun hrep => ha (hrep.registers h)
      rw [if_neg ha, Option.or_none]
      by_cases hlater : ∃ rc' ∈ log, a.ReplacedBy id rc'
      · rw [if_pos (hexists.mpr (.inl hlater)), if_pos hlater, List.map_cons, List.sum_cons,
          List.map_cons, List.sum_cons, ih]
        omega
      · rw [if_neg (by rw [hexists]; exact not_or.mpr ⟨hlater, hnot⟩), if_neg hlater, ih]

theorem replaced_snoc_of_path {id : AccountId} {rc : Receipt} (h : rc.path ≠ .register)
    (log : List Receipt) : replaced id (log ++ [rc]) = replaced id log := by
  have hnot (a : Receipt) : ¬ a.ReplacedBy id rc := by
    rintro ⟨w, -, -, hlater⟩
    exact not_registers_of_path h hlater
  induction log with
  | nil => simp [replaced]
  | cons a log ih =>
    rw [List.cons_append, replaced, replaced, ih]
    refine if_congr ?_ rfl rfl
    simp [or_and_right, exists_or, hnot]

namespace Wager

theorem sub_totalPrize (w : Wager) (opponent : Hand) :
    2 * w.betValue.val - w.totalPrize opponent = 2 * w.betValue.val / 100 +
      if (w.prizes opponent).length = 1 then 0 else winnerPayout w.betValue.val % 2 := by
  have hlength : (w.prizes opponent).length =
      (payouts (w.hands opponent).1 (w.hands opponent).2 w.betValue.val).length :=
    List.length_map _
  rw [hlength, totalPrize, totalPayout]
  simp only [payouts, drawPayout, winnerPayout]
  split_ifs <;> simp_all <;> omega

end Wager

namespace Ledger

theorem Step.surplus_eq {L L' : Ledger cap} {c : Consumption} {rc : Receipt} (h : Step L c L' rc)
    (f : AccountId) :
    rc.path = .refund ∧ rc.fee f = 0 ∧ L'.surplus f = L.surplus f ∨
    (∃ r p, rc.Registers L.id r p ∧ (L.rounds r).Free p ∧ rc.fee f = 0 ∧
      L'.surplus f = L.surplus f + L.owed (r, p.num) f) ∨
    rc.path = .settle ∧ L'.surplus f = L.surplus f + rc.fee f := by
  cases h with
  | refund w v hw hadd htime => exact .inl ⟨rfl, rfl, rfl⟩
  | register w v hw hadd hplay hfree =>
    have hv := (AssetVault.add_eq_some.mp hadd).2 f
    have hwaiting := Round.free_waiting w.player w.bet
    have htotal := Escrow.total_add_of_slot (w.roundId, w.player.num) (k := f)
      fun other hother => owed_setRound_of_ne v (fun q => hfree.slot_of_ne)
        (fun q => hwaiting.slot_of_ne) hother f
    have hnew := owed_waiting (L.setRound_self w.roundId (.waiting w.player w.bet) v) f
    change _ = if f = w.faucet then w.betValue.val else 0 at hnew
    refine .inr (.inl ⟨w.roundId, w.player, ⟨rfl, w, hw, rfl, rfl⟩, hfree, rfl, ?_⟩)
    rw [hnew] at htotal
    simp only [Ledger.surplus, Escrow.surplus, setRound_vault]
    omega
  | settle w bet v v' hw hadd hplay hround hterms hremove =>
    obtain ⟨hcap, hv⟩ := AssetVault.add_eq_some.mp hadd
    have hv' := (AssetVault.remove_eq_some.mp hremove).2
    have hwaiting : (L.rounds w.roundId).Free w.player.other := .inr ⟨bet, hround⟩
    have hsettled (q : Felt) (_ : q ≠ w.player.other.num) : Round.settled.slot q = Slot.empty := rfl
    have htotal := Escrow.total_add_of_slot (w.roundId, w.player.other.num) (k := f)
      fun other hother => owed_setRound_of_ne v' (fun q => hwaiting.slot_of_ne) hsettled hother f
    have hold := owed_waiting hround f
    rw [← hterms] at hold
    change _ = if f = w.faucet then w.betValue.val else 0 at hold
    have hnew : (L.setRound w.roundId .settled v').owed (w.roundId, w.player.other.num) f = 0 := by
      rw [Ledger.owed, setRound_self]
      exact Slot.owed_empty f
    have hbet : w.betValue.val < 2 ^ 63 := by
      have hlt := cap.value_lt
      omega
    have hprize := w.totalPrize_le bet.move.toHand
    refine .inr (.inr ⟨rfl, ?_⟩)
    rw [hold, hnew] at htotal
    simp only [Receipt.fee, if_true, Receipt.stake, Receipt.paid, holding_of_wager hw,
      outflow_prizes hbet, Ledger.surplus, Escrow.surplus, setRound_vault]
    have h₁ := hv f
    have h₂ := hv' f
    split_ifs at h₁ h₂ htotal ⊢ <;> omega

theorem owed_of_free {L : Ledger cap} {log : List Receipt} (hrec : L.Recorded log)
    (htraced : L.Traced log) {r : Felt} {p : Player} (hfree : (L.rounds r).Free p)
    (f : AccountId) :
    L.owed (r, p.num) f = (lastRegistration L.id r p log).elim 0 fun rc => rc.stake f := by
  obtain hidle | ⟨bet, hround⟩ := hfree
  · cases hlast : lastRegistration L.id r p log with
    | none =>
      rw [Ledger.owed, hidle]
      exact Slot.owed_empty f
    | some rc =>
      obtain hsettled | ⟨bet, hwaiting⟩ := htraced.registered r p rc hlast
      · cases hidle.symm.trans hsettled
      · cases hidle.symm.trans hwaiting
  · obtain ⟨rc, w, hlast, hw, rfl⟩ := hrec r p bet hround
    rw [owed_waiting hround, hlast]
    exact (holding_of_wager hw f).symm

def Accounted (start : Int) (L : Ledger cap) (log : List Receipt) (f : AccountId) : Prop :=
  L.surplus f = start + (log.map (·.fee f)).sum + ((replaced L.id log).map (·.stake f)).sum

theorem Accounted.step {start : Int} {L L' : Ledger cap} {log : List Receipt} {f : AccountId}
    (h : Accounted start L log f) (hrec : L.Recorded log) (htraced : L.Traced log)
    {c : Consumption} {rc : Receipt} (hstep : Step L c L' rc) :
    Accounted start L' (log ++ [rc]) f := by
  unfold Accounted at h ⊢
  rw [hstep.id_eq, List.map_append, List.sum_append, List.map_singleton, List.sum_singleton]
  obtain ⟨hpath, hfee, hsurplus⟩ | ⟨r, p, hreg, hfree, hfee, hsurplus⟩ | ⟨hpath, hsurplus⟩ :=
    hstep.surplus_eq f
  · rw [replaced_snoc_of_path (by rw [hpath]; decide), hsurplus, hfee, h]
    simp
  · rw [sum_replaced_snoc hreg, ← owed_of_free hrec htraced hfree f, hsurplus, hfee, h]
    push_cast
    ring
  · rw [replaced_snoc_of_path (by rw [hpath]; decide), hsurplus, h]
    push_cast
    ring

theorem run_accounted {id : AccountId} {vault : AssetVault cap} {cs : List Consumption}
    {L : Ledger cap} {log : List Receipt}
    (h : Machine.run step (start id vault) cs = some (L, log)) (f : AccountId) :
    Accounted (vault.balance f) L log f := by
  have hstart : Accounted (vault.balance f) (start id vault) [] f := by
    have hzero : Escrow.total (start id vault).owed f = 0 :=
      Escrow.total_eq_zero fun _ => Slot.owed_empty f
    simp only [Accounted, Ledger.surplus, Escrow.surplus, hzero, replaced, List.map_nil,
      List.sum_nil]
    rfl
  have hrun := Machine.run_history
    (fun hist (M : Ledger cap) => M.Recorded hist ∧ M.Traced hist ∧
      Accounted (vault.balance f) M hist f)
    (fun _ _ _ _ _ hinv hstep => by
      have hstep := step_iff.mp hstep
      obtain ⟨hrec, htraced, haccount⟩ := hinv
      exact ⟨hstep.recorded hrec, htraced.step hstep, haccount.step hrec htraced hstep⟩)
    [] (start id vault) cs L log
    ⟨fun _ _ _ hround => absurd hround (by simp [start]), traced_start id vault, hstart⟩ h
  exact hrun.2.2

theorem Step.fee_eq {L L' : Ledger cap} {c : Consumption} {rc : Receipt} (h : Step L c L' rc)
    (hpath : rc.path = .settle) :
    ∃ w, wager L.id rc.note = some w ∧ ∀ f, rc.fee f =
      if f = w.faucet then 2 * w.betValue.val / 100 +
        if rc.payouts.length = 1 then 0 else winnerPayout w.betValue.val % 2
      else 0 := by
  cases h with
  | refund w v hw hadd htime => cases hpath
  | register w v hw hadd hplay hfree => cases hpath
  | settle w bet v v' hw hadd hplay hround hterms hremove =>
    have hcap := (AssetVault.add_eq_some.mp hadd).1
    have hbet : w.betValue.val < 2 ^ 63 := by
      have hlt := cap.value_lt
      omega
    refine ⟨w, hw, fun f => ?_⟩
    simp only [Receipt.fee, if_true, Receipt.stake, Receipt.paid, holding_of_wager hw,
      outflow_prizes hbet, List.length_map]
    split
    · exact w.sub_totalPrize bet.move.toHand
    · rfl

end Ledger

namespace House

/-- In every run from an empty bets map, and for every faucet: what the vault holds
beyond the registered bets is what it held at the start, the fees of the settlements
and the stakes of the registrations that were replaced. A fee is the hundredth part of
both stakes, rounded down, and in a draw the odd unit of the rest. -/
theorem surplus_exact (id : AccountId) (vault : AssetVault cap) (cs : List Consumption)
    (s : House cap) (log : List Receipt)
    (hrun : Machine.run consume (fresh id vault) cs = some (s, log)) (f : AccountId) :
    s.surplus f = vault.balance f + (log.map (·.fee f)).sum +
      ((replaced id log).map (·.stake f)).sum ∧
    ∀ rc ∈ log, rc.path = .settle → ∃ w, BetNote.wager id rc.note = some w ∧ rc.fee f =
      if f = w.faucet then 2 * w.betValue.val / 100 +
        if rc.payouts.length = 1 then 0 else winnerPayout w.betValue.val % 2
      else 0 := by
  rw [← house_start] at hrun
  obtain ⟨L, hL, rfl⟩ := Ledger.run_house_eq_some hrun
  have hid : L.id = id := run_id hrun
  refine ⟨?_, fun rc hrc hpath => ?_⟩
  · have haccount := Ledger.run_accounted hL f
    rw [Ledger.Accounted, hid] at haccount
    rw [surplus_house, haccount]
  · obtain ⟨before, after, rfl⟩ := List.append_of_mem hrc
    obtain ⟨cs₁, c, cs₂, M, M', rfl, hbefore, hstep, -⟩ := Machine.run_split hL
    obtain ⟨w, hw, hfee⟩ := (Ledger.step_iff.mp hstep).fee_eq hpath
    rw [(Ledger.run_recorded hbefore).1] at hw
    exact ⟨w, hw, hfee f⟩

end House

theorem surplus_exact_sample : ∃ (s : House Sample.kernelCap) (log : List Receipt),
    Machine.run House.consume Sample.house
      [⟨Sample.note .one, 5⟩, ⟨Sample.rival, 6⟩, ⟨Sample.note .two, 7⟩] = some (s, log) ∧
    s.surplus Sample.faucet = 0 + (log.map (·.fee Sample.faucet)).sum +
      ((replaced Sample.houseId log).map (·.stake Sample.faucet)).sum := by
  have hrun : (Machine.run House.consume Sample.house
      [⟨Sample.note .one, 5⟩, ⟨Sample.rival, 6⟩, ⟨Sample.note .two, 7⟩]).isSome := by
    decide +kernel
  obtain ⟨⟨s, log⟩, hrun⟩ := Option.isSome_iff_exists.mp hrun
  have hexact := (House.surplus_exact Sample.houseId AssetVault.empty _ s log hrun
    Sample.faucet).1
  exact ⟨s, log, hrun, hexact⟩

end AllaMorra
