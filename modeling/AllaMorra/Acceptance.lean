import AllaMorra.Isolation

/-! Which notes the script accepts. On a reachable house the checks the script
makes are all there is: once they pass, the vault holds what the script pays, so
no payout aborts. The stake of the waiting opponent is what makes this true. -/

namespace AllaMorra

open HouseAccount BetNote

variable {cap : KernelCap}

namespace Round

theorem consume_isSome_iff (round : Round) (block : Felt) (w : Wager) :
    (round.consume block w).isSome ↔
      w.expiryBlock.val < block.val ∨ w.XorFits ∧ round.flag = 0 ∧
        ((round.slot w.player.other.num).registered = 0 ∨
          w.terms = (round.slot w.player.other.num).terms) := by
  by_cases htime : w.expiryBlock.val < block.val
  · simp [consume_expired round htime, htime]
  by_cases hfits : w.XorFits
  swap
  · simp [consume_unfit round htime hfits, htime, hfits]
  have hplay : w.Playable block := ⟨htime, hfits⟩
  obtain hfree | ⟨bet, rfl⟩ | rfl := round.cases_of_player w.player
  · have hslot : ((round.slot w.player.other.num).registered = 0) := by
      rw [hfree.slot_other]
      rfl
    simp [consume_free hplay hfree, htime, hfits, hfree.flag, hslot]
  · have hregistered : bet.slot.registered ≠ 0 := one_ne_zero
    have hterms : bet.slot.terms = bet.terms := rfl
    rw [consume_waiting bet hplay, slot_waiting_self, hterms]
    by_cases h : w.terms = bet.terms
    · simp [h, htime, hfits, flag]
    · simp [h, htime, hregistered]
  · simp [consume_settled htime, htime, flag]

end Round

namespace Ledger

theorem consume_isSome_iff {L : Ledger cap} (h : L.Solvent) (block : Felt) (w : Wager) :
    (L.consume block w).isSome ↔
      L.vault.balance w.faucet + w.betValue.val ≤ cap.value ∧
        ((L.rounds w.roundId).consume block w).isSome := by
  constructor
  · intro hsome
    obtain ⟨⟨L', path, ps⟩, hconsume⟩ := Option.isSome_iff_exists.mp hsome
    obtain ⟨v, round, v', hadd, hround, -, -⟩ := consume_eq_some.mp hconsume
    exact ⟨(AssetVault.add_eq_some.mp hadd).1, by rw [hround]; rfl⟩
  · rintro ⟨hcap, hsome⟩
    obtain ⟨⟨round, path, ps⟩, hround⟩ := Option.isSome_iff_exists.mp hsome
    obtain ⟨v, hadd⟩ := L.vault.add_isSome w.faucet w.betValue.val hcap
    -- what the round pays is covered by the balance and the deposit
    have hpay : (ps.map Payment.amount).sum ≤ v.balance w.faucet := by
      rw [(AssetVault.add_eq_some.mp hadd).2, if_pos rfl]
      exact h.payable hround
    obtain ⟨v', hremove⟩ := v.remove_isSome w.faucet _ hpay
    exact Option.isSome_iff_exists.mpr
      ⟨_, consume_eq_some.mpr ⟨v, round, v', hadd, hround, hremove, rfl⟩⟩

end Ledger

namespace BetNote

/-- The player number under which the script looks for the opponent. -/
def Inputs.oppNum (i : Inputs) : Felt := if i.playerNum = 1 then 2 else 1

theorem Inputs.ofList_isSome_iff (inputs : List Felt) :
    (Inputs.ofList inputs).isSome ↔ 12 ≤ inputs.length := by
  rcases inputs with _ | ⟨_, _ | ⟨_, _ | ⟨_, _ | ⟨_, _ | ⟨_, _ | ⟨_, _ | ⟨_, _ | ⟨_, _ | ⟨_,
    _ | ⟨_, _ | ⟨_, _ | ⟨_, _⟩⟩⟩⟩⟩⟩⟩⟩⟩⟩⟩⟩ <;>
    simp [Inputs.ofList]

theorem exists_wager_iff {houseId : AccountId} {note : Note} {P : Wager → Prop} :
    (∃ w, wager houseId note = some w ∧ P w) ↔
      ∃ i a, Inputs.ofList note.inputs = some i ∧ note.assets = [a] ∧
        ∃ hv : i.Valid houseId a, P (i.wager hv) := by
  constructor
  · rintro ⟨w, hw, hP⟩
    unfold wager at hw
    split at hw
    · next i a hi ha =>
      split at hw
      · next hv =>
        obtain rfl := Option.some.inj hw
        exact ⟨i, a, hi, ha, hv, hP⟩
      · cases hw
    · cases hw
  · rintro ⟨i, a, hi, ha, hv, hP⟩
    refine ⟨i.wager hv, ?_, hP⟩
    simp only [wager, hi, ha]
    exact dif_pos hv

structure Inputs.MatchesOpponent (i : Inputs) (a : Asset) (house : HouseAccount) : Prop where
  faucetSuffix : a.inner.e2 = house.getPlayerFaucetSuffix i.roundId i.oppNum
  faucetPrefix : a.inner.e3 = house.getPlayerFaucetPrefix i.roundId i.oppNum
  betValue : i.betValue = house.getPlayerBetValue i.roundId i.oppNum
  idXorS : Felt.fromU64Unchecked (i.p1Suffix.asU64 ^^^ i.p2Suffix.asU64) =
    some (house.getPlayerIdXorS i.roundId i.oppNum)
  idXorP : Felt.fromU64Unchecked (i.p1Prefix.asU64 ^^^ i.p2Prefix.asU64) =
    some (house.getPlayerIdXorP i.roundId i.oppNum)

structure Accepts (s : House cap) (block : Felt) (i : Inputs) (a : Asset) : Prop where
  playerNum : i.playerNum = 1 ∨ i.playerNum = 2
  h_le : i.h.val ≤ 3
  g_le : i.g.val ≤ 6
  amount : a.inner.e0 = i.betValue
  houseSuffix : s.id.idSuffix = i.houseSuffix
  housePrefix : s.id.idPrefix = i.housePrefix
  deposit : s.vault.balance a.faucet + a.amount ≤ cap.value
  branch : i.expiryBlock.val < block.val ∨ s.storage.isRoundSettled i.roundId = 0 ∧
    (s.storage.isPlayerRegistered i.roundId i.oppNum = 0 ∨ i.MatchesOpponent a s.storage)

/-- The script converts the exclusive ors of a note in time before it looks at
the opponent's slot. -/
def Inputs.Converts (i : Inputs) (block : Felt) : Prop :=
  i.expiryBlock.val < block.val ∨ XorFits ⟨i.p1Suffix, i.p1Prefix⟩ ⟨i.p2Suffix, i.p2Prefix⟩

theorem matchesOpponent_iff {houseId : AccountId} {i : Inputs} {a : Asset}
    (hv : i.Valid houseId a) (hfits : (i.wager hv).XorFits) (house : HouseAccount) :
    i.MatchesOpponent a house ↔
      (i.wager hv).terms = (house.slot i.roundId i.player.other.num).terms := by
  have hS : Felt.fromU64Unchecked (i.p1Suffix.asU64 ^^^ i.p2Suffix.asU64) =
    some (i.wager hv).idXorS := Felt.fromU64Unchecked_of_le hfits.1
  have hP : Felt.fromU64Unchecked (i.p1Prefix.asU64 ^^^ i.p2Prefix.asU64) =
    some (i.wager hv).idXorP := Felt.fromU64Unchecked_of_le hfits.2
  rw [terms_eq_iff, i.player_other_num]
  constructor
  · rintro ⟨h₁, h₂, h₃, h₄, h₅⟩
    exact ⟨h₁, h₂, h₃, Option.some.inj (hS.symm.trans h₄), Option.some.inj (hP.symm.trans h₅)⟩
  · rintro ⟨h₁, h₂, h₃, h₄, h₅⟩
    exact ⟨h₁, h₂, h₃, hS.trans (congrArg some h₄), hP.trans (congrArg some h₅)⟩

theorem accepts_iff {L : Ledger cap} (h : L.Solvent) (block : Felt) {i : Inputs} {a : Asset}
    (hfungible : a.IsFungible) :
    Accepts L.house block i a ∧ i.Converts block ↔
      ∃ hv : i.Valid L.id a, (L.consume block (i.wager hv)).isSome := by
  have hamount (hv : i.Valid L.id a) : a.amount = i.betValue.val := congrArg Fin.val hv.amount
  have hregistered := L.isPlayerRegistered_house i.roundId i.player.other.num
  have hslot := L.slot_house i.roundId i.player.other.num
  constructor
  · rintro ⟨hacc, hconverts⟩
    have hv : i.Valid L.id a := ⟨hacc.playerNum, hacc.h_le, hacc.g_le, hacc.amount,
      AccountId.ext hacc.houseSuffix hacc.housePrefix, hfungible⟩
    refine ⟨hv, (Ledger.consume_isSome_iff h block _).mpr ⟨?_, ?_⟩⟩
    · have hcap := hacc.deposit
      rwa [hamount hv] at hcap
    · refine (Round.consume_isSome_iff ..).mpr (or_iff_not_imp_left.mpr fun htime => ?_)
      have hfits : (i.wager hv).XorFits := hconverts.resolve_left htime
      obtain ⟨hopen, hopp⟩ := hacc.branch.resolve_left htime
      rw [matchesOpponent_iff hv hfits, hslot, Inputs.oppNum, ← i.player_other_num,
        hregistered] at hopp
      exact ⟨hfits, hopen, hopp⟩
  · rintro ⟨hv, hsome⟩
    obtain ⟨hcap, hround⟩ := (Ledger.consume_isSome_iff h block _).mp hsome
    have hbranch := (Round.consume_isSome_iff ..).mp hround
    refine ⟨⟨hv.playerNum, hv.h_le, hv.g_le, hv.amount, congrArg AccountId.idSuffix hv.house,
      congrArg AccountId.idPrefix hv.house, ?_, ?_⟩, hbranch.imp_right And.left⟩
    · rw [hamount hv]
      exact hcap
    · refine hbranch.imp_right fun ⟨hfits, hopen, hopp⟩ => ?_
      rw [matchesOpponent_iff hv hfits, hslot, Inputs.oppNum, ← i.player_other_num, hregistered]
      exact ⟨hopen, hopp⟩

/-- Twelve inputs and one asset that pass all of the script's checks. -/
def Guarded (s : House cap) (block : Felt) (note : Note) : Prop :=
  12 ≤ note.inputs.length ∧ ∃ i a, Inputs.ofList note.inputs = some i ∧
    note.assets = [a] ∧ Accepts s block i a

def XorOverflows (block : Felt) (note : Note) : Prop :=
  ∃ i, Inputs.ofList note.inputs = some i ∧ ¬ i.Converts block

theorem isSome_run_iff {s : House cap} (hs : Reachable s) {block : Felt}
    {out : List OutputNote} {note : Note} (hfungible : ∀ a ∈ note.assets, a.IsFungible) :
    ((run note : Kernel cap HouseAccount Unit).run ⟨block, s, out⟩).isSome ↔
      Guarded s block note ∧ ¬ XorOverflows block note := by
  obtain ⟨L, hsolvent, rfl⟩ := hs.exists_solvent
  have hwager : ((run note : Kernel cap HouseAccount Unit).run ⟨block, L.house, out⟩).isSome ↔
      ∃ w, wager L.id note = some w ∧ (L.consume block w).isSome := by
    rw [run_eq, Option.isSome_map, Option.isSome_bind]
    change (wager L.id note).any (fun w => (effect block L.house w).isSome) = true ↔ _
    rw [Option.any_eq_true]
    simp only [Ledger.effect_house, Option.isSome_map]
  have hsingle {a : Asset} (ha : note.assets = [a]) : a.IsFungible := by
    rw [ha] at hfungible
    exact hfungible a (List.mem_singleton_self a)
  rw [hwager, exists_wager_iff]
  constructor
  · rintro ⟨i, a, hi, ha, hsome⟩
    obtain ⟨hacc, hconverts⟩ := (accepts_iff hsolvent block (hsingle ha)).mpr hsome
    refine ⟨⟨(Inputs.ofList_isSome_iff _).mp (Option.isSome_of_eq_some hi), i, a, hi, ha, hacc⟩, ?_⟩
    rintro ⟨i', hi', hoverflows⟩
    obtain rfl : i = i' := Option.some.inj (hi.symm.trans hi')
    exact hoverflows hconverts
  · rintro ⟨⟨-, i, a, hi, ha, hacc⟩, hconverts⟩
    have hconverts : i.Converts block := by
      by_contra hoverflows
      exact hconverts ⟨i, hi, hoverflows⟩
    exact ⟨i, a, hi, ha, (accepts_iff hsolvent block (hsingle ha)).mp ⟨hacc, hconverts⟩⟩

/-- The checks decide whether the script completes, except on the notes in time
that pass them all and whose players have no commitment. -/
theorem run_completes_iff (s : House cap) (hs : Reachable s) (block : Felt)
    (out : List OutputNote) (note : Note) (hfungible : ∀ a ∈ note.assets, a.IsFungible) :
    (((run note : Kernel cap HouseAccount Unit).run ⟨block, s, out⟩).isSome ↔
        Guarded s block note) ↔
      ¬ (Guarded s block note ∧ XorOverflows block note) := by
  rw [isSome_run_iff hs hfungible]
  tauto

theorem run_completes_sample :
    ((run (Sample.note .two) : Kernel Sample.kernelCap HouseAccount Unit).run
      ⟨6, Sample.registered.1, []⟩).isSome := by
  refine ((run_completes_iff Sample.registered.1 Sample.reachable_registered 6 []
    (Sample.note .two) (by decide)).mpr ?_).mpr ⟨by decide, _, _, rfl, rfl, ?_⟩
  · rintro ⟨-, i, hi, hoverflows⟩
    obtain rfl := Option.some.inj hi
    exact hoverflows (.inr (by decide))
  refine ⟨by decide, by decide, by decide, rfl, by decide +kernel, by decide +kernel,
    by decide +kernel, .inr ⟨by decide +kernel, .inr ?_⟩⟩
  exact ⟨by decide +kernel, by decide +kernel, by decide +kernel, by decide +kernel,
    by decide +kernel⟩

theorem guarded_note_aborts :
    Reachable Sample.house ∧ (∀ a ∈ (Sample.strangersNote .one).assets, a.IsFungible) ∧
    Guarded Sample.house 5 (Sample.strangersNote .one) ∧
    ((run (Sample.strangersNote .one) : Kernel Sample.kernelCap HouseAccount Unit).run
      ⟨5, Sample.house, []⟩) = none := by
  refine ⟨Reachable.of_empty rfl, by decide, ⟨by decide, _, _, rfl, rfl, ?_⟩, ?_⟩
  · exact ⟨by decide, by decide, by decide, rfl, by decide, by decide, by decide,
      .inr ⟨by decide, .inl (by decide)⟩⟩
  · rw [← Option.isNone_iff_eq_none]
    decide +kernel

end BetNote

end AllaMorra
