import AllaMorra.History

/-! Who is paid when a round settles. The settling note alone names the
recipients; of the note it meets, the house kept only the commitment to the
players, an exclusive or of their names as field elements. -/

namespace AllaMorra

open HouseAccount BetNote

variable {cap : KernelCap}

theorem Felt.eq_iff_of_commitment {a b a' b' : Felt}
    (h : ofNat (a.asU64 ^^^ b.asU64).toNat = ofNat (a'.asU64 ^^^ b'.asU64).toNat)
    (hlt : (a.asU64 ^^^ b.asU64).toNat < modulus) (hlt' : (a'.asU64 ^^^ b'.asU64).toNat < modulus) :
    a = a' ↔ b = b' := by
  have hxor := (ofNat_toNat_inj hlt hlt').mp h
  constructor
  · rintro rfl
    exact (asU64_inj b b').mp ((UInt64.xor_right_inj _).mp hxor)
  · rintro rfl
    exact (asU64_inj a a').mp ((UInt64.xor_left_inj _).mp hxor)

/-- A settlement after the log `before`: the wager of the settling note, and that
of the note that registered its opponent. -/
structure Settlement (houseId : AccountId) (before : List Receipt) (rc : Receipt)
    (w reg : Wager) : Prop where
  path : rc.path = .settle
  settling : wager houseId rc.note = some w
  registering : ∃ rc', lastRegistration houseId w.roundId w.player.other before = some rc' ∧
    wager houseId rc'.note = some reg

def Wager.NamesSame (w reg : Wager) : Prop := w.player1 = reg.player1 ∧ w.player2 = reg.player2

theorem Ledger.Step.settlement {L L' : Ledger cap} {c : Consumption} {rc : Receipt}
    {log : List Receipt} (hstep : Step L c L' rc) (hrec : L.Recorded log)
    (hpath : rc.path = .settle) :
    ∃ w reg, Settlement L.id log rc w reg ∧ w.terms = reg.terms ∧
      rc.payouts = (w.prizes reg.move.toHand).map Payment.note := by
  cases hstep with
  | refund w v hw hadd htime => cases hpath
  | register w v hw hadd hplay hfree => cases hpath
  | settle w bet v v' hw hadd hplay hround hterms hremove =>
    obtain ⟨rc', reg, hlast, hreg, rfl⟩ := hrec _ _ _ hround
    exact ⟨w, reg, ⟨hpath, hw, rc', hlast, hreg⟩, hterms, rfl⟩

/-- In every run, the note that settles and the note that registered its opponent
commit to the same field elements for the two players, and every payout goes to
the account the settling note names for its player number. Below the field order
the commitment to one player's name settles the other's. -/
theorem settlement_commitments (id : AccountId) (vault : AssetVault cap)
    (cs : List Consumption) (s : House cap) (before after : List Receipt) (rc : Receipt)
    (hrun : Machine.run House.consume (House.fresh id vault) cs = some (s, before ++ rc :: after))
    (hsettle : rc.path = .settle) :
    ∃ w reg, Settlement id before rc w reg ∧ w.idXorS = reg.idXorS ∧ w.idXorP = reg.idXorP ∧
      (∀ n ∈ rc.payouts, ∃ p : Player, n.recipient.serialNum = ⟨w.roundId, p.num, 0, 0⟩ ∧
        n.recipient.inputs = [(w.account p).idSuffix, (w.account p).idPrefix]) ∧
      ((w.player1.idSuffix.asU64 ^^^ w.player2.idSuffix.asU64).toNat < Felt.modulus →
        (reg.player1.idSuffix.asU64 ^^^ reg.player2.idSuffix.asU64).toNat < Felt.modulus →
        (w.player1.idSuffix = reg.player1.idSuffix ↔
          w.player2.idSuffix = reg.player2.idSuffix)) ∧
      ((w.player1.idPrefix.asU64 ^^^ w.player2.idPrefix.asU64).toNat < Felt.modulus →
        (reg.player1.idPrefix.asU64 ^^^ reg.player2.idPrefix.asU64).toNat < Felt.modulus →
        (w.player1.idPrefix = reg.player1.idPrefix ↔
          w.player2.idPrefix = reg.player2.idPrefix)) := by
  obtain ⟨cs₁, c, cs₂, t, t', rfl, hbefore, hstep, -⟩ := Machine.run_split hrun
  obtain ⟨L, rfl, rfl, hrec, -⟩ := House.exists_ledger hbefore
  obtain ⟨L', hledger, rfl⟩ := Ledger.consume_house_eq_some hstep
  obtain ⟨w, reg, hset, hterms, hpay⟩ := (Ledger.step_iff.mp hledger).settlement hrec hsettle
  have hS : w.idXorS = reg.idXorS := congrArg Terms.idXorS hterms
  have hP : w.idXorP = reg.idXorP := congrArg Terms.idXorP hterms
  refine ⟨w, reg, hset, hS, hP, fun n hn => ?_, Felt.eq_iff_of_commitment hS,
    Felt.eq_iff_of_commitment hP⟩
  rw [hpay] at hn
  obtain ⟨pay, hprize, rfl⟩ := List.mem_map.mp hn
  obtain ⟨⟨p, amount⟩, -, rfl⟩ := List.mem_map.mp hprize
  exact ⟨p, rfl, rfl⟩

namespace Sample

def swapped : Wager := { wager .two with player1 := game.player2, player2 := game.player1 }

def swappedNote : Note := swapped.toNote houseId ⟨0, 0, 0, 2⟩

def registration : Receipt := ⟨note .one, 5, .register, []⟩

/-- The first player has won; the prize goes to the second player's account. -/
def diverted : Receipt :=
  ⟨swappedNote, 6, .settle, [Payment.note ⟨7, .prize .one, 198, faucet, game.player2⟩]⟩

theorem run_diverted : ∃ s : House kernelCap,
    Machine.run House.consume house [⟨note .one, 5⟩, ⟨swappedNote, 6⟩] =
      some (s, [registration, diverted]) := by
  have hlog : (Machine.run House.consume house [⟨note .one, 5⟩, ⟨swappedNote, 6⟩]).map Prod.snd =
      some [registration, diverted] := by
    decide +kernel
  obtain ⟨⟨s, log⟩, hrun, rfl⟩ := Option.map_eq_some_iff.mp hlog
  exact ⟨s, hrun⟩

end Sample

/-- The two notes of a settlement need not name the same accounts: the second
exchanges them under the same commitment, and takes the first player's prize. -/
theorem participants_disagree : ∃ s : House Sample.kernelCap,
    Machine.run House.consume Sample.house [⟨Sample.note .one, 5⟩, ⟨Sample.swappedNote, 6⟩] =
        some (s, [Sample.registration, Sample.diverted]) ∧
    Settlement Sample.houseId [Sample.registration] Sample.diverted Sample.swapped
      (Sample.wager .one) ∧
    ¬ Sample.swapped.NamesSame (Sample.wager .one) := by
  obtain ⟨s, hrun⟩ := Sample.run_diverted
  refine ⟨s, hrun, ⟨rfl, wager_toNote .., Sample.registration, by decide +kernel,
    wager_toNote ..⟩, ?_⟩
  intro h
  exact absurd h.1 (by decide)

theorem settlement_commitments_sample : ∃ w reg,
    Settlement Sample.houseId [Sample.registration] Sample.diverted w reg ∧
      w.idXorS = reg.idXorS ∧ w.idXorP = reg.idXorP := by
  obtain ⟨s, hrun⟩ := Sample.run_diverted
  obtain ⟨w, reg, hset, hS, hP, -⟩ := settlement_commitments Sample.houseId AssetVault.empty _ s
    [Sample.registration] [] Sample.diverted hrun rfl
  exact ⟨w, reg, hset, hS, hP⟩

end AllaMorra
