import AllaMorra.Participants
import AllaMorra.Uniqueness

/-! No bet is played after its expiry, when it is. The settling note is in time by
its own expiry; of the note that registered the opponent the house keeps no expiry
at all, and the cross-validation cannot compare it. Which note that is can be read
off the notes themselves: it is the opponent's last one in time. -/

namespace AllaMorra

open HouseAccount BetNote

variable {cap : KernelCap}

def Consumption.InTime (id : AccountId) (r : Felt) (p : Player) (c : Consumption) : Prop :=
  ∃ w ∈ wager id c.note, w.roundId = r ∧ w.player = p ∧ c.block.val ≤ w.expiryBlock.val

instance (id : AccountId) (r : Felt) (p : Player) (c : Consumption) :
    Decidable (c.InTime id r p) :=
  inferInstanceAs (Decidable (∃ w ∈ wager id c.note, _))

def lastInTime (id : AccountId) (r : Felt) (p : Player) (cs : List Consumption) :
    Option Consumption :=
  cs.reverse.find? fun c => c.InTime id r p

/-- Whenever a note is consumed in time, the last note in time of the other player
of its round has not expired either. -/
def OpponentsInTime (id : AccountId) (cs : List Consumption) : Prop :=
  ∀ cs₁ c cs₂, cs = cs₁ ++ c :: cs₂ → ∀ w ∈ wager id c.note, c.block.val ≤ w.expiryBlock.val →
    ∀ d ∈ lastInTime id w.roundId w.player.other cs₁, ∀ w' ∈ wager id d.note,
      c.block.val ≤ w'.expiryBlock.val

def NoLatePlay (id : AccountId) (log : List Receipt) : Prop :=
  ∀ before rc after, log = before ++ rc :: after → ∀ w reg, Settlement id before rc w reg →
    rc.block.val ≤ w.expiryBlock.val ∧ rc.block.val ≤ reg.expiryBlock.val

namespace Ledger

structure Traced (L : Ledger cap) (log : List Receipt) : Prop where
  refund_iff : ∀ rc ∈ log, ∀ w ∈ wager L.id rc.note,
    rc.path = .refund ↔ w.expiryBlock.val < rc.block.val
  registered : ∀ r p rc, lastRegistration L.id r p log = some rc →
    L.rounds r = .settled ∨ ∃ bet, L.rounds r = .waiting p bet
  settled : ∀ rc ∈ log, rc.path = .settle → ∀ w ∈ wager L.id rc.note,
    L.rounds w.roundId = .settled

theorem Step.consumption_eq {L L' : Ledger cap} {c : Consumption} {rc : Receipt}
    (h : Step L c L' rc) : rc.consumption = c := by
  cases h <;> rfl

theorem Step.refund_iff {L L' : Ledger cap} {c : Consumption} {rc : Receipt} (h : Step L c L' rc)
    {w : Wager} (hw : wager L.id rc.note = some w) :
    rc.path = .refund ↔ w.expiryBlock.val < rc.block.val := by
  cases h with
  | refund w' v hw' hadd htime =>
    obtain rfl := Option.some.inj (hw.symm.trans hw')
    simp [htime]
  | register w' v hw' hadd hplay hfree =>
    obtain rfl := Option.some.inj (hw.symm.trans hw')
    simpa using Nat.not_lt.mp hplay.inTime
  | settle w' bet v v' hw' hadd hplay hround hterms hremove =>
    obtain rfl := Option.some.inj (hw.symm.trans hw')
    simpa using Nat.not_lt.mp hplay.inTime

theorem Step.keeps_settled {L L' : Ledger cap} {c : Consumption} {rc : Receipt}
    (h : Step L c L' rc) {r : Felt} (hr : L.rounds r = .settled) : L'.rounds r = .settled := by
  cases h with
  | refund w v hw hadd htime => exact hr
  | register w v hw hadd hplay hfree =>
    by_cases heq : r = w.roundId
    · subst heq
      exact absurd hr hfree.ne_settled
    · rwa [L.setRound_of_ne _ _ heq]
  | settle w bet v v' hw hadd hplay hround hterms hremove =>
    by_cases heq : r = w.roundId
    · rw [heq, setRound_self]
    · rwa [L.setRound_of_ne _ _ heq]

theorem Step.registered {L L' : Ledger cap} {c : Consumption} {rc : Receipt} {log : List Receipt}
    (h : Step L c L' rc)
    (hreg : ∀ r p rc, lastRegistration L.id r p log = some rc →
      L.rounds r = .settled ∨ ∃ bet, L.rounds r = .waiting p bet)
    (r : Felt) (p : Player) (rc' : Receipt)
    (hlast : lastRegistration L.id r p (log ++ [rc]) = some rc') :
    L'.rounds r = .settled ∨ ∃ bet, L'.rounds r = .waiting p bet := by
  rw [lastRegistration_snoc] at hlast
  cases h with
  | refund w v hw hadd htime =>
    rw [if_neg (not_registers_of_path (by simp))] at hlast
    exact hreg r p rc' hlast
  | register w v hw hadd hplay hfree =>
    by_cases hr : r = w.roundId
    · subst hr
      rw [setRound_self]
      by_cases hp : w.player = p
      · exact .inr ⟨w.bet, by rw [hp]⟩
      · -- the other player has no registration, or the round would not be free
        rw [if_neg] at hlast
        · exfalso
          obtain hsettled | ⟨bet, hwait⟩ := hreg _ p rc' hlast
          · exact hfree.ne_settled hsettled
          · rw [hwait] at hfree
            exact hp (Round.free_waiting_iff.mp hfree).symm
        · rintro ⟨-, w', hw', -, hp'⟩
          obtain rfl := Option.some.inj (hw'.symm.trans hw)
          exact hp hp'
    · rw [L.setRound_of_ne _ _ hr]
      rw [if_neg] at hlast
      · exact hreg r p rc' hlast
      · rintro ⟨-, w', hw', hr', -⟩
        obtain rfl := Option.some.inj (hw'.symm.trans hw)
        exact hr hr'.symm
  | settle w bet v v' hw hadd hplay hround hterms hremove =>
    rw [if_neg (not_registers_of_path (by simp))] at hlast
    by_cases hr : r = w.roundId
    · exact .inl (by rw [hr, setRound_self])
    · rw [L.setRound_of_ne _ _ hr]
      exact hreg r p rc' hlast

theorem Step.settled {L L' : Ledger cap} {c : Consumption} {rc : Receipt} (h : Step L c L' rc)
    (hpath : rc.path = .settle) {w : Wager} (hw : wager L.id rc.note = some w) :
    L'.rounds w.roundId = .settled := by
  cases h with
  | refund w' v hw' hadd htime => cases hpath
  | register w' v hw' hadd hplay hfree => cases hpath
  | settle w' bet v v' hw' hadd hplay hround hterms hremove =>
    obtain rfl := Option.some.inj (hw.symm.trans hw')
    exact L.setRound_self _ _ _

theorem Traced.step {L L' : Ledger cap} {c : Consumption} {rc : Receipt} {log : List Receipt}
    (h : L.Traced log) (hstep : Step L c L' rc) : L'.Traced (log ++ [rc]) := by
  have hid := hstep.id_eq
  refine ⟨fun rc' hrc' w hw => ?_, fun r p rc' hlast => ?_, fun rc' hrc' hpath w hw => ?_⟩
  · rw [hid] at hw
    obtain hrc' | hrc' := List.mem_append.mp hrc'
    · exact h.refund_iff rc' hrc' w hw
    · obtain rfl := List.mem_singleton.mp hrc'
      exact hstep.refund_iff hw
  · rw [hid] at hlast
    exact hstep.registered h.registered r p rc' hlast
  · rw [hid] at hw
    obtain hrc' | hrc' := List.mem_append.mp hrc'
    · exact hstep.keeps_settled (h.settled rc' hrc' hpath w hw)
    · obtain rfl := List.mem_singleton.mp hrc'
      exact hstep.settled hpath hw

theorem traced_start (id : AccountId) (vault : AssetVault cap) : (start id vault).Traced [] where
  refund_iff := by simp
  registered _ _ _ hlast := by cases hlast
  settled := by simp

theorem run_traced {id : AccountId} {vault : AssetVault cap} {cs : List Consumption}
    {L : Ledger cap} {log : List Receipt}
    (h : Machine.run step (start id vault) cs = some (L, log)) : L.Traced log :=
  Machine.run_history (fun hist (M : Ledger cap) => M.Traced hist)
    (fun _ _ _ _ _ hinv hstep => hinv.step (step_iff.mp hstep)) [] (start id vault) cs L log
    (traced_start id vault) h

theorem run_consumptions {L L' : Ledger cap} {cs : List Consumption} {log : List Receipt}
    (h : Machine.run step L cs = some (L', log)) : log.map Receipt.consumption = cs :=
  Machine.run_inputs Receipt.consumption
    (fun _ _ _ _ hstep => (step_iff.mp hstep).consumption_eq) L cs L' log h

theorem Traced.lastInTime_eq {L : Ledger cap} {log : List Receipt} (h : L.Traced log) {r : Felt}
    (hopen : L.rounds r ≠ .settled) (p : Player) :
    lastInTime L.id r p (log.map Receipt.consumption) =
      (lastRegistration L.id r p log).map Receipt.consumption := by
  have hagree : ∀ rc ∈ log, rc.consumption.InTime L.id r p ↔ rc.Registers L.id r p := by
    intro rc hrc
    constructor
    · rintro ⟨w, hw, hr, hp, htime⟩
      refine ⟨?_, w, hw, hr, hp⟩
      have hrefund := h.refund_iff rc hrc w hw
      cases hpath : rc.path with
      | register => rfl
      | refund => exact absurd (hrefund.mp hpath) (Nat.not_lt.mpr htime)
      | settle => exact absurd (hr ▸ h.settled rc hrc hpath w hw) hopen
    · rintro ⟨hpath, w, hw, hr, hp⟩
      refine ⟨w, hw, hr, hp, Nat.not_lt.mp fun htime => ?_⟩
      exact absurd (hpath.symm.trans ((h.refund_iff rc hrc w hw).mpr htime)) (by decide)
  rw [lastInTime, lastRegistration, ← List.map_reverse, List.find?_map]
  refine congrArg (Option.map _) (List.find?_congr fun rc hrc => ?_)
  exact decide_eq_decide.mpr (hagree rc (List.mem_reverse.mp hrc))

theorem Traced.settlement_iff {L L' : Ledger cap} {c : Consumption} {rc : Receipt}
    {log : List Receipt} (h : L.Traced log) (hstep : Step L c L' rc) {w reg : Wager} :
    Settlement L.id log rc w reg ↔ wager L.id c.note = some w ∧
      c.block.val ≤ w.expiryBlock.val ∧ ∃ d,
        lastInTime L.id w.roundId w.player.other (log.map Receipt.consumption) = some d ∧
          wager L.id d.note = some reg := by
  constructor
  · rintro ⟨hpath, hsettling, rc', hlast, hreg⟩
    cases hstep with
    | refund w' v hw hadd htime => cases hpath
    | register w' v hw hadd hplay hfree => cases hpath
    | settle w' bet v v' hw hadd hplay hround hterms hremove =>
      obtain rfl := Option.some.inj (hsettling.symm.trans hw)
      refine ⟨hw, Nat.not_lt.mp hplay.inTime, rc'.consumption, ?_, hreg⟩
      rw [h.lastInTime_eq (by rw [hround]; simp), hlast]
      rfl
  · rintro ⟨hw, htime, d, hd, hreg⟩
    have hregistered (hopen : L.rounds w.roundId ≠ .settled) : ∃ rc',
        lastRegistration L.id w.roundId w.player.other log = some rc' ∧ rc'.consumption = d := by
      rw [h.lastInTime_eq hopen] at hd
      exact Option.map_eq_some_iff.mp hd
    cases hstep with
    | refund w' v hw' hadd htime' =>
      obtain rfl := Option.some.inj (hw.symm.trans hw')
      exact absurd htime' (Nat.not_lt.mpr htime)
    | register w' v hw' hadd hplay hfree =>
      -- a free round holds no registration of the other player
      obtain rfl := Option.some.inj (hw.symm.trans hw')
      obtain ⟨rc', hlast, -⟩ := hregistered hfree.ne_settled
      obtain hsettled | ⟨bet, hwait⟩ := h.registered _ _ _ hlast
      · exact absurd hsettled hfree.ne_settled
      · rw [hwait] at hfree
        exact absurd (Round.free_waiting_iff.mp hfree) w.player.other_ne
    | settle w' bet v v' hw' hadd hplay hround hterms hremove =>
      obtain rfl := Option.some.inj (hw.symm.trans hw')
      obtain ⟨rc', hlast, rfl⟩ := hregistered (by rw [hround]; simp)
      exact ⟨rfl, hw, rc', hlast, hreg⟩

theorem settlement_after {id : AccountId} {vault : AssetVault cap} {cs : List Consumption}
    {L L' : Ledger cap} {before : List Receipt} {c : Consumption} {rc : Receipt}
    (hrun : Machine.run step (start id vault) cs = some (L, before))
    (hstep : L.step c = some (L', rc)) (w reg : Wager) :
    Settlement id before rc w reg ↔ wager id c.note = some w ∧
      c.block.val ≤ w.expiryBlock.val ∧ ∃ d,
        lastInTime id w.roundId w.player.other cs = some d ∧ wager id d.note = some reg := by
  obtain ⟨rfl, -⟩ := run_recorded hrun
  rw [← run_consumptions hrun]
  exact (run_traced hrun).settlement_iff (step_iff.mp hstep)

end Ledger

/-- In every run from an empty bets map, whatever the order of its blocks: every
settlement is in time by both of its notes exactly when no note in time finds the
opponent's last note in time expired. -/
theorem no_late_play_iff (id : AccountId) (vault : AssetVault cap) (cs : List Consumption)
    (s : House cap) (log : List Receipt)
    (hrun : Machine.run House.consume (House.fresh id vault) cs = some (s, log)) :
    NoLatePlay id log ↔ OpponentsInTime id cs := by
  rw [← House.house_start] at hrun
  obtain ⟨L, hL, rfl⟩ := Ledger.run_house_eq_some hrun
  constructor
  · intro hplay cs₁ c cs₂ hcs w hw htime d hd w' hw'
    subst hcs
    obtain ⟨M, before, log₂, hbefore, hrest, rfl⟩ := (Machine.run_append ..).mp hL
    obtain ⟨M', rc, after, hstep, -, rfl⟩ := (Machine.run_cons ..).mp hrest
    have hset := (Ledger.settlement_after hbefore hstep w w').mpr ⟨hw, htime, d, hd, hw'⟩
    rw [← (Ledger.step_iff.mp hstep).consumption_eq]
    exact (hplay before rc after rfl w w' hset).2
  · intro hopp before rc after hlog w reg hset
    subst hlog
    obtain ⟨cs₁, c, cs₂, M, M', rfl, hbefore, hstep, -⟩ := Machine.run_split hL
    obtain ⟨hw, htime, d, hd, hreg⟩ := (Ledger.settlement_after hbefore hstep w reg).mp hset
    have hblock : rc.block = c.block :=
      congrArg Consumption.block (Ledger.step_iff.mp hstep).consumption_eq
    rw [hblock]
    exact ⟨htime, hopp cs₁ c cs₂ rfl w hw htime d hd reg hreg⟩

theorem opponentsInTime_of_expiry_eq {id : AccountId} {cs : List Consumption}
    (h : ∀ c ∈ cs, ∀ d ∈ cs, ∀ w ∈ wager id c.note, ∀ w' ∈ wager id d.note,
      w.roundId = w'.roundId → w.expiryBlock = w'.expiryBlock) : OpponentsInTime id cs := by
  rintro cs₁ c cs₂ rfl w hw htime d hd w' hw'
  have hfind : (cs₁.reverse.find? fun c => c.InTime id w.roundId w.player.other) = some d := hd
  have hintime : d.InTime id w.roundId w.player.other := by simpa using List.find?_some hfind
  obtain ⟨w'', hw'', hround, -, -⟩ := hintime
  obtain rfl := Option.some.inj (hw'.symm.trans hw'')
  have hmem : d ∈ cs₁ := List.mem_reverse.mp (List.mem_of_find?_eq_some hfind)
  rw [← h c (by simp) d (List.mem_append_left _ hmem) w hw w' hw' hround.symm]
  exact htime

namespace Sample

def patient : Wager := { wager .two with expiryBlock := 90 }

def patientNote : Note := patient.toNote houseId ⟨0, 0, 0, 2⟩

def late : Receipt :=
  ⟨patientNote, 60, .settle, [Payment.note ⟨7, .prize .one, 198, faucet, game.player1⟩]⟩

end Sample

theorem late_play : ∃ s,
    Machine.run House.consume Sample.house [⟨Sample.note .one, 5⟩, ⟨Sample.patientNote, 60⟩] =
      some (s, [Sample.registration, Sample.late]) ∧
    Settlement Sample.houseId [Sample.registration] Sample.late Sample.patient
      (Sample.wager .one) ∧
    ¬ NoLatePlay Sample.houseId [Sample.registration, Sample.late] := by
  have hlog : (Machine.run House.consume Sample.house
      [⟨Sample.note .one, 5⟩, ⟨Sample.patientNote, 60⟩]).map Prod.snd =
      some [Sample.registration, Sample.late] := by
    decide +kernel
  obtain ⟨⟨s, log⟩, hrun, rfl⟩ := Option.map_eq_some_iff.mp hlog
  have hset : Settlement Sample.houseId [Sample.registration] Sample.late Sample.patient
      (Sample.wager .one) :=
    ⟨rfl, wager_toNote .., Sample.registration, by decide +kernel, wager_toNote ..⟩
  refine ⟨s, hrun, hset, fun hplay => ?_⟩
  exact absurd (hplay [Sample.registration] Sample.late [] rfl _ _ hset).2 (by decide)

theorem no_late_play_sample : ∃ s log,
    Machine.run House.consume Sample.house [⟨Sample.note .one, 5⟩, ⟨Sample.note .two, 6⟩] =
      some (s, log) ∧ NoLatePlay Sample.houseId log := by
  have hrun : (Machine.run House.consume Sample.house
      [⟨Sample.note .one, 5⟩, ⟨Sample.note .two, 6⟩]).isSome := by
    decide +kernel
  have hsome := (Option.some_get hrun).symm
  refine ⟨_, _, hsome, (no_late_play_iff Sample.houseId AssetVault.empty _ _ _ hsome).mpr ?_⟩
  refine opponentsInTime_of_expiry_eq fun c hc d hd w hw w' hw' _ => ?_
  have hexpiry : ∀ c ∈ ([⟨Sample.note .one, 5⟩, ⟨Sample.note .two, 6⟩] : List Consumption),
      ∀ w ∈ wager Sample.houseId c.note, w.expiryBlock = 50 := by
    decide +kernel
  rw [hexpiry c hc w hw, hexpiry d hd w' hw']

end AllaMorra
