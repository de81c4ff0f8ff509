import AllaMorra.Solvency

/-! Which consumed note stands behind a registered slot. The log of a run names
the note that registered a slot last; in every run from an empty bets map a
waiting bet is the bet of that note. Together with the layout this is the
representation invariant of the bets map. -/

namespace AllaMorra

open HouseAccount BetNote

variable {cap : KernelCap}

namespace Receipt

def Registers (id : AccountId) (r : Felt) (p : Player) (rc : Receipt) : Prop :=
  rc.path = .register ∧ ∃ w ∈ wager id rc.note, w.roundId = r ∧ w.player = p

instance (id : AccountId) (r : Felt) (p : Player) (rc : Receipt) :
    Decidable (rc.Registers id r p) :=
  inferInstanceAs (Decidable (rc.path = .register ∧ ∃ w ∈ wager id rc.note, _))

end Receipt

def lastRegistration (id : AccountId) (r : Felt) (p : Player) (log : List Receipt) :
    Option Receipt :=
  log.reverse.find? fun rc => rc.Registers id r p

theorem lastRegistration_snoc (id : AccountId) (r : Felt) (p : Player) (log : List Receipt)
    (rc : Receipt) :
    lastRegistration id r p (log ++ [rc]) =
      if rc.Registers id r p then some rc else lastRegistration id r p log := by
  simp only [lastRegistration, List.reverse_append, List.reverse_singleton, List.singleton_append,
    List.find?_cons]
  split <;> simp_all

theorem not_registers_of_path {id : AccountId} {r : Felt} {p : Player} {rc : Receipt}
    (h : rc.path ≠ .register) : ¬ rc.Registers id r p := fun hreg => h hreg.1

/-- The bet `bet` of player `p` in round `r` is that of the last note that
registered them. -/
def RecordedBy (id : AccountId) (log : List Receipt) (r : Felt) (p : Player) (bet : Bet) : Prop :=
  ∃ rc w, lastRegistration id r p log = some rc ∧ wager id rc.note = some w ∧ w.bet = bet

namespace Ledger

def Recorded (L : Ledger cap) (log : List Receipt) : Prop :=
  ∀ r p bet, L.rounds r = .waiting p bet → RecordedBy L.id log r p bet

theorem Step.recorded {L L' : Ledger cap} {c : Consumption} {rc : Receipt} {log : List Receipt}
    (hstep : Step L c L' rc) (hrec : L.Recorded log) : L'.Recorded (log ++ [rc]) := by
  intro r p bet hround
  cases hstep with
  | refund w v hw hadd htime =>
    rw [RecordedBy, lastRegistration_snoc, if_neg (not_registers_of_path (by simp))]
    exact hrec r p bet hround
  | register w v hw hadd hplay hfree =>
    by_cases hr : r = w.roundId
    · subst hr
      rw [setRound_self, Round.waiting.injEq] at hround
      obtain ⟨rfl, rfl⟩ := hround
      refine ⟨⟨c.note, c.block, .register, []⟩, w, ?_, hw, rfl⟩
      rw [lastRegistration_snoc, if_pos ⟨rfl, w, hw, rfl, rfl⟩]
    · rw [L.setRound_of_ne _ _ hr] at hround
      rw [RecordedBy, lastRegistration_snoc, if_neg]
      · exact hrec r p bet hround
      · rintro ⟨-, w', hw', rfl, -⟩
        exact hr (congrArg Wager.roundId (Option.some.inj (hw'.symm.trans hw)))
  | settle w bet' v v' hw hadd hplay hwait hterms hremove =>
    rw [RecordedBy, lastRegistration_snoc, if_neg (not_registers_of_path (by simp))]
    by_cases hr : r = w.roundId
    · subst hr
      rw [setRound_self] at hround
      cases hround
    · rw [L.setRound_of_ne _ _ hr] at hround
      exact hrec r p bet hround

theorem run_recorded {id : AccountId} {vault : AssetVault cap} {cs : List Consumption}
    {L : Ledger cap} {log : List Receipt}
    (h : Machine.run step (start id vault) cs = some (L, log)) : L.id = id ∧ L.Recorded log :=
  Machine.run_history (fun hist (M : Ledger cap) => M.id = id ∧ M.Recorded hist)
    (fun _ _ _ _ _ hinv hstep =>
      have hstep := step_iff.mp hstep
      ⟨hstep.id_eq.trans hinv.1, hstep.recorded hinv.2⟩)
    [] (start id vault) cs L log ⟨rfl, fun _ _ _ h => by cases h⟩ h

end Ledger

theorem House.exists_ledger {id : AccountId} {vault : AssetVault cap} {cs : List Consumption}
    {s : House cap} {log : List Receipt}
    (h : Machine.run House.consume (House.fresh id vault) cs = some (s, log)) :
    ∃ L : Ledger cap, s = L.house ∧ L.id = id ∧ L.Recorded log ∧ L.Solvent := by
  rw [← House.house_start] at h
  obtain ⟨L, hL, rfl⟩ := Ledger.run_house_eq_some h
  obtain ⟨hid, hrec⟩ := Ledger.run_recorded hL
  exact ⟨L, rfl, hid, hrec, Ledger.solvent_of_run hL⟩

/-! The representation invariant, read off the layout. -/

namespace Round

theorem waiting_of_registered {round : Round} {p : Player}
    (h : (round.slot p.num).registered ≠ 0) : ∃ bet, round = .waiting p bet := by
  cases round with
  | idle => exact absurd rfl h
  | settled => exact absurd rfl h
  | waiting q bet =>
    by_cases hq : p.num = q.num
    · rw [Player.num_inj.mp hq]
      exact ⟨bet, rfl⟩
    · rw [slot, if_neg hq] at h
      exact absurd rfl h

theorem slot_eq_empty {round : Round} {p : Player}
    (h : (round.slot p.num).registered = 0) : round.slot p.num = Slot.empty := by
  cases round with
  | idle => rfl
  | settled => rfl
  | waiting q bet =>
    rw [slot] at h ⊢
    split at h
    · cases h
    · next hq => rw [if_neg hq]

theorem flag_eq (round : Round) : round.flag = 0 ∨ round.flag = 1 := by
  cases round with
  | settled => exact .inr rfl
  | _ => exact .inl rfl

end Round

theorem Ledger.waiting_of_registered {L : Ledger cap} {r : Felt} {p : Player}
    (h : L.house.storage.isPlayerRegistered r p.num = 1) : ∃ bet, L.rounds r = .waiting p bet := by
  rw [L.isPlayerRegistered_house] at h
  exact Round.waiting_of_registered (by rw [h]; decide)

theorem Ledger.idle_of_open {L : Ledger cap} {r : Felt}
    (hopen : L.house.storage.isRoundSettled r = 0)
    (hfree : ∀ p : Player, L.house.storage.isPlayerRegistered r p.num = 0) :
    L.rounds r = .idle := by
  have hflag : (L.rounds r).flag = 0 := hopen
  cases hround : L.rounds r with
  | idle => rfl
  | settled =>
    rw [hround] at hflag
    cases hflag
  | waiting p bet =>
    have hp := hfree p
    rw [L.isPlayerRegistered_house, hround, Round.slot_waiting_self] at hp
    cases hp

theorem get_encode_of_ne (rounds : Felt → Round) {k : Word}
    (hslot : ∀ r (p : Player) field, field.val < 8 → k ≠ playerKey r p.num field)
    (hflag : ∀ r, k ≠ settledKey r) : (encode rounds).bets.get k = 0 := by
  by_cases hk : IsCell k
  · obtain ⟨h3, h2⟩ := hk
    obtain ⟨r, p, idx, e3⟩ := k
    simp only at h2 h3
    subst h3
    have hlt : idx.val < 8 := h2.resolve_right fun ⟨h1, h99⟩ => hflag r (by rw [h1, h99]; rfl)
    have hp (q : Player) : p ≠ q.num := fun hq => hslot r q idx hlt (by rw [hq]; rfl)
    rw [show (⟨r, p, idx, 0⟩ : Word) = playerKey r p idx from rfl, get_playerKey _ _ _ hlt,
      slot_encode]
    cases hround : rounds r with
    | idle => exact Slot.field_empty idx
    | settled => exact Slot.field_empty idx
    | waiting q bet =>
      rw [(Round.free_waiting q bet).slot_of_ne (hp q)]
      exact Slot.field_empty idx
  · exact get_encode_of_not_isCell rounds hk

structure RoundStored (id : AccountId) (log : List Receipt) (house : HouseAccount) (r : Felt) :
    Prop where
  one_registered : house.isPlayerRegistered r 1 = 0 ∨ house.isPlayerRegistered r 2 = 0
  registered (p : Player) :
    house.isPlayerRegistered r p.num = 0 ∨ house.isPlayerRegistered r p.num = 1
  unregistered (p : Player) :
    house.isPlayerRegistered r p.num = 0 → house.slot r p.num = Slot.empty
  in_range (p : Player) : house.isPlayerRegistered r p.num = 1 →
    (house.getPlayerH r p.num).val ≤ 3 ∧ (house.getPlayerG r p.num).val ≤ 6
  deposited (p : Player) : house.isPlayerRegistered r p.num = 1 →
    ∃ rc a, lastRegistration id r p log = some rc ∧ rc.note.assets = [a] ∧
      a.faucet = ⟨house.getPlayerFaucetSuffix r p.num, house.getPlayerFaucetPrefix r p.num⟩ ∧
      a.inner.e0 = house.getPlayerBetValue r p.num
  settled : house.isRoundSettled r = 0 ∨ house.isRoundSettled r = 1
  settled_empty : house.isRoundSettled r = 1 → ∀ p : Player, house.slot r p.num = Slot.empty

theorem roundStored_encode {id : AccountId} {log : List Receipt} {L : Ledger cap} (hid : L.id = id)
    (hrec : L.Recorded log) (r : Felt) : RoundStored id log (encode L.rounds) r := by
  have hslot (p : Felt) := slot_encode L.rounds r p
  have hreg (p : Felt) : (encode L.rounds).isPlayerRegistered r p =
    ((L.rounds r).slot p).registered := congrArg Slot.registered (hslot p)
  have hwaiting (p : Player) (h : (encode L.rounds).isPlayerRegistered r p.num = 1) :
      ∃ bet, L.rounds r = .waiting p bet ∧ (encode L.rounds).slot r p.num = bet.slot := by
    obtain ⟨bet, hround⟩ := L.waiting_of_registered h
    exact ⟨bet, hround, by rw [hslot, hround, Round.slot_waiting_self]⟩
  refine ⟨?_, fun p => ?_, fun p h => ?_, fun p h => ?_, fun p h => ?_, ?_, fun h p => ?_⟩
  · rw [hreg, hreg]
    cases L.rounds r with
    | idle => exact .inl rfl
    | settled => exact .inl rfl
    | waiting p bet =>
      cases p with
      | one => exact .inr (congrArg Slot.registered (Round.free_waiting .one bet).slot_other)
      | two => exact .inl (congrArg Slot.registered (Round.free_waiting .two bet).slot_other)
  · by_cases h : (encode L.rounds).isPlayerRegistered r p.num = 0
    · exact .inl h
    · rw [hreg] at h ⊢
      obtain ⟨bet, hround⟩ := Round.waiting_of_registered h
      rw [hround, Round.slot_waiting_self]
      exact .inr rfl
  · rw [hreg] at h
    rw [hslot, Round.slot_eq_empty h]
  · obtain ⟨bet, -, hbet⟩ := hwaiting p h
    have hh : (encode L.rounds).getPlayerH r p.num = bet.move.h := congrArg Slot.h hbet
    have hg : (encode L.rounds).getPlayerG r p.num = bet.move.g := congrArg Slot.g hbet
    rw [hh, hg]
    exact ⟨bet.move.h_le, bet.move.g_le⟩
  · obtain ⟨bet, hround, hbet⟩ := hwaiting p h
    obtain ⟨rc, w, hlast, hw, rfl⟩ := hrec r p bet hround
    have hterms := congrArg Slot.terms hbet
    exact ⟨rc, _, hid ▸ hlast, (wager_eq_some.mp hw).2, (congrArg Terms.faucet hterms).symm,
      (congrArg Slot.betValue hbet).symm⟩
  · exact (L.rounds r).flag_eq
  · rw [isRoundSettled_encode] at h
    rw [hslot]
    cases hround : L.rounds r with
    | settled => rfl
    | idle => rfl
    | waiting q bet =>
      rw [hround] at h
      cases h

/-- Every state of every run from an empty bets map: each round is stored as
above, and nothing else in the map is set. -/
theorem storage_representation (id : AccountId) (vault : AssetVault cap)
    (cs : List Consumption) (s : House cap) (log : List Receipt)
    (hrun : Machine.run House.consume (House.fresh id vault) cs = some (s, log)) :
    (∀ r, RoundStored id log s.storage r) ∧
    ∀ k, (∀ r (p : Player) field, field.val < 8 → k ≠ playerKey r p.num field) →
      (∀ r, k ≠ settledKey r) → s.storage.bets.get k = 0 := by
  obtain ⟨L, rfl, hid, hrec, -⟩ := House.exists_ledger hrun
  exact ⟨roundStored_encode hid hrec, fun k => get_encode_of_ne L.rounds⟩

/-! A sample game, for the runs on concrete notes here and below. -/

namespace Sample

def kernelCap : KernelCap := ⟨2 ^ 63 - 1, by decide, 1024, by decide, 1024, by decide⟩

def houseId : AccountId := ⟨1, 2⟩

def house : House kernelCap := House.fresh houseId AssetVault.empty

def game : Match := ⟨7, ⟨11, 12⟩, ⟨21, 22⟩, 100, 50⟩

def faucet : AccountId := ⟨31, 32⟩

def moves : Player → Move
  | .one => ⟨⟨1, 2⟩, by decide, by decide⟩
  | .two => ⟨⟨1, 0⟩, by decide, by decide⟩

def wager (p : Player) : Wager := game.wager p (moves p) faucet

def note (p : Player) : Note := (wager p).toNote houseId ⟨0, 0, 0, p.num⟩

/-- Players whose prefixes differ in all of the upper 32 bits, and in bit 8. -/
def strangers : Match := ⟨7, ⟨0, 0xAAAAAAAA00000110⟩, ⟨0, 0x5555555500000010⟩, 100, 50⟩

def strangersNote (p : Player) : Note :=
  (strangers.wager p (moves p) faucet).toNote houseId ⟨0, 0, 0, p.num⟩

def registered : House kernelCap × List Receipt :=
  (Machine.run House.consume house [⟨note .one, 5⟩]).get (by decide +kernel)

theorem run_registered :
    Machine.run House.consume house [⟨note .one, 5⟩] = some registered :=
  (Option.some_get _).symm

theorem reachable_registered : Reachable registered.1 := (Reachable.of_empty rfl).run run_registered

end Sample

theorem storage_representation_sample :
    RoundStored Sample.houseId Sample.registered.2 Sample.registered.1.storage 7 :=
  (storage_representation Sample.houseId AssetVault.empty _ _ _ Sample.run_registered).1 7

end AllaMorra
