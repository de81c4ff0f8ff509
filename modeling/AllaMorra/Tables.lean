import AllaMorra.Calls

/-! The flat bets map as two tables. Slots and settled flags share one map and are
told apart by their keys only; for a caller of the public methods they are a table
of eight-field records by round and player number, any number at all, and a table
of settled bits by round. -/

namespace AllaMorra

open HouseAccount

/-- One record per round and player number, and one bit per round. -/
structure Tables where
  record : Felt × Felt → Slot
  settled : Felt → Bool

namespace Tables

def empty : Tables := ⟨fun _ => Slot.empty, fun _ => false⟩

def setRecord (T : Tables) (key : Felt × Felt) (slot : Slot) : Tables :=
  { T with record := Function.update T.record key slot }

def update (T : Tables) : HouseCall → Tables
  | .storePlayerBet r p h g fs fp => T.setRecord (r, p)
      { T.record (r, p) with
        h := h, g := g, registered := 1, faucetSuffix := fs, faucetPrefix := fp }
  | .storePlayerRoundParams r p bv xs xp => T.setRecord (r, p)
      { T.record (r, p) with betValue := bv, idXorS := xs, idXorP := xp }
  | .clearPlayerBet r p => T.setRecord (r, p) Slot.empty
  | .markRoundSettled r => { T with settled := Function.update T.settled r true }
  | _ => T

theorem record_setRecord (T : Tables) (key : Felt × Felt) (slot : Slot) (r p : Felt) :
    (T.setRecord key slot).record (r, p) =
      if r = key.1 ∧ p = key.2 then slot else T.record (r, p) := by
  refine (Function.update_apply T.record key slot (r, p)).trans ?_
  exact if_congr Prod.ext_iff rfl rfl

end Tables

structure Represents (house : HouseAccount) (T : Tables) : Prop where
  isPlayerRegistered r p : house.isPlayerRegistered r p = (T.record (r, p)).registered
  getPlayerH r p : house.getPlayerH r p = (T.record (r, p)).h
  getPlayerG r p : house.getPlayerG r p = (T.record (r, p)).g
  getPlayerFaucetSuffix r p : house.getPlayerFaucetSuffix r p = (T.record (r, p)).faucetSuffix
  getPlayerFaucetPrefix r p : house.getPlayerFaucetPrefix r p = (T.record (r, p)).faucetPrefix
  getPlayerBetValue r p : house.getPlayerBetValue r p = (T.record (r, p)).betValue
  getPlayerIdXorS r p : house.getPlayerIdXorS r p = (T.record (r, p)).idXorS
  getPlayerIdXorP r p : house.getPlayerIdXorP r p = (T.record (r, p)).idXorP
  isRoundSettled r : house.isRoundSettled r = if T.settled r then 1 else 0

theorem represents_iff {house : HouseAccount} {T : Tables} :
    Represents house T ↔ (∀ r p, house.slot r p = T.record (r, p)) ∧
      ∀ r, house.isRoundSettled r = if T.settled r then 1 else 0 := by
  constructor
  · intro h
    refine ⟨fun r p => ?_, h.isRoundSettled⟩
    rw [slot, h.getPlayerH, h.getPlayerG, h.isPlayerRegistered, h.getPlayerFaucetSuffix,
      h.getPlayerFaucetPrefix, h.getPlayerBetValue, h.getPlayerIdXorS, h.getPlayerIdXorP]
  · rintro ⟨hslot, hsettled⟩
    have hfield {α : Type} (f : Slot → α) (r p : Felt) :
        f (house.slot r p) = f (T.record (r, p)) := congrArg f (hslot r p)
    exact ⟨hfield Slot.registered, hfield Slot.h, hfield Slot.g, hfield Slot.faucetSuffix,
      hfield Slot.faucetPrefix, hfield Slot.betValue, hfield Slot.idXorS, hfield Slot.idXorP,
      hsettled⟩

theorem represents_empty : Represents HouseAccount.empty Tables.empty :=
  represents_iff.mpr ⟨fun _ _ => rfl, fun _ => rfl⟩

theorem Represents.update {house : HouseAccount} {T : Tables} (h : Represents house T)
    (m : HouseCall) : Represents (m.update house) (T.update m) := by
  obtain ⟨hslot, hsettled⟩ := represents_iff.mp h
  cases m with
  | storePlayerBet r p h' g fs fp =>
    refine represents_iff.mpr ⟨fun r' p' => ?_, fun r' => ?_⟩
    · rw [HouseCall.update, slot_storePlayerBet, Tables.update, Tables.record_setRecord, hslot]
      refine ite_congr rfl (fun hk => ?_) fun _ => rfl
      rw [hk.1, hk.2]
    · rw [HouseCall.update, isRoundSettled_storePlayerBet]
      exact hsettled r'
  | storePlayerRoundParams r p bv xs xp =>
    refine represents_iff.mpr ⟨fun r' p' => ?_, fun r' => ?_⟩
    · rw [HouseCall.update, slot_storePlayerRoundParams, Tables.update, Tables.record_setRecord,
        hslot]
      refine ite_congr rfl (fun hk => ?_) fun _ => rfl
      rw [hk.1, hk.2]
    · rw [HouseCall.update, isRoundSettled_storePlayerRoundParams]
      exact hsettled r'
  | clearPlayerBet r p =>
    refine represents_iff.mpr ⟨fun r' p' => ?_, fun r' => ?_⟩
    · rw [HouseCall.update, slot_clearPlayerBet, Tables.update, Tables.record_setRecord, hslot]
    · rw [HouseCall.update, isRoundSettled_clearPlayerBet]
      exact hsettled r'
  | markRoundSettled r =>
    refine represents_iff.mpr ⟨fun r' p' => ?_, fun r' => ?_⟩
    · rw [HouseCall.update, slot_markRoundSettled]
      exact hslot r' p'
    · rw [HouseCall.update, isRoundSettled_markRoundSettled, hsettled]
      simp only [Tables.update, Function.update_apply]
      by_cases hr : r' = r <;> simp [hr]
  | _ => exact h

theorem Represents.updates {house : HouseAccount} {T : Tables} (h : Represents house T)
    (calls : List HouseCall) :
    Represents (calls.foldl (fun house m => m.update house) house)
      (calls.foldl Tables.update T) := by
  induction calls generalizing house T with
  | nil => exact h
  | cons m calls ih => exact ih (h.update m)

/-- After any sequence of calls, with any arguments, from an empty bets map, every
read method answers from the two tables. -/
theorem tables_refined (calls : List HouseCall) :
    Represents (calls.foldl (fun house m => m.update house) HouseAccount.empty)
      (calls.foldl Tables.update Tables.empty) :=
  represents_empty.updates calls

end AllaMorra
