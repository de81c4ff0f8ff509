import AllaMorra.Kernel

/-! The `house-account` component. One storage map holds eight fields per
round and player number under `[round_id, player_num, field, 0]`, and the
settled flag of a round under `[round_id, 0, 99, 0]`. A slot is what the eight
getters read back. Each write method is specified by its effect on slots, on
settled flags and on every other key; these three views determine the map. -/

namespace AllaMorra

structure HouseAccount where
  bets : StorageMap

structure Slot where
  h : Felt
  g : Felt
  registered : Felt
  faucetSuffix : Felt
  faucetPrefix : Felt
  betValue : Felt
  idXorS : Felt
  idXorP : Felt
  deriving DecidableEq, Repr

namespace Slot

def empty : Slot := ⟨0, 0, 0, 0, 0, 0, 0, 0⟩

/-- The field under a storage index; indices from eight on are not in use. -/
def field (slot : Slot) (idx : Felt) : Felt :=
  match idx.val with
  | 0 => slot.h
  | 1 => slot.g
  | 2 => slot.registered
  | 3 => slot.faucetSuffix
  | 4 => slot.faucetPrefix
  | 5 => slot.betValue
  | 6 => slot.idXorS
  | 7 => slot.idXorP
  | _ => 0

theorem field_empty (idx : Felt) : empty.field idx = 0 := by
  unfold field
  split <;> rfl

theorem field_of_le (slot : Slot) {idx : Felt} (h : 8 ≤ idx.val) : slot.field idx = 0 := by
  unfold field
  split <;> first | omega | rfl

end Slot

namespace HouseAccount

def empty : HouseAccount := ⟨StorageMap.empty⟩

def playerKey (roundId playerNum field : Felt) : Word := ⟨roundId, playerNum, field, 0⟩

def settledKey (roundId : Felt) : Word := ⟨roundId, 0, 99, 0⟩

def storePlayerBet (self : HouseAccount)
    (roundId playerNum h g faucetSuffix faucetPrefix : Felt) : HouseAccount :=
  ⟨self.bets
    |>.set (playerKey roundId playerNum 0) h
    |>.set (playerKey roundId playerNum 1) g
    |>.set (playerKey roundId playerNum 2) 1
    |>.set (playerKey roundId playerNum 3) faucetSuffix
    |>.set (playerKey roundId playerNum 4) faucetPrefix⟩

def storePlayerRoundParams (self : HouseAccount)
    (roundId playerNum betValue playerIdXorS playerIdXorP : Felt) : HouseAccount :=
  ⟨self.bets
    |>.set (playerKey roundId playerNum 5) betValue
    |>.set (playerKey roundId playerNum 6) playerIdXorS
    |>.set (playerKey roundId playerNum 7) playerIdXorP⟩

def clearPlayerBet (self : HouseAccount) (roundId playerNum : Felt) : HouseAccount :=
  -- a field below eight is far below the order, so its conversion never aborts
  ⟨(List.range 8).foldl
    (fun bets field => bets.set (playerKey roundId playerNum (Felt.ofNat field)) 0) self.bets⟩

def markRoundSettled (self : HouseAccount) (roundId : Felt) : HouseAccount :=
  ⟨self.bets.set (settledKey roundId) 1⟩

section Read

variable (self : HouseAccount) (roundId playerNum : Felt)

def isPlayerRegistered : Felt := self.bets.get (playerKey roundId playerNum 2)

def getPlayerH : Felt := self.bets.get (playerKey roundId playerNum 0)

def getPlayerG : Felt := self.bets.get (playerKey roundId playerNum 1)

def getPlayerFaucetSuffix : Felt := self.bets.get (playerKey roundId playerNum 3)

def getPlayerFaucetPrefix : Felt := self.bets.get (playerKey roundId playerNum 4)

def getPlayerBetValue : Felt := self.bets.get (playerKey roundId playerNum 5)

def getPlayerIdXorS : Felt := self.bets.get (playerKey roundId playerNum 6)

def getPlayerIdXorP : Felt := self.bets.get (playerKey roundId playerNum 7)

def isRoundSettled : Felt := self.bets.get (settledKey roundId)

def slot : Slot where
  h := self.getPlayerH roundId playerNum
  g := self.getPlayerG roundId playerNum
  registered := self.isPlayerRegistered roundId playerNum
  faucetSuffix := self.getPlayerFaucetSuffix roundId playerNum
  faucetPrefix := self.getPlayerFaucetPrefix roundId playerNum
  betValue := self.getPlayerBetValue roundId playerNum
  idXorS := self.getPlayerIdXorS roundId playerNum
  idXorP := self.getPlayerIdXorP roundId playerNum

end Read

/-- Keys in use: a slot field below eight, or a settled flag. -/
def IsCell (k : Word) : Prop := k.e3 = 0 ∧ (k.e2.val < 8 ∨ k.e1 = 0 ∧ k.e2 = 99)

theorem get_playerKey (self : HouseAccount) (r p : Felt) {idx : Felt} (h : idx.val < 8) :
    self.bets.get (playerKey r p idx) = (self.slot r p).field idx := by
  obtain ⟨i, hi⟩ := idx
  simp only at h
  interval_cases i <;> rfl

theorem ext_cells {a b : HouseAccount} (hslot : ∀ r p, a.slot r p = b.slot r p)
    (hsettled : ∀ r, a.isRoundSettled r = b.isRoundSettled r)
    (hrest : ∀ k, ¬ IsCell k → a.bets.get k = b.bets.get k) : a = b := by
  obtain ⟨am⟩ := a
  obtain ⟨bm⟩ := b
  congr 1
  ext k
  by_cases hk : IsCell k
  · obtain ⟨h3, h2 | ⟨h1, h2⟩⟩ := hk
    · have hkey : k = playerKey k.e0 k.e1 k.e2 := by
        cases k
        simp_all [playerKey]
      rw [hkey]
      exact congrArg _ ((get_playerKey ⟨am⟩ _ _ h2).trans
        ((congrArg (Slot.field · k.e2) (hslot _ _)).trans (get_playerKey ⟨bm⟩ _ _ h2).symm))
    · have hkey : k = settledKey k.e0 := by
        cases k
        simp_all [settledKey]
      rw [hkey]
      exact congrArg _ (hsettled k.e0)
  · exact congrArg _ (hrest k hk)

/-! Write methods. Each is determined by three facts: the slot it changes,
the flag it changes, and that keys out of use keep their value. -/

section Write

variable (self : HouseAccount) (r p : Felt)

attribute [local simp] slot getPlayerH getPlayerG isPlayerRegistered getPlayerFaucetSuffix
  getPlayerFaucetPrefix getPlayerBetValue getPlayerIdXorS getPlayerIdXorP isRoundSettled
  playerKey settledKey StorageMap.get_set

theorem slot_storePlayerBet (h g fs fp r' p' : Felt) :
    (self.storePlayerBet r p h g fs fp).slot r' p' =
      if r' = r ∧ p' = p then
        { self.slot r' p' with
          h := h, g := g, registered := 1, faucetSuffix := fs, faucetPrefix := fp }
      else self.slot r' p' := by
  by_cases hk : r' = r ∧ p' = p
  · obtain ⟨rfl, rfl⟩ := hk
    simp [storePlayerBet]
  · simp [storePlayerBet, hk]

theorem slot_storePlayerRoundParams (bv xs xp r' p' : Felt) :
    (self.storePlayerRoundParams r p bv xs xp).slot r' p' =
      if r' = r ∧ p' = p then { self.slot r' p' with betValue := bv, idXorS := xs, idXorP := xp }
      else self.slot r' p' := by
  by_cases hk : r' = r ∧ p' = p
  · obtain ⟨rfl, rfl⟩ := hk
    simp [storePlayerRoundParams]
  · simp [storePlayerRoundParams, hk]

theorem clearPlayerBet_bets :
    (self.clearPlayerBet r p).bets =
      ([0, 1, 2, 3, 4, 5, 6, 7] : List Felt).foldl
        (fun bets field => bets.set (playerKey r p field) 0) self.bets := by
  have hfields : (List.range 8).map Felt.ofNat = [0, 1, 2, 3, 4, 5, 6, 7] := by decide
  rw [← hfields, List.foldl_map]
  rfl

theorem slot_clearPlayerBet (r' p' : Felt) :
    (self.clearPlayerBet r p).slot r' p' =
      if r' = r ∧ p' = p then Slot.empty else self.slot r' p' := by
  by_cases hk : r' = r ∧ p' = p
  · obtain ⟨rfl, rfl⟩ := hk
    simp [clearPlayerBet_bets, Slot.empty]
  · simp [clearPlayerBet_bets, hk]

theorem slot_markRoundSettled (r' p' : Felt) :
    (self.markRoundSettled r).slot r' p' = self.slot r' p' := by
  simp [markRoundSettled]

theorem isRoundSettled_storePlayerBet (h g fs fp r' : Felt) :
    (self.storePlayerBet r p h g fs fp).isRoundSettled r' = self.isRoundSettled r' := by
  simp [storePlayerBet]

theorem isRoundSettled_storePlayerRoundParams (bv xs xp r' : Felt) :
    (self.storePlayerRoundParams r p bv xs xp).isRoundSettled r' = self.isRoundSettled r' := by
  simp [storePlayerRoundParams]

theorem isRoundSettled_clearPlayerBet (r' : Felt) :
    (self.clearPlayerBet r p).isRoundSettled r' = self.isRoundSettled r' := by
  simp [clearPlayerBet_bets]

theorem isRoundSettled_markRoundSettled (r' : Felt) :
    (self.markRoundSettled r).isRoundSettled r' =
      if r' = r then 1 else self.isRoundSettled r' := by
  simp [markRoundSettled]

theorem isCell_playerKey {idx : Felt} (h : idx.val < 8) : IsCell (playerKey r p idx) :=
  ⟨rfl, .inl h⟩

theorem isCell_settledKey : IsCell (settledKey r) := ⟨rfl, .inr ⟨rfl, rfl⟩⟩

theorem get_set_of_not_isCell (m : StorageMap) {key k : Word} (value : Felt)
    (hkey : IsCell key) (hk : ¬ IsCell k) : (m.set key value).get k = m.get k :=
  m.get_set_of_ne value fun heq => hk (heq ▸ hkey)

theorem get_storePlayerBet (h g fs fp : Felt) {k : Word} (hk : ¬ IsCell k) :
    (self.storePlayerBet r p h g fs fp).bets.get k = self.bets.get k := by
  have hcell (idx : Felt) (hidx : idx.val < 8) := isCell_playerKey r p hidx
  simp only [storePlayerBet]
  rw [get_set_of_not_isCell _ _ (hcell 4 (by decide)) hk,
    get_set_of_not_isCell _ _ (hcell 3 (by decide)) hk,
    get_set_of_not_isCell _ _ (hcell 2 (by decide)) hk,
    get_set_of_not_isCell _ _ (hcell 1 (by decide)) hk,
    get_set_of_not_isCell _ _ (hcell 0 (by decide)) hk]

theorem get_storePlayerRoundParams (bv xs xp : Felt) {k : Word} (hk : ¬ IsCell k) :
    (self.storePlayerRoundParams r p bv xs xp).bets.get k = self.bets.get k := by
  have hcell (idx : Felt) (hidx : idx.val < 8) := isCell_playerKey r p hidx
  simp only [storePlayerRoundParams]
  rw [get_set_of_not_isCell _ _ (hcell 7 (by decide)) hk,
    get_set_of_not_isCell _ _ (hcell 6 (by decide)) hk,
    get_set_of_not_isCell _ _ (hcell 5 (by decide)) hk]

theorem get_clearPlayerBet {k : Word} (hk : ¬ IsCell k) :
    (self.clearPlayerBet r p).bets.get k = self.bets.get k := by
  have hloop (fields : List Felt) (m : StorageMap) (hfields : ∀ idx ∈ fields, idx.val < 8) :
      (fields.foldl (fun bets field => bets.set (playerKey r p field) 0) m).get k = m.get k := by
    induction fields generalizing m with
    | nil => rfl
    | cons idx fields ih =>
      rw [List.foldl_cons, ih _ fun i hi => hfields i (List.mem_cons_of_mem _ hi)]
      exact get_set_of_not_isCell m 0
        (isCell_playerKey r p (hfields idx List.mem_cons_self)) hk
  rw [clearPlayerBet_bets]
  exact hloop _ _ (by simp)

theorem get_markRoundSettled {k : Word} (hk : ¬ IsCell k) :
    (self.markRoundSettled r).bets.get k = self.bets.get k :=
  get_set_of_not_isCell _ _ (isCell_settledKey r) hk

end Write

/-! Asset intake and payout notes. -/

section Vault

variable {cap : KernelCap}

def receiveAsset (a0 a1 a2 a3 : Felt) : Kernel cap HouseAccount Unit :=
  Kernel.addAsset ⟨⟨a0, a1, a2, a3⟩⟩

/-- The source still has the zero word here, in place of the real script root. -/
def p2idNoteRoot : Word := ⟨0, 0, 0, 0⟩

def createPayoutNote (s0 s1 s2 s3 amount faucetSuffix faucetPrefix recipientSuffix
    recipientPrefix : Felt) : Kernel cap HouseAccount Unit := do
  let serialNum : Word := ⟨s0, s1, s2, s3⟩
  let recipient : Recipient := ⟨serialNum, p2idNoteRoot, [recipientSuffix, recipientPrefix]⟩
  let noteIdx ← Kernel.createNote 0 2 recipient
  let asset : Asset := ⟨⟨amount, 0, faucetSuffix, faucetPrefix⟩⟩
  Kernel.removeAsset asset
  Kernel.addNoteAsset asset noteIdx

def payoutNote (serialNum : Word) (amount : Felt) (faucet recipient : AccountId) : OutputNote where
  tag := 0
  noteType := 2
  recipient := ⟨serialNum, p2idNoteRoot, [recipient.idSuffix, recipient.idPrefix]⟩
  assets := [⟨⟨amount, 0, faucet.idSuffix, faucet.idPrefix⟩⟩]

theorem run_receiveAsset (t : TxState cap HouseAccount) (a0 a1 a2 a3 : Felt) :
    (receiveAsset a0 a1 a2 a3 : Kernel cap HouseAccount Unit).run t =
      if a1 = 0 then (t.account.vault.add ⟨a2, a3⟩ a0.val).map fun v => ((), t.setVault v)
      else none :=
  Kernel.run_addAsset ..

theorem run_createPayoutNote (t : TxState cap HouseAccount)
    (s0 s1 s2 s3 amount fs fp rs rp : Felt) :
    (createPayoutNote s0 s1 s2 s3 amount fs fp rs rp : Kernel cap HouseAccount Unit).run t =
      (t.account.vault.remove ⟨fs, fp⟩ amount.val).map fun v =>
        ((), (t.setVault v).emit [payoutNote ⟨s0, s1, s2, s3⟩ amount ⟨fs, fp⟩ ⟨rs, rp⟩]) := by
  have hfungible : Asset.IsFungible ⟨⟨amount, 0, fs, fp⟩⟩ := rfl
  simp only [createPayoutNote, StateT.run_bind, Kernel.run_createNote, Option.bind_eq_bind,
    Option.bind_some, Kernel.run_removeAsset, hfungible, if_true]
  change ((t.account.vault.remove ⟨fs, fp⟩ amount.val).map _).bind _ = _
  cases hv : t.account.vault.remove ⟨fs, fp⟩ amount.val with
  | none => rfl
  | some v => exact Kernel.run_addNoteAsset_emit (t.setVault v) _ _

end Vault

end HouseAccount

end AllaMorra
