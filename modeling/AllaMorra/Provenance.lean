import AllaMorra.Calls

/-! Whose move a settlement uses. The write methods are public and the account
authorises every transaction, so a direct call can place a bet that no note
brought. What is needed of direct calls is that they leave the bet of a player in
an open round as it is; then every settlement uses the move of a consumed note. -/

namespace AllaMorra

open HouseAccount BetNote

variable {cap : KernelCap}

namespace HouseCall

/-- The call does not invent or alter a bet: on the slot of a player in an open
round, `store_player_bet` only repeats what is registered, and
`store_player_round_params` keeps the bet value of a registered slot. -/
def Harmless (house : HouseAccount) : HouseCall → Prop
  | storePlayerBet r p h g fs fp =>
    p = 1 ∨ p = 2 → house.isRoundSettled r = 0 →
      house.isPlayerRegistered r p = 1 ∧ house.getPlayerH r p = h ∧ house.getPlayerG r p = g ∧
        house.getPlayerFaucetSuffix r p = fs ∧ house.getPlayerFaucetPrefix r p = fp
  | storePlayerRoundParams r p bv _ _ =>
    p = 1 ∨ p = 2 → house.isRoundSettled r = 0 → house.isPlayerRegistered r p ≠ 0 →
      house.getPlayerBetValue r p = bv
  | _ => True

end HouseCall

def Slot.stake (slot : Slot) : Hand × AccountId × Felt :=
  (slot.hand, slot.terms.faucet, slot.betValue)

def Wager.stake (w : Wager) : Hand × AccountId × Felt := (w.move.toHand, w.faucet, w.betValue)

theorem HouseCall.Harmless.keeps {m : HouseCall} {house : HouseAccount} (h : m.Harmless house)
    {r : Felt} {p : Player} (hopen : (m.update house).isRoundSettled r = 0)
    (hreg : ((m.update house).slot r p.num).registered ≠ 0) :
    house.isRoundSettled r = 0 ∧ (house.slot r p.num).registered ≠ 0 ∧
      ((m.update house).slot r p.num).stake = (house.slot r p.num).stake := by
  have hplayer : p.num = 1 ∨ p.num = 2 := by cases p <;> decide
  cases m with
  | storePlayerBet r' p' bh bg fs fp =>
    rw [update, isRoundSettled_storePlayerBet] at hopen
    rw [update, slot_storePlayerBet] at hreg ⊢
    split at hreg
    · next hk =>
      obtain ⟨rfl, rfl⟩ := hk
      obtain ⟨hone, hh, hg, hs, hp⟩ := h hplayer hopen
      refine ⟨hopen, ?_, ?_⟩
      · change house.isPlayerRegistered r p.num ≠ 0
        rw [hone]
        decide
      · rw [if_pos ⟨rfl, rfl⟩, ← hh, ← hg, ← hs, ← hp]
        rfl
    · next hk =>
      rw [if_neg hk]
      exact ⟨hopen, hreg, rfl⟩
  | storePlayerRoundParams r' p' bv xs xp =>
    rw [update, isRoundSettled_storePlayerRoundParams] at hopen
    rw [update, slot_storePlayerRoundParams] at hreg ⊢
    split at hreg
    · next hk =>
      obtain ⟨rfl, rfl⟩ := hk
      refine ⟨hopen, hreg, ?_⟩
      rw [if_pos ⟨rfl, rfl⟩, ← h hplayer hopen hreg]
      rfl
    · next hk =>
      rw [if_neg hk]
      exact ⟨hopen, hreg, rfl⟩
  | clearPlayerBet r' p' =>
    rw [update, isRoundSettled_clearPlayerBet] at hopen
    rw [update, slot_clearPlayerBet] at hreg ⊢
    split at hreg
    · exact absurd rfl hreg
    · next hk =>
      rw [if_neg hk]
      exact ⟨hopen, hreg, rfl⟩
  | markRoundSettled r' =>
    rw [update, isRoundSettled_markRoundSettled] at hopen
    rw [update, slot_markRoundSettled] at hreg ⊢
    split at hopen
    · cases hopen
    · exact ⟨hopen, hreg, rfl⟩
  | _ => exact ⟨hopen, hreg, rfl⟩

def BackedBy (houseId : AccountId) (log : List Event) (r : Felt) (p : Player)
    (stake : Hand × AccountId × Felt) : Prop :=
  ∃ rc reg, .consumed rc ∈ log ∧ rc.path = .register ∧ wager houseId rc.note = some reg ∧
    reg.roundId = r ∧ reg.player = p ∧ reg.stake = stake

theorem BackedBy.snoc {houseId : AccountId} {log : List Event} {r : Felt} {p : Player}
    {stake : Hand × AccountId × Felt} (h : BackedBy houseId log r p stake) (e : Event) :
    BackedBy houseId (log ++ [e]) r p stake := by
  obtain ⟨rc, reg, hmem, hrest⟩ := h
  exact ⟨rc, reg, List.mem_append_left _ hmem, hrest⟩

namespace House

def Backed (houseId : AccountId) (log : List Event) (s : House cap) : Prop :=
  s.id = houseId ∧ ∀ r (p : Player), s.storage.isRoundSettled r = 0 →
    (s.storage.slot r p.num).registered ≠ 0 →
      BackedBy houseId log r p (s.storage.slot r p.num).stake

theorem Backed.consume {houseId : AccountId} {log : List Event} {s s' : House cap}
    (h : Backed houseId log s) {c : Consumption} {rc : Receipt}
    (hc : House.consume s c = some (s', rc)) : Backed houseId (log ++ [.consumed rc]) s' := by
  obtain ⟨rfl, hback⟩ := h
  refine ⟨consume_id hc, fun r p hopen hreg => ?_⟩
  obtain ⟨w, ps, hw, heffect, rfl⟩ := consume_eq_some.mp hc
  obtain ⟨v, -, ⟨hpath, rfl, -⟩ | ⟨hpath, -, rfl, -⟩ | ⟨hpath, -, -, v', -, rfl, -⟩⟩ :=
    effect_eq_some.mp heffect
  · exact (hback r p hopen hreg).snoc _
  · rw [isRoundSettled_register] at hopen
    rw [slot_register] at hreg ⊢
    by_cases hk : r = w.roundId ∧ p.num = w.player.num
    · obtain ⟨rfl, hp⟩ := hk
      rw [if_pos ⟨rfl, hp⟩]
      exact ⟨_, w, List.mem_append_right _ List.mem_cons_self, hpath, hw, rfl,
        (Player.num_inj.mp hp).symm, rfl⟩
    · rw [if_neg hk] at hreg ⊢
      exact (hback r p hopen hreg).snoc _
  · rw [isRoundSettled_close] at hopen
    rw [slot_close] at hreg ⊢
    split at hopen
    · cases hopen
    · next hr =>
      rw [if_neg fun hk => hr hk.1] at hreg ⊢
      exact (hback r p hopen hreg).snoc _

theorem Backed.call {houseId : AccountId} {log : List Event} {s s' : House cap}
    (h : Backed houseId log s) {m : HouseCall} (hm : m.Harmless s.storage)
    (hstorage : s'.storage = m.update s.storage) (hid : s'.id = s.id) (e : Event) :
    Backed houseId (log ++ [e]) s' := by
  refine ⟨hid.trans h.1, fun r p hopen hreg => ?_⟩
  rw [hstorage] at hopen hreg ⊢
  obtain ⟨hopen', hreg', hstake⟩ := hm.keeps hopen hreg
  rw [hstake]
  exact (h.2 r p hopen' hreg').snoc e

def OperatesHarmlessly (s : House cap) : Operation → Prop
  | .consume _ => True
  | .call m _ => m.Harmless s.storage

theorem run_backed {id : AccountId} {vault : AssetVault cap} {ops : List Operation}
    {s : House cap} {log : List Event}
    (hrun : Machine.run operate (fresh id vault) ops = some (s, log))
    (hharmless : Machine.Along operate OperatesHarmlessly (fresh id vault) ops) :
    Backed id log s :=
  Machine.run_history_along (Backed id)
    (fun hist t op t' e hinv hop hstep => by
      obtain ⟨c, rc, rfl, rfl, hc⟩ | ⟨m, block, res, notes, rfl, rfl, hstorage, hid⟩ :=
        operate_cases hstep
      · exact hinv.consume hc
      · exact hinv.call hop hstorage hid _)
    [] (fresh id vault) ops s log ⟨rfl, fun r p _ hreg => absurd rfl hreg⟩ hharmless hrun

/-- The settlement `rc`, made by the house `t` after the history `before`, plays
against the bet of a consumed note: that note's move, faucet and bet value are
those of the slot, its bet value is that of the settling note, and the payouts are
the rules on both moves. -/
def SettlesBackedBet (houseId : AccountId) (before : List Event) (t : House cap)
    (rc : Receipt) : Prop :=
  ∃ w rc' reg, wager houseId rc.note = some w ∧ .consumed rc' ∈ before ∧
    rc'.path = .register ∧ wager houseId rc'.note = some reg ∧
    reg.roundId = w.roundId ∧ reg.player = w.player.other ∧
    reg.stake = (t.storage.slot w.roundId w.player.other.num).stake ∧
    reg.faucet = w.faucet ∧ reg.betValue = w.betValue ∧
    rc.payouts = (w.prizes reg.move.toHand).map Payment.note

theorem Backed.settles {houseId : AccountId} {log : List Event} {s s' : House cap}
    (h : Backed houseId log s) {c : Consumption} {rc : Receipt}
    (hc : House.consume s c = some (s', rc)) (hsettle : rc.path = .settle) :
    SettlesBackedBet houseId log s rc := by
  obtain ⟨rfl, hback⟩ := h
  obtain ⟨w, ps, hw, heffect, rfl⟩ := consume_eq_some.mp hc
  obtain ⟨v, -, ⟨hpath, -⟩ | ⟨hpath, -⟩ | ⟨hpath, hopen, hterms, v', -, -, rfl⟩⟩ :=
    effect_eq_some.mp heffect
  · cases hpath.symm.trans hsettle
  · cases hpath.symm.trans hsettle
  · obtain ⟨rc', reg, hmem, hreg, hwager, hround, hplayer, hstake⟩ :=
      hback w.roundId w.player.other hopen.2 (path_eq_settle_iff.mp hpath).2
    simp only [Wager.stake, Slot.stake, Prod.mk.injEq] at hstake
    obtain ⟨hhand, hfaucet, hbet⟩ := hstake
    refine ⟨w, rc', reg, hw, hmem, hreg, hwager, hround, hplayer, ?_, ?_, ?_, ?_⟩
    · simp only [Wager.stake, Slot.stake, hhand, hfaucet, hbet]
    · rw [hfaucet, ← hterms]
      rfl
    · rw [hbet]
      exact (congrArg Terms.betValue hterms).symm
    · rw [hhand]

/-- In every run of bet-notes and harmless calls from an empty bets map, every
settlement plays against a bet that a consumed note deposited. -/
theorem settlements_backed (id : AccountId) (vault : AssetVault cap) (ops : List Operation)
    (s : House cap) (before after : List Event) (rc : Receipt)
    (hrun : Machine.run operate (fresh id vault) ops = some (s, before ++ .consumed rc :: after))
    (hharmless : Machine.Along operate OperatesHarmlessly (fresh id vault) ops)
    (hsettle : rc.path = .settle) :
    ∃ ops₁ c ops₂ t, ops = ops₁ ++ .consume c :: ops₂ ∧
      Machine.run operate (fresh id vault) ops₁ = some (t, before) ∧
      SettlesBackedBet id before t rc := by
  obtain ⟨ops₁, op, ops₂, t, t', rfl, hbefore, hstep, -⟩ := Machine.run_split hrun
  obtain ⟨c, rc', rfl, heq, hc⟩ | ⟨m, block, res, notes, -, heq, -⟩ := operate_cases hstep
  · cases heq
    have hback := run_backed hbefore (Machine.along_append hharmless hbefore).1
    exact ⟨ops₁, c, ops₂, t, rfl, hbefore, hback.settles hc hsettle⟩
  · cases heq

end House

namespace Sample

/-- A bet of the second player that no note has brought. -/
def forgery : List Operation :=
  [.call (.storePlayerBet 7 2 0 1 31 32) 6,
    .call (.storePlayerRoundParams 7 2 100 (wager .one).idXorS (wager .one).idXorP) 6]

def forgeryLog : List Event :=
  [.consumed ⟨elsewhere, 5, .register, []⟩, .called (.storePlayerBet 7 2 0 1 31 32) [] [],
    .called (.storePlayerRoundParams 7 2 100 (wager .one).idXorS (wager .one).idXorP) [] []]

def robbed : Receipt :=
  ⟨note .one, 6, .settle, [Payment.note ⟨7, .prize .two, 198, faucet, game.player2⟩]⟩

end Sample

/-- With a stake of another round in the vault, two direct calls make up an opponent,
and the next note of the round settles against it and pays the made-up winner. -/
theorem house_forges_bet : ∃ s t : House Sample.kernelCap,
    Machine.run House.operate Sample.house
      (.consume ⟨Sample.elsewhere, 5⟩ :: Sample.forgery ++ [.consume ⟨Sample.note .one, 6⟩]) =
        some (s, Sample.forgeryLog ++ [.consumed Sample.robbed]) ∧
    Machine.run House.operate Sample.house (.consume ⟨Sample.elsewhere, 5⟩ :: Sample.forgery) =
      some (t, Sample.forgeryLog) ∧
    ¬ House.SettlesBackedBet Sample.houseId Sample.forgeryLog t Sample.robbed := by
  have hlog : (Machine.run House.operate Sample.house
      (.consume ⟨Sample.elsewhere, 5⟩ :: Sample.forgery ++
        [.consume ⟨Sample.note .one, 6⟩])).map Prod.snd =
      some (Sample.forgeryLog ++ [.consumed Sample.robbed]) := by
    decide +kernel
  obtain ⟨⟨s, log⟩, hrun, rfl⟩ := Option.map_eq_some_iff.mp hlog
  have hbefore : (Machine.run House.operate Sample.house
      (.consume ⟨Sample.elsewhere, 5⟩ :: Sample.forgery)).map Prod.snd =
      some Sample.forgeryLog := by
    decide +kernel
  obtain ⟨⟨t, log'⟩, hrun', rfl⟩ := Option.map_eq_some_iff.mp hbefore
  refine ⟨s, t, hrun, hrun', ?_⟩
  rintro ⟨w, rc, reg, hw, hmem, -, hreg, hround, -⟩
  -- the only note consumed before is of another round
  obtain rfl : rc = ⟨Sample.elsewhere, 5, .register, []⟩ := by
    simpa [Sample.forgeryLog] using hmem
  obtain rfl := wager_toNote_inj hw
  obtain rfl := wager_toNote_inj hreg
  revert hround
  decide

namespace Sample

def watched : List Operation :=
  [.consume ⟨note .one, 5⟩, .call (.storePlayerBet 7 0 1 2 3 4) 5, .call (.isRoundSettled 7) 5,
    .consume ⟨note .two, 6⟩]

def watchedLog : List Event :=
  [.consumed ⟨note .one, 5, .register, []⟩, .called (.storePlayerBet 7 0 1 2 3 4) [] [],
    .called (.isRoundSettled 7) [0] []]

def won : Receipt :=
  ⟨note .two, 6, .settle, [Payment.note ⟨7, .prize .one, 198, faucet, game.player1⟩]⟩

end Sample

theorem settlements_backed_sample :
    ∃ t : House Sample.kernelCap,
      House.SettlesBackedBet Sample.houseId Sample.watchedLog t Sample.won := by
  have hlog : (Machine.run House.operate Sample.house Sample.watched).map Prod.snd =
      some (Sample.watchedLog ++ [.consumed Sample.won]) := by
    decide +kernel
  obtain ⟨⟨s, log⟩, hrun, rfl⟩ := Option.map_eq_some_iff.mp hlog
  have hharmless : Machine.Along House.operate House.OperatesHarmlessly Sample.house
      Sample.watched :=
    ⟨trivial, fun _ _ _ => ⟨fun h => absurd h (by decide), fun _ _ _ => ⟨trivial,
      fun _ _ _ => ⟨trivial, fun _ _ _ => trivial⟩⟩⟩⟩
  obtain ⟨-, -, -, t, -, -, hbacked⟩ := House.settlements_backed Sample.houseId AssetVault.empty
    Sample.watched s Sample.watchedLog [] Sample.won hrun hharmless rfl
  exact ⟨t, hbacked⟩

end AllaMorra
