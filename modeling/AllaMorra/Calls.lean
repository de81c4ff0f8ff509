import AllaMorra.Rounds

/-! Bet-notes and direct calls. Any transaction or note on the account may call
the component's public methods with arguments of its choice, so the states of the
house are those of runs that mix consumed bet-notes with such calls. In every one
of these runs a settled round stays settled and settles no second time. -/

namespace AllaMorra

open HouseAccount BetNote

variable {cap : KernelCap}

inductive HouseCall where
  | storePlayerBet (roundId playerNum h g faucetSuffix faucetPrefix : Felt)
  | storePlayerRoundParams (roundId playerNum betValue playerIdXorS playerIdXorP : Felt)
  | clearPlayerBet (roundId playerNum : Felt)
  | markRoundSettled (roundId : Felt)
  | isPlayerRegistered (roundId playerNum : Felt)
  | getPlayerH (roundId playerNum : Felt)
  | getPlayerG (roundId playerNum : Felt)
  | getPlayerFaucetSuffix (roundId playerNum : Felt)
  | getPlayerFaucetPrefix (roundId playerNum : Felt)
  | getPlayerBetValue (roundId playerNum : Felt)
  | getPlayerIdXorS (roundId playerNum : Felt)
  | getPlayerIdXorP (roundId playerNum : Felt)
  | isRoundSettled (roundId : Felt)
  | receiveAsset (a0 a1 a2 a3 : Felt)
  | createPayoutNote (s0 s1 s2 s3 amount faucetSuffix faucetPrefix recipientSuffix
      recipientPrefix : Felt)
  deriving DecidableEq, Repr

namespace HouseCall

/-- The call as a kernel procedure; a read method returns one element. -/
def exec : HouseCall → Kernel cap HouseAccount (List Felt)
  | storePlayerBet r p h g fs fp => do
    Kernel.write (·.storePlayerBet r p h g fs fp)
    return []
  | storePlayerRoundParams r p bv xs xp => do
    Kernel.write (·.storePlayerRoundParams r p bv xs xp)
    return []
  | clearPlayerBet r p => do
    Kernel.write (·.clearPlayerBet r p)
    return []
  | markRoundSettled r => do
    Kernel.write (·.markRoundSettled r)
    return []
  | isPlayerRegistered r p => return [← Kernel.read (·.isPlayerRegistered r p)]
  | getPlayerH r p => return [← Kernel.read (·.getPlayerH r p)]
  | getPlayerG r p => return [← Kernel.read (·.getPlayerG r p)]
  | getPlayerFaucetSuffix r p => return [← Kernel.read (·.getPlayerFaucetSuffix r p)]
  | getPlayerFaucetPrefix r p => return [← Kernel.read (·.getPlayerFaucetPrefix r p)]
  | getPlayerBetValue r p => return [← Kernel.read (·.getPlayerBetValue r p)]
  | getPlayerIdXorS r p => return [← Kernel.read (·.getPlayerIdXorS r p)]
  | getPlayerIdXorP r p => return [← Kernel.read (·.getPlayerIdXorP r p)]
  | isRoundSettled r => return [← Kernel.read (·.isRoundSettled r)]
  | receiveAsset a0 a1 a2 a3 => do
    HouseAccount.receiveAsset a0 a1 a2 a3
    return []
  | createPayoutNote s0 s1 s2 s3 amount fs fp rs rp => do
    HouseAccount.createPayoutNote s0 s1 s2 s3 amount fs fp rs rp
    return []

def update : HouseCall → HouseAccount → HouseAccount
  | storePlayerBet r p h g fs fp, house => house.storePlayerBet r p h g fs fp
  | storePlayerRoundParams r p bv xs xp, house => house.storePlayerRoundParams r p bv xs xp
  | clearPlayerBet r p, house => house.clearPlayerBet r p
  | markRoundSettled r, house => house.markRoundSettled r
  | _, house => house

theorem exec_eq_some {m : HouseCall} {t t' : TxState cap HouseAccount} {res : List Felt}
    (h : m.exec.run t = some (res, t')) :
    t'.account.storage = m.update t.account.storage ∧ t'.account.id = t.account.id := by
  cases m with
  | receiveAsset a0 a1 a2 a3 =>
    rw [exec, StateT.run_bind, run_receiveAsset] at h
    obtain ⟨r, hrun, hreturn⟩ := Option.bind_eq_some_iff.mp h
    split at hrun
    · obtain ⟨v, -, rfl⟩ := Option.map_eq_some_iff.mp hrun
      cases hreturn
      exact ⟨rfl, rfl⟩
    · cases hrun
  | createPayoutNote s0 s1 s2 s3 amount fs fp rs rp =>
    rw [exec, StateT.run_bind, run_createPayoutNote] at h
    obtain ⟨r, hrun, hreturn⟩ := Option.bind_eq_some_iff.mp h
    obtain ⟨v, -, rfl⟩ := Option.map_eq_some_iff.mp hrun
    cases hreturn
    exact ⟨rfl, rfl⟩
  | _ =>
    cases h
    exact ⟨rfl, rfl⟩

theorem isRoundSettled_update {m : HouseCall} {house : HouseAccount} {r : Felt}
    (h : house.isRoundSettled r = 1) : (m.update house).isRoundSettled r = 1 := by
  cases m with
  | storePlayerBet r' p h' g fs fp => rwa [update, isRoundSettled_storePlayerBet]
  | storePlayerRoundParams r' p bv xs xp => rwa [update, isRoundSettled_storePlayerRoundParams]
  | clearPlayerBet r' p => rwa [update, isRoundSettled_clearPlayerBet]
  | markRoundSettled r' =>
    rw [update, isRoundSettled_markRoundSettled]
    split
    · rfl
    · exact h
  | _ => exact h

def writes : HouseCall → Option Felt
  | storePlayerBet r .. => some r
  | storePlayerRoundParams r .. => some r
  | clearPlayerBet r _ => some r
  | markRoundSettled r => some r
  | _ => none

theorem holds_update {m : HouseCall} {house : HouseAccount} {r : Felt} {round : Round}
    (h : house.Holds r round) (hm : m.writes ≠ some r) : (m.update house).Holds r round := by
  cases m with
  | storePlayerBet r' p h' g fs fp =>
    have hr : r ≠ r' := fun heq => hm (congrArg some heq.symm)
    refine ⟨fun q => ?_, ?_⟩
    · rw [update, slot_storePlayerBet, if_neg fun h => hr h.1, h.slot]
    · rw [update, isRoundSettled_storePlayerBet, h.flag]
  | storePlayerRoundParams r' p bv xs xp =>
    have hr : r ≠ r' := fun heq => hm (congrArg some heq.symm)
    refine ⟨fun q => ?_, ?_⟩
    · rw [update, slot_storePlayerRoundParams, if_neg fun h => hr h.1, h.slot]
    · rw [update, isRoundSettled_storePlayerRoundParams, h.flag]
  | clearPlayerBet r' p =>
    have hr : r ≠ r' := fun heq => hm (congrArg some heq.symm)
    refine ⟨fun q => ?_, ?_⟩
    · rw [update, slot_clearPlayerBet, if_neg fun h => hr h.1, h.slot]
    · rw [update, isRoundSettled_clearPlayerBet, h.flag]
  | markRoundSettled r' =>
    have hr : r ≠ r' := fun heq => hm (congrArg some heq.symm)
    refine ⟨fun q => ?_, ?_⟩
    · rw [update, slot_markRoundSettled, h.slot]
    · rw [update, isRoundSettled_markRoundSettled, if_neg hr, h.flag]
  | _ => exact h

end HouseCall

inductive Operation where
  | consume (c : Consumption)
  | call (m : HouseCall) (block : Felt)

inductive Event where
  | consumed (rc : Receipt)
  | called (m : HouseCall) (result : List Felt) (notes : List OutputNote)
  deriving DecidableEq

namespace House

def operate (s : House cap) : Operation → Option (House cap × Event)
  | .consume c => (consume s c).map fun (s', rc) => (s', .consumed rc)
  | .call m block => (m.exec.run ⟨block, s, []⟩).map fun (res, t) =>
      (t.account, .called m res t.outputNotes)

theorem operate_cases {s s' : House cap} {op : Operation} {e : Event}
    (h : operate s op = some (s', e)) :
    (∃ c rc, op = .consume c ∧ e = .consumed rc ∧ consume s c = some (s', rc)) ∨
      ∃ m block res notes, op = .call m block ∧ e = .called m res notes ∧
        s'.storage = m.update s.storage ∧ s'.id = s.id := by
  cases op with
  | consume c =>
    obtain ⟨⟨s₁, rc⟩, hc, heq⟩ := Option.map_eq_some_iff.mp h
    obtain ⟨rfl, rfl⟩ := Prod.mk.inj heq
    exact .inl ⟨c, rc, rfl, rfl, hc⟩
  | call m block =>
    obtain ⟨⟨res, t⟩, hm, heq⟩ := Option.map_eq_some_iff.mp h
    obtain ⟨rfl, rfl⟩ := Prod.mk.inj heq
    obtain ⟨hstorage, hid⟩ := HouseCall.exec_eq_some hm
    exact .inr ⟨m, block, res, t.outputNotes, rfl, rfl, hstorage, hid⟩

theorem operate_id {s s' : House cap} {op : Operation} {e : Event}
    (h : operate s op = some (s', e)) : s'.id = s.id := by
  obtain ⟨c, rc, -, -, hc⟩ | ⟨m, block, res, notes, -, -, -, hid⟩ := operate_cases h
  · exact consume_id hc
  · exact hid

theorem run_operate_id {s s' : House cap} {ops : List Operation} {log : List Event}
    (h : Machine.run operate s ops = some (s', log)) : s'.id = s.id :=
  Machine.run_invariant (fun t : House cap => t.id = s.id)
    (fun _ _ _ _ ht hop => (operate_id hop).trans ht) s ops s' log rfl h

theorem run_operate_consume {s s' : House cap} {cs : List Consumption} {log : List Receipt}
    (h : Machine.run consume s cs = some (s', log)) :
    Machine.run operate s (cs.map .consume) = some (s', log.map .consumed) := by
  have hstep (t : House cap) (c : Consumption) :
      operate (id t) (.consume c) = (consume t c).map fun r => (id r.1, .consumed r.2) := rfl
  have hrun := Machine.run_equivariant id Operation.consume Event.consumed hstep s cs
  rw [h] at hrun
  exact hrun

theorem consume_flag {s s' : House cap} {c : Consumption} {rc : Receipt}
    (h : consume s c = some (s', rc)) (r : Felt) :
    (s.storage.isRoundSettled r = 1 → s'.storage.isRoundSettled r = 1) ∧
      (rc.path = .settle → rc.ofRound r →
        s.storage.isRoundSettled r = 0 ∧ s'.storage.isRoundSettled r = 1) := by
  obtain ⟨w, ps, hw, heffect, rfl⟩ := consume_eq_some.mp h
  obtain ⟨v, -, ⟨hpath, rfl, -⟩ | ⟨hpath, hopen, rfl, -⟩ | ⟨hpath, hopen, -, v', -, rfl, -⟩⟩ :=
    effect_eq_some.mp heffect
  · rw [hpath]
    exact ⟨id, fun h => by cases h⟩
  · rw [hpath]
    refine ⟨fun h => ?_, fun h => by cases h⟩
    rwa [isRoundSettled_register]
  · refine ⟨fun h => ?_, fun _ hr => ?_⟩
    · rw [isRoundSettled_close]
      split
      · rfl
      · exact h
    · simp only [Receipt.ofRound, roundId_of_wager hw, Option.some.injEq, decide_eq_true_eq] at hr
      subst hr
      rw [isRoundSettled_close, if_pos rfl]
      exact ⟨hopen.2, rfl⟩

end House

namespace Event

def settles (r : Felt) : Event → Bool
  | consumed rc => rc.path = .settle ∧ rc.ofRound r
  | called .. => false

def receipts : Event → List Receipt
  | consumed rc => [rc]
  | called .. => []

def payouts : Event → List OutputNote
  | consumed rc => rc.payouts
  | called _ _ notes => notes

def calls : Event → List HouseCall
  | consumed _ => []
  | called m _ _ => [m]

end Event

namespace House

theorem operate_flag {s s' : House cap} {op : Operation} {e : Event}
    (h : operate s op = some (s', e)) (r : Felt) :
    (s.storage.isRoundSettled r = 1 → s'.storage.isRoundSettled r = 1) ∧
      (e.settles r = true →
        s.storage.isRoundSettled r = 0 ∧ s'.storage.isRoundSettled r = 1) := by
  obtain ⟨c, rc, rfl, rfl, hc⟩ | ⟨m, block, res, notes, rfl, rfl, hstorage, -⟩ := operate_cases h
  · obtain ⟨hkeep, hsettle⟩ := consume_flag hc r
    refine ⟨hkeep, fun he => ?_⟩
    simp only [Event.settles, decide_eq_true_eq] at he
    exact hsettle he.1 he.2
  · refine ⟨fun hflag => ?_, fun he => by cases he⟩
    rw [hstorage]
    exact HouseCall.isRoundSettled_update hflag

theorem run_operate_flag {s s' : House cap} {ops : List Operation} {log : List Event}
    (h : Machine.run operate s ops = some (s', log)) (r : Felt) :
    (s.storage.isRoundSettled r = 1 → s'.storage.isRoundSettled r = 1) ∧
      (log.countP (·.settles r) = 0 ∨
        log.countP (·.settles r) = 1 ∧ s'.storage.isRoundSettled r = 1) :=
  Machine.run_history
    (fun hist t => (s.storage.isRoundSettled r = 1 → t.storage.isRoundSettled r = 1) ∧
      (hist.countP (·.settles r) = 0 ∨
        hist.countP (·.settles r) = 1 ∧ t.storage.isRoundSettled r = 1))
    (fun hist t op t' e hinv hop => by
      obtain ⟨hkeep, hcount⟩ := hinv
      obtain ⟨hflag, hsettle⟩ := operate_flag hop r
      refine ⟨hflag ∘ hkeep, ?_⟩
      rw [List.countP_append, List.countP_singleton]
      by_cases he : e.settles r = true
      · -- the flag was not set before, so this is the first settlement
        obtain ⟨hbefore, hafter⟩ := hsettle he
        rw [if_pos he]
        obtain hzero | ⟨-, hset⟩ := hcount
        · exact .inr ⟨by omega, hafter⟩
        · rw [hbefore] at hset
          cases hset
      · rw [if_neg he]
        exact hcount.imp id fun ⟨hone, hset⟩ => ⟨hone, hflag hset⟩)
    [] s ops s' log ⟨id, .inl rfl⟩ h

theorem consume_eq_none {s : House cap} {c : Consumption} {r : Felt}
    (hflag : s.storage.isRoundSettled r = 1) (hc : c.ofRound r = true)
    (htime : ∀ w ∈ wager s.id c.note, c.block.val ≤ w.expiryBlock.val) : consume s c = none := by
  rw [Option.eq_none_iff_forall_not_mem]
  rintro ⟨s', rc⟩ hsome
  obtain ⟨w, ps, hw, heffect, -⟩ := consume_eq_some.mp hsome
  rw [Consumption.ofRound_eq hw, decide_eq_true_iff] at hc
  subst hc
  have hopen : s.storage.isRoundSettled w.roundId ≠ 0 := by
    rw [hflag]
    decide
  obtain ⟨v, -, ⟨hpath, -⟩ | ⟨-, hzero, -⟩ | ⟨-, hzero, -⟩⟩ := effect_eq_some.mp heffect
  · exact absurd (path_eq_refund_iff.mp hpath) (Nat.not_lt.mpr (htime w hw))
  · exact hopen hzero.2
  · exact hopen hzero.2

/-- In every run of bet-notes and direct calls, from any state: a settled round
stays settled, the settlement branch completes at most once, and from then on the
round rejects every bet-note in time. -/
theorem round_settles_once (s : House cap) (ops : List Operation) (s' : House cap)
    (log : List Event) (hrun : Machine.run operate s ops = some (s', log)) (r : Felt) :
    (s.storage.isRoundSettled r = 1 → s'.storage.isRoundSettled r = 1) ∧
    log.countP (·.settles r) ≤ 1 ∧
    (s'.storage.isRoundSettled r = 1 ∨ (∃ e ∈ log, e.settles r = true) →
      ∀ c : Consumption, c.ofRound r = true →
        (∀ w ∈ wager s'.id c.note, c.block.val ≤ w.expiryBlock.val) → consume s' c = none) := by
  obtain ⟨hkeep, hcount⟩ := run_operate_flag hrun r
  refine ⟨hkeep, by omega, fun hsettled c hc htime => consume_eq_none ?_ hc htime⟩
  obtain hflag | ⟨e, he, hsettles⟩ := hsettled
  · exact hflag
  · have hpos : 0 < log.countP (·.settles r) := List.countP_pos_iff.mpr ⟨e, he, hsettles⟩
    obtain hzero | ⟨-, hflag⟩ := hcount
    · omega
    · exact hflag

end House

theorem round_settles_once_sample : ∃ (s : House Sample.kernelCap) (log : List Event),
    Machine.run House.operate Sample.house
      [.call (.storePlayerBet 7 0 1 2 3 4) 4, .consume ⟨Sample.note .one, 5⟩,
        .consume ⟨Sample.note .two, 6⟩, .call (.clearPlayerBet 7 0) 7] = some (s, log) ∧
    log.countP (·.settles 7) ≤ 1 ∧ House.consume s ⟨Sample.rival, 8⟩ = none := by
  have hrun : (Machine.run House.operate Sample.house
      [.call (.storePlayerBet 7 0 1 2 3 4) 4, .consume ⟨Sample.note .one, 5⟩,
        .consume ⟨Sample.note .two, 6⟩, .call (.clearPlayerBet 7 0) 7]).isSome := by
    decide +kernel
  have hsome := (Option.some_get hrun).symm
  obtain ⟨-, honce, hreject⟩ := House.round_settles_once _ _ _ _ hsome 7
  refine ⟨_, _, hsome, honce, hreject (.inl (by decide +kernel)) ⟨Sample.rival, 8⟩ rfl ?_⟩
  intro w hw
  obtain rfl := wager_toNote_inj hw
  decide

end AllaMorra
