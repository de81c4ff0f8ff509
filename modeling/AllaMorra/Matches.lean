import AllaMorra.Rounds

/-! The two notes of a match: what they do together, in either order, in one
transaction or in two, and when the round was not idle before. -/

namespace AllaMorra

open HouseAccount BetNote

variable {cap : KernelCap}

namespace Match

/-- The notes of both players carry this match for this house: their inputs
agree except for player number and move, and each holds its stake. -/
def CarriedBy (m : Match) (moves : Player → Move) (faucets : Player → AccountId)
    (houseId : AccountId) (notes : Player → Note) : Prop :=
  ∀ p, BetNote.wager houseId (notes p) = some (m.wager p (moves p) (faucets p))

theorem exists_carriedBy {houseId : AccountId} {notes : Player → Note} {w : Player → Wager}
    (hw : ∀ p, BetNote.wager houseId (notes p) = some (w p)) (hplayer : ∀ p, (w p).player = p)
    (hinputs : ∀ k, k ≠ 1 → k ≠ 2 → k ≠ 3 →
      (notes .one).inputs[k]? = (notes .two).inputs[k]?) :
    ∃ m moves faucets, CarriedBy m moves faucets houseId notes := by
  obtain ⟨⟨rest, hone⟩, -⟩ := wager_eq_some.mp (hw .one)
  obtain ⟨⟨rest', htwo⟩, -⟩ := wager_eq_some.mp (hw .two)
  rw [hone, htwo] at hinputs
  simp only [Wager.toNote] at hinputs
  have hround : (w .one).roundId = (w .two).roundId := by simpa using hinputs 0
  have hp1 : (w .one).player1 = (w .two).player1 :=
    AccountId.ext (by simpa using hinputs 4) (by simpa using hinputs 5)
  have hp2 : (w .one).player2 = (w .two).player2 :=
    AccountId.ext (by simpa using hinputs 6) (by simpa using hinputs 7)
  have hbet : (w .one).betValue = (w .two).betValue := by simpa using hinputs 10
  have hexpiry : (w .one).expiryBlock = (w .two).expiryBlock := by simpa using hinputs 11
  let m : Match := ⟨(w .one).roundId, (w .one).player1, (w .one).player2, (w .one).betValue,
    (w .one).expiryBlock⟩
  have hwager (p : Player) : w p = m.wager (w p).player (w p).move (w p).faucet := by
    cases p with
    | one => rfl
    | two => exact m.eq_wager hround.symm hp1.symm hp2.symm hbet.symm hexpiry.symm
  refine ⟨m, fun p => (w p).move, fun p => (w p).faucet, fun p => ?_⟩
  rw [hw p, Option.some.injEq]
  exact (hwager p).trans (by rw [hplayer])

theorem playable {m : Match} (hfits : m.XorFits) {block : Felt}
    (hblock : block.val ≤ m.expiryBlock.val) (p : Player) (move : Move) (faucet : AccountId) :
    (m.wager p move faucet).Playable block := ⟨Nat.not_lt.mpr hblock, hfits⟩

end Match

theorem Round.consume_opponent {m : Match} (hfits : m.XorFits) (moves : Player → Move)
    (faucets : Player → AccountId) (p : Player) {block : Felt}
    (hblock : block.val ≤ m.expiryBlock.val) :
    (waiting p (m.wager p (moves p) (faucets p)).bet).consume block
        (m.wager p.other (moves p.other) (faucets p.other)) =
      if faucets p = faucets p.other then
        some (.settled, .settle, m.prizes moves (faucets p.other))
      else none := by
  have hterms : (m.wager p.other (moves p.other) (faucets p.other)).terms =
      (m.wager p (moves p) (faucets p)).terms ↔ faucets p = faucets p.other :=
    m.terms_wager_inj.trans eq_comm
  have hplay := m.playable hfits hblock p.other (moves p.other) (faucets p.other)
  cases p with
  | one => exact (consume_waiting _ hplay).trans (if_congr hterms rfl rfl)
  | two => exact (consume_waiting _ hplay).trans (if_congr hterms rfl rfl)

namespace Ledger

variable {L : Ledger cap} {c : Consumption} {w : Wager}

theorem step_of_wager (hw : wager L.id c.note = some w) :
    L.step c = (L.vault.add w.faucet w.betValue.val).bind fun v =>
      ((L.rounds w.roundId).consume c.block w).bind fun (round, path, ps) =>
        (v.remove w.faucet (ps.map Payment.amount).sum).map fun v' =>
          (L.setRound w.roundId round v', ⟨c.note, c.block, path, ps.map Payment.note⟩) := by
  rw [step, hw, Option.bind_some, consume]
  simp only [Option.map_bind, Option.map_map, Function.comp_def]

theorem step_free (hw : wager L.id c.note = some w) (hplay : w.Playable c.block)
    (hfree : (L.rounds w.roundId).Free w.player) :
    L.step c = (L.vault.add w.faucet w.betValue.val).map fun v =>
      (L.setRound w.roundId (.waiting w.player w.bet) v, ⟨c.note, c.block, .register, []⟩) := by
  rw [step_of_wager hw, Round.consume_free hplay hfree]
  cases L.vault.add w.faucet w.betValue.val with
  | none => rfl
  | some v =>
    simp only [Option.bind_some, List.map_nil, List.sum_nil, v.remove_zero, Option.map_some]

theorem step_waiting (hw : wager L.id c.note = some w) (hplay : w.Playable c.block) {bet : Bet}
    (hround : L.rounds w.roundId = .waiting w.player.other bet) :
    L.step c = (L.vault.add w.faucet w.betValue.val).bind fun v =>
      if w.terms = bet.terms then
        (v.remove w.faucet (w.totalPrize bet.move.toHand)).map fun v' =>
          (L.setRound w.roundId .settled v',
            ⟨c.note, c.block, .settle, (w.prizes bet.move.toHand).map Payment.note⟩)
      else none := by
  rw [step_of_wager hw, hround, Round.consume_waiting bet hplay]
  split
  · simp only [Option.bind_some, w.prizes_amount]
  · rfl

theorem step_settled (hw : wager L.id c.note = some w)
    (htime : ¬ w.expiryBlock.val < c.block.val) (hround : L.rounds w.roundId = .settled) :
    L.step c = none := by
  rw [step_of_wager hw, hround, Round.consume_settled htime]
  exact Option.bind_fun_none ..

theorem step_unfit (hw : wager L.id c.note = some w) (htime : ¬ w.expiryBlock.val < c.block.val)
    (hfits : ¬ w.XorFits) : L.step c = none := by
  rw [step_of_wager hw, Round.consume_unfit _ htime hfits]
  exact Option.bind_fun_none ..

section Pair

variable {m : Match} {moves : Player → Move} {faucets : Player → AccountId}
  {notes : Player → Note} {b₁ b₂ : Felt}

theorem step_first (hnotes : m.CarriedBy moves faucets L.id notes) (hfits : m.XorFits)
    (p : Player) (h₁ : b₁.val ≤ m.expiryBlock.val) (hfree : (L.rounds m.roundId).Free p) :
    L.step ⟨notes p, b₁⟩ = (L.vault.add (faucets p) m.betValue.val).map fun v =>
      (L.setRound m.roundId (.waiting p (m.wager p (moves p) (faucets p)).bet) v,
        ⟨notes p, b₁, .register, []⟩) :=
  step_free (c := ⟨notes p, b₁⟩) (hnotes p) (m.playable hfits h₁ ..) hfree

theorem step_second (hnotes : m.CarriedBy moves faucets L.id notes) (hfits : m.XorFits)
    (p : Player) (h₂ : b₂.val ≤ m.expiryBlock.val) (v : AssetVault cap) :
    (L.setRound m.roundId (.waiting p (m.wager p (moves p) (faucets p)).bet) v).step
        ⟨notes p.other, b₂⟩ =
      (v.add (faucets p.other) m.betValue.val).bind fun v =>
        if faucets p = faucets p.other then
          (v.remove (faucets p.other) (m.totalPrize moves)).map fun v' =>
            (L.setRound m.roundId .settled v', ⟨notes p.other, b₂, .settle,
              (m.prizes moves (faucets p.other)).map Payment.note⟩)
        else none := by
  let M := L.setRound m.roundId (.waiting p (m.wager p (moves p) (faucets p)).bet) v
  have hround : M.rounds m.roundId = .waiting p (m.wager p (moves p) (faucets p)).bet :=
    L.setRound_self ..
  refine (step_of_wager (L := M) (c := ⟨notes p.other, b₂⟩) (hnotes p.other)).trans ?_
  refine Option.bind_congr fun v' _ => ?_
  change ((M.rounds m.roundId).consume _ _).bind _ = _
  rw [hround, Round.consume_opponent hfits moves faucets p h₂]
  split
  · simp only [Option.bind_some, m.prizes_amount]
    change (v'.remove _ _).map (fun v' => (M.setRound m.roundId .settled v', _)) = _
    simp only [M, setRound_setRound]
    rfl
  · rfl

def playMatch (L : Ledger cap) (m : Match) (moves : Player → Move) (faucet : AccountId) :
    Option (Ledger cap) :=
  (L.vault.add faucet (2 * m.betValue.val)).bind fun v =>
    (v.remove faucet (m.totalPrize moves)).map fun v' => L.setRound m.roundId .settled v'

theorem exists_playMatch {faucet : AccountId}
    (h : L.vault.balance faucet + 2 * m.betValue.val ≤ cap.value) :
    ∃ v, L.playMatch m moves faucet = some (L.setRound m.roundId .settled v) ∧
      ∀ f, v.balance f + (if f = faucet then m.totalPrize moves else 0) =
        L.vault.balance f + if f = faucet then 2 * m.betValue.val else 0 := by
  obtain ⟨v, hadd⟩ := L.vault.add_isSome faucet _ h
  have hv := (AssetVault.add_eq_some.mp hadd).2
  have hle : m.totalPrize moves ≤ v.balance faucet := by
    have hprize : m.totalPrize moves ≤ 2 * m.betValue.val := totalPayout_le ..
    rw [hv, if_pos rfl]
    omega
  obtain ⟨v', hremove⟩ := v.remove_isSome faucet _ hle
  refine ⟨v', ?_, fun f => ((AssetVault.remove_eq_some.mp hremove).2 f).trans (hv f)⟩
  rw [playMatch, hadd, Option.bind_some, hremove, Option.map_some]

theorem playMatch_eq_none {faucet : AccountId}
    (h : cap.value < L.vault.balance faucet + 2 * m.betValue.val) :
    L.playMatch m moves faucet = none := by
  have hadd : L.vault.add faucet (2 * m.betValue.val) = none := dif_neg (by omega)
  rw [playMatch, hadd, Option.bind_none]

theorem run_match (hnotes : m.CarriedBy moves faucets L.id notes) (p : Player)
    (h₁ : b₁.val ≤ m.expiryBlock.val) (h₂ : b₂.val ≤ m.expiryBlock.val)
    (hfree : (L.rounds m.roundId).Free p) :
    Machine.run step L [⟨notes p, b₁⟩, ⟨notes p.other, b₂⟩] =
      if m.XorFits ∧ faucets p = faucets p.other then
        (L.playMatch m moves (faucets p.other)).map fun L' =>
          (L', [⟨notes p, b₁, .register, []⟩, ⟨notes p.other, b₂, .settle,
            (m.prizes moves (faucets p.other)).map Payment.note⟩])
      else none := by
  rw [Machine.run_pair]
  by_cases hfits : m.XorFits
  swap
  · rw [step_unfit (c := ⟨notes p, b₁⟩) (hnotes p) (Nat.not_lt.mpr h₁) hfits]
    exact (if_neg fun h => hfits h.1).symm
  rw [step_first hnotes hfits p h₁ hfree, Option.bind_map]
  simp only [Function.comp_def, step_second hnotes hfits p h₂]
  by_cases hf : faucets p = faucets p.other
  · simp only [hfits, hf, and_self, if_true, playMatch, two_mul, ← AssetVault.add_add,
      Option.bind_assoc, Option.map_bind, Option.map_map, Function.comp_def]
  · simp only [hf, and_false, if_false, Option.bind_fun_none, Option.map_none]

theorem run_match_busy (hnotes : m.CarriedBy moves faucets L.id notes) (p : Player)
    (h₁ : b₁.val ≤ m.expiryBlock.val) (h₂ : b₂.val ≤ m.expiryBlock.val) {bet : Bet}
    (hround : L.rounds m.roundId = .waiting p.other bet) :
    Machine.run step L [⟨notes p, b₁⟩, ⟨notes p.other, b₂⟩] = none := by
  rw [Machine.run_pair]
  by_cases hfits : m.XorFits
  swap
  · rw [step_unfit (c := ⟨notes p, b₁⟩) (hnotes p) (Nat.not_lt.mpr h₁) hfits, Option.bind_none]
  rw [step_waiting (c := ⟨notes p, b₁⟩) (hnotes p) (m.playable hfits h₁ ..) hround,
    Option.bind_assoc]
  refine (Option.bind_congr fun v _ => ?_).trans (Option.bind_fun_none ..)
  split
  · rw [Option.bind_map]
    refine (Option.bind_congr fun v' _ => ?_).trans (Option.bind_fun_none ..)
    have hsettled := step_settled (L := L.setRound m.roundId .settled v')
      (c := ⟨notes p.other, b₂⟩) (hnotes p.other) (Nat.not_lt.mpr h₂) (L.setRound_self ..)
    exact congrArg (Option.map _) hsettled
  · rfl

end Pair

end Ledger

section Outcome

variable {m : Match} {moves : Player → Move} {faucets : Player → AccountId}
  {notes : Player → Note} {L : Ledger cap}

theorem Match.CarriedBy.nodup {id : AccountId} (hnotes : m.CarriedBy moves faucets id notes)
    (p : Player) : [notes p, notes p.other].Nodup := by
  have hne : notes p ≠ notes p.other := by
    intro heq
    have hw := (hnotes p).symm.trans ((congrArg (BetNote.wager id) heq).trans (hnotes p.other))
    exact p.other_ne (congrArg Wager.player (Option.some.inj hw)).symm
  simpa using hne

theorem admits_match {id : AccountId} (hnotes : m.CarriedBy moves faucets id notes) (p : Player)
    (block : Felt) (faucet : AccountId) :
    Transaction.Admits cap ⟨block, [notes p, notes p.other]⟩
      ((m.prizes moves faucet).map Payment.note) where
  inputs_ne := List.cons_ne_nil _ _
  inputs_le := cap.inputNotes_ge
  inputs_nodup := hnotes.nodup p
  outputs_le := by
    rw [List.length_map, Match.prizes, List.length_map]
    exact (length_payouts_le ..).trans cap.outputNotes_ge
  outputs_nodup := OutputNote.nodup_id (prizes_identity_nodup m.roundId faucet m.account ..)

theorem execute_match (hnotes : m.CarriedBy moves faucets L.id notes) (p : Player) {block : Felt}
    (hblock : block.val ≤ m.expiryBlock.val) (hfree : (L.rounds m.roundId).Free p) :
    Transaction.execute L.house ⟨block, [notes p, notes p.other]⟩ =
      if m.XorFits ∧ faucets p = faucets p.other then
        (L.playMatch m moves (faucets p.other)).map fun L' =>
          (L'.house, (m.prizes moves (faucets p.other)).map Payment.note)
      else none := by
  have hrun := Ledger.run_match hnotes p hblock hblock hfree
  split
  · next hboth =>
    rw [if_pos hboth] at hrun
    cases hplay : L.playMatch m moves (faucets p.other) with
    | none => exact Ledger.execute_house_eq_none (hrun.trans (congrArg _ hplay))
    | some L' =>
      exact Ledger.execute_house.mpr ⟨L', _, hrun.trans (congrArg _ hplay), rfl, by simp,
        admits_match hnotes p block _⟩
  · next hboth => exact Ledger.execute_house_eq_none (hrun.trans (if_neg hboth))

theorem execute_match_busy (hnotes : m.CarriedBy moves faucets L.id notes) (p : Player)
    {block : Felt} (hblock : block.val ≤ m.expiryBlock.val) {bet : Bet}
    (hround : L.rounds m.roundId = .waiting p.other bet) :
    Transaction.execute L.house ⟨block, [notes p, notes p.other]⟩ = none :=
  Ledger.execute_house_eq_none (Ledger.run_match_busy hnotes p hblock hblock hround)

theorem execute_execute_match (hnotes : m.CarriedBy moves faucets L.id notes)
    (hfits : m.XorFits) (p : Player) {b₁ b₂ : Felt} (h₁ : b₁.val ≤ m.expiryBlock.val)
    (h₂ : b₂.val ≤ m.expiryBlock.val)
    (hfree : (L.rounds m.roundId).Free p) (hfaucet : faucets p = faucets p.other)
    {L' : Ledger cap} (hplay : L.playMatch m moves (faucets p.other) = some L') :
    ∃ t, Transaction.execute L.house ⟨b₁, [notes p]⟩ = some (t, []) ∧
      Transaction.execute t ⟨b₂, [notes p.other]⟩ =
        some (L'.house, (m.prizes moves (faucets p.other)).map Payment.note) := by
  have hrun := Ledger.run_match hnotes p h₁ h₂ hfree
  rw [if_pos ⟨hfits, hfaucet⟩, hplay, Option.map_some, Machine.run_cons] at hrun
  obtain ⟨M, rc, os, hfirst, hrest, hlog⟩ := hrun
  obtain ⟨rc', hsecond, rfl⟩ := (Machine.run_singleton ..).mp hrest
  simp only [List.cons.injEq, and_true] at hlog
  obtain ⟨rfl, rfl⟩ := hlog
  refine ⟨M.house, ?_, ?_⟩
  · rw [Transaction.execute_singleton, Ledger.consume_house, hfirst]
    rfl
  · rw [Transaction.execute_singleton, Ledger.consume_house, hsecond]
    rfl

end Outcome

/-- In either order, in one transaction or in two, the notes of both players
leave the same house, with the round settled, and pay the prizes of the rules. -/
def Match.Plays (m : Match) (moves : Player → Move) (faucet : AccountId) (notes : Player → Note)
    (s : House cap) : Prop :=
  ∃ s' : House cap,
    (∀ p block, block.val ≤ m.expiryBlock.val →
      Transaction.execute s ⟨block, [notes p, notes p.other]⟩ =
        some (s', (m.prizes moves faucet).map Payment.note)) ∧
    (∀ p b₁ b₂, b₁.val ≤ m.expiryBlock.val → b₂.val ≤ m.expiryBlock.val →
      ∃ t, Transaction.execute s ⟨b₁, [notes p]⟩ = some (t, []) ∧
        Transaction.execute t ⟨b₂, [notes p.other]⟩ =
          some (s', (m.prizes moves faucet).map Payment.note)) ∧
    (∀ q ∈ m.prizes moves faucet, (Felt.ofNat q.amount).val = q.amount) ∧
    s'.storage.isRoundSettled m.roundId = 1 ∧
    (∀ p : Player, s'.storage.slot m.roundId p.num = Slot.empty) ∧
    (∀ f, s'.vault.balance f + (if f = faucet then m.totalPrize moves else 0) =
      s.vault.balance f + if f = faucet then 2 * m.betValue.val else 0) ∧
    ∀ k, k.e0 ≠ m.roundId → s'.storage.bets.get k = s.storage.bets.get k

/-- Both notes of a match, in an open round without bets and in time, play the
game exactly when the players have a commitment. -/
theorem two_notes_play_match (s : House cap) (hs : Reachable s) (m : Match)
    (moves : Player → Move) (faucet : AccountId) (notes : Player → Note)
    (hnotes : m.CarriedBy moves (fun _ => faucet) s.id notes)
    (hopen : s.storage.isRoundSettled m.roundId = 0)
    (hfree : ∀ p : Player, s.storage.isPlayerRegistered m.roundId p.num = 0)
    (hcap : s.vault.balance faucet + 2 * m.betValue.val ≤ cap.value) :
    m.Plays moves faucet notes s ↔ m.XorFits := by
  obtain ⟨L, -, rfl⟩ := hs.exists_solvent
  have hidle := Ledger.idle_of_open hopen hfree
  constructor
  · -- the expiry block itself is in time
    rintro ⟨s', htogether, -⟩
    by_contra hfits
    have hsome := htogether .one m.expiryBlock le_rfl
    rw [execute_match hnotes .one le_rfl (.inl hidle), if_neg fun h => hfits h.1] at hsome
    cases hsome
  intro hfits
  obtain ⟨v, hplay, hbalance⟩ := @Ledger.exists_playMatch cap L m moves faucet hcap
  have hrounds : (L.setRound m.roundId .settled v).rounds m.roundId = .settled :=
    L.setRound_self ..
  refine ⟨(L.setRound m.roundId .settled v).house, fun p block hblock => ?_,
    fun p b₁ b₂ h₁ h₂ => ?_, fun q hq => ?_, ?_, fun p => ?_, hbalance, fun k hk => ?_⟩
  · rw [execute_match hnotes p hblock (.inl hidle), if_pos ⟨hfits, rfl⟩, hplay]
    rfl
  · exact execute_execute_match hnotes hfits p h₁ h₂ (.inl hidle) rfl hplay
  · -- no amount is reduced on its way into a field element
    have hbet : m.betValue.val < 2 ^ 63 := by
      have hlt := cap.value_lt
      change L.vault.balance faucet + _ ≤ _ at hcap
      omega
    obtain ⟨⟨p, amount⟩, hx, rfl⟩ := List.mem_map.mp hq
    exact Felt.ofNat_val_of_lt ((payouts_le _ hx).trans_lt (winnerPayout_lt hbet))
  · exact congrArg Round.flag hrounds
  · rw [Ledger.slot_house, hrounds]
    rfl
  · exact get_encode_congr (L.setRound_of_ne _ _ hk)

namespace Sample

theorem carriedBy : game.CarriedBy moves (fun _ => faucet) houseId note :=
  fun p => wager_toNote (wager p) houseId _

def secondFirst : Transaction := ⟨5, [note .two, note .one]⟩

theorem carriedBy_strangers :
    strangers.CarriedBy moves (fun _ => faucet) houseId strangersNote :=
  fun p => wager_toNote (strangers.wager p (moves p) faucet) houseId _

end Sample

theorem two_notes_play_match_sample : ∃ s : House Sample.kernelCap,
    Transaction.execute Sample.house Sample.secondFirst =
      some (s, (Sample.game.prizes Sample.moves Sample.faucet).map Payment.note) ∧
    s.storage.isRoundSettled 7 = 1 := by
  obtain ⟨s, htogether, -, -, hsettled, -⟩ := (two_notes_play_match Sample.house
    (Reachable.of_empty rfl) Sample.game Sample.moves Sample.faucet Sample.note Sample.carriedBy
    rfl (fun _ => rfl) (by decide)).mpr (by decide)
  exact ⟨s, htogether .two 5 (by decide), hsettled⟩

theorem strangers_cannot_play :
    Sample.strangers.CarriedBy Sample.moves (fun _ => Sample.faucet) Sample.house.id
      Sample.strangersNote ∧
    Reachable Sample.house ∧ Sample.house.storage.isRoundSettled 7 = 0 ∧
    (∀ p : Player, Sample.house.storage.isPlayerRegistered 7 p.num = 0) ∧
    Sample.house.vault.balance Sample.faucet + 2 * Sample.strangers.betValue.val ≤
      Sample.kernelCap.value ∧
    (∀ p : Player, Transaction.execute Sample.house ⟨5, [Sample.strangersNote p]⟩ = none) ∧
    ¬ Sample.strangers.Plays Sample.moves Sample.faucet Sample.strangersNote Sample.house := by
  have hnone (p : Player) : Transaction.execute Sample.house ⟨5, [Sample.strangersNote p]⟩ =
      none := by
    rw [← Option.isNone_iff_eq_none]
    cases p with
    | one => decide +kernel
    | two => decide +kernel
  refine ⟨Sample.carriedBy_strangers, Reachable.of_empty rfl, rfl, fun _ => rfl, by decide,
    hnone, ?_⟩
  rintro ⟨s', -, hapart, -⟩
  obtain ⟨t, hfirst, -⟩ := hapart .one 5 5 (by decide) (by decide)
  cases (hnone .one).symm.trans hfirst

/-! Order within a transaction. -/

theorem execute_match_eq_iff {L : Ledger cap} {m : Match} {moves : Player → Move}
    {faucets : Player → AccountId} {notes : Player → Note}
    (hnotes : m.CarriedBy moves faucets L.id notes) (p : Player) {block : Felt}
    (hblock : block.val ≤ m.expiryBlock.val) {bet : Bet}
    (hround : L.rounds m.roundId = .waiting p bet) :
    Transaction.execute L.house ⟨block, [notes p, notes p.other]⟩ =
        Transaction.execute L.house ⟨block, [notes p.other, notes p]⟩ ↔
      ¬ m.XorFits ∨ faucets p ≠ faucets p.other ∨
        cap.value < L.vault.balance (faucets p) + 2 * m.betValue.val := by
  have hbusy : Transaction.execute L.house ⟨block, [notes p.other, notes p]⟩ = none := by
    have hother : L.rounds m.roundId = .waiting p.other.other bet := by rwa [p.other_other]
    have hnone := execute_match_busy hnotes p.other hblock hother
    rwa [p.other_other] at hnone
  rw [hbusy, execute_match hnotes p hblock (.inr ⟨bet, hround⟩)]
  by_cases hfits : m.XorFits
  swap
  · exact iff_of_true (if_neg fun h => hfits h.1) (.inl hfits)
  by_cases hf : faucets p = faucets p.other
  · rw [if_pos ⟨hfits, hf⟩, Option.map_eq_none_iff]
    simp only [hfits, hf, ne_eq, not_true_eq_false, false_or]
    constructor
    · intro hnone
      by_contra hcap
      obtain ⟨v, hplay, -⟩ := @Ledger.exists_playMatch cap L m moves (faucets p.other)
        (by omega)
      rw [hnone] at hplay
      cases hplay
    · exact Ledger.playMatch_eq_none
  · simp [hf]

/-- In an open round, the order of the two notes of a match within a transaction
does not matter exactly when no bet is left from before, or the notes cannot
settle with each other in any order. -/
theorem order_immaterial_iff (s : House cap) (hs : Reachable s) (m : Match)
    (moves : Player → Move) (faucets : Player → AccountId) (notes : Player → Note)
    (hnotes : m.CarriedBy moves faucets s.id notes)
    (hopen : s.storage.isRoundSettled m.roundId = 0) (block : Felt)
    (hblock : block.val ≤ m.expiryBlock.val) :
    Transaction.execute s ⟨block, [notes .one, notes .two]⟩ =
        Transaction.execute s ⟨block, [notes .two, notes .one]⟩ ↔
      (∀ p : Player, s.storage.isPlayerRegistered m.roundId p.num = 0) ∨
        ¬ m.XorFits ∨ faucets .one ≠ faucets .two ∨
        cap.value < s.vault.balance (faucets .one) + 2 * m.betValue.val := by
  obtain ⟨L, -, rfl⟩ := hs.exists_solvent
  have hreg (p : Player) : L.house.storage.isPlayerRegistered m.roundId p.num =
    ((L.rounds m.roundId).slot p.num).registered := L.isPlayerRegistered_house ..
  cases hround : L.rounds m.roundId with
  | settled =>
    have hflag : (L.rounds m.roundId).flag = 0 := hopen
    rw [hround] at hflag
    cases hflag
  | idle =>
    have hone := execute_match hnotes .one hblock (.inl hround)
    have htwo := execute_match hnotes .two hblock (.inl hround)
    refine iff_of_true ?_ (.inl fun p => by rw [hreg, hround]; rfl)
    refine hone.trans (Eq.trans ?_ htwo.symm)
    simp only [Player.other]
    by_cases hf : faucets .one = faucets .two
    · simp only [hf]
    · simp only [hf, Ne.symm hf, and_false, if_false]
  | waiting q bet =>
    have hbusy : ¬ ∀ p : Player, L.house.storage.isPlayerRegistered m.roundId p.num = 0 := by
      intro h
      have hq := h q
      rw [hreg, hround, Round.slot_waiting_self] at hq
      cases hq
    have horder := execute_match_eq_iff hnotes q hblock hround
    simp only [hbusy, false_or]
    cases q with
    | one => exact horder
    | two =>
      rw [eq_comm]
      refine horder.trans (or_congr_right ?_)
      by_cases hf : faucets .one = faucets .two
      · simp only [Player.other, hf]
        rfl
      · exact iff_of_true (.inl (Ne.symm hf)) (.inl hf)

namespace Sample

def rivals : Player → Note
  | .one => rival
  | .two => note .two

def rivalMoves : Player → Move
  | .one => rivalMove
  | .two => moves .two

theorem carriedBy_rivals : game.CarriedBy rivalMoves (fun _ => faucet) houseId rivals := by
  intro p
  cases p with
  | one => exact wager_toNote ..
  | two => exact wager_toNote ..

end Sample

/-- A bet of the first player is left from an earlier transaction: two further
notes of a match go through in one order and abort in the other. -/
theorem order_matters :
    Sample.game.CarriedBy Sample.rivalMoves (fun _ => Sample.faucet) Sample.registered.1.id
      Sample.rivals ∧
    Reachable Sample.registered.1 ∧ Sample.registered.1.storage.isRoundSettled 7 = 0 ∧
    (Transaction.execute Sample.registered.1 ⟨6, [Sample.rivals .one, Sample.rivals .two]⟩).isSome ∧
    Transaction.execute Sample.registered.1 ⟨6, [Sample.rivals .two, Sample.rivals .one]⟩ =
      none := by
  refine ⟨Sample.carriedBy_rivals, Sample.reachable_registered, by decide +kernel,
    by decide +kernel, ?_⟩
  rw [← Option.isNone_iff_eq_none]
  decide +kernel

theorem order_immaterial_sample :
    Transaction.execute Sample.house ⟨5, [Sample.note .one, Sample.note .two]⟩ =
      Transaction.execute Sample.house ⟨5, [Sample.note .two, Sample.note .one]⟩ :=
  (order_immaterial_iff Sample.house (Reachable.of_empty rfl) Sample.game Sample.moves
    (fun _ => Sample.faucet) Sample.note Sample.carriedBy rfl 5 (by decide)).mpr
    (.inl fun _ => rfl)

/-! Settled or refunded. -/

namespace Match

def paid (m : Match) (log : List Receipt) : List OutputNote :=
  (log.filter (·.ofRound m.roundId)).flatMap Receipt.payouts

def refunds (m : Match) (moves : Player → Move) (faucets : Player → AccountId) :
    List OutputNote :=
  [Player.one, Player.two].map fun p => (m.wager p (moves p) (faucets p)).refund.note

def Resolved (m : Match) (moves : Player → Move) (faucets : Player → AccountId) (s : House cap)
    (log : List Receipt) : Prop :=
  s.storage.isRoundSettled m.roundId = 1 ∧
      m.paid log = (m.prizes moves (faucets .one)).map Payment.note ∨
    (m.paid log).Perm (m.refunds moves faucets)

instance (m : Match) (moves : Player → Move) (faucets : Player → AccountId) (s : House cap)
    (log : List Receipt) : Decidable (m.Resolved moves faucets s log) :=
  inferInstanceAs (Decidable (_ ∨ _))

end Match

namespace Round

variable {m : Match} {moves : Player → Move} {faucets : Player → AccountId} {id : AccountId}
  {notes : Player → Note} {b₁ b₂ : Felt}

theorem step_expired (hnotes : m.CarriedBy moves faucets id notes) (p : Player)
    (h : m.expiryBlock.val < b₁.val) (round : Round) :
    round.step id ⟨notes p, b₁⟩ = some (round, ⟨notes p, b₁, .refund,
      [(m.wager p (moves p) (faucets p)).refund.note]⟩) := by
  rw [step_of_wager (hnotes p), consume_expired round h]
  rfl

theorem step_idle (hnotes : m.CarriedBy moves faucets id notes) (hfits : m.XorFits) (p : Player)
    (h : b₁.val ≤ m.expiryBlock.val) :
    idle.step id ⟨notes p, b₁⟩ = some (.waiting p (m.wager p (moves p) (faucets p)).bet,
      ⟨notes p, b₁, .register, []⟩) := by
  rw [step_of_wager (hnotes p), consume_free (m.playable hfits h ..) (.inl rfl)]
  rfl

theorem step_opponent (hnotes : m.CarriedBy moves faucets id notes) (hfits : m.XorFits)
    (p : Player) (h : b₂.val ≤ m.expiryBlock.val) :
    (waiting p (m.wager p (moves p) (faucets p)).bet).step id ⟨notes p.other, b₂⟩ =
      if faucets p = faucets p.other then
        some (.settled, ⟨notes p.other, b₂, .settle,
          (m.prizes moves (faucets p.other)).map Payment.note⟩)
      else none := by
  rw [step_of_wager (hnotes p.other), consume_opponent hfits moves faucets p h]
  split <;> rfl

theorem match_outcome (hnotes : m.CarriedBy moves faucets id notes) (p : Player)
    (hle : b₁.val ≤ b₂.val) {round : Round} {log : List Receipt}
    (h : Machine.run (Round.step id) .idle [⟨notes p, b₁⟩, ⟨notes p.other, b₂⟩] =
      some (round, log)) :
    m.expiryBlock.val < b₁.val ∧ log.flatMap Receipt.payouts =
        [(m.wager p (moves p) (faucets p)).refund.note,
          (m.wager p.other (moves p.other) (faucets p.other)).refund.note] ∨
      (b₁.val ≤ m.expiryBlock.val ∧ m.expiryBlock.val < b₂.val) ∧
        round = .waiting p (m.wager p (moves p) (faucets p)).bet ∧
        log.flatMap Receipt.payouts =
          [(m.wager p.other (moves p.other) (faucets p.other)).refund.note] ∨
      b₂.val ≤ m.expiryBlock.val ∧ round = .settled ∧
        log.flatMap Receipt.payouts = (m.prizes moves (faucets .one)).map Payment.note := by
  rw [Machine.run_pair] at h
  by_cases h₁ : m.expiryBlock.val < b₁.val
  · have h₂ : m.expiryBlock.val < b₂.val := h₁.trans_le hle
    simp only [step_expired hnotes p h₁, step_expired hnotes p.other h₂, Option.bind_some,
      Option.map_some, Option.some.injEq, Prod.mk.injEq] at h
    obtain ⟨-, rfl⟩ := h
    exact .inl ⟨h₁, rfl⟩
  have hle₁ := Nat.not_lt.mp h₁
  by_cases hfits : m.XorFits
  swap
  · -- the first note aborts, so the run does not go through
    have hnone := consume_unfit idle (w := m.wager p (moves p) (faucets p)) h₁ hfits
    rw [step_of_wager (hnotes p), hnone] at h
    cases h
  by_cases h₂ : m.expiryBlock.val < b₂.val
  · simp only [step_idle hnotes hfits p hle₁, step_expired hnotes p.other h₂, Option.bind_some,
      Option.map_some, Option.some.injEq, Prod.mk.injEq] at h
    obtain ⟨rfl, rfl⟩ := h
    exact .inr (.inl ⟨⟨hle₁, h₂⟩, rfl, rfl⟩)
  · simp only [step_idle hnotes hfits p hle₁,
      step_opponent hnotes hfits p (Nat.not_lt.mp h₂), Option.bind_some] at h
    split at h
    · next hf =>
      have hfaucet : faucets p.other = faucets .one := by
        cases p with
        | one => exact hf.symm
        | two => rfl
      simp only [Option.map_some, Option.some.injEq, Prod.mk.injEq] at h
      obtain ⟨rfl, rfl⟩ := h
      exact .inr (.inr ⟨Nat.not_lt.mp h₂, rfl, by simp [hfaucet]⟩)
    · cases h

end Round

/-- Once both notes of a match are consumed, in a run that contains no other note
of the round, the match is resolved exactly when the expiry does not fall between
the two consumptions. -/
theorem resolved_iff (s : House cap) (hs : Reachable s) (m : Match)
    (moves : Player → Move) (faucets : Player → AccountId) (notes : Player → Note)
    (hnotes : m.CarriedBy moves faucets s.id notes)
    (hopen : s.storage.isRoundSettled m.roundId = 0)
    (hfree : ∀ p : Player, s.storage.isPlayerRegistered m.roundId p.num = 0)
    (cs : List Consumption) (s' : House cap) (log : List Receipt)
    (hrun : Machine.run House.consume s cs = some (s', log))
    (hblocks : cs.Pairwise fun c d => c.block.val ≤ d.block.val) (p : Player) (b₁ b₂ : Felt)
    (hround : cs.filter (·.ofRound m.roundId) = [⟨notes p, b₁⟩, ⟨notes p.other, b₂⟩]) :
    m.Resolved moves faucets s' log ↔
      ¬ (b₁.val ≤ m.expiryBlock.val ∧ m.expiryBlock.val < b₂.val) := by
  obtain ⟨L, -, rfl⟩ := hs.exists_solvent
  have hidle := Ledger.idle_of_open hopen hfree
  have hle : b₁.val ≤ b₂.val := by
    have hpair := hblocks.filter (·.ofRound m.roundId)
    rw [hround] at hpair
    simpa using hpair
  obtain ⟨L', hledger, rfl⟩ := Ledger.run_house_eq_some hrun
  have hroundrun := Ledger.run_round m.roundId hledger
  rw [hround, hidle] at hroundrun
  have houtcome := @Round.match_outcome m moves faucets L.id notes b₁ b₂ hnotes p hle _ _ hroundrun
  obtain ⟨h₁, hpaid⟩ | ⟨hbetween, hwaiting, hpaid⟩ | ⟨h₂, hsettled, hpaid⟩ := houtcome
  · -- both come after the expiry
    refine iff_of_true (.inr ?_) fun h => absurd h₁ (Nat.not_lt.mpr h.1)
    rw [Match.paid, hpaid]
    cases p with
    | one => exact .refl _
    | two => exact .swap ..
  · -- the first stake waits in an open round, and only the second is refunded
    refine iff_of_false ?_ (not_not.mpr hbetween)
    rintro (⟨hflag, -⟩ | hperm)
    · have hflag : (L'.rounds m.roundId).flag = 1 := hflag
      rw [hwaiting] at hflag
      cases hflag
    · rw [Match.paid, hpaid] at hperm
      cases hperm.length_eq
  · refine iff_of_true (.inl ⟨congrArg Round.flag hsettled, hpaid⟩) fun h => ?_
    exact absurd h.2 (Nat.not_lt.mpr h₂)

/-- The first note comes at the expiry block and the second after it: the second
player is refunded, and the first player's stake stays in the house. -/
theorem stake_stranded : ∃ s log,
    Machine.run House.consume Sample.house [⟨Sample.note .one, 50⟩, ⟨Sample.note .two, 51⟩] =
      some (s, log) ∧
    Sample.game.paid log = [(Sample.wager .two).refund.note] ∧
    s.vault.balance Sample.faucet = 100 ∧ s.storage.isPlayerRegistered 7 1 = 1 ∧
    ¬ Sample.game.Resolved Sample.moves (fun _ => Sample.faucet) s log := by
  have hrun : (Machine.run House.consume Sample.house
      [⟨Sample.note .one, 50⟩, ⟨Sample.note .two, 51⟩]).isSome := by
    decide +kernel
  exact ⟨_, _, (Option.some_get hrun).symm, by decide +kernel, by decide +kernel,
    by decide +kernel, by decide +kernel⟩

theorem resolved_sample : ∃ s log,
    Machine.run House.consume Sample.house
      [⟨Sample.note .two, 51⟩, ⟨Sample.elsewhere, 51⟩, ⟨Sample.note .one, 52⟩] = some (s, log) ∧
    Sample.game.Resolved Sample.moves (fun _ => Sample.faucet) s log := by
  have hrun : (Machine.run House.consume Sample.house
      [⟨Sample.note .two, 51⟩, ⟨Sample.elsewhere, 51⟩, ⟨Sample.note .one, 52⟩]).isSome := by
    decide +kernel
  refine ⟨_, _, (Option.some_get hrun).symm, ?_⟩
  exact (resolved_iff Sample.house (Reachable.of_empty rfl) Sample.game Sample.moves
    (fun _ => Sample.faucet) Sample.note Sample.carriedBy rfl (fun _ => rfl) _ _ _
    (Option.some_get hrun).symm (by simp) .two 51 52 (by rfl)).mpr (by decide)

end AllaMorra
