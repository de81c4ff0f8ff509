import AllaMorra.Acceptance
import AllaMorra.Conservation

/-! The house is its rounds side by side. As long as the vault has room, a list of notes
goes through exactly when the notes of each round make a run of that round; how the
rounds are interleaved changes neither the receipts of any of them nor the house they
leave behind. Notes that come too late may be left out: they are paid back, and nothing
else depends on them. -/

namespace AllaMorra

open HouseAccount BetNote

variable {cap : KernelCap}

theorem perm_of_filter_eq {α κ : Type*} [DecidableEq α] (key : κ → α → Bool) {xs ys : List α}
    (hkey : ∀ a, a ∈ xs ∨ a ∈ ys → ∃ k, key k a = true)
    (h : ∀ k, xs.filter (key k) = ys.filter (key k)) : xs.Perm ys := by
  refine List.perm_iff_count.mpr fun a => ?_
  by_cases ha : a ∈ xs ∨ a ∈ ys
  · obtain ⟨k, hk⟩ := hkey a ha
    rw [← List.count_filter hk, h k, List.count_filter hk]
  · obtain ⟨hxs, hys⟩ := not_or.mp ha
    rw [List.count_eq_zero_of_not_mem hxs, List.count_eq_zero_of_not_mem hys]

def Consumption.stake (c : Consumption) (faucet : AccountId) : Nat :=
  holding faucet c.note.assets

namespace Ledger

theorem house_step {L L' : Ledger cap} {c : Consumption} {rc : Receipt}
    (h : L.step c = some (L', rc)) : House.consume L.house c = some (L'.house, rc) := by
  rw [consume_house, h]
  rfl

theorem house_run {L L' : Ledger cap} {cs : List Consumption} {log : List Receipt}
    (h : Machine.run step L cs = some (L', log)) :
    Machine.run House.consume L.house cs = some (L'.house, log) := by
  rw [run_house, h]
  rfl

theorem step_balance_le {L L' : Ledger cap} {c : Consumption} {rc : Receipt}
    (h : L.step c = some (L', rc)) (f : AccountId) :
    L'.vault.balance f ≤ L.vault.balance f + c.stake f := by
  have hbalance := House.consume_balance (house_step h) f
  obtain ⟨w, path, ps, -, -, rfl⟩ := step_eq_some.mp h
  exact (Nat.le_add_right ..).trans hbalance.le

theorem Solvent.step_isSome {L : Ledger cap} (h : L.Solvent) {c : Consumption} {w : Wager}
    (hw : wager L.id c.note = some w) {round : Round} {rc : Receipt}
    (hround : (L.rounds w.roundId).step L.id c = some (round, rc))
    (hroom : L.vault.balance w.faucet + w.betValue.val ≤ cap.value) :
    ∃ L' rc', L.step c = some (L', rc') := by
  obtain ⟨w', path, ps, hw', hconsume, -⟩ := Round.step_eq_some.mp hround
  obtain rfl := Option.some.inj (hw.symm.trans hw')
  have hsome := (consume_isSome_iff h c.block w).mpr ⟨hroom, by rw [hconsume]; rfl⟩
  obtain ⟨⟨L', path', ps'⟩, hL'⟩ := Option.isSome_iff_exists.mp hsome
  exact ⟨L', _, step_eq_some.mpr ⟨w, path', ps', hw, hL', rfl⟩⟩

/-- Room for every stake: nothing that a run takes in is refused for the cap. -/
def Room (L : Ledger cap) (cs : List Consumption) : Prop :=
  ∀ f, L.vault.balance f + (cs.map (·.stake f)).sum ≤ cap.value

theorem Room.step {L L' : Ledger cap} {c : Consumption} {cs : List Consumption} {rc : Receipt}
    (h : L.Room (c :: cs)) (hstep : L.step c = some (L', rc)) : L'.Room cs := by
  intro f
  have hroom := h f
  have hle := step_balance_le hstep f
  rw [List.map_cons, List.sum_cons] at hroom
  omega

def RoundsRun (L : Ledger cap) (cs : List Consumption) : Prop :=
  ∀ r, (Machine.run (Round.step L.id) (L.rounds r) (cs.filter (·.ofRound r))).isSome

theorem RoundsRun.head {L : Ledger cap} {c : Consumption} {cs : List Consumption}
    (h : L.RoundsRun (c :: cs)) {r : Felt} (hc : c.ofRound r = true) :
    ∃ round rc, (L.rounds r).step L.id c = some (round, rc) := by
  have hrun := h r
  rw [List.filter_cons_of_pos hc] at hrun
  obtain ⟨⟨round, log⟩, hrun⟩ := Option.isSome_iff_exists.mp hrun
  obtain ⟨m, rc, -, hstep, -⟩ := (Machine.run_cons ..).mp hrun
  exact ⟨m, rc, hstep⟩

theorem RoundsRun.step {L L' : Ledger cap} {c : Consumption} {cs : List Consumption}
    {rc : Receipt} (h : L.RoundsRun (c :: cs)) (hstep : L.step c = some (L', rc)) :
    L'.RoundsRun cs := by
  intro r
  have hrun := h r
  have hround := (step_round r hstep).2
  rw [(step_iff.mp hstep).id_eq]
  split at hround
  · next hc =>
    rw [List.filter_cons_of_pos hc] at hrun
    obtain ⟨⟨round, log⟩, hrun⟩ := Option.isSome_iff_exists.mp hrun
    obtain ⟨m, rc', log', hfirst, hrest, -⟩ := (Machine.run_cons ..).mp hrun
    rw [hround, Option.some.injEq, Prod.mk.injEq] at hfirst
    obtain ⟨rfl, -⟩ := hfirst
    exact Option.isSome_of_eq_some hrest
  · next hc =>
    rw [List.filter_cons_of_neg hc] at hrun
    rwa [hround]

theorem exists_run_of_rounds {L : Ledger cap} (hsolvent : L.Solvent) {cs : List Consumption}
    (hwager : ∀ c ∈ cs, (wager L.id c.note).isSome) (hrounds : L.RoundsRun cs)
    (hroom : L.Room cs) : ∃ L' log, Machine.run step L cs = some (L', log) := by
  induction cs generalizing L with
  | nil => exact ⟨L, [], rfl⟩
  | cons c cs ih =>
    obtain ⟨w, hw⟩ := Option.isSome_iff_exists.mp (hwager c List.mem_cons_self)
    have hc : c.ofRound w.roundId = true := by
      rw [Consumption.ofRound_eq hw, decide_eq_true_iff]
    obtain ⟨round, rc, hround⟩ := hrounds.head hc
    have hfits : L.vault.balance w.faucet + w.betValue.val ≤ cap.value := by
      have hstake : c.stake w.faucet = w.betValue.val :=
        (holding_of_wager hw w.faucet).trans (if_pos rfl)
      have hall := hroom w.faucet
      rw [List.map_cons, List.sum_cons, hstake] at hall
      omega
    obtain ⟨M, rc', hstep⟩ := hsolvent.step_isSome hw hround hfits
    have hid := (step_iff.mp hstep).id_eq
    obtain ⟨L', log, hrun⟩ := ih (hsolvent.step hstep)
      (fun d hd => hid ▸ hwager d (List.mem_cons_of_mem _ hd)) (hrounds.step hstep)
      (hroom.step hstep)
    exact ⟨L', rc' :: log, (Machine.run_cons ..).mpr ⟨M, rc', log, hstep, hrun, rfl⟩⟩

theorem roundsRun_of_run {L L' : Ledger cap} {cs : List Consumption} {log : List Receipt}
    (h : Machine.run step L cs = some (L', log)) : L.RoundsRun cs := by
  intro r
  rw [run_round r h]
  rfl

theorem wager_of_run {L L' : Ledger cap} {cs : List Consumption} {log : List Receipt}
    (h : Machine.run step L cs = some (L', log)) : ∀ c ∈ cs, (wager L.id c.note).isSome := by
  intro c hc
  obtain ⟨cs₁, cs₂, rfl⟩ := List.append_of_mem hc
  obtain ⟨M, log₁, log₂, h₁, h₂, -⟩ := (Machine.run_append ..).mp h
  obtain ⟨M', rc, log₃, hstep, -, -⟩ := (Machine.run_cons ..).mp h₂
  obtain ⟨w, path, ps, hw, -, -⟩ := step_eq_some.mp hstep
  have hid : M.id = L.id := House.run_id (house_run h₁)
  rw [← hid, hw]
  rfl

theorem exists_ofRound_of_run {L L' : Ledger cap} {cs : List Consumption} {log : List Receipt}
    (h : Machine.run step L cs = some (L', log)) : ∀ rc ∈ log, ∃ r, rc.ofRound r = true := by
  intro rc hrc
  obtain ⟨log₁, log₂, rfl⟩ := List.append_of_mem hrc
  obtain ⟨cs₁, c, cs₂, M, M', -, -, hstep, -⟩ := Machine.run_split h
  obtain ⟨w, path, ps, hw, -, rfl⟩ := step_eq_some.mp hstep
  exact ⟨w.roundId, by simp [Receipt.ofRound, roundId_of_wager hw]⟩

theorem run_unique_of_rounds {L L₁ L₂ : Ledger cap} {cs₁ cs₂ : List Consumption}
    {log₁ log₂ : List Receipt} (h₁ : Machine.run step L cs₁ = some (L₁, log₁))
    (h₂ : Machine.run step L cs₂ = some (L₂, log₂))
    (hrounds : ∀ r, cs₁.filter (·.ofRound r) = cs₂.filter (·.ofRound r)) :
    L₂ = L₁ ∧ log₂.Perm log₁ ∧
      ∀ r, log₂.filter (·.ofRound r) = log₁.filter (·.ofRound r) := by
  have hround (r : Felt) : L₂.rounds r = L₁.rounds r ∧
      log₂.filter (·.ofRound r) = log₁.filter (·.ofRound r) := by
    have hr := run_round r h₂
    rw [← hrounds r, run_round r h₁] at hr
    obtain ⟨hround, hlog⟩ := Prod.mk.inj (Option.some.inj hr)
    exact ⟨hround.symm, hlog.symm⟩
  have hperm : log₂.Perm log₁ := by
    refine perm_of_filter_eq (fun r rc => rc.ofRound r) (fun rc hrc => ?_) fun r => (hround r).2
    obtain hrc | hrc := hrc
    · exact exists_ofRound_of_run h₂ rc hrc
    · exact exists_ofRound_of_run h₁ rc hrc
  refine ⟨?_, hperm, fun r => (hround r).2⟩
  have hid : L₂.id = L₁.id :=
    (House.run_id (house_run h₂)).trans (House.run_id (house_run h₁)).symm
  -- the vault is what came in less what was paid, in whatever order
  have hvault : L₂.vault = L₁.vault := by
    refine AssetVault.ext fun f => ?_
    have hflow₁ := House.run_balance (house_run h₁) f
    have hflow₂ := House.run_balance (house_run h₂) f
    rw [(hperm.map _).sum_eq, (hperm.map _).sum_eq] at hflow₂
    have h₁ : L₁.house.vault = L₁.vault := rfl
    have h₂ : L₂.house.vault = L₂.vault := rfl
    rw [h₁] at hflow₁
    rw [h₂] at hflow₂
    omega
  obtain ⟨id₁, rounds₁, vault₁⟩ := L₁
  obtain ⟨id₂, rounds₂, vault₂⟩ := L₂
  obtain rfl : id₂ = id₁ := hid
  obtain rfl : vault₂ = vault₁ := hvault
  obtain rfl : rounds₂ = rounds₁ := funext fun r => (hround r).1
  rfl

end Ledger

/-- On a reachable house, a list of notes and any rearrangement of it that keeps the
order within each round: where both go through, they leave the same house and, round by
round, the same receipts; and where one does and the vault has room for all stakes, the
other does. -/
theorem interleaving_immaterial (s : House cap) (hs : Reachable s) (cs cs' : List Consumption)
    (hperm : cs.Perm cs') (hrounds : ∀ r, cs.filter (·.ofRound r) = cs'.filter (·.ofRound r))
    (s₁ : House cap) (log : List Receipt)
    (hrun : Machine.run House.consume s cs = some (s₁, log)) :
    (∀ s₂ log', Machine.run House.consume s cs' = some (s₂, log') →
      s₂ = s₁ ∧ log'.Perm log ∧ ∀ r, log'.filter (·.ofRound r) = log.filter (·.ofRound r)) ∧
    ((∀ f, s.vault.balance f + (cs.map (·.stake f)).sum ≤ cap.value) →
      ∃ log', Machine.run House.consume s cs' = some (s₁, log')) := by
  obtain ⟨L, hsolvent, rfl⟩ := hs.exists_solvent
  obtain ⟨L₁, h₁, rfl⟩ := Ledger.run_house_eq_some hrun
  have hsame {L₂ : Ledger cap} {log' : List Receipt}
      (h₂ : Machine.run Ledger.step L cs' = some (L₂, log')) :=
    Ledger.run_unique_of_rounds h₁ h₂ hrounds
  refine ⟨fun s₂ log' hrun' => ?_, fun hroom => ?_⟩
  · obtain ⟨L₂, h₂, rfl⟩ := Ledger.run_house_eq_some hrun'
    obtain ⟨rfl, hlog⟩ := hsame h₂
    exact ⟨rfl, hlog⟩
  · have hrounds' : L.RoundsRun cs' := fun r => hrounds r ▸ Ledger.roundsRun_of_run h₁ r
    have hroom' : L.Room cs' := fun f => by
      rw [← (hperm.map _).sum_eq]
      exact hroom f
    obtain ⟨L₂, log', h₂⟩ := Ledger.exists_run_of_rounds hsolvent
      (fun c hc => Ledger.wager_of_run h₁ c (hperm.mem_iff.mpr hc)) hrounds' hroom'
    obtain ⟨rfl, -⟩ := hsame h₂
    exact ⟨log', Ledger.house_run h₂⟩

/-! Rounds on their own, and together. -/

theorem Consumption.ofRound_inj {r r' : Felt} {c : Consumption} (h : c.ofRound r = true)
    (h' : c.ofRound r' = true) : r = r' := by
  simp only [Consumption.ofRound, decide_eq_true_eq] at h h'
  exact Option.some.inj (h.symm.trans h')

theorem filter_ofRound_filter (cs : List Consumption) (r r' : Felt) :
    (cs.filter (·.ofRound r)).filter (·.ofRound r') =
      if r' = r then cs.filter (·.ofRound r) else [] := by
  rw [List.filter_filter]
  split
  · next h =>
    subst h
    simp only [Bool.and_self]
  · next h =>
    refine List.filter_eq_nil_iff.mpr fun c _ hboth => h ?_
    rw [Bool.and_eq_true] at hboth
    exact Consumption.ofRound_inj hboth.1 hboth.2

namespace Ledger

theorem RoundsRun.filter {L : Ledger cap} {cs : List Consumption} (h : L.RoundsRun cs) (r : Felt) :
    L.RoundsRun (cs.filter (·.ofRound r)) := by
  intro r'
  rw [filter_ofRound_filter]
  split
  · next hr => exact hr ▸ h r'
  · rfl

theorem Room.filter {L : Ledger cap} {cs : List Consumption} (h : L.Room cs) (r : Felt) :
    L.Room (cs.filter (·.ofRound r)) := by
  intro f
  have hsub := (List.filter_sublist (p := fun c : Consumption => c.ofRound r) (l := cs)).map
    fun c : Consumption => c.stake f
  have hle := hsub.sum_le_sum fun _ _ => Nat.zero_le _
  have hroom := h f
  omega

end Ledger

/-- On a reachable house with room for all stakes, notes that each name a round go
through one after the other, in any interleaving of their rounds, exactly when the notes
of every round go through on their own. -/
theorem rounds_compose (s : House cap) (hs : Reachable s) (cs : List Consumption)
    (hnamed : ∀ c ∈ cs, ∃ r, c.ofRound r = true)
    (hroom : ∀ f, s.vault.balance f + (cs.map (·.stake f)).sum ≤ cap.value) :
    (Machine.run House.consume s cs).isSome ↔
      ∀ r, (Machine.run House.consume s (cs.filter (·.ofRound r))).isSome := by
  obtain ⟨L, hsolvent, rfl⟩ := hs.exists_solvent
  have hiff (ds : List Consumption) :
      (Machine.run House.consume L.house ds).isSome ↔
        ∃ L' log, Machine.run Ledger.step L ds = some (L', log) := by
    rw [Ledger.run_house, Option.isSome_map, Option.isSome_iff_exists, Prod.exists]
  simp only [hiff]
  constructor
  · rintro ⟨L', log, hrun⟩ r
    refine Ledger.exists_run_of_rounds hsolvent (fun c hc => ?_)
      ((Ledger.roundsRun_of_run hrun).filter r) (Ledger.Room.filter hroom r)
    exact Ledger.wager_of_run hrun c (List.mem_of_mem_filter hc)
  · intro halone
    refine Ledger.exists_run_of_rounds hsolvent (fun c hc => ?_) (fun r => ?_) hroom
    · obtain ⟨r, hr⟩ := hnamed c hc
      obtain ⟨L', log, hrun⟩ := halone r
      exact Ledger.wager_of_run hrun c (List.mem_filter.mpr ⟨hc, hr⟩)
    · obtain ⟨L', log, hrun⟩ := halone r
      have hround := Ledger.roundsRun_of_run hrun r
      rwa [filter_ofRound_filter, if_pos rfl] at hround

/-! Late notes. -/

def Consumption.late (id : AccountId) (c : Consumption) : Bool :=
  (wager id c.note).any fun w => w.expiryBlock.val < c.block.val

namespace House

variable {s s' : House cap} {c : Consumption} {rc : Receipt}

theorem late_iff (h : consume s c = some (s', rc)) : c.late s.id = true ↔ rc.path = .refund := by
  obtain ⟨w, ps, hw, -, rfl⟩ := consume_eq_some.mp h
  rw [Consumption.late, hw, path_eq_refund_iff]
  exact decide_eq_true_iff

theorem eq_of_late (hlate : c.late s.id = true) (h : consume s c = some (s', rc)) : s' = s := by
  obtain ⟨w, hw, htime⟩ := (Option.any_eq_true ..).mp hlate
  exact ((consume_late hw (of_decide_eq_true htime)).mp h).2.1

theorem consume_isSome_of_late (hlate : c.late s.id = true) :
    (consume s c).isSome ↔ ∀ f, s.vault.balance f + c.stake f ≤ cap.value := by
  obtain ⟨w, hw, htime⟩ := (Option.any_eq_true ..).mp hlate
  have hstake (f : AccountId) : c.stake f = if f = w.faucet then w.betValue.val else 0 :=
    holding_of_wager hw f
  simp only [Option.isSome_iff_exists, Prod.exists, consume_late hw (of_decide_eq_true htime)]
  constructor
  · rintro ⟨-, -, hroom, -⟩ f
    rw [hstake]
    split
    · next hf => exact hf ▸ hroom
    · exact s.vault.balance_le f
  · intro hroom
    have hfits := hroom w.faucet
    rw [hstake, if_pos rfl] at hfits
    exact ⟨s, _, hfits, rfl, rfl⟩

end House

/-- From any state, reachable or not: leaving the late notes out of a run changes
neither the house it leaves nor the receipts of the other notes; and a run goes through
exactly when the notes in time do on their own and every late one finds room for its
stake where those before it lead. -/
theorem late_notes_immaterial (s : House cap) (cs : List Consumption) :
    (∀ s' log, Machine.run House.consume s cs = some (s', log) →
      Machine.run House.consume s (cs.filter fun c => !c.late s.id) =
        some (s', log.filter fun rc => rc.path ≠ .refund)) ∧
    ((Machine.run House.consume s cs).isSome ↔
      (Machine.run House.consume s (cs.filter fun c => !c.late s.id)).isSome ∧
      ∀ cs₁ c cs₂ t log, cs = cs₁ ++ c :: cs₂ → c.late s.id = true →
        Machine.run House.consume s (cs₁.filter fun c => !c.late s.id) = some (t, log) →
        ∀ f, t.vault.balance f + c.stake f ≤ cap.value) := by
  constructor
  · intro s' log hrun
    obtain ⟨t, hfiltered, rfl, -⟩ := Machine.run_filter House.consume
      (fun t u : House cap => t = u ∧ t.id = s.id) (fun c => !c.late s.id)
      (fun rc => rc.path ≠ .refund)
      (fun t u c t' rc hR hc h => by
        obtain ⟨rfl, hid⟩ := hR
        have hlate := House.late_iff h
        rw [hid] at hlate
        refine ⟨?_, t', h, rfl, (House.consume_id h).trans hid⟩
        rw [decide_eq_true_iff, ne_eq, ← hlate]
        simpa using hc)
      (fun t u c t' rc hR hc h => by
        obtain ⟨rfl, hid⟩ := hR
        have hlate : c.late t.id = true := by
          rw [hid]
          simpa using hc
        obtain rfl := House.eq_of_late hlate h
        refine ⟨?_, rfl, hid⟩
        simpa using (House.late_iff h).mp hlate)
      s s cs s' log ⟨rfl, rfl⟩ hrun
    exact hfiltered
  · have hiff := @Machine.run_skip_isSome (House cap) Consumption Receipt House.consume
      (fun t => t.id = s.id) (fun c => !c.late s.id)
      (fun t c => ∀ f, t.vault.balance f + c.stake f ≤ cap.value)
      (fun t c t' rc hid h => (House.consume_id h).trans hid)
      (fun t c t' rc hid hc h => House.eq_of_late (by rw [hid]; simpa using hc) h)
      (fun t c hid hc => House.consume_isSome_of_late (by rw [hid]; simpa using hc)) s cs rfl
    rw [hiff]
    simp only [Bool.not_eq_false']

namespace Sample

def before : List Consumption := [⟨elsewhere, 6⟩, ⟨note .one, 5⟩, ⟨note .two, 7⟩]

def between : List Consumption := [⟨note .one, 5⟩, ⟨elsewhere, 6⟩, ⟨note .two, 7⟩]

theorem rounds_before_between (r : Felt) :
    before.filter (·.ofRound r) = between.filter (·.ofRound r) := by
  by_cases hr : r = 8
  · subst hr
    decide
  · have helsewhere : Consumption.ofRound r ⟨elsewhere, 6⟩ = false :=
      decide_eq_false fun h => hr (Option.some.inj h).symm
    simp only [before, between, List.filter_cons, helsewhere, Bool.false_eq_true, if_false]

theorem room_before (f : AccountId) :
    house.vault.balance f + (before.map (·.stake f)).sum ≤ kernelCap.value := by
  have hstake (w : Wager) (hbet : w.betValue.val ≤ 100) (serialNum : Word) (block : Felt) :
      Consumption.stake ⟨w.toNote houseId serialNum, block⟩ f ≤ 100 := by
    rw [Consumption.stake, holding_of_wager (wager_toNote w houseId serialNum)]
    split
    · exact hbet
    · exact Nat.zero_le _
  have h₁ : Consumption.stake ⟨elsewhere, 6⟩ f ≤ 100 := hstake _ le_rfl _ _
  have h₂ := hstake (wager .one) (by decide) ⟨0, 0, 0, Player.one.num⟩ 5
  have h₃ := hstake (wager .two) (by decide) ⟨0, 0, 0, Player.two.num⟩ 7
  calc 0 + (before.map (·.stake f)).sum ≤ 0 + (100 + (100 + (100 + 0))) :=
        Nat.add_le_add_left (Nat.add_le_add h₁ (Nat.add_le_add h₂ (Nat.add_le_add h₃ le_rfl))) 0
    _ ≤ kernelCap.value := by decide

end Sample

theorem interleaving_immaterial_sample : ∃ (s : House Sample.kernelCap) (log log' : List Receipt),
    Machine.run House.consume Sample.house Sample.before = some (s, log) ∧
    Machine.run House.consume Sample.house Sample.between = some (s, log') := by
  have hrun : (Machine.run House.consume Sample.house Sample.before).isSome := by
    decide +kernel
  obtain ⟨⟨s, log⟩, hrun⟩ := Option.isSome_iff_exists.mp hrun
  obtain ⟨log', hrun'⟩ := (interleaving_immaterial Sample.house (Reachable.of_empty rfl)
    Sample.before Sample.between (List.Perm.swap ..) Sample.rounds_before_between s log hrun).2
    Sample.room_before
  exact ⟨s, log, log', hrun, hrun'⟩

theorem rounds_compose_sample :
    (Machine.run House.consume Sample.house (Sample.before.filter (·.ofRound 7))).isSome ∧
      (Machine.run House.consume Sample.house (Sample.before.filter (·.ofRound 8))).isSome := by
  have hround : ∀ c ∈ Sample.before, c.ofRound 7 = true ∨ c.ofRound 8 = true := by decide
  have hnamed (c : Consumption) (hc : c ∈ Sample.before) : ∃ r, c.ofRound r = true :=
    (hround c hc).elim (fun h => ⟨7, h⟩) fun h => ⟨8, h⟩
  have hall := (rounds_compose Sample.house (Reachable.of_empty rfl) Sample.before hnamed
    Sample.room_before).mp (by decide +kernel)
  exact ⟨hall 7, hall 8⟩

end AllaMorra
