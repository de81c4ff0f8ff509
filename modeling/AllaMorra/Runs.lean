import AllaMorra.Machine
import AllaMorra.Script

/-! Runs of the house account. A run is a list of consumed bet-notes with their
block numbers, each of which must complete; its log keeps one receipt per
note. A transaction consumes several notes at one block and is discarded whole
when one of them aborts, so the states that transactions reach are states of
runs, and a transaction that goes through is the run of its notes. -/

namespace AllaMorra

variable {cap : KernelCap}

abbrev House (cap : KernelCap) := Account cap HouseAccount

structure Consumption where
  note : Note
  block : Felt
  deriving DecidableEq

/-- A completed consumption: the branch it took and the notes it paid out. -/
structure Receipt where
  note : Note
  block : Felt
  path : Path
  payouts : List OutputNote
  deriving DecidableEq

namespace House

open BetNote

/-- The branch the script takes on a note; a note that is no wager aborts first. -/
def branch (s : House cap) (c : Consumption) : Path :=
  match wager s.id c.note with
  | some w => path c.block s.storage w
  | none => .refund

def consume (s : House cap) (c : Consumption) : Option (House cap × Receipt) :=
  ((BetNote.run c.note).run ⟨c.block, s, []⟩).map fun (_, t) =>
    (t.account, ⟨c.note, c.block, branch s c, t.outputNotes⟩)

theorem consume_eq (s : House cap) (c : Consumption) :
    consume s c = (wager s.id c.note).bind fun w => (effect c.block s w).map fun r =>
      (r.1, ⟨c.note, c.block, path c.block s.storage w, r.2.map Payment.note⟩) := by
  rw [consume, run_eq]
  cases hw : wager s.id c.note with
  | none => rfl
  | some w =>
    simp only [Option.bind_some, Option.map_map, branch, hw]
    rfl

theorem consume_eq_some {s s' : House cap} {c : Consumption} {rc : Receipt} :
    consume s c = some (s', rc) ↔ ∃ w ps, wager s.id c.note = some w ∧
      effect c.block s w = some (s', ps) ∧
        rc = ⟨c.note, c.block, path c.block s.storage w, ps.map Payment.note⟩ := by
  rw [consume_eq, Option.bind_eq_some_iff]
  constructor
  · rintro ⟨w, hw, h⟩
    obtain ⟨⟨s₁, ps⟩, heffect, heq⟩ := Option.map_eq_some_iff.mp h
    obtain ⟨rfl, rfl⟩ := Prod.mk.inj heq
    exact ⟨w, ps, hw, heffect, rfl⟩
  · rintro ⟨w, ps, hw, heffect, rfl⟩
    exact ⟨w, hw, Option.map_eq_some_iff.mpr ⟨(s', ps), heffect, rfl⟩⟩

theorem consume_late {s s' : House cap} {c : Consumption} {rc : Receipt} {w : Wager}
    (hw : wager s.id c.note = some w) (hlate : w.expiryBlock.val < c.block.val) :
    consume s c = some (s', rc) ↔ s.vault.balance w.faucet + w.betValue.val ≤ cap.value ∧
      s' = s ∧ rc = ⟨c.note, c.block, .refund, [w.refund.note]⟩ := by
  have hpath : path c.block s.storage w = .refund := path_eq_refund_iff.mpr hlate
  constructor
  · intro h
    obtain ⟨w', ps, hw', heffect, rfl⟩ := consume_eq_some.mp h
    obtain rfl : w = w' := Option.some.inj (hw.symm.trans hw')
    obtain ⟨v, hadd, ⟨-, rfl, rfl⟩ | ⟨hregister, -⟩ | ⟨hsettle, -⟩⟩ := effect_eq_some.mp heffect
    · exact ⟨(AssetVault.add_eq_some.mp hadd).1, rfl, hpath ▸ rfl⟩
    · cases hpath.symm.trans hregister
    · cases hpath.symm.trans hsettle
  · rintro ⟨hroom, rfl, rfl⟩
    obtain ⟨v, hadd⟩ := s'.vault.add_isSome w.faucet _ hroom
    exact consume_eq_some.mpr ⟨w, [w.refund], hw,
      effect_eq_some.mpr ⟨v, hadd, .inl ⟨hpath, rfl, rfl⟩⟩, hpath ▸ rfl⟩

theorem effect_id {s s' : House cap} {block : Felt} {w : Wager} {ps : List Payment}
    (h : effect block s w = some (s', ps)) : s'.id = s.id := by
  obtain ⟨v, -, ⟨-, rfl, -⟩ | ⟨-, -, rfl, -⟩ | ⟨-, -, -, v', -, rfl, -⟩⟩ := effect_eq_some.mp h
  · rfl
  · rfl
  · rfl

theorem consume_id {s s' : House cap} {c : Consumption} {rc : Receipt}
    (h : consume s c = some (s', rc)) : s'.id = s.id := by
  obtain ⟨w, ps, -, heffect, -⟩ := consume_eq_some.mp h
  exact effect_id heffect

theorem payouts_of_consume {s s' : House cap} {c : Consumption} {rc : Receipt}
    (h : consume s c = some (s', rc)) :
    rc.payouts.length ≤ 2 ∧ (rc.payouts.map OutputNote.id).Nodup := by
  obtain ⟨w, ps, -, heffect, rfl⟩ := consume_eq_some.mp h
  obtain ⟨v, -, ⟨-, -, rfl⟩ | ⟨-, -, -, rfl⟩ | ⟨-, -, -, v', -, -, rfl⟩⟩ :=
    effect_eq_some.mp heffect
  · simp
  · simp
  · refine ⟨?_, OutputNote.nodup_id (prizes_identity_nodup w.roundId w.faucet w.account ..)⟩
    rw [List.length_map, Wager.prizes, List.length_map]
    exact length_payouts_le ..

theorem run_id {s s' : House cap} {cs : List Consumption} {log : List Receipt}
    (h : Machine.run consume s cs = some (s', log)) : s'.id = s.id :=
  Machine.run_invariant (fun t : House cap => t.id = s.id)
    (fun _ _ _ _ ht hc => (consume_id hc).trans ht) s cs s' log rfl h

end House

structure Transaction where
  block : Felt
  notes : List Note

namespace Transaction

def consumptions (tx : Transaction) : List Consumption := tx.notes.map fun n => ⟨n, tx.block⟩

def runNotes : List Note → Kernel cap HouseAccount Unit
  | [] => pure ()
  | n :: notes => do
    BetNote.run n
    runNotes notes

/-- What the kernel asks of a transaction as a whole. -/
structure Admits (cap : KernelCap) (tx : Transaction) (outs : List OutputNote) : Prop where
  inputs_ne : tx.notes ≠ []
  inputs_le : tx.notes.length ≤ cap.inputNotes
  inputs_nodup : tx.notes.Nodup
  outputs_le : outs.length ≤ cap.outputNotes
  outputs_nodup : (outs.map OutputNote.id).Nodup

instance (cap : KernelCap) (tx : Transaction) (outs : List OutputNote) :
    Decidable (Admits cap tx outs) :=
  decidable_of_iff
    (tx.notes ≠ [] ∧ tx.notes.length ≤ cap.inputNotes ∧ tx.notes.Nodup ∧
      outs.length ≤ cap.outputNotes ∧ (outs.map OutputNote.id).Nodup)
    ⟨fun ⟨h₀, h₁, h₂, h₃, h₄⟩ => ⟨h₀, h₁, h₂, h₃, h₄⟩,
      fun ⟨h₀, h₁, h₂, h₃, h₄⟩ => ⟨h₀, h₁, h₂, h₃, h₄⟩⟩

def execute (s : House cap) (tx : Transaction) : Option (House cap × List OutputNote) :=
  ((runNotes tx.notes).run ⟨tx.block, s, []⟩).bind fun (_, t) =>
    if Admits cap tx t.outputNotes then some (t.account, t.outputNotes) else none

/-- The account after a transaction, which changes nothing when it aborts. -/
def submit (s : House cap) (tx : Transaction) : House cap :=
  match execute s tx with
  | some (s', _) => s'
  | none => s

theorem run_runNotes (block : Felt) (notes : List Note) (s : House cap)
    (out : List OutputNote) :
    (runNotes notes).run ⟨block, s, out⟩ =
      (Machine.run House.consume s (notes.map fun n => ⟨n, block⟩)).map fun r =>
        ((), ⟨block, r.1, out ++ r.2.flatMap Receipt.payouts⟩) := by
  induction notes generalizing s out with
  | nil => simp [runNotes]
  | cons n notes ih =>
    simp only [runNotes, StateT.run_bind, BetNote.run_eq, List.map_cons, Machine.run,
      House.consume_eq]
    cases BetNote.wager s.id n with
    | none => rfl
    | some w =>
      simp only [Option.bind_some]
      cases BetNote.effect block s w with
      | none => rfl
      | some r =>
        simp only [Option.map_some, Option.bind_eq_bind, Option.bind_some, BetNote.commit, ih]
        cases Machine.run House.consume r.1 (notes.map fun n => ⟨n, block⟩) <;> simp

theorem execute_eq_some {s s' : House cap} {tx : Transaction} {outs : List OutputNote} :
    execute s tx = some (s', outs) ↔
      ∃ log, Machine.run House.consume s tx.consumptions = some (s', log) ∧
        outs = log.flatMap Receipt.payouts ∧ Admits cap tx outs := by
  rw [execute, run_runNotes, Option.bind_map, Option.bind_eq_some_iff]
  constructor
  · rintro ⟨⟨t, log⟩, hrun, h⟩
    obtain ⟨hadmits, heq⟩ := Option.ite_none_right_eq_some.mp h
    obtain ⟨rfl, rfl⟩ := Prod.mk.inj (Option.some.inj heq)
    exact ⟨log, hrun, rfl, hadmits⟩
  · rintro ⟨log, hrun, rfl, hadmits⟩
    exact ⟨(s', log), hrun, if_pos hadmits⟩

theorem execute_eq_none {s : House cap} {tx : Transaction}
    (h : Machine.run House.consume s tx.consumptions = none) : execute s tx = none := by
  rw [execute, run_runNotes]
  exact congrArg (fun r => Option.bind (Option.map _ r) _) h

theorem execute_singleton (s : House cap) (block : Felt) (note : Note) :
    execute s ⟨block, [note]⟩ =
      (House.consume s ⟨note, block⟩).map fun r => (r.1, r.2.payouts) := by
  let c : Consumption := ⟨note, block⟩
  have hrun (s' : House cap) (log : List Receipt) :
      Machine.run House.consume s [c] = some (s', log) ↔
        ∃ rc, House.consume s c = some (s', rc) ∧ log = [rc] :=
    Machine.run_singleton s c s' log
  refine Option.ext fun ⟨s', outs⟩ => ?_
  rw [execute_eq_some, Option.map_eq_some_iff, Prod.exists]
  constructor
  · rintro ⟨log, h, rfl, -⟩
    obtain ⟨rc, hconsume, rfl⟩ := (hrun s' log).mp h
    exact ⟨s', rc, hconsume, by simp⟩
  · rintro ⟨t, rc, hconsume, heq⟩
    obtain ⟨rfl, rfl⟩ := Prod.mk.inj heq
    obtain ⟨hlength, hnodup⟩ := House.payouts_of_consume hconsume
    refine ⟨[rc], (hrun t [rc]).mpr ⟨rc, hconsume, rfl⟩, by simp, ?_⟩
    exact ⟨List.cons_ne_nil _ _, le_trans (by simp) cap.inputNotes_ge, by simp,
      hlength.trans cap.outputNotes_ge, hnodup⟩

theorem execute_stay {α : Type} {xs : List α} {s s' : House cap} {block : Felt}
    {outs : List OutputNote} (note : α → Note) (refund : α → OutputNote) (Fits : α → Prop)
    (hconsume : ∀ x ∈ xs, ∀ s' rc, House.consume s ⟨note x, block⟩ = some (s', rc) ↔
      Fits x ∧ s' = s ∧ rc = ⟨note x, block, .refund, [refund x]⟩) :
    execute s ⟨block, xs.map note⟩ = some (s', outs) ↔
      (∀ x ∈ xs, Fits x) ∧ s' = s ∧ outs = xs.map refund ∧
        Admits cap ⟨block, xs.map note⟩ (xs.map refund) := by
  have hinputs : consumptions ⟨block, xs.map note⟩ = xs.map fun x => ⟨note x, block⟩ :=
    List.map_map
  have houts : (xs.map fun x => (⟨note x, block, .refund, [refund x]⟩ : Receipt)).flatMap
      Receipt.payouts = xs.map refund := by
    rw [List.flatMap_map, List.map_eq_flatMap]
  rw [execute_eq_some, hinputs]
  constructor
  · rintro ⟨log, hrun, rfl, hadmits⟩
    obtain ⟨hfits, rfl, rfl⟩ := (Machine.run_stay _ _ Fits hconsume).mp hrun
    rw [houts] at hadmits ⊢
    exact ⟨hfits, rfl, rfl, hadmits⟩
  · rintro ⟨hfits, rfl, rfl, hadmits⟩
    exact ⟨_, (Machine.run_stay _ _ Fits hconsume).mpr ⟨hfits, rfl, rfl⟩, houts.symm, hadmits⟩

end Transaction

/-- States that runs of bet-notes reach from an empty bets map. -/
def Reachable (s : House cap) : Prop :=
  ∃ init cs log, init.storage = HouseAccount.empty ∧
    Machine.run House.consume init cs = some (s, log)

namespace Reachable

theorem of_empty {s : House cap} (h : s.storage = HouseAccount.empty) : Reachable s :=
  ⟨s, [], [], h, rfl⟩

theorem run {s s' : House cap} {cs : List Consumption} {log : List Receipt} (hs : Reachable s)
    (h : Machine.run House.consume s cs = some (s', log)) : Reachable s' := by
  obtain ⟨init, ds, log₀, hinit, hrun⟩ := hs
  exact ⟨init, ds ++ cs, log₀ ++ log, hinit,
    (Machine.run_append ..).mpr ⟨s, log₀, log, hrun, h, rfl⟩⟩

theorem submit {s : House cap} (hs : Reachable s) (tx : Transaction) :
    Reachable (tx.submit s) := by
  unfold Transaction.submit
  cases hexec : tx.execute s with
  | none => exact hs
  | some r =>
    obtain ⟨log, hrun, -⟩ := Transaction.execute_eq_some.mp hexec
    exact hs.run hrun

theorem submitAll {s : House cap} (hs : Reachable s) (txs : List Transaction) :
    Reachable (txs.foldl (fun s tx => tx.submit s) s) := by
  induction txs generalizing s with
  | nil => exact hs
  | cons tx txs ih => exact ih (hs.submit tx)

end Reachable

end AllaMorra
