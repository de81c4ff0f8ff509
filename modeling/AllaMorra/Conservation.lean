import AllaMorra.Calls

/-! The house neither makes nor loses tokens. A bet-note brings in the assets it
holds and pays out notes; a direct call brings in the asset it names, or pays out
one note. Over any mix of both, from any state, the vault changes by the difference. -/

namespace AllaMorra

open HouseAccount BetNote

variable {cap : KernelCap}

def holding (faucet : AccountId) (assets : List Asset) : Nat :=
  (assets.map fun a => if a.faucet = faucet then a.amount else 0).sum

theorem holding_singleton (faucet : AccountId) (a : Asset) :
    holding faucet [a] = if a.faucet = faucet then a.amount else 0 := by
  simp [holding]

def outflow (faucet : AccountId) (notes : List OutputNote) : Nat :=
  (notes.map fun n => holding faucet n.assets).sum

theorem holding_append (faucet : AccountId) (as bs : List Asset) :
    holding faucet (as ++ bs) = holding faucet as + holding faucet bs := by
  rw [holding, List.map_append, List.sum_append]
  rfl

theorem outflow_flatMap {α : Type} (f : AccountId) (g : α → List OutputNote) (xs : List α) :
    outflow f (xs.flatMap g) = (xs.map fun x => outflow f (g x)).sum := by
  rw [outflow, List.flatMap, List.map_flatten, List.sum_flatten]
  simp only [List.map_map]
  rfl

def Receipt.stake (rc : Receipt) (faucet : AccountId) : Nat := holding faucet rc.note.assets

def Receipt.paid (rc : Receipt) (faucet : AccountId) : Nat := outflow faucet rc.payouts

theorem holding_of_wager {id : AccountId} {note : Note} {w : Wager}
    (h : wager id note = some w) (f : AccountId) :
    holding f note.assets = if f = w.faucet then w.betValue.val else 0 := by
  rw [(wager_eq_some.mp h).2]
  change holding f [_] = _
  rw [holding_singleton]
  exact if_congr eq_comm rfl rfl

theorem holding_note {p : Payment} (h : p.amount < Felt.modulus) (f : AccountId) :
    holding f p.note.assets = if f = p.faucet then p.amount else 0 := by
  change holding f [_] = _
  rw [holding_singleton]
  refine if_congr eq_comm ?_ rfl
  exact Felt.ofNat_val_of_lt h

theorem outflow_payments {faucet : AccountId} {ps : List Payment}
    (hfaucet : ∀ p ∈ ps, p.faucet = faucet) (hlt : ∀ p ∈ ps, p.amount < Felt.modulus)
    (f : AccountId) :
    outflow f (ps.map Payment.note) = if f = faucet then (ps.map Payment.amount).sum else 0 := by
  induction ps with
  | nil => simp [outflow]
  | cons p ps ih =>
    have hrest := ih (fun q hq => hfaucet q (List.mem_cons_of_mem _ hq))
      fun q hq => hlt q (List.mem_cons_of_mem _ hq)
    have hp := holding_note (hlt p List.mem_cons_self) f
    rw [hfaucet p List.mem_cons_self] at hp
    simp only [outflow, List.map_cons, List.sum_cons] at hrest ⊢
    rw [hrest, hp]
    split <;> rfl

theorem outflow_prizes {w : Wager} (hbet : w.betValue.val < 2 ^ 63) (opponent : Hand)
    (f : AccountId) :
    outflow f ((w.prizes opponent).map Payment.note) =
      if f = w.faucet then w.totalPrize opponent else 0 := by
  rw [← w.prizes_amount]
  refine outflow_payments (fun p hp => ?_) (fun p hp => ?_) f
  · obtain ⟨x, -, rfl⟩ := List.mem_map.mp hp
    rfl
  · obtain ⟨x, hx, rfl⟩ := List.mem_map.mp hp
    exact (payouts_le x hx).trans_lt (winnerPayout_lt hbet)

theorem outflow_refund (w : Wager) (f : AccountId) :
    outflow f [w.refund.note] = if f = w.faucet then w.betValue.val else 0 := by
  have hlt : w.refund.amount < Felt.modulus := w.betValue.isLt
  simp only [outflow, List.map_cons, List.map_nil, List.sum_singleton]
  exact holding_note hlt f

namespace House

theorem consume_balance {s s' : House cap} {c : Consumption} {rc : Receipt}
    (h : consume s c = some (s', rc)) (f : AccountId) :
    s'.vault.balance f + rc.paid f = s.vault.balance f + rc.stake f := by
  obtain ⟨w, ps, hw, heffect, rfl⟩ := consume_eq_some.mp h
  obtain ⟨v, hadd, hcase⟩ := effect_eq_some.mp heffect
  obtain ⟨hcap, hv⟩ := AssetVault.add_eq_some.mp hadd
  have hbet : w.betValue.val < 2 ^ 63 := by
    have hlt := cap.value_lt
    omega
  simp only [Receipt.paid, Receipt.stake, holding_of_wager hw]
  obtain ⟨-, rfl, rfl⟩ | ⟨-, -, rfl, rfl⟩ | ⟨-, -, -, v', hremove, rfl, rfl⟩ := hcase
  · rw [List.map_singleton, outflow_refund]
  · exact hv f
  · rw [outflow_prizes hbet, ← hv f]
    exact (AssetVault.remove_eq_some.mp hremove).2 f

end House

def HouseCall.assets : HouseCall → List Asset
  | receiveAsset a0 a1 a2 a3 => [⟨⟨a0, a1, a2, a3⟩⟩]
  | _ => []

theorem HouseCall.exec_balance {m : HouseCall} {block : Felt} {s : House cap}
    {t : TxState cap HouseAccount} {res : List Felt}
    (h : m.exec.run ⟨block, s, []⟩ = some (res, t)) (f : AccountId) :
    t.account.vault.balance f + outflow f t.outputNotes =
      s.vault.balance f + holding f m.assets := by
  cases m with
  | receiveAsset a0 a1 a2 a3 =>
    rw [exec, StateT.run_bind, run_receiveAsset] at h
    obtain ⟨r, hrun, hreturn⟩ := Option.bind_eq_some_iff.mp h
    split at hrun
    · obtain ⟨v, hadd, rfl⟩ := Option.map_eq_some_iff.mp hrun
      cases hreturn
      have hv := (AssetVault.add_eq_some.mp hadd).2 f
      refine hv.trans ?_
      rw [assets, holding_singleton]
      exact congrArg _ (if_congr eq_comm rfl rfl)
    · cases hrun
  | createPayoutNote s0 s1 s2 s3 amount fs fp rs rp =>
    rw [exec, StateT.run_bind, run_createPayoutNote] at h
    obtain ⟨r, hrun, hreturn⟩ := Option.bind_eq_some_iff.mp h
    obtain ⟨v, hremove, rfl⟩ := Option.map_eq_some_iff.mp hrun
    cases hreturn
    have hv := (AssetVault.remove_eq_some.mp hremove).2 f
    refine Eq.trans (congrArg _ ?_) hv
    change (List.map _ [_]).sum = _
    rw [List.map_singleton, List.sum_singleton]
    change holding f [_] = _
    rw [holding_singleton]
    exact if_congr eq_comm rfl rfl
  | _ =>
    cases h
    rfl

namespace Event

def deposited (f : AccountId) : Event → Nat
  | consumed rc => rc.stake f
  | called m _ _ => holding f m.assets

def paid (f : AccountId) : Event → Nat
  | consumed rc => rc.paid f
  | called _ _ notes => outflow f notes

theorem sum_paid (f : AccountId) (log : List Event) :
    (log.map (paid f)).sum = outflow f (log.flatMap payouts) := by
  rw [outflow_flatMap]
  refine congrArg List.sum (List.map_congr_left fun e _ => ?_)
  cases e <;> rfl

theorem sum_deposited (f : AccountId) (log : List Event) :
    (log.map (deposited f)).sum = ((log.flatMap receipts).map (·.stake f)).sum +
      holding f ((log.flatMap calls).flatMap HouseCall.assets) := by
  induction log with
  | nil => rfl
  | cons e log ih =>
    rw [List.map_cons, List.sum_cons, ih]
    cases e with
    | consumed rc => simp [deposited, receipts, calls, Nat.add_assoc]
    | called m res notes =>
      simp only [deposited, receipts, calls, List.flatMap_cons, List.singleton_append,
        List.nil_append, holding_append]
      exact Nat.add_left_comm ..

end Event

namespace House

theorem operate_balance {s s' : House cap} {op : Operation} {e : Event}
    (h : operate s op = some (s', e)) (f : AccountId) :
    s'.vault.balance f + e.paid f = s.vault.balance f + e.deposited f := by
  cases op with
  | consume c =>
    obtain ⟨⟨s₁, rc⟩, hc, heq⟩ := Option.map_eq_some_iff.mp h
    obtain ⟨rfl, rfl⟩ := Prod.mk.inj heq
    exact consume_balance hc f
  | call m block =>
    obtain ⟨⟨res, t⟩, hm, heq⟩ := Option.map_eq_some_iff.mp h
    obtain ⟨rfl, rfl⟩ := Prod.mk.inj heq
    exact HouseCall.exec_balance hm f

/-- In every run of bet-notes and direct calls, from any state of the house, and for
every faucet: what the vault holds at the end and what was paid out is what it held
at the start and what came in. -/
theorem tokens_conserved (s : House cap) (ops : List Operation) (s' : House cap)
    (log : List Event) (hrun : Machine.run operate s ops = some (s', log)) (f : AccountId) :
    s'.vault.balance f + (log.map (Event.paid f)).sum =
      s.vault.balance f + (log.map (Event.deposited f)).sum :=
  Machine.run_flow (fun t : House cap => t.vault.balance f) (Event.deposited f) (Event.paid f)
    (fun _ _ _ _ hop => operate_balance hop f) s ops s' log hrun

theorem run_balance {s s' : House cap} {cs : List Consumption} {log : List Receipt}
    (hrun : Machine.run consume s cs = some (s', log)) (f : AccountId) :
    s'.vault.balance f + (log.map (·.paid f)).sum =
      s.vault.balance f + (log.map (·.stake f)).sum :=
  Machine.run_flow (fun t : House cap => t.vault.balance f) (fun rc : Receipt => rc.stake f)
    (fun rc : Receipt => rc.paid f) (fun _ _ _ _ hc => consume_balance hc f) s cs s' log hrun

end House

theorem tokens_conserved_sample : ∃ (s : House Sample.kernelCap) (log : List Event),
    Machine.run House.operate Sample.house
      [.consume ⟨Sample.note .one, 5⟩, .consume ⟨Sample.note .two, 6⟩,
        .call (.createPayoutNote 9 9 9 9 2 31 32 1 2) 7] = some (s, log) ∧
    s.vault.balance Sample.faucet + (log.map (Event.paid Sample.faucet)).sum =
      (log.map (Event.deposited Sample.faucet)).sum := by
  have hrun : (Machine.run House.operate Sample.house
      [.consume ⟨Sample.note .one, 5⟩, .consume ⟨Sample.note .two, 6⟩,
        .call (.createPayoutNote 9 9 9 9 2 31 32 1 2) 7]).isSome := by
    decide +kernel
  obtain ⟨⟨s, log⟩, hrun⟩ := Option.isSome_iff_exists.mp hrun
  have hflow := House.tokens_conserved Sample.house _ s log hrun Sample.faucet
  exact ⟨s, log, hrun, hflow.trans (Nat.zero_add _)⟩

end AllaMorra
