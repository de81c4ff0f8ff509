import AllaMorra.History

/-! How much of the bets map is in use. A registration takes the eight cells of its slot,
a settlement gives them back and keeps one for the flag, for good; a refund writes
nothing. -/

namespace AllaMorra

open HouseAccount BetNote

variable {cap : KernelCap}

def slotCells (r p : Felt) : Finset Word :=
  (Finset.range 8).image fun field => playerKey r p (.ofNat field)

theorem mem_slotCells {r p : Felt} {k : Word} :
    k ∈ slotCells r p ↔ k.e0 = r ∧ k.e1 = p ∧ k.e2.val < 8 ∧ k.e3 = 0 := by
  rw [slotCells, Finset.mem_image]
  constructor
  · rintro ⟨field, hfield, rfl⟩
    have hlt := Finset.mem_range.mp hfield
    have hval : (Felt.ofNat field).val = field := Felt.ofNat_val_of_lt (hlt.trans (by decide))
    exact ⟨rfl, rfl, hval.trans_lt hlt, rfl⟩
  · obtain ⟨e0, e1, e2, e3⟩ := k
    rintro ⟨rfl, rfl, hlt, rfl⟩
    exact ⟨e2.val, Finset.mem_range.mpr hlt, congrArg (playerKey e0 e1) (Felt.ofNat_val e2)⟩

theorem card_slotCells (r p : Felt) : (slotCells r p).card = 8 := by
  refine (Finset.card_image_of_injOn fun m hm n hn heq => ?_).trans (Finset.card_range 8)
  have hm' := (Finset.mem_range.mp hm).trans (show 8 < Felt.modulus by decide)
  have hn' := (Finset.mem_range.mp hn).trans (show 8 < Felt.modulus by decide)
  have hval := congrArg Fin.val (congrArg Word.e2 heq)
  exact (Felt.ofNat_val_of_lt hm').symm.trans (hval.trans (Felt.ofNat_val_of_lt hn'))

theorem get_encode_of_waiting {rounds : Felt → Round} {r : Felt} {p : Player} {bet : Bet}
    (h : rounds r = .waiting p bet) {k : Word} (hk : k.e0 = r) (hcell : k ∉ slotCells r p.num) :
    (encode rounds).bets.get k = 0 := by
  simp only [encode, StorageMap.get, hk, h]
  split
  · next h3 =>
    split
    · rfl
    · by_cases h1 : k.e1 = p.num
      · rw [h1, Round.slot_waiting_self]
        refine Slot.field_of_le _ (Nat.not_lt.mp fun hlt => hcell ?_)
        exact mem_slotCells.mpr ⟨hk, h1, hlt, h3⟩
      · rw [(Round.free_waiting p bet).slot_of_ne h1, Slot.field_empty]
  · rfl

theorem get_encode_of_settled {rounds : Felt → Round} {r : Felt} (h : rounds r = .settled)
    {k : Word} (hk : k.e0 = r) (hflag : k ≠ settledKey r) : (encode rounds).bets.get k = 0 := by
  simp only [encode, StorageMap.get, hk, h]
  split
  · next h3 =>
    split
    · next h12 =>
      obtain ⟨e0, e1, e2, e3⟩ := k
      obtain ⟨rfl, rfl⟩ := h12
      exact absurd (by rw [settledKey, ← hk, ← h3]) hflag
    · exact Slot.field_empty _
  · rfl

namespace Ledger

/-- `S` holds every entry, all cells of waiting players among them; `R` are the rounds
settled so far. -/
structure Occupies (L : Ledger cap) (log : List Receipt) (S : Finset Word) (R : Finset Felt) :
    Prop where
  support : ∀ k, k ∉ S → L.house.storage.bets.get k = 0
  waiting : ∀ r p bet, L.rounds r = .waiting p bet → slotCells r p.num ⊆ S
  settled : ∀ r ∈ R, L.rounds r = .settled
  card_settled : R.card = log.countP (·.path = .settle)
  card : S.card + 7 * R.card ≤ 8 * log.countP (·.path = .register)

theorem occupies_start (id : AccountId) (vault : AssetVault cap) :
    (start id vault).Occupies [] ∅ ∅ where
  support k _ := congrArg (fun h : HouseAccount => h.bets.get k) encode_idle
  waiting _ _ _ h := by cases h
  settled r h := absurd h (Finset.notMem_empty r)
  card_settled := rfl
  card := le_rfl

theorem get_setRound_of_ne (L : Ledger cap) {r : Felt} (round : Round) (v : AssetVault cap)
    {k : Word} (hk : k.e0 ≠ r) :
    (L.setRound r round v).house.storage.bets.get k = L.house.storage.bets.get k :=
  get_encode_congr (L.setRound_of_ne round v hk)

variable {L L' : Ledger cap} {hist : List Receipt} {S : Finset Word} {R : Finset Felt}

theorem Occupies.refund (h : L.Occupies hist S R) {rc : Receipt} (hpath : rc.path = .refund) :
    L.Occupies (hist ++ [rc]) S R where
  support := h.support
  waiting := h.waiting
  settled := h.settled
  card_settled := by simp [List.countP_append, hpath, h.card_settled]
  card := by simpa [List.countP_append, hpath] using h.card

theorem Occupies.register (h : L.Occupies hist S R) {r : Felt} {p : Player} (bet : Bet)
    (v : AssetVault cap) (hfree : (L.rounds r).Free p) {rc : Receipt}
    (hpath : rc.path = .register) :
    (L.setRound r (.waiting p bet) v).Occupies (hist ++ [rc]) (S ∪ slotCells r p.num) R where
  support k hk := by
    obtain ⟨hS, hcell⟩ := not_or.mp (Finset.mem_union.not.mp hk)
    by_cases hr : k.e0 = r
    · exact get_encode_of_waiting (L.setRound_self r (.waiting p bet) v) hr hcell
    · rw [L.get_setRound_of_ne _ _ hr]
      exact h.support k hS
  waiting r' p' bet' hround := by
    by_cases hr : r' = r
    · subst hr
      rw [setRound_self] at hround
      obtain ⟨rfl, -⟩ := Round.waiting.inj hround
      exact Finset.subset_union_right
    · rw [L.setRound_of_ne _ _ hr] at hround
      exact (h.waiting r' p' bet' hround).trans Finset.subset_union_left
  settled r' hr' := by
    have hsettled := h.settled r' hr'
    have hne : r' ≠ r := fun heq => hfree.ne_settled (heq ▸ hsettled)
    rw [L.setRound_of_ne _ _ hne, hsettled]
  card_settled := by simp [List.countP_append, hpath, h.card_settled]
  card := by
    have hunion := Finset.card_union_le S (slotCells r p.num)
    have hcard := h.card
    rw [card_slotCells] at hunion
    simp only [List.countP_append, List.countP_singleton, hpath, decide_true, if_true]
    omega

theorem Occupies.settle (h : L.Occupies hist S R) {r : Felt} {p : Player} {bet : Bet}
    (v : AssetVault cap) (hround : L.rounds r = .waiting p bet) {rc : Receipt}
    (hpath : rc.path = .settle) :
    (L.setRound r .settled v).Occupies (hist ++ [rc])
      (insert (settledKey r) (S \ slotCells r p.num)) (insert r R) where
  support k hk := by
    obtain ⟨hflag, hold⟩ := not_or.mp (Finset.mem_insert.not.mp hk)
    by_cases hr : k.e0 = r
    · exact get_encode_of_settled (L.setRound_self r .settled v) hr hflag
    · rw [L.get_setRound_of_ne _ _ hr]
      refine h.support k fun hS => hold (Finset.mem_sdiff.mpr ⟨hS, fun hcell => hr ?_⟩)
      exact (mem_slotCells.mp hcell).1
  waiting r' p' bet' hround' := by
    have hr : r' ≠ r := by
      rintro rfl
      rw [setRound_self] at hround'
      cases hround'
    rw [L.setRound_of_ne _ _ hr] at hround'
    refine fun k hk => Finset.mem_insert_of_mem (Finset.mem_sdiff.mpr
      ⟨h.waiting r' p' bet' hround' hk, fun hcell => hr ?_⟩)
    exact (mem_slotCells.mp hk).1.symm.trans (mem_slotCells.mp hcell).1
  settled r' hr' := by
    by_cases hr : r' = r
    · rw [hr, setRound_self]
    · rw [L.setRound_of_ne _ _ hr]
      exact h.settled r' (Finset.mem_of_mem_insert_of_ne hr' hr)
  card_settled := by
    have hnew : r ∉ R := fun hr => by cases (h.settled r hr).symm.trans hround
    rw [Finset.card_insert_of_notMem hnew, h.card_settled]
    simp [List.countP_append, hpath]
  card := by
    have hnew : r ∉ R := fun hr => by cases (h.settled r hr).symm.trans hround
    have hcells := h.waiting r p bet hround
    have hsdiff := Finset.card_sdiff_add_card_eq_card hcells
    have hinsert := Finset.card_insert_le (settledKey r) (S \ slotCells r p.num)
    have hcard := h.card
    rw [card_slotCells] at hsdiff
    rw [Finset.card_insert_of_notMem hnew]
    simp only [List.countP_append, List.countP_singleton, hpath]
    simp only [reduceCtorEq, decide_false, Bool.false_eq_true, if_false]
    omega

theorem run_occupies {id : AccountId} {vault : AssetVault cap} {cs : List Consumption}
    {log : List Receipt} (h : Machine.run step (start id vault) cs = some (L, log)) :
    ∃ S R, L.Occupies log S R :=
  Machine.run_history (fun hist (M : Ledger cap) => ∃ S R, M.Occupies hist S R)
    (fun hist M c M' rc hinv hstep => by
      obtain ⟨S, R, hoccupies⟩ := hinv
      cases step_iff.mp hstep with
      | refund w v hw hadd htime => exact ⟨S, R, hoccupies.refund rfl⟩
      | register w v hw hadd hplay hfree =>
        exact ⟨_, R, hoccupies.register w.bet v hfree rfl⟩
      | settle w bet v v' hw hadd hplay hround hterms hremove =>
        exact ⟨_, _, hoccupies.settle v' hround rfl⟩)
    [] (start id vault) cs L log ⟨∅, ∅, occupies_start id vault⟩ h

end Ledger

/-- In every run from an empty bets map: the map has at least one entry for each
settlement so far, and at most eight for each registration less seven for each
settlement. -/
theorem storage_footprint (id : AccountId) (vault : AssetVault cap) (cs : List Consumption)
    (s : House cap) (log : List Receipt)
    (hrun : Machine.run House.consume (House.fresh id vault) cs = some (s, log)) :
    {k | s.storage.bets.get k ≠ 0}.Finite ∧
    log.countP (·.path = .settle) ≤ {k | s.storage.bets.get k ≠ 0}.ncard ∧
    {k | s.storage.bets.get k ≠ 0}.ncard + 7 * log.countP (·.path = .settle) ≤
      8 * log.countP (·.path = .register) := by
  rw [← House.house_start] at hrun
  obtain ⟨L, hL, rfl⟩ := Ledger.run_house_eq_some hrun
  obtain ⟨S, R, hoccupies⟩ := Ledger.run_occupies hL
  have hsub : {k | L.house.storage.bets.get k ≠ 0} ⊆ ↑S := by
    intro k hk
    by_contra hS
    exact hk (hoccupies.support k hS)
  have hfinite := S.finite_toSet.subset hsub
  have hle := Set.ncard_le_ncard hsub S.finite_toSet
  rw [Set.ncard_coe_finset] at hle
  have hflags : ↑(R.image settledKey) ⊆ {k | L.house.storage.bets.get k ≠ 0} := by
    intro k hk
    obtain ⟨r, hr, rfl⟩ := Finset.mem_image.mp hk
    have hflag : L.house.storage.bets.get (settledKey r) = 1 :=
      congrArg Round.flag (hoccupies.settled r hr)
    change L.house.storage.bets.get (settledKey r) ≠ 0
    rw [hflag]
    decide
  have hge := Set.ncard_le_ncard hflags hfinite
  rw [Set.ncard_coe_finset, Finset.card_image_of_injective R fun r r' h => congrArg Word.e0 h,
    hoccupies.card_settled] at hge
  have hcard := hoccupies.card
  rw [hoccupies.card_settled] at hcard
  exact ⟨hfinite, hge, by omega⟩

theorem storage_footprint_sample : ∃ (s : House Sample.kernelCap) (log : List Receipt),
    Machine.run House.consume Sample.house [⟨Sample.note .one, 5⟩, ⟨Sample.note .two, 6⟩] =
      some (s, log) ∧
    {k | s.storage.bets.get k ≠ 0}.ncard = 1 := by
  have hrun : (Machine.run House.consume Sample.house
      [⟨Sample.note .one, 5⟩, ⟨Sample.note .two, 6⟩]).map
        (fun r => r.2.map Receipt.path) = some [.register, .settle] := by decide +kernel
  obtain ⟨⟨s, log⟩, hrun, hpaths⟩ := Option.map_eq_some_iff.mp hrun
  obtain ⟨-, hge, hle⟩ := storage_footprint Sample.houseId AssetVault.empty _ s log hrun
  have hcount (path : Path) : log.countP (fun rc => rc.path = path) =
      (log.map Receipt.path).countP (fun p => p = path) := by
    rw [List.countP_map]
    rfl
  rw [hcount, hpaths] at hge
  rw [hcount, hcount, hpaths] at hle
  have hone : [Path.register, Path.settle].countP (fun p => p = .settle) = 1 := rfl
  have hreg : [Path.register, Path.settle].countP (fun p => p = .register) = 1 := rfl
  exact ⟨s, log, hrun, by omega⟩

end AllaMorra
