import AllaMorra.Kernel

/-! What the two contracts are for, with no storage layout, field encoding or
script in it. A wager is one player's stake and move in one round. A round is
idle, waits for the second player, or is settled, so that two registered
players or a settled round with a stake in it cannot be written down. Consuming
a wager refunds it after its expiry, registers it, or settles the round by the
rules of the game. A ledger is all rounds together, over one vault. -/

namespace AllaMorra

inductive Player where
  | one
  | two
  deriving DecidableEq, Repr

namespace Player

def num : Player → Felt
  | one => 1
  | two => 2

def other : Player → Player
  | one => two
  | two => one

@[simp] theorem other_other (p : Player) : p.other.other = p := by cases p <;> rfl

theorem other_ne (p : Player) : p.other ≠ p := by cases p <;> decide

theorem num_inj {p q : Player} : p.num = q.num ↔ p = q := by cases p <;> cases q <;> decide

theorem num_other_ne (p : Player) : p.other.num ≠ p.num := fun h => p.other_ne (num_inj.mp h)

def pick {α : Type} (first second : α) : Player → α
  | one => first
  | two => second

theorem forall_iff {P : Player → Prop} : (∀ p, P p) ↔ P one ∧ P two := by
  constructor
  · intro h
    exact ⟨h one, h two⟩
  · rintro ⟨hone, htwo⟩ p
    cases p with
    | one => exact hone
    | two => exact htwo

theorem eq_or_eq_other (p q : Player) : p = q ∨ p = q.other := by cases p <;> cases q <;> decide

end Player

/-- Fingers shown and the guess of the total. -/
structure Hand where
  h : Felt
  g : Felt
  deriving DecidableEq, Repr

structure Move extends Hand where
  h_le : h.val ≤ 3
  g_le : g.val ≤ 6
  deriving DecidableEq, Repr

/-- What the two wagers of a round must have in common. The players enter only
through the combination of their names. -/
structure Terms where
  faucet : AccountId
  betValue : Felt
  idXorS : Felt
  idXorP : Felt
  deriving DecidableEq, Repr

structure Bet where
  move : Move
  terms : Terms
  deriving DecidableEq, Repr

/-- Two names have a commitment if both exclusive ors go into a field element. -/
def XorFits (player1 player2 : AccountId) : Prop :=
  (player1.idSuffix.asU64 ^^^ player2.idSuffix.asU64).toNat ≤ Felt.modulus ∧
    (player1.idPrefix.asU64 ^^^ player2.idPrefix.asU64).toNat ≤ Felt.modulus

instance (player1 player2 : AccountId) : Decidable (XorFits player1 player2) :=
  inferInstanceAs (Decidable (_ ∧ _))

structure Wager where
  roundId : Felt
  player : Player
  move : Move
  player1 : AccountId
  player2 : AccountId
  faucet : AccountId
  betValue : Felt
  expiryBlock : Felt
  deriving DecidableEq, Repr

/-! Payout rules. -/

def winnerPayout (betValue : Nat) : Nat := 2 * betValue - 2 * betValue / 100

def drawPayout (betValue : Nat) : Nat := winnerPayout betValue / 2

theorem winnerPayout_le (betValue : Nat) : winnerPayout betValue ≤ 2 * betValue :=
  Nat.sub_le _ _

theorem two_mul_drawPayout_le (betValue : Nat) :
    2 * drawPayout betValue ≤ winnerPayout betValue := by
  unfold drawPayout
  omega

/-- Who is paid how much: the only player to guess the total takes the pot less
the fee, otherwise the two share it. -/
def payouts (m₁ m₂ : Hand) (betValue : Nat) : List (Player × Nat) :=
  let total := m₁.h.val + m₂.h.val
  if m₁.g.val = total ∧ m₂.g.val ≠ total then [(.one, winnerPayout betValue)]
  else if m₂.g.val = total ∧ m₁.g.val ≠ total then [(.two, winnerPayout betValue)]
  else [(.one, drawPayout betValue), (.two, drawPayout betValue)]

theorem payouts_le {m₁ m₂ : Hand} {betValue : Nat} :
    ∀ x ∈ payouts m₁ m₂ betValue, x.2 ≤ winnerPayout betValue := by
  have hdraw : drawPayout betValue ≤ winnerPayout betValue := Nat.div_le_self ..
  simp only [payouts]
  split_ifs <;> simp [hdraw]

def totalPayout (m₁ m₂ : Hand) (betValue : Nat) : Nat :=
  ((payouts m₁ m₂ betValue).map Prod.snd).sum

theorem totalPayout_le (m₁ m₂ : Hand) (betValue : Nat) :
    totalPayout m₁ m₂ betValue ≤ 2 * betValue := by
  have hw := winnerPayout_le betValue
  have hd := two_mul_drawPayout_le betValue
  simp only [totalPayout, payouts]
  split_ifs <;> simp <;> omega

namespace Wager

variable (w : Wager)

def account : Player → AccountId
  | .one => w.player1
  | .two => w.player2

def idXorS : Felt := .ofNat (w.player1.idSuffix.asU64 ^^^ w.player2.idSuffix.asU64).toNat

def idXorP : Felt := .ofNat (w.player1.idPrefix.asU64 ^^^ w.player2.idPrefix.asU64).toNat

def XorFits : Prop := AllaMorra.XorFits w.player1 w.player2

instance : Decidable w.XorFits := inferInstanceAs (Decidable (AllaMorra.XorFits _ _))

structure Playable (block : Felt) : Prop where
  inTime : ¬ w.expiryBlock.val < block.val
  fits : w.XorFits

def terms : Terms := ⟨w.faucet, w.betValue, w.idXorS, w.idXorP⟩

def bet : Bet := ⟨w.move, w.terms⟩

def hands (opponent : Hand) : Hand × Hand :=
  match w.player with
  | .one => (w.move.toHand, opponent)
  | .two => (opponent, w.move.toHand)

end Wager

inductive Reason where
  | refund
  | prize (player : Player)
  deriving DecidableEq, Repr

structure Payment where
  roundId : Felt
  reason : Reason
  amount : Nat
  faucet : AccountId
  recipient : AccountId
  deriving DecidableEq, Repr

namespace Wager

variable (w : Wager)

def refund : Payment :=
  ⟨w.roundId, .refund, w.betValue.val, w.faucet, w.account w.player⟩

def prizes (opponent : Hand) : List Payment :=
  (payouts (w.hands opponent).1 (w.hands opponent).2 w.betValue.val).map fun (p, amount) =>
    ⟨w.roundId, .prize p, amount, w.faucet, w.account p⟩

def totalPrize (opponent : Hand) : Nat :=
  totalPayout (w.hands opponent).1 (w.hands opponent).2 w.betValue.val

theorem prizes_amount (opponent : Hand) :
    ((w.prizes opponent).map Payment.amount).sum = w.totalPrize opponent := by
  rw [prizes, List.map_map]
  rfl

theorem totalPrize_le (opponent : Hand) : w.totalPrize opponent ≤ 2 * w.betValue.val :=
  totalPayout_le ..

end Wager

/-- A game between two players, as their two notes both describe it. -/
structure Match where
  roundId : Felt
  player1 : AccountId
  player2 : AccountId
  betValue : Felt
  expiryBlock : Felt
  deriving DecidableEq, Repr

namespace Match

variable (m : Match)

def account : Player → AccountId
  | .one => m.player1
  | .two => m.player2

def wager (p : Player) (move : Move) (faucet : AccountId) : Wager :=
  ⟨m.roundId, p, move, m.player1, m.player2, faucet, m.betValue, m.expiryBlock⟩

def XorFits : Prop := AllaMorra.XorFits m.player1 m.player2

instance : Decidable m.XorFits := inferInstanceAs (Decidable (AllaMorra.XorFits _ _))

theorem eq_wager {w : Wager} (hround : w.roundId = m.roundId) (h1 : w.player1 = m.player1)
    (h2 : w.player2 = m.player2) (hbet : w.betValue = m.betValue)
    (hexpiry : w.expiryBlock = m.expiryBlock) : w = m.wager w.player w.move w.faucet := by
  rw [wager, ← hround, ← h1, ← h2, ← hbet, ← hexpiry]

def prizes (moves : Player → Move) (faucet : AccountId) : List Payment :=
  (payouts (moves .one).toHand (moves .two).toHand m.betValue.val).map fun (p, amount) =>
    ⟨m.roundId, .prize p, amount, faucet, m.account p⟩

def totalPrize (moves : Player → Move) : Nat :=
  totalPayout (moves .one).toHand (moves .two).toHand m.betValue.val

theorem prizes_amount (moves : Player → Move) (faucet : AccountId) :
    ((m.prizes moves faucet).map Payment.amount).sum = m.totalPrize moves := by
  rw [prizes, List.map_map]
  rfl

theorem terms_wager_inj {p q : Player} {move move' : Move} {faucet faucet' : AccountId} :
    (m.wager p move faucet).terms = (m.wager q move' faucet').terms ↔ faucet = faucet' := by
  constructor
  · exact congrArg Terms.faucet
  · rintro rfl
    rfl

end Match

inductive Path where
  | refund
  | register
  | settle
  deriving DecidableEq, Repr

inductive Round where
  | idle
  | waiting (player : Player) (bet : Bet)
  | settled
  deriving DecidableEq, Repr

namespace Round

/-- One wager of this round, apart from the vault. A wager in time registers in
an idle round, and also in a round that waits for the same player number, whose
earlier bet it replaces. Without a commitment it can only be refunded. -/
def consume (round : Round) (block : Felt) (w : Wager) :
    Option (Round × Path × List Payment) :=
  if w.expiryBlock.val < block.val then some (round, .refund, [w.refund])
  else if w.XorFits then
    match round with
    | .settled => none
    | .idle => some (.waiting w.player w.bet, .register, [])
    | .waiting p bet =>
      if p = w.player then some (.waiting w.player w.bet, .register, [])
      else if w.terms = bet.terms then some (.settled, .settle, w.prizes bet.move.toHand)
      else none
  else none

/-- Nobody but the wager's own player number has registered. -/
def Free (round : Round) (p : Player) : Prop := round = .idle ∨ ∃ bet, round = .waiting p bet

theorem free_waiting (p : Player) (bet : Bet) : (waiting p bet).Free p := .inr ⟨bet, rfl⟩

theorem free_waiting_iff {p q : Player} {bet : Bet} : (waiting p bet).Free q ↔ p = q := by
  constructor
  · rintro (h | ⟨bet', h⟩)
    · cases h
    · exact (waiting.inj h).1
  · rintro rfl
    exact free_waiting p bet

theorem Free.ne_settled {round : Round} {p : Player} (h : round.Free p) : round ≠ .settled := by
  obtain rfl | ⟨bet, rfl⟩ := h <;> simp

theorem consume_expired (round : Round) {block : Felt} {w : Wager}
    (h : w.expiryBlock.val < block.val) :
    round.consume block w = some (round, .refund, [w.refund]) := if_pos h

theorem consume_unfit (round : Round) {block : Felt} {w : Wager}
    (htime : ¬ w.expiryBlock.val < block.val) (h : ¬ w.XorFits) :
    round.consume block w = none := (if_neg htime).trans (if_neg h)

theorem consume_free {round : Round} {block : Felt} {w : Wager}
    (hplay : w.Playable block) (h : round.Free w.player) :
    round.consume block w = some (.waiting w.player w.bet, .register, []) := by
  refine (if_neg hplay.inTime).trans ((if_pos hplay.fits).trans ?_)
  obtain rfl | ⟨bet, rfl⟩ := h
  · rfl
  · exact if_pos rfl

theorem consume_waiting {block : Felt} {w : Wager} (bet : Bet) (hplay : w.Playable block) :
    (waiting w.player.other bet).consume block w =
      if w.terms = bet.terms then some (.settled, .settle, w.prizes bet.move.toHand) else none := by
  rw [consume, if_neg hplay.inTime, if_pos hplay.fits]
  exact if_neg w.player.other_ne

theorem consume_settled {block : Felt} {w : Wager} (htime : ¬ w.expiryBlock.val < block.val) :
    settled.consume block w = none := (if_neg htime).trans (ite_self none)

theorem cases_of_player (round : Round) (p : Player) :
    round.Free p ∨ (∃ bet, round = .waiting p.other bet) ∨ round = .settled := by
  cases round with
  | idle => exact .inl (.inl rfl)
  | settled => exact .inr (.inr rfl)
  | waiting q bet =>
    obtain rfl | rfl := q.eq_or_eq_other p
    · exact .inl (.inr ⟨bet, rfl⟩)
    · exact .inr (.inl ⟨bet, rfl⟩)

theorem consume_eq_some {round round' : Round} {block : Felt} {w : Wager} {path : Path}
    {ps : List Payment} :
    round.consume block w = some (round', path, ps) ↔
      w.expiryBlock.val < block.val ∧ round' = round ∧ path = .refund ∧ ps = [w.refund] ∨
      w.Playable block ∧ round.Free w.player ∧
        round' = .waiting w.player w.bet ∧ path = .register ∧ ps = [] ∨
      w.Playable block ∧ ∃ bet, round = .waiting w.player.other bet ∧
        w.terms = bet.terms ∧ round' = .settled ∧ path = .settle ∧
          ps = w.prizes bet.move.toHand := by
  by_cases htime : w.expiryBlock.val < block.val
  · have hlate : ¬ w.Playable block := fun hplay => hplay.inTime htime
    simp [consume_expired round htime, htime, hlate, eq_comm]
  by_cases hfits : w.XorFits
  swap
  · have hunfit : ¬ w.Playable block := fun hplay => hfits hplay.fits
    simp [consume_unfit round htime hfits, htime, hunfit]
  have hplay : w.Playable block := ⟨htime, hfits⟩
  obtain hfree | ⟨bet, rfl⟩ | rfl := round.cases_of_player w.player
  · have hbusy (bet : Bet) : round ≠ .waiting w.player.other bet := by
      rintro rfl
      exact w.player.other_ne (free_waiting_iff.mp hfree)
    simp [consume_free hplay hfree, htime, hplay, hfree, hbusy, eq_comm]
  · have hbusy : ¬ (waiting w.player.other bet).Free w.player :=
      w.player.other_ne ∘ free_waiting_iff.mp
    by_cases hterms : w.terms = bet.terms
    · simp [consume_waiting bet hplay, htime, hplay, hbusy, hterms, eq_comm]
    · simp [consume_waiting bet hplay, htime, hbusy, hterms]
  · simp [consume_settled htime, htime, Free]

end Round

structure Ledger (cap : KernelCap) where
  id : AccountId
  rounds : Felt → Round
  vault : AssetVault cap

namespace Ledger

variable {cap : KernelCap}

def setRound (L : Ledger cap) (r : Felt) (round : Round) (vault : AssetVault cap) : Ledger cap :=
  { L with rounds := Function.update L.rounds r round, vault := vault }

@[simp] theorem setRound_vault (L : Ledger cap) (r : Felt) (round : Round)
    (vault : AssetVault cap) : (L.setRound r round vault).vault = vault := rfl

@[simp] theorem setRound_self (L : Ledger cap) (r : Felt) (round : Round)
    (vault : AssetVault cap) : (L.setRound r round vault).rounds r = round :=
  Function.update_self ..

theorem setRound_of_ne (L : Ledger cap) {r r' : Felt} (round : Round) (vault : AssetVault cap)
    (h : r' ≠ r) : (L.setRound r round vault).rounds r' = L.rounds r' :=
  Function.update_of_ne h ..

theorem setRound_eq_self (L : Ledger cap) (r : Felt) : L.setRound r (L.rounds r) L.vault = L := by
  simp only [setRound, Function.update_eq_self]

theorem setRound_setRound (L : Ledger cap) (r : Felt) (round round' : Round)
    (vault vault' : AssetVault cap) :
    (L.setRound r round vault).setRound r round' vault' = L.setRound r round' vault' := by
  simp only [setRound, Function.update_idem]

/-- One wager: its stake enters the vault, its round consumes it, and what the
round pays leaves the vault. -/
def consume (L : Ledger cap) (block : Felt) (w : Wager) :
    Option (Ledger cap × Path × List Payment) :=
  (L.vault.add w.faucet w.betValue.val).bind fun vault =>
    ((L.rounds w.roundId).consume block w).bind fun (round, path, ps) =>
      (vault.remove w.faucet (ps.map Payment.amount).sum).map fun vault =>
        (L.setRound w.roundId round vault, path, ps)

theorem consume_eq_some {L L' : Ledger cap} {block : Felt} {w : Wager} {path : Path}
    {ps : List Payment} :
    L.consume block w = some (L', path, ps) ↔
      ∃ v round v', L.vault.add w.faucet w.betValue.val = some v ∧
        (L.rounds w.roundId).consume block w = some (round, path, ps) ∧
        v.remove w.faucet (ps.map Payment.amount).sum = some v' ∧
        L' = L.setRound w.roundId round v' := by
  rw [consume, Option.bind_eq_some_iff]
  constructor
  · rintro ⟨v, hadd, h⟩
    obtain ⟨⟨round, path', ps'⟩, hround, h⟩ := Option.bind_eq_some_iff.mp h
    obtain ⟨v', hremove, h⟩ := Option.map_eq_some_iff.mp h
    simp only [Prod.mk.injEq] at h
    obtain ⟨rfl, rfl, rfl⟩ := h
    exact ⟨v, round, v', hadd, hround, hremove, rfl⟩
  · rintro ⟨v, round, v', hadd, hround, hremove, rfl⟩
    exact ⟨v, hadd, Option.bind_eq_some_iff.mpr
      ⟨_, hround, Option.map_eq_some_iff.mpr ⟨v', hremove, rfl⟩⟩⟩

end Ledger

end AllaMorra
