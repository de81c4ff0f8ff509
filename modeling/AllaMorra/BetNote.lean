import AllaMorra.HouseAccount

/-! The `bet-note` script. `run` follows the script statement by statement:
validation, the deposit into the house vault, then the expiry-recall path or
the settlement path, whose second note pays out from the slot the first note
left in storage. All arithmetic on amounts and totals is wrapping `u64`, and
what goes back into the field is converted, which may abort. -/

namespace AllaMorra.BetNote

open HouseAccount Kernel

variable {cap : KernelCap}

/-- The twelve note inputs, in their layout order. -/
structure Inputs where
  roundId : Felt
  playerNum : Felt
  h : Felt
  g : Felt
  p1Suffix : Felt
  p1Prefix : Felt
  p2Suffix : Felt
  p2Prefix : Felt
  houseSuffix : Felt
  housePrefix : Felt
  betValue : Felt
  expiryBlock : Felt
  deriving DecidableEq, Repr

def readInputs (inputs : List Felt) : Kernel cap HouseAccount Inputs := do
  let roundId ← index inputs 0
  let playerNum ← index inputs 1
  let h ← index inputs 2
  let g ← index inputs 3
  let p1Suffix ← index inputs 4
  let p1Prefix ← index inputs 5
  let p2Suffix ← index inputs 6
  let p2Prefix ← index inputs 7
  let houseSuffix ← index inputs 8
  let housePrefix ← index inputs 9
  let betValue ← index inputs 10
  let expiryBlock ← index inputs 11
  return ⟨roundId, playerNum, h, g, p1Suffix, p1Prefix, p2Suffix, p2Prefix,
    houseSuffix, housePrefix, betValue, expiryBlock⟩

/-- Expiry-recall path: the house refunds the player. -/
def expiryRecall (i : Inputs) (faucetSuffix faucetPrefix : Felt) : Kernel cap HouseAccount Unit :=
  let pn := i.playerNum.asU64
  let mySuffix := if pn == 1 then i.p1Suffix else i.p2Suffix
  let myPrefix := if pn == 1 then i.p1Prefix else i.p2Prefix
  createPayoutNote i.roundId 3 0 0 i.betValue faucetSuffix faucetPrefix mySuffix myPrefix

structure PayoutMath where
  totalPot : UInt64
  fee : UInt64
  winnerPayout : UInt64
  drawPayout : UInt64

def payoutMath (bv : UInt64) : PayoutMath :=
  let totalPot := bv * 2
  let fee := totalPot / 100
  let winnerPayout := totalPot - fee
  { totalPot, fee, winnerPayout, drawPayout := winnerPayout / 2 }

def payOut (i : Inputs) (faucetSuffix faucetPrefix h1 g1 h2 g2 : Felt) :
    Kernel cap HouseAccount Unit := do
  let total := h1.asU64 + h2.asU64
  let p1Wins := g1.asU64 == total
  let p2Wins := g2.asU64 == total
  let pot := payoutMath i.betValue.asU64
  let s0 := i.roundId
  if p1Wins && !p2Wins then
    createPayoutNote s0 1 0 0 (← fromU64Unchecked pot.winnerPayout) faucetSuffix faucetPrefix
      i.p1Suffix i.p1Prefix
  else if p2Wins && !p1Wins then
    createPayoutNote s0 2 0 0 (← fromU64Unchecked pot.winnerPayout) faucetSuffix faucetPrefix
      i.p2Suffix i.p2Prefix
  else
    createPayoutNote s0 1 0 0 (← fromU64Unchecked pot.drawPayout) faucetSuffix faucetPrefix
      i.p1Suffix i.p1Prefix
    createPayoutNote s0 2 0 0 (← fromU64Unchecked pot.drawPayout) faucetSuffix faucetPrefix
      i.p2Suffix i.p2Prefix

/-- The second note: cross-validation against the opponent's slot, payouts,
and the end of the round. The current player's own slot is not touched. -/
def settle (i : Inputs) (faucetSuffix faucetPrefix oppNum idXorS idXorP : Felt) :
    Kernel cap HouseAccount Unit := do
  assertEq faucetSuffix (← read (·.getPlayerFaucetSuffix i.roundId oppNum))
  assertEq faucetPrefix (← read (·.getPlayerFaucetPrefix i.roundId oppNum))
  assertEq i.betValue (← read (·.getPlayerBetValue i.roundId oppNum))
  assertEq idXorS (← read (·.getPlayerIdXorS i.roundId oppNum))
  assertEq idXorP (← read (·.getPlayerIdXorP i.roundId oppNum))
  let oppH ← read (·.getPlayerH i.roundId oppNum)
  let oppG ← read (·.getPlayerG i.roundId oppNum)
  let (h1, g1, h2, g2) :=
    if i.playerNum.asU64 == 1 then (i.h, i.g, oppH, oppG) else (oppH, oppG, i.h, i.g)
  payOut i faucetSuffix faucetPrefix h1 g1 h2 g2
  write (·.markRoundSettled i.roundId)
  write (·.clearPlayerBet i.roundId oppNum)

/-- Settlement path: the first note registers, the second settles. -/
def play (i : Inputs) (faucetSuffix faucetPrefix : Felt) : Kernel cap HouseAccount Unit := do
  assertEq (← read (·.isRoundSettled i.roundId)) 0
  let oppNum : Felt := if i.playerNum.asU64 == 1 then 2 else 1
  let oppRegistered ← read (·.isPlayerRegistered i.roundId oppNum)
  let idXorS ← fromU64Unchecked (i.p1Suffix.asU64 ^^^ i.p2Suffix.asU64)
  let idXorP ← fromU64Unchecked (i.p1Prefix.asU64 ^^^ i.p2Prefix.asU64)
  if oppRegistered.asU64 == 0 then
    write (·.storePlayerBet i.roundId i.playerNum i.h i.g faucetSuffix faucetPrefix)
    write (·.storePlayerRoundParams i.roundId i.playerNum i.betValue idXorS idXorP)
  else
    settle i faucetSuffix faucetPrefix oppNum idXorS idXorP

def run (self : Note) : Kernel cap HouseAccount Unit := do
  let i ← readInputs self.inputs
  let pn := i.playerNum.asU64
  assert (← fromU64Unchecked (pn == 1 || pn == 2).toUInt64)
  assert (← fromU64Unchecked (decide (i.h.asU64 ≤ 3)).toUInt64)
  assert (← fromU64Unchecked (decide (i.g.asU64 ≤ 6)).toUInt64)
  let assets := self.assets
  assertEq (← fromU64Unchecked (UInt64.ofNat assets.length)) 1
  let a ← index assets 0
  assertEq a.inner.e0 i.betValue
  let faucetSuffix := a.inner.e2
  let faucetPrefix := a.inner.e3
  -- only the house account may consume bet-notes
  let accountId ← getId
  let isHouse := accountId.idSuffix.asU64 == i.houseSuffix.asU64 &&
    accountId.idPrefix.asU64 == i.housePrefix.asU64
  assert (← fromU64Unchecked isHouse.toUInt64)
  receiveAsset a.inner.e0 a.inner.e1 a.inner.e2 a.inner.e3
  let currentBlock ← getBlockNumber
  let isExpired := decide (currentBlock.asU64 > i.expiryBlock.asU64)
  if isExpired then
    expiryRecall i faucetSuffix faucetPrefix
  else
    play i faucetSuffix faucetPrefix

end AllaMorra.BetNote
