import AllaMorra.Publishing

/-! `settle_round`: the house operator's program, up to the transaction it submits.
It announces an outcome and rebuilds both notes from the flags the players repeat to
it. A rebuilt note is the published one but for its sender, which one side takes from
`--my-id` and the other from the player's own flag. -/

namespace AllaMorra

variable {cap : KernelCap} {Forest : Type}

namespace SettleRound

structure Args where
  roundId : UInt64
  houseId : String
  faucetId : String
  player1Id : String
  p1H : UInt64
  p1G : UInt64
  p1Serial : String
  player2Id : String
  p2H : UInt64
  p2G : UInt64
  p2Serial : String
  betValue : UInt64
  expiryBlock : UInt64
  deriving DecidableEq, Repr

structure Accounts where
  house : AccountId
  faucet : AccountId
  p1 : AccountId
  p2 : AccountId
  deriving DecidableEq, Repr

inductive Outcome where
  | p1Wins (payout : UInt64)
  | p2Wins (payout : UInt64)
  | draw (each : UInt64)
  deriving DecidableEq, Repr

def Outcome.text : Outcome → String
  | .p1Wins payout => s!"P1 WINS — payout {payout} base units"
  | .p2Wins payout => s!"P2 WINS — payout {payout} base units"
  | .draw each => s!"DRAW — {each} base units each"

namespace Args

variable (args : Args)

def h : Player → UInt64
  | .one => args.p1H
  | .two => args.p2H

def g : Player → UInt64
  | .one => args.p1G
  | .two => args.p2G

def serial : Player → String
  | .one => args.p1Serial
  | .two => args.p2Serial

def accounts (sdk : Sdk) : Except ClientError Accounts := do
  let houseId ← orMessage "invalid --house-id" (sdk.fromBech32 args.houseId)
  let faucetId ← orMessage "invalid --faucet-id" (sdk.fromBech32 args.faucetId)
  let p1Id ← orMessage "invalid --player1-id" (sdk.fromBech32 args.player1Id)
  let p2Id ← orMessage "invalid --player2-id" (sdk.fromBech32 args.player2Id)
  return ⟨houseId, faucetId, p1Id, p2Id⟩

def outcome : Outcome :=
  let total := args.p1H + args.p2H
  let winnerPayout := args.betValue * 2 - args.betValue * 2 / 100
  if args.p1G == total && args.p2G != total then .p1Wins winnerPayout
  else if args.p2G == total && args.p1G != total then .p2Wins winnerPayout
  else .draw (winnerPayout / 2)

def reconstruct (sdk : Sdk) (cap : KernelCap) (notePackage : Package Forest) (ids : Accounts) :
    Player → Except ClientError (ClientNote Forest)
  | .one => reconstructBetNote sdk cap notePackage 1 args.p1H args.p1G ids.p1 args.p1Serial
      args.roundId ids.p1 ids.p2 ids.house ids.faucet args.betValue args.expiryBlock
  | .two => reconstructBetNote sdk cap notePackage 2 args.p2H args.p2G ids.p2 args.p2Serial
      args.roundId ids.p1 ids.p2 ids.house ids.faucet args.betValue args.expiryBlock

end Args

structure Plan (Forest : Type) where
  ids : Accounts
  outcome : String
  note1 : ClientNote Forest
  note2 : ClientNote Forest

def main (sdk : Sdk) (cap : KernelCap) (notePackage : Package Forest) (args : Args) :
    Except ClientError (Plan Forest) := do
  let ids ← args.accounts sdk
  let outcome := args.outcome.text
  let note1 ← context "reconstruct P1 note" (args.reconstruct sdk cap notePackage ids .one)
  let note2 ← context "reconstruct P2 note" (args.reconstruct sdk cap notePackage ids .two)
  return ⟨ids, outcome, note1, note2⟩

def num : Player → UInt64
  | .one => 1
  | .two => 2

def Accounts.player (ids : Accounts) : Player → AccountId
  | .one => ids.p1
  | .two => ids.p2

def Args.note (args : Args) (package : Package Forest) (serialNum : Word) (ids : Accounts)
    (p : Player) : ClientNote Forest :=
  betNote package serialNum (ids.player p) args.roundId (num p) (args.h p) (args.g p) ids.p1 ids.p2
    ids.house ids.faucet args.betValue args.expiryBlock

theorem Args.accounts_eq_ok {args : Args} {sdk : Sdk} {ids : Accounts} :
    args.accounts sdk = .ok ids ↔ sdk.fromBech32 args.houseId = some ids.house ∧
      sdk.fromBech32 args.faucetId = some ids.faucet ∧
      sdk.fromBech32 args.player1Id = some ids.p1 ∧
      sdk.fromBech32 args.player2Id = some ids.p2 := by
  simp only [accounts, except_bind_eq_ok, orMessage_eq_ok]
  constructor
  · rintro ⟨house, hhouse, faucet, hfaucet, p1, hp1, p2, hp2, hids⟩
    obtain rfl := Except.ok.inj hids
    exact ⟨hhouse, hfaucet, hp1, hp2⟩
  · rintro ⟨hhouse, hfaucet, hp1, hp2⟩
    exact ⟨_, hhouse, _, hfaucet, _, hp1, _, hp2, rfl⟩

theorem Args.reconstruct_eq_ok {args : Args} {sdk : Sdk} {package : Package Forest}
    {ids : Accounts} {p : Player} {note : ClientNote Forest} :
    args.reconstruct sdk cap package ids p = .ok note ↔
      ∃ serialNum, decodeWord (args.serial p) = .ok serialNum ∧
        (sdk.isFungibleFaucet ids.faucet ∧ args.betValue.toNat ≤ cap.value) ∧
        note = args.note package serialNum ids p := by
  cases p with
  | one => exact reconstructBetNote_eq_ok
  | two => exact reconstructBetNote_eq_ok

theorem main_eq_ok {args : Args} {sdk : Sdk} {package : Package Forest} {plan : Plan Forest} :
    main sdk cap package args = .ok plan ↔ ∃ (ids : Accounts) (serialNums : Player → Word),
      args.accounts sdk = .ok ids ∧ (∀ p, decodeWord (args.serial p) = .ok (serialNums p)) ∧
      (sdk.isFungibleFaucet ids.faucet ∧ args.betValue.toNat ≤ cap.value) ∧
      plan = ⟨ids, args.outcome.text, args.note package (serialNums .one) ids .one,
        args.note package (serialNums .two) ids .two⟩ := by
  simp only [main, except_bind_eq_ok, context_eq_ok, Args.reconstruct_eq_ok]
  constructor
  · rintro ⟨ids, hids, note1, ⟨serial1, hserial1, hasset, rfl⟩, note2, ⟨serial2, hserial2, -, rfl⟩,
      hplan⟩
    refine ⟨ids, Player.pick serial1 serial2, hids, fun p => ?_, hasset,
      (Except.ok.inj hplan).symm⟩
    cases p with
    | one => exact hserial1
    | two => exact hserial2
  · rintro ⟨ids, serialNums, hids, hserial, hasset, rfl⟩
    exact ⟨ids, hids, _, ⟨_, hserial .one, hasset, rfl⟩, _, ⟨_, hserial .two, hasset, rfl⟩, rfl⟩

/-- The operator repeats the flags of one player and types in the serial number that
player was shown. -/
structure Repeats (p : Player) (bet : PublishBet.Args) (serialHex : String) (args : Args) : Prop
    where
  playerNum : bet.playerNum = num p
  roundId : args.roundId = bet.roundId
  h : args.h p = bet.h
  g : args.g p = bet.g
  serial : args.serial p = serialHex
  player1Id : args.player1Id = bet.player1Id
  player2Id : args.player2Id = bet.player2Id
  houseId : args.houseId = bet.houseId
  faucetId : args.faucetId = bet.faucetId
  betValue : args.betValue = bet.betValue
  expiryBlock : args.expiryBlock = bet.expiryBlock

def playerId (bet : PublishBet.Args) : Player → String
  | .one => bet.player1Id
  | .two => bet.player2Id

/-- Whatever `publish_bet` publishes, the house rebuilds with the same script, serial
number, inputs and assets, hence the same ID, and with the same type and tag. It is
the same note exactly when `--my-id` names the account of the player who plays. -/
theorem reconstructed_iff (sdk : Sdk) (package : Package Forest) (bet : PublishBet.Args)
    (serialNum : Word) (note : ClientNote Forest) (serialHex : String)
    (h : PublishBet.main sdk cap package serialNum bet = .ok (note, serialHex)) (p : Player)
    (args : Args) (hargs : Repeats p bet serialHex args) :
    ∃ ids note', args.accounts sdk = .ok ids ∧
      args.reconstruct sdk cap package ids p = .ok note' ∧
      note'.recipient = note.recipient ∧ note'.assets = note.assets ∧ note'.id = note.id ∧
      note'.metadata.noteType = note.metadata.noteType ∧ note'.metadata.tag = note.metadata.tag ∧
      (note' = note ↔ sdk.fromBech32 bet.myId = sdk.fromBech32 (playerId bet p)) := by
  obtain ⟨pids, hacc, heq⟩ := PublishBet.main_eq_ok.mp h
  obtain ⟨rfl, rfl⟩ := Prod.mk.inj heq
  let ids : Accounts := ⟨pids.house, pids.faucet, pids.p1, pids.p2⟩
  have hids : args.accounts sdk = .ok ids :=
    Args.accounts_eq_ok.mpr ⟨hargs.houseId ▸ hacc.house, hargs.faucetId ▸ hacc.faucet,
      hargs.player1Id ▸ hacc.p1, hargs.player2Id ▸ hacc.p2⟩
  have hnote : args.reconstruct sdk cap package ids p = .ok (args.note package serialNum ids p) :=
    Args.reconstruct_eq_ok.mpr ⟨serialNum, hargs.serial ▸ decodeWord_encodeWord serialNum,
      hargs.betValue ▸ hacc.asset, rfl⟩
  -- the same values on both sides, but for the sender
  have hsame : args.note package serialNum ids p =
      { bet.note package serialNum pids with
        metadata := ⟨ids.player p, .publicNote, 0⟩ } := by
    simp only [Args.note, hargs.roundId, hargs.h, hargs.g, hargs.betValue, hargs.expiryBlock,
      ← hargs.playerNum]
    rfl
  have hplayer : sdk.fromBech32 (playerId bet p) = some (ids.player p) := by
    cases p with
    | one => exact hacc.p1
    | two => exact hacc.p2
  refine ⟨ids, _, hids, hnote, ?_⟩
  rw [hsame, hacc.my, hplayer]
  refine ⟨rfl, rfl, rfl, rfl, rfl, ?_⟩
  constructor
  · intro hnote
    exact congrArg some (congrArg (fun n => n.metadata.sender) hnote).symm
  · intro hmy
    rw [← Option.some.inj hmy]
    rfl

end SettleRound

namespace Testnet

def foreign : PublishBet.Args := { args with myId := "mtst1aq7y6hn0wzqeyyppyg3jgffxyu5t502q" }

theorem accepts_foreign :
    PublishBet.Accepts sdk Sample.kernelCap foreign { ids with my := stranger } :=
  { accepts with my := by decide +kernel }

def settleArgs : SettleRound.Args where
  roundId := 42
  houseId := args.houseId
  faucetId := args.faucetId
  player1Id := args.player1Id
  p1H := 2
  p1G := 3
  p1Serial := encodeWord serialNum
  player2Id := args.player2Id
  p2H := 1
  p2G := 0
  p2Serial := encodeWord ⟨5, 6, 7, 8⟩
  betValue := 1000000
  expiryBlock := 999999

def accounts : SettleRound.Accounts := ⟨house, faucet, player1, player2⟩

theorem settle_accounts : settleArgs.accounts sdk = .ok accounts :=
  SettleRound.Args.accounts_eq_ok.mpr ⟨accepts.house, accepts.faucet, accepts.p1, accepts.p2⟩

theorem repeats : SettleRound.Repeats .one args (encodeWord serialNum) settleArgs :=
  ⟨rfl, rfl, rfl, rfl, rfl, rfl, rfl, rfl, rfl, rfl, rfl⟩

theorem settle_reconstruct : settleArgs.reconstruct sdk Sample.kernelCap package accounts .one =
    .ok (settleArgs.note package serialNum accounts .one) :=
  SettleRound.Args.reconstruct_eq_ok.mpr
    ⟨serialNum, decodeWord_encodeWord serialNum, accepts.asset, rfl⟩

end Testnet

namespace SettleRound

theorem sender_lost : ∃ note note' hex,
    PublishBet.main Testnet.sdk Sample.kernelCap Testnet.package Testnet.serialNum
      Testnet.foreign = .ok (note, hex) ∧
    Repeats .one Testnet.foreign hex Testnet.settleArgs ∧
    Testnet.settleArgs.accounts Testnet.sdk = .ok Testnet.accounts ∧
    Testnet.settleArgs.reconstruct Testnet.sdk Sample.kernelCap Testnet.package Testnet.accounts
      .one = .ok note' ∧
    note.metadata.sender = Testnet.stranger ∧ note'.metadata.sender = Testnet.player1 ∧
    note' ≠ note := by
  refine ⟨_, _, _, PublishBet.main_eq_ok.mpr ⟨_, Testnet.accepts_foreign, rfl⟩,
    ⟨rfl, rfl, rfl, rfl, rfl, rfl, rfl, rfl, rfl, rfl, rfl⟩, Testnet.settle_accounts,
    Testnet.settle_reconstruct, rfl, rfl, fun hnote => ?_⟩
  have hsender := congrArg (fun n => n.metadata.sender) hnote
  exact absurd hsender (by decide)

theorem reconstructed_sample : ∃ ids,
    Testnet.settleArgs.reconstruct Testnet.sdk Sample.kernelCap Testnet.package ids .one =
      .ok (Testnet.args.note Testnet.package Testnet.serialNum Testnet.ids) := by
  obtain ⟨ids, note', -, hnote, -, -, -, -, -, heq⟩ := reconstructed_iff Testnet.sdk
    Testnet.package Testnet.args Testnet.serialNum _ _ Testnet.published .one Testnet.settleArgs
    Testnet.repeats
  exact ⟨ids, by rw [hnote, heq.mpr rfl]⟩

end SettleRound

end AllaMorra
