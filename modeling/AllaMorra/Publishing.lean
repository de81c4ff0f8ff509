import AllaMorra.Client
import AllaMorra.History

/-! `publish_bet`: the player's program, from its arguments to the note it publishes,
and what the bet-note script reads of that note. Round and expiry are arguments of
full 64-bit range that nothing checks, and they reach the note reduced. -/

namespace AllaMorra

open BetNote

variable {cap : KernelCap} {Forest : Type}

namespace PublishBet

structure Args where
  roundId : UInt64
  playerNum : UInt64
  h : UInt64
  g : UInt64
  myId : String
  player1Id : String
  player2Id : String
  houseId : String
  faucetId : String
  betValue : UInt64
  expiryBlock : UInt64
  deriving DecidableEq, Repr

def main (sdk : Sdk) (cap : KernelCap) (notePackage : Package Forest) (serialNum : Word)
    (args : Args) : Except ClientError (ClientNote Forest × String) := do
  ensure (args.playerNum == 1 || args.playerNum == 2) "--player-num must be 1 or 2"
  ensure (args.h ≤ 3) "--h must be 0–3"
  ensure (args.g ≤ 6) "--g must be 0–6"
  ensure (args.betValue % 50 == 0) "--bet-value must be divisible by 50"
  let myId ← orMessage "invalid --my-id" (sdk.fromBech32 args.myId)
  let p1Id ← orMessage "invalid --player1-id" (sdk.fromBech32 args.player1Id)
  let p2Id ← orMessage "invalid --player2-id" (sdk.fromBech32 args.player2Id)
  let houseId ← orMessage "invalid --house-id" (sdk.fromBech32 args.houseId)
  let faucetId ← orMessage "invalid --faucet-id" (sdk.fromBech32 args.faucetId)
  let asset ← sdk.fungibleAsset cap faucetId args.betValue
  let assets ← orMessage "create note assets" (sdk.noteAssets [asset])
  let betNote ← context "create bet note" (createNoteFromPackage sdk notePackage serialNum myId
    ⟨.publicNote, 0, assets, makeNoteInputs args.roundId args.playerNum args.h args.g p1Id p2Id
      houseId args.betValue args.expiryBlock⟩)
  return (betNote, encodeWord betNote.recipient.serialNum)

structure Accounts where
  my : AccountId
  p1 : AccountId
  p2 : AccountId
  house : AccountId
  faucet : AccountId
  deriving DecidableEq, Repr

structure Accepts (sdk : Sdk) (cap : KernelCap) (args : Args) (ids : Accounts) : Prop where
  playerNum : args.playerNum = 1 ∨ args.playerNum = 2
  h_le : args.h ≤ 3
  g_le : args.g ≤ 6
  betValue : args.betValue % 50 = 0
  my : sdk.fromBech32 args.myId = some ids.my
  p1 : sdk.fromBech32 args.player1Id = some ids.p1
  p2 : sdk.fromBech32 args.player2Id = some ids.p2
  house : sdk.fromBech32 args.houseId = some ids.house
  faucet : sdk.fromBech32 args.faucetId = some ids.faucet
  asset : sdk.isFungibleFaucet ids.faucet ∧ args.betValue.toNat ≤ cap.value

theorem Accepts.betValue_lt {sdk : Sdk} {args : Args} {ids : Accounts}
    (h : Accepts sdk cap args ids) : args.betValue.toNat < Felt.modulus :=
  h.asset.2.trans_lt (cap.value_lt.trans (by decide))

def Args.note (args : Args) (package : Package Forest) (serialNum : Word) (ids : Accounts) :
    ClientNote Forest :=
  betNote package serialNum ids.my args.roundId args.playerNum args.h args.g ids.p1 ids.p2
    ids.house ids.faucet args.betValue args.expiryBlock

theorem main_eq_ok {sdk : Sdk} {package : Package Forest} {serialNum : Word} {args : Args}
    {r : ClientNote Forest × String} :
    main sdk cap package serialNum args = .ok r ↔ ∃ ids, Accepts sdk cap args ids ∧
      r = (args.note package serialNum ids, encodeWord serialNum) := by
  simp only [main, except_bind_eq_ok, ensure_eq_ok, orMessage_eq_ok, context_eq_ok,
    Sdk.fungibleAsset_eq_ok]
  constructor
  · rintro ⟨-, hnum, -, hh, -, hg, -, hbet, my, hmy, p1, hp1, p2, hp2, house, hhouse, faucet,
      hfaucet, asset, ⟨hasset, rfl⟩, assets, hassets, note, hnote, hr⟩
    obtain rfl := (createNoteFromPackage_eq_ok hassets).mp hnote
    refine ⟨⟨my, p1, p2, house, faucet⟩, ⟨?_, by simpa using hh, by simpa using hg,
      by simpa using hbet, hmy, hp1, hp2, hhouse, hfaucet, hasset⟩, (Except.ok.inj hr).symm⟩
    simpa using hnum
  · rintro ⟨⟨my, p1, p2, house, faucet⟩, hacc, rfl⟩
    refine ⟨(), by simpa using hacc.playerNum, (), by simpa using hacc.h_le, (),
      by simpa using hacc.g_le, (), by simpa using hacc.betValue, my, hacc.my, p1, hacc.p1, p2,
      hacc.p2, house, hacc.house, faucet, hacc.faucet, _, ⟨hacc.asset, rfl⟩, _,
      noteAssets_singleton .., _,
      (createNoteFromPackage_eq_ok (noteAssets_singleton ..)).mpr rfl, rfl⟩

/-- The script reads the arguments, each in its place. -/
structure Faithful (args : Args) (ids : Accounts) (i : Inputs) : Prop where
  roundId : i.roundId.asU64 = args.roundId
  playerNum : i.playerNum.asU64 = args.playerNum
  h : i.h.asU64 = args.h
  g : i.g.asU64 = args.g
  p1 : (⟨i.p1Suffix, i.p1Prefix⟩ : AccountId) = ids.p1
  p2 : (⟨i.p2Suffix, i.p2Prefix⟩ : AccountId) = ids.p2
  house : (⟨i.houseSuffix, i.housePrefix⟩ : AccountId) = ids.house
  betValue : i.betValue.asU64 = args.betValue
  expiryBlock : i.expiryBlock.asU64 = args.expiryBlock

/-- Both arguments without a check of their own are field elements as they stand. -/
def Args.Canonical (args : Args) : Prop :=
  args.roundId.toNat < Felt.modulus ∧ args.expiryBlock.toNat < Felt.modulus

instance (args : Args) : Decidable args.Canonical := inferInstanceAs (Decidable (_ ∧ _))

def Args.inputs (args : Args) (ids : Accounts) : Inputs where
  roundId := .new args.roundId
  playerNum := .new args.playerNum
  h := .new args.h
  g := .new args.g
  p1Suffix := ids.p1.idSuffix
  p1Prefix := ids.p1.idPrefix
  p2Suffix := ids.p2.idSuffix
  p2Prefix := ids.p2.idPrefix
  houseSuffix := ids.house.idSuffix
  housePrefix := ids.house.idPrefix
  betValue := .new args.betValue
  expiryBlock := .new args.expiryBlock

theorem inputs_note (args : Args) (package : Package Forest) (serialNum : Word)
    (ids : Accounts) :
    Inputs.ofList (args.note package serialNum ids).toNote.inputs = some (args.inputs ids) := rfl

theorem Accepts.faithful_iff {sdk : Sdk} {args : Args} {ids : Accounts}
    (h : Accepts sdk cap args ids) : Faithful args ids (args.inputs ids) ↔ args.Canonical := by
  have hbet := h.betValue_lt
  have hplayer : args.playerNum.toNat < Felt.modulus := by
    obtain hnum | hnum := h.playerNum <;> rw [hnum] <;> decide
  have hh : args.h.toNat < Felt.modulus :=
    (UInt64.le_iff_toNat_le.mp h.h_le).trans_lt (by decide)
  have hg : args.g.toNat < Felt.modulus :=
    (UInt64.le_iff_toNat_le.mp h.g_le).trans_lt (by decide)
  constructor
  · intro hf
    exact ⟨(Felt.asU64_new_eq_iff _).mp hf.roundId, (Felt.asU64_new_eq_iff _).mp hf.expiryBlock⟩
  · rintro ⟨hround, hexpiry⟩
    exact ⟨(Felt.asU64_new_eq_iff _).mpr hround, (Felt.asU64_new_eq_iff _).mpr hplayer,
      (Felt.asU64_new_eq_iff _).mpr hh, (Felt.asU64_new_eq_iff _).mpr hg, rfl, rfl, rfl,
      (Felt.asU64_new_eq_iff _).mpr hbet, (Felt.asU64_new_eq_iff _).mpr hexpiry⟩

theorem Args.Canonical.new_val {args : Args} (h : args.Canonical) :
    (Felt.new args.roundId).val = args.roundId.toNat ∧
      (Felt.new args.expiryBlock).val = args.expiryBlock.toNat :=
  ⟨Nat.mod_eq_of_lt h.1, Nat.mod_eq_of_lt h.2⟩

/-- For any two published notes: the script reads the first one's arguments exactly
when its round number and expiry block are below the field order. Where both are,
different rounds have no storage key in common, and the expiry blocks keep their
order. -/
theorem inputs_faithful_iff (sdk : Sdk) (package : Package Forest) (args args' : Args)
    (serialNum serialNum' : Word) (note note' : ClientNote Forest) (hex hex' : String)
    (h : main sdk cap package serialNum args = .ok (note, hex))
    (h' : main sdk cap package serialNum' args' = .ok (note', hex')) :
    ∃ ids i ids' i', Accepts sdk cap args ids ∧ Accepts sdk cap args' ids' ∧
      Inputs.ofList note.toNote.inputs = some i ∧
      Inputs.ofList note'.toNote.inputs = some i' ∧
      (Faithful args ids i ↔ args.Canonical) ∧
      (args.Canonical → args'.Canonical →
        (args.roundId ≠ args'.roundId →
          (∀ p field p' field', HouseAccount.playerKey i.roundId p field ≠
            HouseAccount.playerKey i'.roundId p' field') ∧
          HouseAccount.settledKey i.roundId ≠ HouseAccount.settledKey i'.roundId) ∧
        (args.expiryBlock ≤ args'.expiryBlock → i.expiryBlock.val ≤ i'.expiryBlock.val)) := by
  obtain ⟨ids, hacc, heq⟩ := main_eq_ok.mp h
  obtain ⟨ids', hacc', heq'⟩ := main_eq_ok.mp h'
  obtain ⟨rfl, rfl⟩ := Prod.mk.inj heq
  obtain ⟨rfl, rfl⟩ := Prod.mk.inj heq'
  refine ⟨ids, args.inputs ids, ids', args'.inputs ids', hacc, hacc', rfl, rfl, hacc.faithful_iff,
    fun hcan hcan' => ⟨fun hround => ?_, fun hexpiry => ?_⟩⟩
  · have hne : (args.inputs ids).roundId ≠ (args'.inputs ids').roundId := by
      intro heq
      have hval := congrArg Fin.val heq
      change (Felt.new _).val = (Felt.new _).val at hval
      rw [hcan.new_val.1, hcan'.new_val.1, UInt64.toNat_inj] at hval
      exact hround hval
    exact ⟨fun p field p' field' hkey => hne (congrArg Word.e0 hkey),
      fun hkey => hne (congrArg Word.e0 hkey)⟩
  · change (Felt.new _).val ≤ (Felt.new _).val
    rw [hcan.new_val.2, hcan'.new_val.2]
    exact UInt64.le_iff_toNat_le.mp hexpiry

end PublishBet

/-! Accounts of the test network, for calls with concrete arguments. -/

namespace Testnet

def house : AccountId := ⟨3953125068854587648, 13636235740408146944⟩

def faucet : AccountId := ⟨6500392049716694784, 4023288394751072288⟩

def player1 : AccountId := ⟨72623859790382848, 1885667171979194384⟩

def player2 : AccountId := ⟨1230066625199609600, 3115450110225449232⟩

def stranger : AccountId := ⟨2387509390608836352, 4345233048204317200⟩

def sdk : Sdk where
  fromBech32 s := List.lookup s
    [("mtst1az7nmfpgwjpkcqpkm3fyuwwy7y9z43w3", house),
      ("mtst1aqmat9m63ctdsgz6xcyzpuprpulwk9vg", faucet),
      ("mtst1aqdzk0zdtehhqyqpqgpsgpgxquauw0ur", player1),
      ("mtst1aq4ncn27dacgzyq3zgf3g9gkzuycl2vt", player2),
      ("mtst1aq7y6hn0wzqeyyppyg3jgffxyu5t502q", stranger)]
  -- bits four and five of the prefix are the account type
  isFungibleFaucet id := id.idPrefix.val / 16 % 4 = 2
  maxInputs := 128
  maxInputs_ge := by decide
  maxAssets := 255
  maxAssets_ge := by decide
  maxAssets_lt := by decide

def package : Package Unit := ⟨(), 0⟩

def args : PublishBet.Args where
  roundId := 42
  playerNum := 1
  h := 2
  g := 3
  myId := "mtst1aqdzk0zdtehhqyqpqgpsgpgxquauw0ur"
  player1Id := "mtst1aqdzk0zdtehhqyqpqgpsgpgxquauw0ur"
  player2Id := "mtst1aq4ncn27dacgzyq3zgf3g9gkzuycl2vt"
  houseId := "mtst1az7nmfpgwjpkcqpkm3fyuwwy7y9z43w3"
  faucetId := "mtst1aqmat9m63ctdsgz6xcyzpuprpulwk9vg"
  betValue := 1000000
  expiryBlock := 999999

def ids : PublishBet.Accounts := ⟨player1, player1, player2, house, faucet⟩

theorem accepts : PublishBet.Accepts sdk Sample.kernelCap args ids := by
  refine ⟨by decide, by decide, by decide, by decide, ?_, ?_, ?_, ?_, ?_, ?_⟩ <;> decide +kernel

/-- The same bet in a round whose number is larger by the field order. -/
def wrapped : PublishBet.Args := { args with roundId := 18446744069414584363 }

theorem accepts_wrapped : PublishBet.Accepts sdk Sample.kernelCap wrapped ids := { accepts with }

def serialNum : Word := ⟨1, 2, 3, 4⟩

theorem published : PublishBet.main sdk Sample.kernelCap package serialNum args =
    .ok (args.note package serialNum ids, encodeWord serialNum) :=
  PublishBet.main_eq_ok.mpr ⟨ids, accepts, rfl⟩

end Testnet

namespace PublishBet

theorem rounds_collide : Testnet.args.roundId ≠ Testnet.wrapped.roundId ∧ ∃ note note' hex i i',
    main Testnet.sdk Sample.kernelCap Testnet.package Testnet.serialNum Testnet.args =
      .ok (note, hex) ∧
    main Testnet.sdk Sample.kernelCap Testnet.package Testnet.serialNum Testnet.wrapped =
      .ok (note', hex) ∧
    Inputs.ofList note.toNote.inputs = some i ∧ Inputs.ofList note'.toNote.inputs = some i' ∧
    HouseAccount.settledKey i.roundId = HouseAccount.settledKey i'.roundId ∧
    ¬ Faithful Testnet.wrapped Testnet.ids i' := by
  refine ⟨by decide, _, _, _, _, _, Testnet.published,
    main_eq_ok.mpr ⟨Testnet.ids, Testnet.accepts_wrapped, rfl⟩, inputs_note .., inputs_note ..,
    by decide, ?_⟩
  rw [Testnet.accepts_wrapped.faithful_iff]
  decide

theorem inputs_faithful_sample : ∃ note hex ids i,
    main Testnet.sdk Sample.kernelCap Testnet.package Testnet.serialNum Testnet.args =
      .ok (note, hex) ∧
    Inputs.ofList note.toNote.inputs = some i ∧ Faithful Testnet.args ids i := by
  obtain ⟨ids, i, ids', i', -, -, hi, -, hfaithful, -⟩ := inputs_faithful_iff Testnet.sdk
    Testnet.package Testnet.args Testnet.args Testnet.serialNum Testnet.serialNum _ _ _ _
    Testnet.published Testnet.published
  exact ⟨_, _, ids, i, Testnet.published, hi, hfaithful.mpr (by decide)⟩

end PublishBet

end AllaMorra
