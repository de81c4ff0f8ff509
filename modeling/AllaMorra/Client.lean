import AllaMorra.Script
import AllaMorra.Serial

/-! The client side of a bet-note. Two programs build it: the player's, which draws
its serial number, and the house operator's, which rebuilds it from a typed serial
number and repeated flags. What the SDK decides, apart from hashing and compiling,
is a parameter. -/

namespace AllaMorra

variable {cap : KernelCap} {Forest : Type}

/-- `Felt::new` takes any `u64` and reduces it. -/
def Felt.new (v : UInt64) : Felt := ofNat v.toNat

theorem Felt.asU64_new_eq_iff (v : UInt64) : (Felt.new v).asU64 = v ↔ v.toNat < modulus := by
  rw [← UInt64.toNat_inj, asU64_toNat]
  change v.toNat % modulus = v.toNat ↔ _
  exact Nat.mod_eq_iff_lt (by decide)

/-- An error of the client by its outermost message; two errors of the SDK and of the
serial decoder are passed on as they are. -/
inductive ClientError where
  | message (text : String)
  | serial (error : SerialError)
  | asset
  deriving DecidableEq, Repr

def ensure (c : Bool) (text : String) : Except ClientError Unit :=
  if c then .ok () else .error (.message text)

def context {α : Type} (text : String) : Except ClientError α → Except ClientError α
  | .ok a => .ok a
  | .error _ => .error (.message text)

def orMessage {α : Type} (text : String) : Option α → Except ClientError α
  | some a => .ok a
  | none => .error (.message text)

theorem ensure_eq_ok {c : Bool} {text : String} {u : Unit} :
    ensure c text = .ok u ↔ c = true := by
  cases c <;> simp [ensure]

theorem context_eq_ok {α : Type} {text : String} {x : Except ClientError α} {a : α} :
    context text x = .ok a ↔ x = .ok a := by
  cases x <;> simp [context]

theorem orMessage_eq_ok {α : Type} {text : String} {x : Option α} {a : α} :
    orMessage text x = .ok a ↔ x = some a := by
  cases x <;> simp [orMessage]

theorem except_bind_eq_ok {ε α β : Type} {x : Except ε α} {f : α → Except ε β} {b : β} :
    x >>= f = .ok b ↔ ∃ a, x = .ok a ∧ f a = .ok b := by
  cases x <;> simp [Bind.bind, Except.bind]

theorem except_pure_eq_ok {ε α : Type} {a b : α} : (pure a : Except ε α) = .ok b ↔ a = b :=
  (Except.ok.injEq ..).to_iff

theorem mapError_eq_ok {ε δ α : Type} {f : ε → δ} {x : Except ε α} {a : α} :
    x.mapError f = .ok a ↔ x = .ok a := by
  cases x <;> simp [Except.mapError]

theorem except_toOption_eq_some {ε α : Type} {x : Except ε α} {a : α} :
    x.toOption = some a ↔ x = .ok a := by
  cases x <;> simp [Except.toOption]

structure FungibleAsset where
  faucetId : AccountId
  amount : UInt64
  deriving DecidableEq, Repr

def FungibleAsset.word (asset : FungibleAsset) : Asset :=
  ⟨⟨.new asset.amount, 0, asset.faucetId.idSuffix, asset.faucetId.idPrefix⟩⟩

/-- What the client leaves to the SDK: the reading of account names, the kind of an
account, and the sizes of a note. -/
structure Sdk where
  fromBech32 : String → Option AccountId
  isFungibleFaucet : AccountId → Bool
  maxInputs : Nat
  maxInputs_ge : 12 ≤ maxInputs
  maxAssets : Nat
  maxAssets_ge : 1 ≤ maxAssets
  maxAssets_lt : maxAssets < 2 ^ 32

structure NoteAssets where
  assets : List FungibleAsset
  assets_length : assets.length < 2 ^ 32
  deriving DecidableEq

namespace Sdk

variable (sdk : Sdk)

/-- `FungibleAsset::new`; an asset holds no more than a vault may. -/
def fungibleAsset (cap : KernelCap) (faucetId : AccountId) (amount : UInt64) :
    Except ClientError FungibleAsset :=
  if sdk.isFungibleFaucet faucetId ∧ amount.toNat ≤ cap.value then .ok ⟨faucetId, amount⟩
  else .error .asset

def noteAssets (assets : List FungibleAsset) : Option NoteAssets :=
  if h : assets.length ≤ sdk.maxAssets ∧ (assets.map FungibleAsset.faucetId).Nodup then
    some ⟨assets, h.1.trans_lt sdk.maxAssets_lt⟩
  else none

def noteInputs (inputs : List Felt) : Option (List Felt) :=
  if inputs.length ≤ sdk.maxInputs then some inputs else none

theorem fungibleAsset_eq_ok {faucetId : AccountId} {amount : UInt64} {asset : FungibleAsset} :
    sdk.fungibleAsset cap faucetId amount = .ok asset ↔
      (sdk.isFungibleFaucet faucetId ∧ amount.toNat ≤ cap.value) ∧ asset = ⟨faucetId, amount⟩ := by
  unfold fungibleAsset
  split
  · next h => simp [h, eq_comm]
  · next h => simp [h]

end Sdk

structure Package (Forest : Type) where
  mastForest : Forest
  entrypoint : Nat
  deriving DecidableEq

structure NoteScript (Forest : Type) where
  mastForest : Forest
  entrypoint : Nat
  deriving DecidableEq

inductive NoteType where
  | publicNote
  | privateNote
  deriving DecidableEq, Repr

structure NoteMetadata where
  sender : AccountId
  noteType : NoteType
  tag : UInt32
  deriving DecidableEq, Repr

structure NoteRecipient (Forest : Type) where
  serialNum : Word
  script : NoteScript Forest
  inputs : List Felt
  deriving DecidableEq

structure ClientNote (Forest : Type) where
  assets : NoteAssets
  metadata : NoteMetadata
  recipient : NoteRecipient Forest
  deriving DecidableEq

namespace ClientNote

/-- What the note ID commits to: all but the metadata. -/
def id (note : ClientNote Forest) : NoteRecipient Forest × NoteAssets :=
  (note.recipient, note.assets)

def toNote (note : ClientNote Forest) : Note where
  serialNum := note.recipient.serialNum
  inputs := note.recipient.inputs
  assets := note.assets.assets.map FungibleAsset.word
  assets_length := by
    rw [List.length_map]
    exact note.assets.assets_length

theorem toNote_congr {a b : ClientNote Forest} (h : a.id = b.id) : a.toNote = b.toNote := by
  obtain ⟨hrecipient, hassets⟩ := Prod.mk.inj h
  simp only [toNote, hrecipient, hassets]

end ClientNote

def idFelts (id : AccountId) : Felt × Felt := (id.idSuffix, id.idPrefix)

def makeNoteInputs (roundId playerNum h g : UInt64) (p1 p2 house : AccountId)
    (betValue expiryBlock : UInt64) : List Felt :=
  let (p1S, p1P) := idFelts p1
  let (p2S, p2P) := idFelts p2
  let (hsS, hsP) := idFelts house
  [.new roundId, .new playerNum, .new h, .new g, p1S, p1P, p2S, p2P, hsS, hsP, .new betValue,
    .new expiryBlock]

structure NoteCreationConfig where
  noteType : NoteType
  tag : UInt32
  assets : NoteAssets
  inputs : List Felt

/-- The serial number is what the client's generator draws. -/
def createNoteFromPackage (sdk : Sdk) (package : Package Forest) (serialNum : Word)
    (senderId : AccountId) (config : NoteCreationConfig) :
    Except ClientError (ClientNote Forest) := do
  let noteScript : NoteScript Forest := ⟨package.mastForest, package.entrypoint⟩
  let noteInputs ← orMessage "Failed to create note inputs" (sdk.noteInputs config.inputs)
  let recipient : NoteRecipient Forest := ⟨serialNum, noteScript, noteInputs⟩
  let metadata : NoteMetadata := ⟨senderId, config.noteType, config.tag⟩
  return ⟨config.assets, metadata, recipient⟩

def reconstructBetNote (sdk : Sdk) (cap : KernelCap) (notePackage : Package Forest)
    (playerNum h g : UInt64) (senderId : AccountId) (serialHex : String) (roundId : UInt64)
    (p1Id p2Id houseId faucetId : AccountId) (betValue expiryBlock : UInt64) :
    Except ClientError (ClientNote Forest) := do
  let serialNum ← (decodeWord serialHex).mapError .serial
  let noteScript : NoteScript Forest := ⟨notePackage.mastForest, notePackage.entrypoint⟩
  let inputs ← orMessage "Failed to create note inputs" (sdk.noteInputs
    (makeNoteInputs roundId playerNum h g p1Id p2Id houseId betValue expiryBlock))
  let recipient : NoteRecipient Forest := ⟨serialNum, noteScript, inputs⟩
  let metadata : NoteMetadata := ⟨senderId, .publicNote, 0⟩
  let asset ← sdk.fungibleAsset cap faucetId betValue
  let assets ← orMessage "Failed to create note assets" (sdk.noteAssets [asset])
  return ⟨assets, metadata, recipient⟩

def betNote (package : Package Forest) (serialNum : Word) (sender : AccountId)
    (roundId playerNum h g : UInt64) (p1 p2 house faucet : AccountId)
    (betValue expiryBlock : UInt64) : ClientNote Forest where
  assets := ⟨[⟨faucet, betValue⟩], by simp⟩
  metadata := ⟨sender, .publicNote, 0⟩
  recipient := ⟨serialNum, ⟨package.mastForest, package.entrypoint⟩,
    makeNoteInputs roundId playerNum h g p1 p2 house betValue expiryBlock⟩

theorem noteAssets_singleton (sdk : Sdk) (asset : FungibleAsset) :
    sdk.noteAssets [asset] = some ⟨[asset], by simp⟩ :=
  dif_pos ⟨sdk.maxAssets_ge, List.nodup_singleton _⟩

theorem noteInputs_makeNoteInputs (sdk : Sdk) (roundId playerNum h g : UInt64)
    (p1 p2 house : AccountId) (betValue expiryBlock : UInt64) :
    sdk.noteInputs (makeNoteInputs roundId playerNum h g p1 p2 house betValue expiryBlock) =
      some (makeNoteInputs roundId playerNum h g p1 p2 house betValue expiryBlock) :=
  if_pos sdk.maxInputs_ge

theorem createNoteFromPackage_eq_ok {sdk : Sdk} {package : Package Forest} {serialNum : Word}
    {sender p1 p2 house faucet : AccountId} {roundId playerNum h g betValue expiryBlock : UInt64}
    {assets : NoteAssets} (hassets : sdk.noteAssets [⟨faucet, betValue⟩] = some assets)
    {note : ClientNote Forest} :
    createNoteFromPackage sdk package serialNum sender ⟨.publicNote, 0, assets,
        makeNoteInputs roundId playerNum h g p1 p2 house betValue expiryBlock⟩ = .ok note ↔
      note = betNote package serialNum sender roundId playerNum h g p1 p2 house faucet betValue
        expiryBlock := by
  rw [noteAssets_singleton] at hassets
  obtain rfl := Option.some.inj hassets
  rw [createNoteFromPackage, noteInputs_makeNoteInputs]
  exact (Except.ok.injEq ..).to_iff.trans eq_comm

theorem reconstructBetNote_eq_ok {sdk : Sdk} {package : Package Forest} {serialHex : String}
    {sender p1 p2 house faucet : AccountId} {roundId playerNum h g betValue expiryBlock : UInt64}
    {note : ClientNote Forest} :
    reconstructBetNote sdk cap package playerNum h g sender serialHex roundId p1 p2 house faucet
        betValue expiryBlock = .ok note ↔
      ∃ serialNum, decodeWord serialHex = .ok serialNum ∧
        (sdk.isFungibleFaucet faucet ∧ betValue.toNat ≤ cap.value) ∧
        note = betNote package serialNum sender roundId playerNum h g p1 p2 house faucet betValue
          expiryBlock := by
  simp only [reconstructBetNote, except_bind_eq_ok, orMessage_eq_ok, mapError_eq_ok,
    noteInputs_makeNoteInputs, Sdk.fungibleAsset_eq_ok]
  constructor
  · rintro ⟨serialNum, hserial, inputs, hinputs, asset, ⟨hasset, rfl⟩, assets, hassets, hnote⟩
    rw [noteAssets_singleton] at hassets
    obtain rfl := Option.some.inj hinputs
    obtain rfl := Option.some.inj hassets
    exact ⟨serialNum, hserial, hasset, (Except.ok.inj hnote).symm⟩
  · rintro ⟨serialNum, hserial, hasset, rfl⟩
    exact ⟨serialNum, hserial, _, rfl, _, ⟨hasset, rfl⟩, _, noteAssets_singleton .., rfl⟩

end AllaMorra
