import AllaMorra.Felt

/-! The part of the Miden transaction kernel that the two contracts call:
the account's storage map and asset vault, the notes a transaction consumes
and creates, and the assertions that abort it. A kernel procedure threads the
transaction state and aborts with `none`; an aborted transaction has no
effect. The vault holds fungible assets, whose word is
`[amount, 0, faucet suffix, faucet prefix]`. -/

namespace AllaMorra

/-- A storage map reads zero at every key that was never set. -/
structure StorageMap where
  lookup : Word → Felt

namespace StorageMap

def empty : StorageMap := ⟨fun _ => 0⟩

def get (m : StorageMap) (key : Word) : Felt := m.lookup key

def set (m : StorageMap) (key : Word) (value : Felt) : StorageMap :=
  ⟨Function.update m.lookup key value⟩

theorem get_set (m : StorageMap) (key : Word) (value : Felt) (k : Word) :
    (m.set key value).get k = if k = key then value else m.get k :=
  Function.update_apply ..

theorem get_set_of_ne (m : StorageMap) {key k : Word} (value : Felt) (h : k ≠ key) :
    (m.set key value).get k = m.get k := by
  rw [get_set, if_neg h]

@[ext] theorem ext {m m' : StorageMap} (h : ∀ k, m.get k = m'.get k) : m = m' := by
  cases m
  cases m'
  exact congrArg StorageMap.mk (funext h)

end StorageMap

/-- The limits of the kernel: the largest balance of one faucet in a vault, and how
many notes a transaction consumes and creates. -/
structure KernelCap where
  value : Nat
  value_lt : value < 2 ^ 63
  inputNotes : Nat
  inputNotes_ge : 2 ≤ inputNotes
  outputNotes : Nat
  outputNotes_ge : 2 ≤ outputNotes

variable {cap : KernelCap}

structure AssetVault (cap : KernelCap) where
  balance : AccountId → Nat
  balance_le : ∀ faucet, balance faucet ≤ cap.value

namespace AssetVault

@[ext] theorem ext {v v' : AssetVault cap} (h : ∀ f, v.balance f = v'.balance f) : v = v' := by
  cases v
  cases v'
  simpa only [mk.injEq] using funext h

def empty : AssetVault cap := ⟨fun _ => 0, fun _ => Nat.zero_le _⟩

def add (v : AssetVault cap) (faucet : AccountId) (amount : Nat) : Option (AssetVault cap) :=
  if h : v.balance faucet + amount ≤ cap.value then
    some ⟨Function.update v.balance faucet (v.balance faucet + amount), fun f => by
      rw [Function.update_apply]
      split
      · exact h
      · exact v.balance_le f⟩
  else none

def remove (v : AssetVault cap) (faucet : AccountId) (amount : Nat) : Option (AssetVault cap) :=
  if amount ≤ v.balance faucet then
    some ⟨Function.update v.balance faucet (v.balance faucet - amount), fun f => by
      have hf := v.balance_le f
      rw [Function.update_apply]
      split
      · next heq => subst heq; omega
      · exact hf⟩
  else none

theorem add_eq_some {v v' : AssetVault cap} {faucet : AccountId} {amount : Nat} :
    v.add faucet amount = some v' ↔ v.balance faucet + amount ≤ cap.value ∧
      ∀ f, v'.balance f = v.balance f + if f = faucet then amount else 0 := by
  unfold add
  split
  · next h =>
    simp only [Option.some.injEq, h, true_and]
    constructor
    · rintro rfl f
      by_cases hf : f = faucet <;> simp [hf]
    · intro hv
      ext f
      by_cases hf : f = faucet <;> simp [hf, hv]
  · next h => simp [h]

theorem remove_eq_some {v v' : AssetVault cap} {faucet : AccountId} {amount : Nat} :
    v.remove faucet amount = some v' ↔ amount ≤ v.balance faucet ∧
      ∀ f, v'.balance f + (if f = faucet then amount else 0) = v.balance f := by
  unfold remove
  split
  · next h =>
    simp only [Option.some.injEq, h, true_and]
    constructor
    · rintro rfl f
      by_cases hf : f = faucet
      · subst hf; simp [h]
      · simp [hf]
    · intro hv
      ext f
      have hf' := hv f
      by_cases hf : f = faucet
      · subst hf; simp at hf' ⊢; omega
      · simpa [Function.update_apply, hf] using hf'.symm
  · next h => simp [h]

theorem add_isSome (v : AssetVault cap) (faucet : AccountId) (amount : Nat)
    (h : v.balance faucet + amount ≤ cap.value) : ∃ v', v.add faucet amount = some v' :=
  ⟨_, dif_pos h⟩

theorem remove_isSome (v : AssetVault cap) (faucet : AccountId) (amount : Nat)
    (h : amount ≤ v.balance faucet) : ∃ v', v.remove faucet amount = some v' :=
  ⟨_, if_pos h⟩

theorem remove_zero (v : AssetVault cap) (faucet : AccountId) : v.remove faucet 0 = some v :=
  remove_eq_some.mpr ⟨Nat.zero_le _, fun f => by simp⟩

theorem remove_add {v v' : AssetVault cap} {faucet : AccountId} {amount : Nat}
    (h : v.add faucet amount = some v') : v'.remove faucet amount = some v := by
  obtain ⟨-, hv⟩ := add_eq_some.mp h
  refine remove_eq_some.mpr ⟨?_, fun f => (hv f).symm⟩
  have := hv faucet
  simp only [if_true] at this
  omega

theorem add_add (v : AssetVault cap) (faucet : AccountId) (m n : Nat) :
    (v.add faucet m).bind (fun v' => v'.add faucet n) = v.add faucet (m + n) := by
  ext v''
  rw [Option.bind_eq_some_iff, add_eq_some]
  constructor
  · rintro ⟨v', h₁, h₂⟩
    obtain ⟨-, hv⟩ := add_eq_some.mp h₁
    obtain ⟨hle, hv'⟩ := add_eq_some.mp h₂
    have hb := hv faucet
    simp only [if_true] at hb
    refine ⟨by omega, fun f => ?_⟩
    have h₁ := hv f
    have h₂ := hv' f
    split_ifs at h₁ h₂ ⊢ <;> omega
  · rintro ⟨hle, hv⟩
    obtain ⟨v', h₁⟩ := add_isSome v faucet m (by omega)
    obtain ⟨-, hv'⟩ := add_eq_some.mp h₁
    refine ⟨v', h₁, add_eq_some.mpr ⟨?_, fun f => ?_⟩⟩
    · have hb := hv' faucet
      simp only [if_true] at hb
      omega
    · have h₁ := hv f
      have h₂ := hv' f
      split_ifs at h₁ h₂ ⊢ <;> omega

theorem remove_remove (v : AssetVault cap) (faucet : AccountId) (m n : Nat) :
    (v.remove faucet m).bind (fun v' => v'.remove faucet n) = v.remove faucet (m + n) := by
  ext v''
  rw [Option.bind_eq_some_iff, remove_eq_some]
  constructor
  · rintro ⟨v', h₁, h₂⟩
    obtain ⟨hle, hv⟩ := remove_eq_some.mp h₁
    obtain ⟨hle', hv'⟩ := remove_eq_some.mp h₂
    have hb := hv faucet
    simp only [if_true] at hb
    refine ⟨by omega, fun f => ?_⟩
    have h₁ := hv f
    have h₂ := hv' f
    split_ifs at h₁ h₂ ⊢ <;> omega
  · rintro ⟨hle, hv⟩
    obtain ⟨v', h₁⟩ := remove_isSome v faucet m (by omega)
    obtain ⟨-, hv'⟩ := remove_eq_some.mp h₁
    refine ⟨v', h₁, remove_eq_some.mpr ⟨?_, fun f => ?_⟩⟩
    · have hb := hv' faucet
      simp only [if_true] at hb
      omega
    · have h₁ := hv f
      have h₂ := hv' f
      split_ifs at h₁ h₂ ⊢ <;> omega

end AssetVault

/-- A fungible asset as its word `[amount, 0, faucet suffix, faucet prefix]`. -/
structure Asset where
  inner : Word
  deriving DecidableEq, Repr

namespace Asset

def amount (a : Asset) : Nat := a.inner.e0.val

def faucet (a : Asset) : AccountId := ⟨a.inner.e2, a.inner.e3⟩

def IsFungible (a : Asset) : Prop := a.inner.e1 = 0

instance (a : Asset) : Decidable a.IsFungible := inferInstanceAs (Decidable (a.inner.e1 = 0))

end Asset

/-- A note under consumption. `get_assets` returns a vector, whose length is a
32-bit `usize` on the contract target. -/
structure Note where
  serialNum : Word
  inputs : List Felt
  assets : List Asset
  assets_length : assets.length < 2 ^ 32
  deriving DecidableEq

/-- What a recipient digest commits to. -/
structure Recipient where
  serialNum : Word
  scriptRoot : Word
  inputs : List Felt
  deriving DecidableEq, Repr

structure OutputNote where
  tag : Felt
  noteType : Felt
  recipient : Recipient
  assets : List Asset
  deriving DecidableEq, Repr

def OutputNote.id (n : OutputNote) : Recipient × List Asset := (n.recipient, n.assets)

structure Account (cap : KernelCap) (Storage : Type) where
  id : AccountId
  storage : Storage
  vault : AssetVault cap

structure TxState (cap : KernelCap) (Storage : Type) where
  blockNumber : Felt
  account : Account cap Storage
  outputNotes : List OutputNote

namespace TxState

variable {Storage : Type} (t : TxState cap Storage)

def setStorage (storage : Storage) : TxState cap Storage :=
  { t with account := { t.account with storage := storage } }

def setVault (vault : AssetVault cap) : TxState cap Storage :=
  { t with account := { t.account with vault := vault } }

def emit (notes : List OutputNote) : TxState cap Storage :=
  { t with outputNotes := t.outputNotes ++ notes }

end TxState

/-- A procedure of the transaction; `none` aborts the whole transaction. -/
abbrev Kernel (cap : KernelCap) (Storage : Type) := StateT (TxState cap Storage) Option

namespace Kernel

variable {Storage : Type}

/-- `assert` accepts the field element one only. -/
def assert (f : Felt) : Kernel cap Storage Unit := if f = 1 then pure () else failure

def assertEq (a b : Felt) : Kernel cap Storage Unit := if a = b then pure () else failure

def fromU64Unchecked (v : UInt64) : Kernel cap Storage Felt :=
  match Felt.fromU64Unchecked v with
  | some a => pure a
  | none => failure

/-- Indexing a vector out of bounds traps. -/
def index {α : Type} (xs : List α) (i : Nat) : Kernel cap Storage α :=
  match xs[i]? with
  | some x => pure x
  | none => failure

def getId : Kernel cap Storage AccountId := do return (← get).account.id

def getBlockNumber : Kernel cap Storage Felt := do return (← get).blockNumber

/-- A `&self` method of the account's component. -/
def read {α : Type} (f : Storage → α) : Kernel cap Storage α := do
  return f (← get).account.storage

/-- A `&mut self` method of the account's component that writes storage only. -/
def write (f : Storage → Storage) : Kernel cap Storage Unit :=
  modify fun t => t.setStorage (f t.account.storage)

def addAsset (asset : Asset) : Kernel cap Storage Unit := do
  let t ← get
  if asset.IsFungible then
    match t.account.vault.add asset.faucet asset.amount with
    | some vault => set (t.setVault vault)
    | none => failure
  else failure

def removeAsset (asset : Asset) : Kernel cap Storage Unit := do
  let t ← get
  if asset.IsFungible then
    match t.account.vault.remove asset.faucet asset.amount with
    | some vault => set (t.setVault vault)
    | none => failure
  else failure

/-- `output_note::create` returns the index of a new note without assets. -/
def createNote (tag noteType : Felt) (recipient : Recipient) : Kernel cap Storage Nat := do
  let t ← get
  set (t.emit [⟨tag, noteType, recipient, []⟩])
  return t.outputNotes.length

def addNoteAsset (asset : Asset) (noteIdx : Nat) : Kernel cap Storage Unit := do
  let t ← get
  if noteIdx < t.outputNotes.length then
    let notes := t.outputNotes.modify noteIdx
      fun note => { note with assets := note.assets ++ [asset] }
    set { t with outputNotes := notes }
  else failure

theorem bind_guard {α β : Type} {c : Prop} [Decidable c] (x : α) (f : α → Option β) :
    (if c then some x else none).bind f = if c then f x else none := by
  split <;> rfl

variable (t : TxState cap Storage)

@[simp] theorem run_assert (f : Felt) :
    (assert f : Kernel cap Storage Unit).run t = if f = 1 then some ((), t) else none := by
  unfold assert
  split <;> rfl

@[simp] theorem run_assertEq (a b : Felt) :
    (assertEq a b : Kernel cap Storage Unit).run t = if a = b then some ((), t) else none := by
  unfold assertEq
  split <;> rfl

@[simp] theorem run_fromU64Unchecked (v : UInt64) :
    (fromU64Unchecked v : Kernel cap Storage Felt).run t =
      (Felt.fromU64Unchecked v).map fun a => (a, t) := by
  unfold fromU64Unchecked
  cases Felt.fromU64Unchecked v <;> rfl

@[simp] theorem run_index {α : Type} (xs : List α) (i : Nat) :
    (index xs i : Kernel cap Storage α).run t = xs[i]?.map fun x => (x, t) := by
  unfold index
  cases xs[i]? <;> rfl

@[simp] theorem run_getId :
    (getId : Kernel cap Storage AccountId).run t = some (t.account.id, t) := rfl

@[simp] theorem run_getBlockNumber :
    (getBlockNumber : Kernel cap Storage Felt).run t = some (t.blockNumber, t) := rfl

@[simp] theorem run_read {α : Type} (f : Storage → α) :
    (read f : Kernel cap Storage α).run t = some (f t.account.storage, t) := rfl

@[simp] theorem run_write (f : Storage → Storage) :
    (write f : Kernel cap Storage Unit).run t =
      some ((), t.setStorage (f t.account.storage)) := rfl

theorem run_addAsset (asset : Asset) :
    (addAsset asset : Kernel cap Storage Unit).run t =
      if asset.IsFungible then
        (t.account.vault.add asset.faucet asset.amount).map fun vault => ((), t.setVault vault)
      else none := by
  simp only [addAsset, StateT.run_bind, StateT.run_get, Option.pure_def, Option.bind_eq_bind,
    Option.bind_some]
  split
  · cases t.account.vault.add asset.faucet asset.amount <;> rfl
  · rfl

theorem run_removeAsset (asset : Asset) :
    (removeAsset asset : Kernel cap Storage Unit).run t =
      if asset.IsFungible then
        (t.account.vault.remove asset.faucet asset.amount).map fun vault => ((), t.setVault vault)
      else none := by
  simp only [removeAsset, StateT.run_bind, StateT.run_get, Option.pure_def, Option.bind_eq_bind,
    Option.bind_some]
  split
  · cases t.account.vault.remove asset.faucet asset.amount <;> rfl
  · rfl

@[simp] theorem run_createNote (tag noteType : Felt) (recipient : Recipient) :
    (createNote tag noteType recipient : Kernel cap Storage Nat).run t =
      some (t.outputNotes.length, t.emit [⟨tag, noteType, recipient, []⟩]) := rfl

theorem run_addNoteAsset_emit (asset : Asset) (note : OutputNote) :
    (addNoteAsset asset t.outputNotes.length : Kernel cap Storage Unit).run (t.emit [note]) =
      some ((), t.emit [{ note with assets := note.assets ++ [asset] }]) := by
  have hlt : t.outputNotes.length < (t.emit [note]).outputNotes.length := by
    simp [TxState.emit]
  simp only [addNoteAsset, StateT.run_bind, StateT.run_get, Option.pure_def, Option.bind_eq_bind,
    Option.bind_some, hlt, if_true]
  simp [TxState.emit, List.modify_eq_take_drop]

end Kernel

end AllaMorra
