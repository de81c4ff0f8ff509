import AllaMorra.Hex
import AllaMorra.Felt

/-! Serial numbers as text. A player reads a note's serial number off the screen as
64 hex digits, and the house types them in again to rebuild the note. Each of the
four field elements is eight little-endian bytes. -/

namespace AllaMorra

def u64ToLeBytes (v : UInt64) : List UInt8 := Hex.toLeBytes 8 v.toNat

def u64FromLeBytes (bytes : List UInt8) : UInt64 := UInt64.ofNat (Hex.ofLeBytes bytes)

def Felt.tryFrom (v : UInt64) : Option Felt :=
  if h : v.toNat < Felt.modulus then some ⟨v.toNat, h⟩ else none

theorem Felt.tryFrom_eq_some {v : UInt64} {f : Felt} : Felt.tryFrom v = some f ↔ f.asU64 = v := by
  unfold Felt.tryFrom
  split
  · next h =>
    rw [Option.some.injEq, ← UInt64.toNat_inj, asU64_toNat, Fin.ext_iff]
    exact eq_comm
  · next h =>
    simp only [reduceCtorEq, false_iff]
    rintro rfl
    rw [asU64_toNat] at h
    exact h f.isLt

def Word.tryFrom (a b c d : UInt64) : Option Word := do
  let e0 ← Felt.tryFrom a
  let e1 ← Felt.tryFrom b
  let e2 ← Felt.tryFrom c
  let e3 ← Felt.tryFrom d
  return ⟨e0, e1, e2, e3⟩

theorem Word.tryFrom_eq_some {a b c d : UInt64} {w : Word} :
    Word.tryFrom a b c d = some w ↔
      w.e0.asU64 = a ∧ w.e1.asU64 = b ∧ w.e2.asU64 = c ∧ w.e3.asU64 = d := by
  simp only [Word.tryFrom, Option.bind_eq_bind, Option.bind_eq_some_iff, Felt.tryFrom_eq_some,
    Option.pure_def, Option.some.injEq]
  constructor
  · rintro ⟨e0, h0, e1, h1, e2, h2, e3, h3, rfl⟩
    exact ⟨h0, h1, h2, h3⟩
  · rintro ⟨h0, h1, h2, h3⟩
    exact ⟨_, h0, _, h1, _, h2, _, h3, rfl⟩

inductive SerialError where
  | invalidHex
  | wrongLength (got : Nat)
  | invalidWord
  deriving DecidableEq, Repr

/-- The outermost message; the source appends the cause to the first and the last. -/
def SerialError.message : SerialError → String
  | .invalidHex => "invalid hex in serial"
  | .wrongLength got => s!"serial must be 64 hex chars (got {got})"
  | .invalidWord => "invalid word"

def wordBytes (word : Word) : List UInt8 :=
  [word.e0, word.e1, word.e2, word.e3].flatMap fun f => u64ToLeBytes f.asU64

def encodeWord (word : Word) : String := String.ofList (Hex.encode (wordBytes word))

def decodeWord (hexStr : String) : Except SerialError Word :=
  match Hex.decode hexStr.toList with
  | none => .error .invalidHex
  | some bytes =>
    if bytes.length = 32 then
      let u64 (i : Nat) := u64FromLeBytes ((bytes.drop (8 * i)).take 8)
      match Word.tryFrom (u64 0) (u64 1) (u64 2) (u64 3) with
      | some word => .ok word
      | none => .error .invalidWord
    else .error (.wrongLength hexStr.utf8ByteSize)

/-- The eight bytes of limb `i`, as hex text and as a number. -/
def limb (s : String) (i : Nat) : Nat := Hex.leValue ((s.toList.drop (16 * i)).take 16)

theorem u64FromLeBytes_toNat {bytes : List UInt8} (h : bytes.length = 8) :
    (u64FromLeBytes bytes).toNat = Hex.ofLeBytes bytes := by
  have hlt := Hex.ofLeBytes_lt bytes
  rw [h] at hlt
  rw [u64FromLeBytes, UInt64.toNat_ofNat']
  exact Nat.mod_eq_of_lt hlt

theorem u64FromLeBytes_toLeBytes (v : UInt64) : u64FromLeBytes (u64ToLeBytes v) = v := by
  have hlt : v.toNat < 256 ^ 8 := v.toNat_lt
  rw [u64FromLeBytes, u64ToLeBytes, Hex.ofLeBytes_toLeBytes hlt, UInt64.ofNat_toNat]

theorem u64ToLeBytes_fromLeBytes {bytes : List UInt8} (h : bytes.length = 8) :
    u64ToLeBytes (u64FromLeBytes bytes) = bytes := by
  rw [u64ToLeBytes, u64FromLeBytes_toNat h, ← h]
  exact Hex.toLeBytes_ofLeBytes bytes

@[simp] theorem length_u64ToLeBytes (v : UInt64) : (u64ToLeBytes v).length = 8 :=
  Hex.length_toLeBytes ..

theorem length_wordBytes (word : Word) : (wordBytes word).length = 32 := by
  simp [wordBytes]

theorem wordBytes_eq_iff {word : Word} {bytes : List UInt8} (h : bytes.length = 32) :
    wordBytes word = bytes ↔
      word.e0.asU64 = u64FromLeBytes ((bytes.drop (8 * 0)).take 8) ∧
      word.e1.asU64 = u64FromLeBytes ((bytes.drop (8 * 1)).take 8) ∧
      word.e2.asU64 = u64FromLeBytes ((bytes.drop (8 * 2)).take 8) ∧
      word.e3.asU64 = u64FromLeBytes ((bytes.drop (8 * 3)).take 8) := by
  constructor
  · rintro rfl
    have hlimb (i : Nat) (hi : i < 4) :=
      Hex.take_drop_flatMap (fun f : Felt => length_u64ToLeBytes f.asU64)
        [word.e0, word.e1, word.e2, word.e3] i hi
    simp only [wordBytes]
    rw [hlimb 0 (by decide), hlimb 1 (by decide), hlimb 2 (by decide), hlimb 3 (by decide)]
    simp only [u64FromLeBytes_toLeBytes, List.getElem_cons_zero, List.getElem_cons_succ, and_self]
  · rintro ⟨h0, h1, h2, h3⟩
    have hlimb (i : Nat) (hi : i < 4) :
        u64ToLeBytes (u64FromLeBytes ((bytes.drop (8 * i)).take 8)) =
          (bytes.drop (8 * i)).take 8 := by
      refine u64ToLeBytes_fromLeBytes ?_
      rw [List.length_take, List.length_drop, h]
      omega
    simp only [wordBytes, List.flatMap_cons, List.flatMap_nil, h0, h1, h2, h3]
    rw [hlimb 0 (by decide), hlimb 1 (by decide), hlimb 2 (by decide), hlimb 3 (by decide)]
    exact (Hex.flatMap_chunks 8 4 bytes).trans (List.take_of_length_le h.le)

theorem decodeWord_eq_ok {s : String} {word : Word} :
    decodeWord s = .ok word ↔ Hex.decode s.toList = some (wordBytes word) := by
  unfold decodeWord
  cases hbytes : Hex.decode s.toList with
  | none => simp
  | some bytes =>
    simp only [Option.some.injEq]
    by_cases hlength : bytes.length = 32
    · simp only [hlength, if_true]
      rw [eq_comm (a := bytes), wordBytes_eq_iff hlength, ← Word.tryFrom_eq_some]
      cases Word.tryFrom _ _ _ _ <;> simp
    · simp only [hlength, if_false, reduceCtorEq, false_iff]
      rintro rfl
      exact hlength (length_wordBytes word)

theorem encodeWord_of_decodeWord {s : String} {word : Word} (h : decodeWord s = .ok word) :
    encodeWord word = s.toLower := by
  rw [encodeWord, Hex.encode_of_decode (decodeWord_eq_ok.mp h), ← String.toList_inj,
    String.toList_ofList]
  exact String.toList_map.symm

theorem decodeWord_encodeWord (word : Word) : decodeWord (encodeWord word) = .ok word := by
  rw [decodeWord_eq_ok, encodeWord, String.toList_ofList]
  exact Hex.decode_encode _

theorem exists_bytes_iff (s : String) :
    (∃ bytes, Hex.decode s.toList = some bytes ∧ bytes.length = 32) ↔
      s.length = 64 ∧ ∀ c ∈ s.toList, c.toLower ∈ Hex.lowerDigits := by
  rw [← String.length_toList]
  constructor
  · rintro ⟨bytes, hbytes, hlength⟩
    refine ⟨?_, ((Hex.decode_isSome_iff _).mp (Option.isSome_of_eq_some hbytes)).2⟩
    rw [Hex.length_of_decode hbytes, hlength]
  · rintro ⟨hlength, hdigits⟩
    obtain ⟨bytes, hbytes⟩ := Option.isSome_iff_exists.mp
      ((Hex.decode_isSome_iff s.toList).mpr ⟨by omega, hdigits⟩)
    have hdouble := Hex.length_of_decode hbytes
    exact ⟨bytes, hbytes, by omega⟩

theorem limb_of_decode {s : String} {bytes : List UInt8} (h : Hex.decode s.toList = some bytes)
    (i : Nat) : limb s i = Hex.ofLeBytes ((bytes.drop (8 * i)).take 8) := by
  have hpart := Hex.decode_take (Hex.decode_drop h (8 * i)) 8
  rw [← Nat.mul_assoc] at hpart
  exact Hex.leValue_of_decode hpart

theorem exists_wordBytes {bytes : List UInt8} (h : bytes.length = 32)
    (hlimbs : ∀ i < 4, Hex.ofLeBytes ((bytes.drop (8 * i)).take 8) < Felt.modulus) :
    ∃ word, wordBytes word = bytes := by
  have hfelt (i : Nat) (hi : i < 4) :
      ∃ f : Felt, f.asU64 = u64FromLeBytes ((bytes.drop (8 * i)).take 8) := by
    have hlength : ((bytes.drop (8 * i)).take 8).length = 8 := by
      rw [List.length_take, List.length_drop, h]
      omega
    refine ⟨⟨_, hlimbs i hi⟩, ?_⟩
    rw [← UInt64.toNat_inj, Felt.asU64_toNat, u64FromLeBytes_toNat hlength]
  obtain ⟨e0, h0⟩ := hfelt 0 (by decide)
  obtain ⟨e1, h1⟩ := hfelt 1 (by decide)
  obtain ⟨e2, h2⟩ := hfelt 2 (by decide)
  obtain ⟨e3, h3⟩ := hfelt 3 (by decide)
  exact ⟨⟨e0, e1, e2, e3⟩, (wordBytes_eq_iff h).mpr ⟨h0, h1, h2, h3⟩⟩

theorem limb_lt_of_wordBytes {s : String} {word : Word}
    (h : Hex.decode s.toList = some (wordBytes word)) : ∀ i < 4, limb s i < Felt.modulus := by
  obtain ⟨h0, h1, h2, h3⟩ := (wordBytes_eq_iff (length_wordBytes word)).mp rfl
  have hval {i : Nat} (hi : i < 4) {f : Felt}
      (hf : f.asU64 = u64FromLeBytes (((wordBytes word).drop (8 * i)).take 8)) :
      limb s i < Felt.modulus := by
    have hlength : (((wordBytes word).drop (8 * i)).take 8).length = 8 := by
      rw [List.length_take, List.length_drop, length_wordBytes]
      omega
    rw [limb_of_decode h, ← u64FromLeBytes_toNat hlength, ← hf, Felt.asU64_toNat]
    exact f.isLt
  intro i hi
  interval_cases i
  · exact hval hi h0
  · exact hval hi h1
  · exact hval hi h2
  · exact hval hi h3

/-- The two functions are inverse to each other up to letter case, and decoding
accepts exactly the texts of 64 hex digits with four canonical limbs. -/
theorem serial_round_trip :
    (∀ word, (encodeWord word).length = 64 ∧
      (∀ c ∈ (encodeWord word).toList, c ∈ Hex.lowerDigits) ∧
        decodeWord (encodeWord word) = .ok word) ∧
    (∀ s, (∃ word, decodeWord s = .ok word) ↔ s.length = 64 ∧
      (∀ c ∈ s.toList, c.toLower ∈ Hex.lowerDigits) ∧ ∀ i < 4, limb s i < Felt.modulus) ∧
    (∀ s word, decodeWord s = .ok word → encodeWord word = s.toLower) ∧
    ∀ s s' word, decodeWord s = .ok word → decodeWord s' = .ok word → s.toLower = s'.toLower := by
  refine ⟨fun word => ⟨?_, fun c hc => ?_, decodeWord_encodeWord word⟩, fun s => ⟨?_, ?_⟩,
    fun s word h => encodeWord_of_decodeWord h, fun s s' word h h' => ?_⟩
  · rw [encodeWord, String.length_ofList, Hex.length_encode, length_wordBytes]
  · rw [encodeWord, String.toList_ofList] at hc
    exact Hex.mem_encode hc
  · rintro ⟨word, hword⟩
    have hbytes := decodeWord_eq_ok.mp hword
    obtain ⟨hlength, hdigits⟩ :=
      (exists_bytes_iff s).mp ⟨_, hbytes, length_wordBytes word⟩
    exact ⟨hlength, hdigits, limb_lt_of_wordBytes hbytes⟩
  · rintro ⟨hlength, hdigits, hlimbs⟩
    obtain ⟨bytes, hbytes, hlength'⟩ := (exists_bytes_iff s).mpr ⟨hlength, hdigits⟩
    obtain ⟨word, rfl⟩ := exists_wordBytes hlength' fun i hi => by
      rw [← limb_of_decode hbytes]
      exact hlimbs i hi
    exact ⟨word, decodeWord_eq_ok.mpr hbytes⟩
  · rw [← encodeWord_of_decodeWord h, ← encodeWord_of_decodeWord h']

end AllaMorra
