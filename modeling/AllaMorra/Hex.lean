import Mathlib.Data.List.Basic
import Mathlib.Data.Nat.Digits.Lemmas

/-! Hex text and little-endian bytes. A byte is written as two hex digits, high
half first and in lower case; digits are read in either case. A number of fixed
width is written as its digits to base 256, lowest first. -/

namespace AllaMorra.Hex

/-! Digits. -/

def lowerDigits : List Char :=
  ['0', '1', '2', '3', '4', '5', '6', '7', '8', '9', 'a', 'b', 'c', 'd', 'e', 'f']

def digit (c : Char) : Option Nat := (List.range 16).find? fun n => Nat.digitChar n = c.toLower

theorem digitChar_mem {n : Nat} (h : n < 16) : Nat.digitChar n ∈ lowerDigits := by
  interval_cases n <;> decide

theorem digit_digitChar {n : Nat} (h : n < 16) : digit (Nat.digitChar n) = some n := by
  interval_cases n <;> decide

theorem digit_eq_some {c : Char} {n : Nat} (h : digit c = some n) :
    n < 16 ∧ Nat.digitChar n = c.toLower :=
  ⟨List.mem_range.mp (List.mem_of_find?_eq_some h), by simpa using List.find?_some h⟩

theorem digit_isSome_iff (c : Char) : (digit c).isSome ↔ c.toLower ∈ lowerDigits := by
  have hdigits : lowerDigits = (List.range 16).map Nat.digitChar := by decide
  rw [digit, List.find?_isSome, hdigits]
  simp only [List.mem_map, decide_eq_true_eq]

/-! Text. -/

def encode (bytes : List UInt8) : List Char :=
  bytes.flatMap fun b => [Nat.digitChar (b.toNat / 16), Nat.digitChar (b.toNat % 16)]

def decode : List Char → Option (List UInt8)
  | [] => some []
  | [_] => none
  | hi :: lo :: cs => do
    let h ← digit hi
    let l ← digit lo
    let bytes ← decode cs
    return UInt8.ofNat (16 * h + l) :: bytes

theorem length_encode (bytes : List UInt8) : (encode bytes).length = 2 * bytes.length := by
  induction bytes with
  | nil => rfl
  | cons b bytes ih =>
    rw [encode, List.flatMap_cons, List.length_append, ← encode, ih]
    simp only [List.length_cons, List.length_nil]
    omega

theorem mem_encode {bytes : List UInt8} {c : Char} (h : c ∈ encode bytes) : c ∈ lowerDigits := by
  obtain ⟨b, -, hc⟩ := List.mem_flatMap.mp h
  have hlt := b.toNat_lt
  obtain rfl | hc := List.mem_cons.mp hc
  · exact digitChar_mem (by omega)
  · obtain rfl := List.mem_singleton.mp hc
    exact digitChar_mem (by omega)

theorem decode_cons_cons_eq_some {hi lo : Char} {cs : List Char} {bytes : List UInt8} :
    decode (hi :: lo :: cs) = some bytes ↔ ∃ h l rest, digit hi = some h ∧ digit lo = some l ∧
      decode cs = some rest ∧ bytes = UInt8.ofNat (16 * h + l) :: rest := by
  simp only [decode, Option.bind_eq_bind, Option.bind_eq_some_iff, Option.pure_def,
    Option.some.injEq]
  constructor
  · rintro ⟨h, hh, l, hl, rest, hrest, rfl⟩
    exact ⟨h, l, rest, hh, hl, hrest, rfl⟩
  · rintro ⟨h, l, rest, hh, hl, hrest, rfl⟩
    exact ⟨h, hh, l, hl, rest, hrest, rfl⟩

theorem decode_encode (bytes : List UInt8) : decode (encode bytes) = some bytes := by
  induction bytes with
  | nil => rfl
  | cons b bytes ih =>
    have hlt := b.toNat_lt
    refine decode_cons_cons_eq_some.mpr ⟨b.toNat / 16, b.toNat % 16, bytes,
      digit_digitChar (by omega), digit_digitChar (by omega), ih, ?_⟩
    rw [Nat.div_add_mod, UInt8.ofNat_toNat]

theorem toNat_byte {h l : Nat} (hh : h < 16) (hl : l < 16) :
    (UInt8.ofNat (16 * h + l)).toNat = 16 * h + l := by
  rw [UInt8.toNat_ofNat']
  omega

theorem encode_of_decode {cs : List Char} {bytes : List UInt8} (h : decode cs = some bytes) :
    encode bytes = cs.map Char.toLower := by
  induction cs using decode.induct generalizing bytes with
  | case1 =>
    obtain rfl := Option.some.inj h
    rfl
  | case2 => cases h
  | case3 hi lo cs ih =>
    obtain ⟨d, e, rest, hd, he, hrest, rfl⟩ := decode_cons_cons_eq_some.mp h
    obtain ⟨hd_lt, hd_eq⟩ := digit_eq_some hd
    obtain ⟨he_lt, he_eq⟩ := digit_eq_some he
    have hhigh : (16 * d + e) / 16 = d := by omega
    have hlow : (16 * d + e) % 16 = e := by omega
    rw [encode, List.flatMap_cons, ← encode, ih hrest, toNat_byte hd_lt he_lt, hhigh, hlow, hd_eq,
      he_eq]
    rfl

theorem decode_isSome_iff (cs : List Char) :
    (decode cs).isSome ↔ 2 ∣ cs.length ∧ ∀ c ∈ cs, c.toLower ∈ lowerDigits := by
  induction cs using decode.induct with
  | case1 => simp [decode]
  | case2 c => simp [decode]
  | case3 hi lo cs ih =>
    have hpair : (decode (hi :: lo :: cs)).isSome ↔
        (digit hi).isSome ∧ (digit lo).isSome ∧ (decode cs).isSome := by
      simp only [Option.isSome_iff_exists, decode_cons_cons_eq_some]
      constructor
      · rintro ⟨-, h, l, rest, hh, hl, hrest, -⟩
        exact ⟨⟨h, hh⟩, ⟨l, hl⟩, ⟨rest, hrest⟩⟩
      · rintro ⟨⟨h, hh⟩, ⟨l, hl⟩, ⟨rest, hrest⟩⟩
        exact ⟨_, h, l, rest, hh, hl, hrest, rfl⟩
    rw [hpair, ih, digit_isSome_iff, digit_isSome_iff]
    simp only [List.length_cons, List.forall_mem_cons]
    have hdvd : 2 ∣ cs.length + 1 + 1 ↔ 2 ∣ cs.length := by omega
    rw [hdvd]
    tauto

theorem length_of_decode {cs : List Char} {bytes : List UInt8} (h : decode cs = some bytes) :
    cs.length = 2 * bytes.length := by
  rw [← length_encode, encode_of_decode h, List.length_map]

theorem decode_drop {cs : List Char} {bytes : List UInt8} (h : decode cs = some bytes) (n : Nat) :
    decode (cs.drop (2 * n)) = some (bytes.drop n) := by
  induction n generalizing cs bytes with
  | zero => exact h
  | succ n ih =>
    match cs with
    | [] =>
      obtain rfl := Option.some.inj h
      simp [decode]
    | [_] => cases h
    | hi :: lo :: cs =>
      obtain ⟨d, e, rest, -, -, hrest, rfl⟩ := decode_cons_cons_eq_some.mp h
      exact ih hrest

theorem decode_take {cs : List Char} {bytes : List UInt8} (h : decode cs = some bytes) (n : Nat) :
    decode (cs.take (2 * n)) = some (bytes.take n) := by
  induction n generalizing cs bytes with
  | zero => rfl
  | succ n ih =>
    match cs with
    | [] =>
      obtain rfl := Option.some.inj h
      simp [decode]
    | [_] => cases h
    | hi :: lo :: cs =>
      obtain ⟨d, e, rest, hd, he, hrest, rfl⟩ := decode_cons_cons_eq_some.mp h
      exact decode_cons_cons_eq_some.mpr ⟨d, e, rest.take n, hd, he, ih hrest, rfl⟩

/-! Lists in pieces of one length. -/

theorem flatMap_chunks {α : Type*} (n k : Nat) (xs : List α) :
    ((List.range k).flatMap fun i => (xs.drop (n * i)).take n) = xs.take (n * k) := by
  induction k with
  | zero => simp
  | succ k ih => simp [List.range_succ, ih, Nat.mul_succ, List.take_add]

theorem take_drop_flatMap {α β : Type*} {f : α → List β} {n : Nat} (hf : ∀ a, (f a).length = n)
    (l : List α) (i : Nat) (hi : i < l.length) : ((l.flatMap f).drop (n * i)).take n = f l[i] := by
  induction l generalizing i with
  | nil => simp at hi
  | cons a l ih =>
    rw [List.flatMap_cons]
    cases i with
    | zero => exact List.take_left' (hf a)
    | succ i =>
      have hdrop : (f a ++ l.flatMap f).drop (n * (i + 1)) = (l.flatMap f).drop (n * i) := by
        rw [Nat.mul_succ, Nat.add_comm, ← List.drop_drop, List.drop_left' (hf a)]
      rw [hdrop, List.getElem_cons_succ]
      exact ih i (Nat.lt_of_succ_lt_succ hi)

/-! Little-endian numbers. -/

def toLeBytes : Nat → Nat → List UInt8
  | 0, _ => []
  | width + 1, n => UInt8.ofNat n :: toLeBytes width (n / 256)

def ofLeBytes (bytes : List UInt8) : Nat := Nat.ofDigits 256 (bytes.map UInt8.toNat)

@[simp] theorem length_toLeBytes (width n : Nat) : (toLeBytes width n).length = width := by
  induction width generalizing n with
  | zero => rfl
  | succ width ih => simp [toLeBytes, ih]

theorem ofLeBytes_cons (b : UInt8) (bytes : List UInt8) :
    ofLeBytes (b :: bytes) = b.toNat + 256 * ofLeBytes bytes := Nat.ofDigits_cons ..

theorem ofLeBytes_lt (bytes : List UInt8) : ofLeBytes bytes < 256 ^ bytes.length := by
  have hlt := Nat.ofDigits_lt_base_pow_length (b := 256) (l := bytes.map UInt8.toNat) (by decide)
    fun x hx => by
      obtain ⟨b, -, rfl⟩ := List.mem_map.mp hx
      exact b.toNat_lt
  rwa [List.length_map] at hlt

theorem ofLeBytes_toLeBytes {width n : Nat} (h : n < 256 ^ width) :
    ofLeBytes (toLeBytes width n) = n := by
  induction width generalizing n with
  | zero =>
    rw [Nat.pow_zero] at h
    obtain rfl : n = 0 := by omega
    rfl
  | succ width ih =>
    have hrest : n / 256 < 256 ^ width := Nat.div_lt_of_lt_mul (by rwa [← Nat.pow_succ'])
    rw [toLeBytes, ofLeBytes_cons, ih hrest, UInt8.toNat_ofNat']
    exact Nat.mod_add_div n 256

theorem toLeBytes_ofLeBytes (bytes : List UInt8) :
    toLeBytes bytes.length (ofLeBytes bytes) = bytes := by
  induction bytes with
  | nil => rfl
  | cons b bytes ih =>
    have hlt := b.toNat_lt
    have hrest : (b.toNat + 256 * ofLeBytes bytes) / 256 = ofLeBytes bytes := by omega
    have hbyte : UInt8.ofNat (b.toNat + 256 * ofLeBytes bytes) = b := by
      rw [← UInt8.toNat_inj, UInt8.toNat_ofNat']
      omega
    rw [List.length_cons, toLeBytes, ofLeBytes_cons, hrest, hbyte, ih]

/-- The number that a text of little-endian bytes writes. -/
def leValue : List Char → Nat
  | hi :: lo :: cs => 16 * (digit hi).getD 0 + (digit lo).getD 0 + 256 * leValue cs
  | _ => 0

theorem leValue_of_decode {cs : List Char} {bytes : List UInt8} (h : decode cs = some bytes) :
    leValue cs = ofLeBytes bytes := by
  induction cs using decode.induct generalizing bytes with
  | case1 =>
    obtain rfl := Option.some.inj h
    rfl
  | case2 => cases h
  | case3 hi lo cs ih =>
    obtain ⟨d, e, rest, hd, he, hrest, rfl⟩ := decode_cons_cons_eq_some.mp h
    rw [leValue, hd, he, ih hrest, ofLeBytes_cons,
      toNat_byte (digit_eq_some hd).1 (digit_eq_some he).1]
    rfl

end AllaMorra.Hex
