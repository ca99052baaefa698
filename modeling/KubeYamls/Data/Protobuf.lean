import Mathlib.Algebra.Group.Nat.Defs
import Mathlib.Data.List.Basic

/-! Protocol buffer messages with two string fields, tagged 1 and 2, as the Go
package writes and reads them. -/
namespace KubeYamls.Data.Protobuf
open List Option

/-- Seven bits a byte, lowest first; ten bytes hold any 64-bit number. -/
def encodeVarint : Nat → Nat → List UInt8
  | 0, _ => []
  | fuel + 1, n =>
    if n < 128 then [.ofNat n] else .ofNat (n % 128 + 128) :: encodeVarint fuel (n / 128)

def readVarint : Nat → List UInt8 → Option (Nat × List UInt8)
  | 0, _ => none
  | _ + 1, [] => none
  | fuel + 1, b :: rest =>
    if b.toNat < 128 then some (b.toNat, rest)
    else (readVarint fuel rest).map fun p => (b.toNat - 128 + 128 * p.1, p.2)

/-- The number wraps around at 64 bits; more than ten bytes are an error. -/
def decodeVarint (buf : List UInt8) : Option (Nat × List UInt8) :=
  (readVarint 10 buf).map fun p => (p.1 % 2 ^ 64, p.2)

def decodeRawBytes (buf : List UInt8) : Option (List UInt8 × List UInt8) :=
  (decodeVarint buf).bind fun p =>
    if p.1 ≤ p.2.length then some (p.2.take p.1, p.2.drop p.1) else none

def dropBytes (n : Nat) (buf : List UInt8) : Option (List UInt8) :=
  if n ≤ buf.length then some (buf.drop n) else none

/-- Skip an item of an unknown field. -/
def skip : Nat → Nat → List UInt8 → Option (List UInt8)
  | fuel, wire, buf =>
    if wire = 0 then (decodeVarint buf).map Prod.snd
    else if wire = 1 then dropBytes 8 buf
    else if wire = 2 then (decodeRawBytes buf).map Prod.snd
    else if wire = 5 then dropBytes 4 buf
    else if wire = 3 then
      match fuel with
      | 0 => none
      | fuel + 1 => (decodeVarint buf).bind fun p =>
        if p.1 % 8 = 4 then some p.2
        else (skip fuel (p.1 % 8) p.2).bind fun buf => skip fuel 3 buf
    else none

/-- Put a field into the message; a repeated field replaces the earlier one. -/
def set (tag : Nat) (v : List UInt8) (m : List UInt8 × List UInt8) : List UInt8 × List UInt8 :=
  if tag = 1 then (v, m.2) else (m.1, v)

def decodeFields : Nat → List UInt8 → List UInt8 × List UInt8 → Option (List UInt8 × List UInt8)
  | _, [], m => some m
  | 0, _ :: _, _ => none
  | fuel + 1, b :: rest, m => (decodeVarint (b :: rest)).bind fun p =>
    let wire := p.1 % 8
    let tag := p.1 / 8
    if wire = 4 ∨ tag = 0 then none
    else if tag = 1 ∨ tag = 2 then
      -- the start of a group is let through for a known field
      if wire = 2 ∨ wire = 3 then
        (decodeRawBytes p.2).bind fun q => decodeFields fuel q.2 (set tag q.1 m)
      else none
    else (skip p.2.length wire p.2).bind fun buf => decodeFields fuel buf m

def decode (buf : List UInt8) : Option (List UInt8 × List UInt8) :=
  decodeFields buf.length buf ([], [])

def maxMarshalSize : Nat := 2 ^ 31 - 1

/-- An empty string is not written. -/
def encodeField (tag : Nat) (v : List UInt8) : List UInt8 :=
  if v = [] then [] else .ofNat (tag * 8 + 2) :: (encodeVarint 10 v.length ++ v)

def encode (a b : List UInt8) : Option (List UInt8) :=
  if (encodeField 1 a).length > maxMarshalSize then none
  else if (encodeField 1 a ++ encodeField 2 b).length > maxMarshalSize then none
  else some (encodeField 1 a ++ encodeField 2 b)

theorem readVarint_encodeVarint (fuel n : Nat) (rest : List UInt8) (h : n < 128 ^ (fuel + 1)) :
    readVarint (fuel + 1) (encodeVarint (fuel + 1) n ++ rest) = some (n, rest) := by
  induction fuel generalizing n with
  | zero =>
    have hb : (UInt8.ofNat n).toNat = n := by simp; omega
    have hn : n < 128 := by omega
    simp [encodeVarint, readVarint, hb, hn]
  | succ fuel ih =>
    unfold encodeVarint
    split
    · rename_i hn
      have hb : (UInt8.ofNat n).toNat = n := by simp; omega
      simp [readVarint, hb, hn]
    · rename_i hn
      have hb : (UInt8.ofNat (n % 128 + 128)).toNat = n % 128 + 128 := by simp; omega
      have hlt : n / 128 < 128 ^ (fuel + 1) :=
        (Nat.div_lt_iff_lt_mul (by omega)).mpr (by rwa [← Nat.pow_succ])
      unfold readVarint
      simp only [cons_append, hb, ih (n / 128) hlt, map_some]
      rw [if_neg (by omega)]
      congr 2
      omega

theorem decodeVarint_encodeVarint {n} (rest : List UInt8) (h : n < 2 ^ 64) :
    decodeVarint (encodeVarint 10 n ++ rest) = some (n, rest) := by
  rw [decodeVarint, readVarint_encodeVarint 9 n rest (by omega)]
  simp only [map_some, Nat.mod_eq_of_lt h]

theorem decodeRawBytes_encode {v} (rest : List UInt8) (h : v.length < 2 ^ 64) :
    decodeRawBytes (encodeVarint 10 v.length ++ v ++ rest) = some (v, rest) := by
  rw [decodeRawBytes, append_assoc, decodeVarint_encodeVarint _ h]
  simp

theorem decodeFields_encodeField (fuel : Nat) {tag v} (rest : List UInt8)
    (m : List UInt8 × List UInt8) (ht : tag = 1 ∨ tag = 2) (hv : v ≠ []) (hlen : v.length < 2 ^ 64) :
    decodeFields (fuel + 1) (encodeField tag v ++ rest) m = decodeFields fuel rest (set tag v m) := by
  have hb : (UInt8.ofNat (tag * 8 + 2)).toNat = tag * 8 + 2 := by simp; omega
  have hvar : decodeVarint (UInt8.ofNat (tag * 8 + 2) :: (encodeVarint 10 v.length ++ v ++ rest)) =
      some (tag * 8 + 2, encodeVarint 10 v.length ++ v ++ rest) := by
    rw [decodeVarint, readVarint, hb, if_pos (by omega), map_some]
    congr 2
    omega
  rw [encodeField, if_neg hv, cons_append, decodeFields, hvar]
  simp only [bind_some]
  have hw : (tag * 8 + 2) % 8 = 2 := by omega
  have htag : (tag * 8 + 2) / 8 = tag := by omega
  rw [hw, htag, if_neg (by omega), if_pos ht, if_pos (.inl rfl), decodeRawBytes_encode _ hlen]
  rfl

theorem length_le_encodeField (tag : Nat) (v : List UInt8) : v.length ≤ (encodeField tag v).length := by
  unfold encodeField
  split
  · simp_all
  · simp
    omega

private theorem encodeField_pos {tag v} (h : v ≠ []) : 0 < (encodeField tag v).length := by
  simp [encodeField, h]

private theorem decodeFields_last (a : List UInt8) {b} (hlen : b.length < 2 ^ 64) {n}
    (hn : (encodeField 2 b).length ≤ n) : decodeFields n (encodeField 2 b) (a, []) = some (a, b) := by
  by_cases hb : b = []
  · subst hb
    simp [encodeField, decodeFields]
  · obtain ⟨k, rfl⟩ : ∃ k, n = k + 1 :=
      Nat.exists_eq_add_one.mpr (Nat.lt_of_lt_of_le (encodeField_pos hb) hn)
    have h := decodeFields_encodeField k [] (a, []) (.inr rfl) hb hlen
    rw [append_nil] at h
    rw [h]
    cases k <;> rfl

theorem encode_eq (a b : List UInt8) : encode a b =
    if (encodeField 1 a ++ encodeField 2 b).length ≤ maxMarshalSize then
      some (encodeField 1 a ++ encodeField 2 b) else none := by
  unfold encode
  rw [length_append]
  split_ifs
  · omega
  · rfl
  · omega
  · rfl
  · rfl
  · omega

theorem decode_encode {a b buf} (h : encode a b = some buf) : decode buf = some (a, b) := by
  unfold encode at h
  split at h
  · cases h
  split at h
  · cases h
  rename_i hsize
  cases h
  have ha := length_le_encodeField 1 a
  have hb := length_le_encodeField 2 b
  rw [length_append] at hsize
  unfold maxMarshalSize at hsize
  have hlb : b.length < 2 ^ 64 := by omega
  unfold decode
  by_cases hae : a = []
  · subst hae
    exact decodeFields_last [] hlb (Nat.le_refl _)
  · have hpos : 0 < (encodeField 1 a).length := encodeField_pos hae
    obtain ⟨k, hk⟩ : ∃ k, (encodeField 1 a ++ encodeField 2 b).length = k + 1 :=
      Nat.exists_eq_add_one.mpr (by rw [length_append]; omega)
    rw [hk, decodeFields_encodeField k _ _ (.inl rfl) hae (by omega)]
    rw [length_append] at hk
    exact decodeFields_last a hlb (by omega)

end KubeYamls.Data.Protobuf
