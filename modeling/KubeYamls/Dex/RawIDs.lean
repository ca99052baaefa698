import KubeYamls.Data.Base32
import KubeYamls.Dex.Codec
import KubeYamls.Dex.Token

/-! # Raw IDs and refresh token values

`storage.NewID` (`dex/storage/storage.go`) makes IDs of 25 characters. Servers of an
earlier version handed out the ID of a refresh token as it is; later ones hand out a
message of the ID and a token (`dex/server/internal/codec.go`). `handleRefreshToken`
tells the two apart by whether the value decodes, and 25 characters of base64 never do. -/
namespace KubeYamls.Dex
open Data

theorem letters_length : "abcdefghijklmnopqrstuvwxyz234567".toList.length = 32 := by decide

theorem letters_nodup : "abcdefghijklmnopqrstuvwxyz234567".toList.Nodup := by decide

theorem letters_pad : '=' ∉ "abcdefghijklmnopqrstuvwxyz234567".toList := by decide

def encoding : Base32.Alphabet := ⟨_, letters_length, letters_nodup, letters_pad⟩

/-- `string(buff[0]%26+'a')` -/
def firstLetter (b : UInt8) : Char := Char.ofNat (b % 26 + 97).toNat

/-- `NewID` with the bytes it has read. -/
def newIDFrom (buff : Vector UInt8 16) : String :=
  String.ofList (firstLetter buff[0] :: encoding.encodeTrimmed (buff.toList.drop 1))

theorem firstLetter_eq (b : UInt8) : firstLetter b = Char.ofNat ((b % 26).toNat + 97) := by
  have hlt : b.toNat % 26 < 26 := Nat.mod_lt _ (by decide)
  have hadd : (b % 26 + 97).toNat = (b % 26).toNat + 97 := by
    simp only [UInt8.toNat_add, UInt8.toNat_mod, UInt8.reduceToNat]
    omega
  rw [firstLetter, hadd]

theorem firstLetter_mem (b : UInt8) : firstLetter b ∈ "abcdefghijklmnopqrstuvwxyz".toList := by
  have hletters : ∀ n < 26, Char.ofNat (n + 97) ∈ "abcdefghijklmnopqrstuvwxyz".toList := by decide
  rw [firstLetter_eq]
  exact hletters _ (Nat.mod_lt _ (by decide))

theorem firstLetter_inj {b b'} (h : firstLetter b = firstLetter b') : b % 26 = b' % 26 := by
  have hletters : ∀ m < 26, ∀ n < 26, Char.ofNat (m + 97) = Char.ofNat (n + 97) → m = n := by decide
  rw [firstLetter_eq, firstLetter_eq] at h
  exact UInt8.toNat_inj.mp (hletters _ (Nat.mod_lt _ (by decide)) _ (Nat.mod_lt _ (by decide)) h)

theorem ne_break_of_mem {c} (h : c ∈ encoding.chars) : c ≠ '\n' ∧ c ≠ '\r' := by
  constructor
  · rintro rfl
    exact absurd h (by decide)
  · rintro rfl
    exact absurd h (by decide)

section
variable (buff buff' : Vector UInt8 16)

theorem toList_newIDFrom : (newIDFrom buff).toList =
    firstLetter buff[0] :: encoding.encodeTrimmed (buff.toList.drop 1) :=
  String.toList_ofList

theorem length_newIDFrom : (newIDFrom buff).toList.length = 25 := by
  simp [toList_newIDFrom, Base32.Alphabet.length_encodeTrimmed]

theorem newIDFrom_inj : newIDFrom buff = newIDFrom buff' ↔
    buff[0] % (26 : UInt8) = buff'[0] % 26 ∧ buff.toList.drop 1 = buff'.toList.drop 1 := by
  constructor
  · intro h
    have hlist := congrArg String.toList h
    rw [toList_newIDFrom, toList_newIDFrom] at hlist
    obtain ⟨hfirst, hrest⟩ := List.cons.inj hlist
    exact ⟨firstLetter_inj hfirst, encoding.encodeTrimmed_injective hrest⟩
  · rintro ⟨hfirst, hrest⟩
    rw [newIDFrom, newIDFrom, firstLetter, firstLetter, hfirst, hrest]

theorem unmarshal_newIDFrom : unmarshal (newIDFrom buff) = none := by
  have hbreak : ∀ c ∈ (newIDFrom buff).toList, c ≠ '\n' ∧ c ≠ '\r' := by
    rw [toList_newIDFrom]
    have hfirst : firstLetter buff[0] ∈ encoding.chars := List.mem_append_left "234567".toList (firstLetter_mem _)
    exact List.forall_mem_cons.mpr
      ⟨ne_break_of_mem hfirst, fun c hc => ne_break_of_mem (encoding.mem_encodeTrimmed hc)⟩
  rw [unmarshal, Base64.decode_of_length hbreak (by rw [length_newIDFrom])]
  rfl

end

def wireBytes (a b : String) : List UInt8 :=
  Protobuf.encodeField 1 (bytes a) ++ Protobuf.encodeField 2 (bytes b)

theorem marshal_eq (a b : String) : marshal a b = if (wireBytes a b).length ≤ Protobuf.maxMarshalSize then
      some (String.ofList (Base64.encode (wireBytes a b))) else none := by
  rw [marshal, Protobuf.encode_eq, wireBytes]
  split_ifs <;> rfl

theorem bind_unmarshal_marshal (a b : String) : (marshal a b).bind unmarshal = some (a, b) ↔
    (wireBytes a b).length ≤ Protobuf.maxMarshalSize := by
  cases h : marshal a b with
  | none =>
    rw [marshal_eq] at h
    split_ifs at h with hsize
    simp [hsize]
  | some c =>
    have hsize : (wireBytes a b).length ≤ Protobuf.maxMarshalSize := by
      by_contra hsize
      rw [marshal_eq, if_neg hsize] at h
      cases h
    simp [unmarshal_marshal h, hsize]

/-- The codec of a server to which every value is a raw ID. -/
def rawOnly : Codec := ⟨fun _ _ => none, fun _ => none, fun h => by cases h⟩

/-- A raw ID has 25 characters, a letter and 24 of the alphabet, from which bytes
1 to 15 can be told; it does not decode, so a refresh token of this form is taken for
a raw ID; and a message decodes to the pair it was made of, if it is within the size
that can be written. -/
theorem formats_apart : (∀ buff, ∃ first rest, (newIDFrom buff).toList = first :: rest ∧
      first ∈ "abcdefghijklmnopqrstuvwxyz".toList ∧ rest.length = 24 ∧
      ∀ c ∈ rest, c ∈ "abcdefghijklmnopqrstuvwxyz234567".toList) ∧
    (∀ buff buff' : Vector UInt8 16, newIDFrom buff = newIDFrom buff' ↔
      buff[0] % (26 : UInt8) = buff'[0] % 26 ∧ buff.toList.drop 1 = buff'.toList.drop 1) ∧
    (∀ buff, unmarshal (newIDFrom buff) = none ∧ decodeRefresh codec (newIDFrom buff) = (newIDFrom buff, "") ∧
      ∀ c r client, r.refreshToken = newIDFrom buff →
        handleRefreshToken c codec r client = handleRefreshToken c rawOnly r client) ∧
    ∀ id token, (marshal id token).bind unmarshal = some (id, token) ↔
      (wireBytes id token).length ≤ Protobuf.maxMarshalSize := by
  refine ⟨fun buff => ?_, newIDFrom_inj, fun buff => ?_, bind_unmarshal_marshal⟩
  · refine ⟨_, _, toList_newIDFrom buff, firstLetter_mem _, ?_, fun c => encoding.mem_encodeTrimmed⟩
    simp [Base32.Alphabet.length_encodeTrimmed]
  · have hraw : decodeRefresh codec (newIDFrom buff) = (newIDFrom buff, "") := by
      simp [decodeRefresh, codec, unmarshal_newIDFrom]
    refine ⟨unmarshal_newIDFrom buff, hraw, fun c r client hr => ?_⟩
    have hdecode : decodeRefresh codec r.refreshToken = decodeRefresh rawOnly r.refreshToken := by
      rw [hr, hraw]
      rfl
    unfold handleRefreshToken
    rw [hdecode]

/-- An ID of so many letters. -/
def longID (n : Nat) : String := String.ofList (List.replicate n 'a')

theorem length_bytes_longID (n : Nat) : (bytes (longID n)).length = n := by
  have hsize : 'a'.utf8Size = 1 := by decide
  rw [bytes_eq, longID, String.toList_ofList, List.length_flatMap]
  simp [hsize]

/-- Two gigabytes of ID are not marshalled at all. -/
theorem longID_not_marshalled : (marshal (longID (2 ^ 31)) "").bind unmarshal ≠ some (longID (2 ^ 31), "") := by
  rw [ne_eq, bind_unmarshal_marshal]
  have hbytes := length_bytes_longID (2 ^ 31)
  have hfield := Protobuf.length_le_encodeField 1 (bytes (longID (2 ^ 31)))
  rw [wireBytes, List.length_append, Protobuf.maxMarshalSize]
  omega

end KubeYamls.Dex
