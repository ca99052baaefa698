import KubeYamls.Data.Base64
import KubeYamls.Data.Protobuf
import KubeYamls.Dex.Calls
import KubeYamls.Dex.Text

/-! # Refresh token values and subjects

`dex/server/internal/codec.go`: a message of two strings, in the protocol buffer
encoding, as URL-safe base64. Text that is not valid UTF-8 is not a `String`, so
a message that holds some is taken as one that does not decode. -/
namespace KubeYamls.Dex
open Data

def marshal (a b : String) : Option String :=
  (Protobuf.encode (bytes a) (bytes b)).map fun data => String.ofList (Base64.encode data)

def unmarshal (s : String) : Option (String × String) :=
  (Base64.decode s.toList).bind fun data => (Protobuf.decode data).bind fun m =>
    (text m.1).bind fun a => (text m.2).map fun b => (a, b)

theorem unmarshal_marshal {a b c} (h : marshal a b = some c) : unmarshal c = some (a, b) := by
  obtain ⟨data, hdata, rfl⟩ := Option.map_eq_some_iff.mp h
  rw [unmarshal, String.toList_ofList, Base64.decode_encode]
  simp [Protobuf.decode_encode hdata, text_bytes]

def codec : Codec := ⟨marshal, unmarshal, unmarshal_marshal⟩

example : marshal "user" "ldap" = some "CgR1c2VyEgRsZGFw" := by decide +kernel

end KubeYamls.Dex
