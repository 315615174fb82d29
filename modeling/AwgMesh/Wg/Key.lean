import AwgMesh.Base64

/-! # Keys -/

namespace AwgMesh.Wg

structure Key where
  bytes : Bytes
  length_eq : bytes.length = 32
  deriving DecidableEq

namespace Key

def ofBytes (b : Bytes) : Option Key := if h : b.length = 32 then some ⟨b, h⟩ else none

@[simp] theorem ofBytes_bytes (k : Key) : ofBytes k.bytes = some k := dif_pos k.length_eq

def repeated (b : UInt8) : Key := ⟨List.replicate 32 b, List.length_replicate⟩

def zero : Key := repeated 0

def isZero (k : Key) : Bool := k.bytes.all (· = 0)

def hex (k : Key) : Bytes := hexEncode k.bytes

def string (k : Key) : Bytes := base64Encode k.bytes

def parseKey (s : Bytes) : Option Key := (base64Decode s).bind ofBytes

theorem parseKey_string (k : Key) : parseKey k.string = some k := by
  rw [parseKey, string, base64Decode_base64Encode, Option.bind_some, ofBytes_bytes]

theorem length_string (k : Key) : k.string.length = 44 := by
  rw [string, length_base64Encode, k.length_eq]

theorem visible_string (k : Key) : ByteText.Visible k.string :=
  base64Encode_forall (by decide) (by decide) k.bytes

end Key

end AwgMesh.Wg
