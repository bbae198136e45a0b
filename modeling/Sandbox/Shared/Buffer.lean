import Sandbox.Encoding.Base64
import Sandbox.Encoding.Utf8

/-!
# Buffers

The conversions between strings and bytes that the services call. A buffer is a
list of bytes, and these are numbers below 256.

## Main definitions

* `fromUtf8`, `toUtf8`: `Buffer.from(text, "utf8")` and `toString("utf8")`.
* `fromBase64`, `toBase64`, `toBase64Url`: The same for the two base64 forms.

## Theorems

* `toUtf8_fromUtf8`, `fromBase64_toBase64`, `fromBase64_toBase64Url`: The
  conversions back.
-/

namespace Sandbox

open Radix Encoding

def fromUtf8 (text : String) : List Nat := Utf8.encode text.toList

def toUtf8 (bytes : List Nat) : String := String.ofList (Utf8.decode bytes)

/-- `Buffer.from(text, "base64")`, and the same with `"base64url"`. -/
def fromBase64 (text : String) : List Nat := Base64.decode text.toList

def toBase64 (bytes : List Nat) : String := String.ofList (Base64.encode bytes)

def toBase64Url (bytes : List Nat) : String := String.ofList (Base64.encodeUrl bytes)

theorem below_fromUtf8 (text : String) : Below 8 (fromUtf8 text) := Utf8.below_encode _

theorem below_fromBase64 (text : String) : Below 8 (fromBase64 text) := Base64.below_decode _

theorem toUtf8_fromUtf8 (text : String) : toUtf8 (fromUtf8 text) = text := by
  unfold toUtf8 fromUtf8
  rw [Utf8.decode_encode, String.ofList_toList]

theorem fromBase64_toBase64 {bytes : List Nat} (h : Below 8 bytes) :
    fromBase64 (toBase64 bytes) = bytes := by
  unfold fromBase64 toBase64
  rw [String.toList_ofList, Base64.decode_encode h]

theorem fromBase64_toBase64Url {bytes : List Nat} (h : Below 8 bytes) :
    fromBase64 (toBase64Url bytes) = bytes := by
  unfold fromBase64 toBase64Url
  rw [String.toList_ofList, Base64.decode_encodeUrl h]

/-- The base64url form can stand next to a separator outside its alphabet. -/
theorem notMem_toBase64Url {c : Char} (h : c ∉ Base64.alphabetUrl) (bytes : List Nat) :
    c ∉ (toBase64Url bytes).toList := by
  intro hmem
  unfold toBase64Url at hmem
  rw [String.toList_ofList] at hmem
  exact h (Base64.mem_encodeUrl hmem)

end Sandbox
