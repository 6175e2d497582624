import Railyard.Data.PercentEncoding

/-!
# Form encoding

How a name and a value become a query, `name=value`: a blank becomes a plus sign, and the bytes that
have a meaning in a query are written with their number.  Only the serializer is here, which the
command line uses for the message of a release.

* `formEncodeByte`, `formEncode`: a text in a query;
* `appendPair`: a pair at the end of a query.
-/

set_option autoImplicit false

namespace Encoding

/-- The bytes that stand for themselves in a query: letters, digits, and `*`, `-`, `.`, `_`. -/
def standsInForm (b : UInt8) : Bool :=
  (48 ≤ b ∧ b ≤ 57) ∨ (65 ≤ b ∧ b ≤ 90) ∨ (97 ≤ b ∧ b ≤ 122) ∨ b ∈ ([42, 45, 46, 95] : Bytes)

def formEncodeByte (b : UInt8) : Bytes :=
  if standsInForm b then [b]
  else if b = 32 then [43]
  else [37, upperHex (b.toNat / 16), upperHex (b.toNat % 16)]

/-- `form_urlencoded::byte_serialize` -/
def formEncode (s : String) : String :=
  String.ofList (((asBytes s).flatMap formEncodeByte).map byteChar)

/-- `Serializer::append_pair` -/
def appendPair (query name value : String) : String :=
  (if query = "" then "" else query ++ "&") ++ formEncode name ++ "=" ++ formEncode value

example : appendPair "" "message" "Grüße & 1+1" = "message=Gr%C3%BC%C3%9Fe+%26+1%2B1" := by decide

end Encoding
