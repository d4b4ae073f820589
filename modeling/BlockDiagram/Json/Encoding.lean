import BlockDiagram.Text.Encoding

/-!
# Encodings of JSON

A JSON text starts with two characters of one byte each, so the zero bytes among its first four tell
its encoding.

* `Json.Encoding.ofBytes`: the encoding of bytes.
* `Json.decoded?`: the text of bytes, without the byte-order mark at its start.
-/

namespace BlockDiagram.Json

/-- An encoding of a text in bytes. In a longer unit the last byte may come first. -/
inductive Encoding where
  | utf8
  | utf16 (lastFirst : Bool)
  | utf32 (lastFirst : Bool)
deriving DecidableEq, Repr

def Encoding.ofBytes : List UInt8 → Encoding
  | a :: b :: c :: d :: _ =>
    if a = 0 then if b = 0 then .utf32 false else .utf16 false
    else if b = 0 then if c = 0 ∧ d = 0 then .utf32 true else .utf16 true
    else .utf8
  | [a, b] => if a = 0 then .utf16 false else if b = 0 then .utf16 true else .utf8
  | _ => .utf8

/-- A text without the byte-order mark at its start. -/
def withoutMark : List Char → List Char
  | '\ufeff' :: rest => rest
  | cs => cs

/-- The text of bytes, if they are one in their encoding. -/
def decoded? (bytes : List UInt8) : Option (List Char) :=
  match Encoding.ofBytes bytes with
  | .utf8 => some (withoutMark (Text.ofUtf8 bytes))
  | .utf16 lastFirst => Text.ofUtf16? lastFirst bytes
  | .utf32 lastFirst => Text.ofUtf32? lastFirst bytes

end BlockDiagram.Json
