/-
**Bytes read as UTF-8 text, whether they are well formed or not.**

* `Chunk` — what is found at a place in a byte string: one character, or an ill-formed piece. An
  ill-formed piece is as long as it can be while it still starts some character, and one byte
  otherwise; a piece that only the end of the bytes cuts short is marked as such.
* `chunks` — all pieces of a byte string, in order.
* `decodeLossy` — the text, with one U+FFFD in the place of each ill-formed piece.
* `decode?` — the text if every piece is a character, and otherwise the first piece that is none.
* `encode` — the bytes of a text.
-/

namespace Lox.Utf8

/-! ### Pieces -/

/-- A piece of a byte string: a character, or bytes that spell none. -/
inductive Chunk where
  /-- A well-formed character. -/
  | char (c : Char)
  /-- `size` bytes that start no character; `cut` says that the bytes ended inside one. -/
  | ill (size : Nat) (cut : Bool)
deriving DecidableEq, Repr

namespace Chunk

/-- The character that stands for the piece in a text. -/
def shown : Chunk → Char
  | .char c => c
  | .ill _ _ => '\uFFFD'

end Chunk

/-- A byte that goes on with a character and starts none. -/
def isContinuation (byte : UInt8) : Bool :=
  0x80 ≤ byte && byte ≤ 0xBF

/-- The six bits that a continuation byte carries. -/
def payload (byte : UInt8) : Nat :=
  byte.toNat % 64

/-- What the first byte of a character of several bytes says about the rest of it. -/
structure Lead where
  /-- The bits that the first byte carries. -/
  bits : Nat
  /-- The least second byte. -/
  low : UInt8
  /-- The greatest second byte. -/
  high : UInt8
  /-- The number of continuation bytes after the second byte. -/
  more : Nat
deriving DecidableEq, Repr

/-- The first bytes of characters of two, three and four bytes. The second byte is limited where a
shorter spelling exists, where surrogates would be, and above U+10FFFF. -/
def Lead.ofByte? (byte : UInt8) : Option Lead :=
  let bits := byte.toNat
  if 0xC2 ≤ byte && byte ≤ 0xDF then some ⟨bits - 0xC0, 0x80, 0xBF, 0⟩
  else if byte == 0xE0 then some ⟨0, 0xA0, 0xBF, 1⟩
  else if byte == 0xED then some ⟨0x0D, 0x80, 0x9F, 1⟩
  else if 0xE1 ≤ byte && byte ≤ 0xEF then some ⟨bits - 0xE0, 0x80, 0xBF, 1⟩
  else if byte == 0xF0 then some ⟨0, 0x90, 0xBF, 2⟩
  else if 0xF1 ≤ byte && byte ≤ 0xF3 then some ⟨bits - 0xF0, 0x80, 0xBF, 2⟩
  else if byte == 0xF4 then some ⟨4, 0x80, 0x8F, 2⟩
  else none

/-- Goes on with a character of which `size` bytes with the bits `code` are read and `more` bytes
are to come. -/
def continued (size code : Nat) : Nat → List UInt8 → Chunk × List UInt8
  | 0, rest => (.char (Char.ofNat code), rest)
  | _ + 1, [] => (.ill size true, [])
  | more + 1, byte :: rest =>
    if isContinuation byte then continued (size + 1) (code * 64 + payload byte) more rest
    else (.ill size false, byte :: rest)

/-- The piece that starts with `byte`, and the bytes after it. -/
def next (byte : UInt8) (rest : List UInt8) : Chunk × List UInt8 :=
  if byte < 0x80 then (.char (Char.ofNat byte.toNat), rest)
  else
    match Lead.ofByte? byte, rest with
    | none, _ => (.ill 1 false, rest)
    | some _, [] => (.ill 1 true, [])
    | some lead, second :: others =>
      if lead.low ≤ second && second ≤ lead.high then
        continued 2 (lead.bits * 64 + payload second) lead.more others
      else (.ill 1 false, rest)

/-- The pieces of a byte string, at most `count` of them. -/
def chunksWithin : (count : Nat) → List UInt8 → List Chunk
  | 0, _ => []
  | _ + 1, [] => []
  | count + 1, byte :: rest =>
    let (chunk, others) := next byte rest
    chunk :: chunksWithin count others

/-- The pieces of a byte string; each takes a byte at least, so that it has no more pieces than
bytes. -/
def chunks (bytes : List UInt8) : List Chunk :=
  chunksWithin bytes.length bytes

/-! ### Reading and writing text -/

/-- The text of a byte string, with one U+FFFD for each ill-formed piece. -/
def decodeLossy (bytes : List UInt8) : String :=
  String.ofList ((chunks bytes).map Chunk.shown)

/-- The first place where bytes are not UTF-8. -/
structure IllFormed where
  /-- The number of bytes before it, which are all well formed. -/
  index : Nat
  /-- The length of the ill-formed piece, or none if the bytes end inside a character. -/
  size? : Option Nat
deriving DecidableEq, Repr

namespace IllFormed

/-- What is wrong, in words. -/
def message : IllFormed → String
  | ⟨index, some size⟩ => s!"invalid utf-8 sequence of {size} bytes from index {index}"
  | ⟨index, none⟩ => s!"incomplete utf-8 byte sequence from index {index}"

end IllFormed

/-- The characters of pieces that start at `index`, or the first ill-formed piece. -/
def chars? (index : Nat) : List Chunk → Except IllFormed (List Char)
  | [] => .ok []
  | .char c :: rest => (chars? (index + c.utf8Size) rest).map (c :: ·)
  | .ill size cut :: _ => .error ⟨index, if cut then none else some size⟩

/-- The text of a byte string that is UTF-8 throughout. -/
def decode? (bytes : List UInt8) : Except IllFormed String :=
  (chars? 0 (chunks bytes)).map String.ofList

/-- The bytes of a text. -/
def encode (text : String) : List UInt8 :=
  text.toUTF8.data.toList

end Lox.Utf8
