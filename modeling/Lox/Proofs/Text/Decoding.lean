/-
**Encoded text is read back, and what stands before an ASCII byte is read apart from what follows.**

* `next_suffix`, `chunks_cons` — the chunks of a text are read off one by one.
* `next_encodeChar` — the bytes of a character, from one (`next_one`) to four (`next_four`), are
  read as the character. So what is encoded is decoded again (`decodeLossy_encode`).
* `next_before` — a character that an ASCII byte cuts short is shown as if the text ended there. So
  a text is decoded up to the byte and from it on (`decodeLossy_before`).
* `mem_encodeChar`, `quote_notMem_decodeLossy` — a byte in ASCII stands for its own character only,
  so that text without quotes has none when it is decoded or encoded.
-/

import Mathlib.Algebra.Group.Nat.Defs
import Lox.Proofs.Scanning.Items

namespace Lox.Utf8

/-! ### Chunks, one by one -/

theorem continued_suffix (size code more : Nat) (bytes : List UInt8) :
    (continued size code more bytes).2 <:+ bytes := by
  induction more generalizing size code bytes with
  | zero => exact List.suffix_refl _
  | succ more ih =>
    cases bytes with
    | nil => exact List.suffix_refl _
    | cons byte rest =>
      rw [continued]
      split
      · exact (ih ..).trans (List.suffix_cons byte rest)
      · exact List.suffix_refl _

/-- What is left after a chunk are the last bytes of the text. -/
theorem next_suffix (byte : UInt8) (rest : List UInt8) : (next byte rest).2 <:+ rest := by
  unfold next
  split
  · exact List.suffix_refl _
  split
  · exact List.suffix_refl _
  · exact List.suffix_refl _
  split
  · exact (continued_suffix ..).trans (List.suffix_cons _ _)
  · exact List.suffix_refl _

theorem next_le (byte : UInt8) (rest : List UInt8) : (next byte rest).2.length ≤ rest.length :=
  (next_suffix byte rest).length_le

theorem chunksWithin_succ (count : Nat) (byte : UInt8) (rest : List UInt8) :
    chunksWithin (count + 1) (byte :: rest) =
      (next byte rest).1 :: chunksWithin count (next byte rest).2 :=
  rfl

/-- A bound on the number of chunks does not matter if there are no more bytes. -/
theorem chunksWithin_eq {count other : Nat} {bytes : List UInt8} (enough : bytes.length ≤ count)
    (enoughOther : bytes.length ≤ other) : chunksWithin count bytes = chunksWithin other bytes := by
  induction count generalizing bytes other with
  | zero =>
    obtain rfl := List.eq_nil_of_length_eq_zero (Nat.le_zero.mp enough)
    cases other <;> rfl
  | succ count ih =>
    cases bytes with
    | nil => cases other <;> rfl
    | cons byte rest =>
      have shorter := next_le byte rest
      rw [List.length_cons] at enough enoughOther
      cases other with
      | zero => omega
      | succ other =>
        rw [chunksWithin_succ, chunksWithin_succ, ih (by omega : _ ≤ count) (by omega : _ ≤ other)]

theorem chunks_cons (byte : UInt8) (rest : List UInt8) :
    chunks (byte :: rest) = (next byte rest).1 :: chunks (next byte rest).2 := by
  show chunksWithin (rest.length + 1) (byte :: rest) = _
  rw [chunksWithin_succ]
  exact congrArg _ (chunksWithin_eq (next_le byte rest) (Nat.le_refl _))

/-- What all texts have of which the chunks are read off one by one. -/
theorem chunks_induction {holds : List UInt8 → Prop} (nil : holds [])
    (cons : ∀ byte rest, holds (next byte rest).2 → holds (byte :: rest)) (bytes : List UInt8) :
    holds bytes := by
  induction size : bytes.length using Nat.strongRecOn generalizing bytes with
  | ind length ih =>
    cases bytes with
    | nil => exact nil
    | cons byte rest =>
      have shorter := next_le byte rest
      rw [List.length_cons] at size
      exact cons byte rest (ih (next byte rest).2.length (by omega) _ rfl)

/-! ### Encoded characters -/

/-- The continuation byte that carries six bits. -/
def tail (bits : Nat) : UInt8 :=
  UInt8.ofNat (bits % 64 + 0x80)

theorem toNat_tail (bits : Nat) : (tail bits).toNat = bits % 64 + 0x80 := by
  unfold tail
  rw [UInt8.toNat_ofNat']
  omega

theorem payload_tail (bits : Nat) : payload (tail bits) = bits % 64 := by
  unfold payload
  rw [toNat_tail]
  omega

theorem isContinuation_tail (bits : Nat) : isContinuation (tail bits) = true := by
  have isByte := toNat_tail bits
  have low : (0x80 : UInt8).toNat = 0x80 := rfl
  have high : (0xBF : UInt8).toNat = 0xBF := rfl
  rw [isContinuation, Bool.and_eq_true, decide_eq_true_eq, decide_eq_true_eq, UInt8.le_iff_toNat_le,
    UInt8.le_iff_toNat_le]
  omega

theorem continued_tail (size code more bits : Nat) (rest : List UInt8) :
    continued size code (more + 1) (tail bits :: rest) =
      continued (size + 1) (code * 64 + bits % 64) more rest := by
  rw [continued, if_pos (isContinuation_tail bits), payload_tail]

namespace Lead

/-- A first byte of two. -/
theorem ofByte?_two : ∀ bits : Fin 32, 2 ≤ bits.val →
    ofByte? (UInt8.ofNat (bits + 0xC0)) = some ⟨bits, 0x80, 0xBF, 0⟩ := by
  decide

/-- A first byte of three. A shorter spelling and surrogates are left out. -/
theorem ofByte?_three : ∀ bits : Fin 16, ofByte? (UInt8.ofNat (bits + 0xE0)) =
    some ⟨bits, if bits.val = 0 then 0xA0 else 0x80, if bits.val = 13 then 0x9F else 0xBF, 1⟩ := by
  decide

/-- A first byte of four. A shorter spelling and what is above U+10FFFF are left out. -/
theorem ofByte?_four : ∀ bits : Fin 5, ofByte? (UInt8.ofNat (bits + 0xF0)) =
    some ⟨bits, if bits.val = 0 then 0x90 else 0x80, if bits.val = 4 then 0x8F else 0xBF, 2⟩ := by
  decide

theorem ofByte?_ascii {byte : UInt8} (ascii : byte < 0x80) : ofByte? byte = none := by
  unfold ofByte?
  grind

/-- The second byte is a continuation byte, and with the least one the character is above ASCII. -/
theorem bounds {byte : UInt8} {lead : Lead} (isLead : ofByte? byte = some lead) :
    128 ≤ lead.low.toNat ∧ lead.high.toNat < 192 ∧
      128 ≤ (lead.bits * 64 + payload lead.low) * 64 ^ lead.more := by
  have each : ∀ byte, (ofByte? byte).all (fun lead => 128 ≤ lead.low.toNat ∧ lead.high.toNat < 192 ∧
      128 ≤ (lead.bits * 64 + payload lead.low) * 64 ^ lead.more) = true :=
    Byte.forall_of_fin (by decide +kernel)
  have ofByte := each byte
  rwa [isLead, Option.all_some, decide_eq_true_eq] at ofByte

end Lead

/-- A first byte of several, and a second one that it allows. -/
theorem next_lead {byte : UInt8} {lead : Lead} (isLead : Lead.ofByte? byte = some lead) {bits : Nat}
    (low : lead.low.toNat ≤ bits % 64 + 0x80) (high : bits % 64 + 0x80 ≤ lead.high.toNat)
    (rest : List UInt8) :
    next byte (tail bits :: rest) = continued 2 (lead.bits * 64 + bits % 64) lead.more rest := by
  have several : ¬byte < 0x80 := by
    intro ascii
    rw [Lead.ofByte?_ascii ascii] at isLead
    cases isLead
  have allowed : (decide (lead.low ≤ tail bits) && decide (tail bits ≤ lead.high)) = true := by
    rw [Bool.and_eq_true, decide_eq_true_eq, decide_eq_true_eq, UInt8.le_iff_toNat_le,
      UInt8.le_iff_toNat_le, toNat_tail]
    exact ⟨low, high⟩
  unfold next
  rw [if_neg several, isLead]
  dsimp only
  rw [if_pos allowed, payload_tail]

section

variable {code : Nat} (rest : List UInt8)

/-- A code in ASCII is its own byte. -/
theorem next_one (high : code < 0x80) :
    next (UInt8.ofNat code) rest = (.char (Char.ofNat code), rest) := by
  have isByte : (UInt8.ofNat code).toNat = code := by
    rw [UInt8.toNat_ofNat']
    omega
  have ascii : UInt8.ofNat code < 0x80 := by
    rw [UInt8.lt_iff_toNat_lt, isByte]
    exact high
  unfold next
  rw [if_pos ascii, isByte]

theorem next_two (low : 0x80 ≤ code) (high : code < 0x800) :
    next (UInt8.ofNat (code / 64 % 32 + 0xC0)) (tail code :: rest) =
      (.char (Char.ofNat code), rest) := by
  have isLead := Lead.ofByte?_two ⟨code / 64 % 32, by omega⟩ (by dsimp only; omega)
  rw [next_lead isLead (by show 0x80 ≤ _; omega) (by show _ ≤ 0xBF; omega), continued]
  congr 3
  dsimp only
  omega

theorem next_three (low : 0x800 ≤ code) (high : code < 0x10000)
    (valid : code < 0xD800 ∨ 0xDFFF < code) :
    next (UInt8.ofNat (code / 4096 % 16 + 0xE0)) (tail (code / 64) :: tail code :: rest) =
      (.char (Char.ofNat code), rest) := by
  have isLead := Lead.ofByte?_three ⟨code / 4096 % 16, by omega⟩
  dsimp only at isLead
  rw [next_lead isLead, continued_tail, continued]
  · congr 3
    dsimp only
    omega
  · dsimp only
    split
    · show 0xA0 ≤ _
      omega
    · show 0x80 ≤ _
      omega
  · dsimp only
    split
    · show _ ≤ 0x9F
      omega
    · show _ ≤ 0xBF
      omega

theorem next_four (low : 0x10000 ≤ code) (high : code < 0x110000) :
    next (UInt8.ofNat (code / 262144 % 8 + 0xF0))
        (tail (code / 4096) :: tail (code / 64) :: tail code :: rest) =
      (.char (Char.ofNat code), rest) := by
  have isLead := Lead.ofByte?_four ⟨code / 262144 % 8, by omega⟩
  dsimp only at isLead
  rw [next_lead isLead, continued_tail, continued_tail, continued]
  · congr 3
    dsimp only
    omega
  · dsimp only
    split
    · show 0x90 ≤ _
      omega
    · show 0x80 ≤ _
      omega
  · dsimp only
    split
    · show _ ≤ 0x8F
      omega
    · show _ ≤ 0xBF
      omega

end

/-- **The bytes of a character are read as the character.** -/
theorem next_encodeChar (c : Char) (rest : List UInt8) :
    ∃ byte others, String.utf8EncodeChar c = byte :: others ∧
      next byte (others ++ rest) = (.char c, rest) := by
  have isChar : Char.ofNat c.val.toNat = c := Char.ofNat_toNat c
  have valid : c.val.toNat < 0xD800 ∨ 0xDFFF < c.val.toNat ∧ c.val.toNat < 0x110000 := c.valid
  unfold String.utf8EncodeChar
  generalize c.val.toNat = code at isChar valid
  subst isChar
  dsimp only
  split
  · exact ⟨_, [], rfl, next_one rest (by omega)⟩
  split
  · exact ⟨_, [tail code], rfl, next_two rest (by omega) (by omega)⟩
  split
  · exact ⟨_, [tail (code / 64), tail code], rfl, next_three rest (by omega) (by omega) (by omega)⟩
  · exact ⟨_, [tail (code / 4096), tail (code / 64), tail code], rfl,
      next_four rest (by omega) (by omega)⟩

theorem chunks_encode (text : String) : chunks (encode text) = text.toList.map .char := by
  rw [encode_eq]
  induction text.toList with
  | nil => rfl
  | cons c rest ih =>
    obtain ⟨byte, others, bytes, isNext⟩ := next_encodeChar c (rest.flatMap String.utf8EncodeChar)
    rw [List.flatMap_cons, bytes, List.cons_append, chunks_cons, isNext, List.map_cons, ← ih]

/-- **What is encoded is decoded again.** -/
theorem decodeLossy_encode (text : String) : decodeLossy (encode text) = text := by
  rw [decodeLossy, chunks_encode, List.map_map]
  exact (congrArg String.ofList (List.map_id _)).trans String.ofList_toList

/-! ### Up to a byte in ASCII -/

/-- In ASCII, no byte goes on with a character. -/
theorem isContinuation_ascii {byte : UInt8} (ascii : byte < 0x80) :
    isContinuation byte = false := by
  unfold isContinuation
  grind

section

variable {stop : UInt8} (ascii : stop < 0x80) (more : List UInt8)

include ascii

theorem continued_before (size code left : Nat) (bytes : List UInt8) :
    (continued size code left (bytes ++ stop :: more)).1.shown =
      (continued size code left bytes).1.shown ∧
      (continued size code left (bytes ++ stop :: more)).2 =
        (continued size code left bytes).2 ++ stop :: more := by
  induction left generalizing size code bytes with
  | zero => exact ⟨rfl, rfl⟩
  | succ left ih =>
    cases bytes with
    | nil =>
      have stops : ¬isContinuation stop = true := by
        rw [isContinuation_ascii ascii]
        exact Bool.false_ne_true
      rw [List.nil_append, show continued size code (left + 1) (stop :: more) = _ from if_neg stops]
      exact ⟨rfl, rfl⟩
    | cons byte rest =>
      rw [List.cons_append, continued, continued]
      split
      · exact ih ..
      · exact ⟨rfl, rfl⟩

/-- With a byte in ASCII after the text, the same is shown. -/
theorem next_before (byte : UInt8) (rest : List UInt8) :
    (next byte (rest ++ stop :: more)).1.shown = (next byte rest).1.shown ∧
      (next byte (rest ++ stop :: more)).2 = (next byte rest).2 ++ stop :: more := by
  unfold next
  split
  · exact ⟨rfl, rfl⟩
  cases isLead : Lead.ofByte? byte with
  | none => exact ⟨rfl, rfl⟩
  | some lead =>
    cases rest with
    | nil =>
      have notAllowed : ¬(decide (lead.low ≤ stop) && decide (stop ≤ lead.high)) = true := by
        rw [Bool.and_eq_true, decide_eq_true_eq, decide_eq_true_eq]
        exact fun allowed => absurd (Nat.lt_of_lt_of_le ascii (Lead.bounds isLead).1)
          (Nat.not_lt_of_le allowed.1)
      rw [List.nil_append]
      dsimp only
      rw [if_neg notAllowed]
      exact ⟨rfl, rfl⟩
    | cons second others =>
      rw [List.cons_append]
      dsimp only
      split
      · exact continued_before ascii more ..
      · exact ⟨rfl, rfl⟩

/-- **A text is decoded up to a byte in ASCII, and from it on.** -/
theorem decodeLossy_before (bytes : List UInt8) :
    decodeLossy (bytes ++ stop :: more) = decodeLossy bytes ++ decodeLossy (stop :: more) := by
  have shown : (chunks (bytes ++ stop :: more)).map Chunk.shown =
      (chunks bytes).map Chunk.shown ++ (chunks (stop :: more)).map Chunk.shown := by
    induction bytes using chunks_induction with
    | nil => rfl
    | cons byte rest ih =>
      obtain ⟨same, left⟩ := next_before ascii more byte rest
      rw [List.cons_append, chunks_cons, chunks_cons, List.map_cons, List.map_cons, same, left, ih,
        List.cons_append]
  rw [decodeLossy, shown, String.ofList_append]
  rfl

end

/-- A byte in ASCII is decoded as its character. -/
theorem decodeLossy_cons {byte : UInt8} (ascii : byte < 0x80) (rest : List UInt8) :
    decodeLossy (byte :: rest) = String.singleton (charOf byte) ++ decodeLossy rest := by
  have isFirst : next byte rest = (.char (charOf byte), rest) := if_pos ascii
  rw [decodeLossy, chunks_cons, isFirst, List.map_cons, ← List.singleton_append,
    String.ofList_append]
  rfl

/-! ### Quotes -/

/-- A byte in ASCII is a byte of its own character only. -/
theorem mem_encodeChar {byte : UInt8} (ascii : byte < 0x80) {c : Char}
    (isOne : byte ∈ String.utf8EncodeChar c) :
    c = charOf byte := by
  have isChar : Char.ofNat c.val.toNat = c := Char.ofNat_toNat c
  have bound : c.val.toNat < 0x110000 :=
    c.valid.elim (fun low => Nat.lt_trans low (by decide)) And.right
  -- the bytes of a character of several bytes are not in ASCII
  have several : ∀ value, 128 ≤ value → value < 256 → byte ≠ UInt8.ofNat value := by
    rintro value low high rfl
    have isByte : (UInt8.ofNat value).toNat = value := UInt8.toNat_ofNat_of_lt' high
    exact absurd (UInt8.lt_iff_toNat_lt.mp ascii) (by rw [isByte]; exact Nat.not_lt_of_le low)
  unfold String.utf8EncodeChar at isOne
  generalize c.val.toNat = v at isChar isOne bound
  dsimp only at isOne
  split at isOne
  · obtain rfl := List.mem_singleton.mp isOne
    have isByte : (UInt8.ofNat v).toNat = v := UInt8.toNat_ofNat_of_lt' (by show v < 256; omega)
    rw [charOf, isByte, isChar]
  split at isOne
  · simp only [List.mem_cons, List.not_mem_nil, or_false] at isOne
    rcases isOne with isOne | isOne <;> exact absurd isOne (several _ (by omega) (by omega))
  split at isOne
  · simp only [List.mem_cons, List.not_mem_nil, or_false] at isOne
    rcases isOne with isOne | isOne | isOne <;> exact absurd isOne (several _ (by omega) (by omega))
  · simp only [List.mem_cons, List.not_mem_nil, or_false] at isOne
    rcases isOne with isOne | isOne | isOne | isOne <;> exact absurd isOne
      (several _ (by omega) (by omega))

/-- A text without the character of a byte in ASCII is encoded without the byte. -/
theorem notMem_encode {byte : UInt8} (ascii : byte < 0x80) {text : String}
    (absent : charOf byte ∉ text.toList) :
    byte ∉ encode text := by
  rw [encode_eq, List.mem_flatMap]
  rintro ⟨c, inText, isOne⟩
  exact absent (mem_encodeChar ascii isOne ▸ inText)

/-- No number that a character of several bytes has is that of a quote. -/
theorem ofNat_ne_quote {code : Nat} (high : 128 ≤ code) : Char.ofNat code ≠ '"' := by
  intro same
  by_cases valid : code.isValidChar
  · have isCode := toNat_ofNat valid
    rw [same] at isCode
    have quote : ('"' : Char).toNat = 34 := rfl
    omega
  · rw [Char.ofNat, dif_neg valid] at same
    exact absurd same (by decide)

theorem continued_ne_quote (size : Nat) {code more : Nat} (high : 128 ≤ code * 64 ^ more)
    (bytes : List UInt8) :
    (continued size code more bytes).1.shown ≠ '"' := by
  induction more generalizing size code bytes with
  | zero => exact ofNat_ne_quote (by rwa [Nat.pow_zero, Nat.mul_one] at high)
  | succ more ih =>
    cases bytes with
    | nil => exact (by decide : '\uFFFD' ≠ '"')
    | cons byte rest =>
      rw [continued]
      split
      · refine ih _ (Nat.le_trans high ?_) rest
        rw [Nat.pow_succ', ← Nat.mul_assoc]
        exact Nat.mul_le_mul_right _ (Nat.le_add_right _ _)
      · exact (by decide : '\uFFFD' ≠ '"')

/-- A character of several bytes has a number above ASCII. -/
theorem Lead.above_ascii {byte second : UInt8} {lead : Lead} (isLead : ofByte? byte = some lead)
    (low : lead.low ≤ second) (high : second ≤ lead.high) :
    128 ≤ (lead.bits * 64 + payload second) * 64 ^ lead.more := by
  obtain ⟨isLow, isHigh, least⟩ := bounds isLead
  rw [UInt8.le_iff_toNat_le] at low high
  refine Nat.le_trans least (Nat.mul_le_mul_right _ (Nat.add_le_add_left ?_ _))
  unfold payload
  omega

/-- A quote is shown for its own byte only. -/
theorem eq_quote_of_next {byte : UInt8} {rest : List UInt8}
    (shown : (next byte rest).1.shown = '"') :
    byte = Byte.quote := by
  have replaced : '\uFFFD' ≠ '"' := by decide
  unfold next at shown
  split at shown
  · exact charOf_injective shown
  split at shown
  · exact absurd shown replaced
  · exact absurd shown replaced
  · rename_i isLead
    split at shown
    · rename_i allowed
      obtain ⟨low, high⟩ := Bool.and_eq_true_iff.mp allowed
      have above := Lead.above_ascii isLead (of_decide_eq_true low) (of_decide_eq_true high)
      exact absurd shown (continued_ne_quote 2 above _)
    · exact absurd shown replaced

/-- **Bytes without a quote are decoded as a text without one.** -/
theorem quote_notMem_decodeLossy {bytes : List UInt8} (noQuote : Byte.quote ∉ bytes) :
    '"' ∉ (decodeLossy bytes).toList := by
  rw [decodeLossy, String.toList_ofList]
  induction bytes using chunks_induction with
  | nil => exact List.not_mem_nil
  | cons byte rest ih =>
    rw [chunks_cons, List.map_cons, List.mem_cons, not_or]
    refine ⟨fun shown => noQuote (eq_quote_of_next shown.symm ▸ List.mem_cons_self),
      ih fun inRest => noQuote ?_⟩
    exact List.mem_cons_of_mem _ ((next_suffix byte rest).subset inRest)

end Lox.Utf8
