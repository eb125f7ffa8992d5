import Hypermark.Text.Blank

/-!
Texts as bytes in UTF-8.

Reading never fails: of bytes that are no UTF-8, each longest beginning of a character becomes one
replacement character, and so does every byte that begins none.

* `decodeUtf8_cons_of_lt`: bytes below 128 are read one by one.
-/

namespace Hypermark.Text

def encodeUtf8 (t : Text) : List UInt8 := t.flatMap String.utf8EncodeChar

/-- What a first byte announces: how many bytes follow, the range of the first of them, and the bits
that the byte itself gives. -/
structure LeadByte where
  following : Nat
  low : Nat
  high : Nat
  bits : Nat

/-- The announcement of a byte that begins a character of several bytes. -/
def leadByte? (n : Nat) : Option LeadByte :=
  if 0xC2 ≤ n ∧ n ≤ 0xDF then some ⟨1, 0x80, 0xBF, n - 0xC0⟩
  else if n = 0xE0 then some ⟨2, 0xA0, 0xBF, 0⟩
  else if n = 0xED then some ⟨2, 0x80, 0x9F, 0xD⟩
  else if 0xE1 ≤ n ∧ n ≤ 0xEF then some ⟨2, 0x80, 0xBF, n - 0xE0⟩
  else if n = 0xF0 then some ⟨3, 0x90, 0xBF, 0⟩
  else if 0xF1 ≤ n ∧ n ≤ 0xF3 then some ⟨3, 0x80, 0xBF, n - 0xF0⟩
  else if n = 0xF4 then some ⟨3, 0x80, 0x8F, 4⟩
  else none

/-- Reads the `following` bytes of a character whose bits so far are `bits`, the first of them being
between `low` and `high`.  Gives the character, and how many bytes belong to it. -/
def followingBytes (low high bits used : Nat) : (following : Nat) → List UInt8 → Char × Nat
  | 0, _ => (Char.ofNat bits, used)
  | _ + 1, [] => ('\ufffd', used)
  | k + 1, b :: bs =>
    if low ≤ b.toNat ∧ b.toNat ≤ high then
      followingBytes 0x80 0xBF (64 * bits + (b.toNat - 0x80)) (used + 1) k bs
    else ('\ufffd', used)

/-- The text of bytes, the first `skip` of which belong to a character that was read. -/
def decodeFrom (skip : Nat) : List UInt8 → Text
  | [] => []
  | b :: bs =>
    match skip with
    | k + 1 => decodeFrom k bs
    | 0 =>
      if b.toNat < 0x80 then Char.ofNat b.toNat :: decodeFrom 0 bs
      else
        match leadByte? b.toNat with
        | some lead =>
          let read := followingBytes lead.low lead.high lead.bits 0 lead.following bs
          read.1 :: decodeFrom read.2 bs
        | none => '\ufffd' :: decodeFrom 0 bs

/-- The text that bytes spell. -/
def decodeUtf8 (bytes : List UInt8) : Text := decodeFrom 0 bytes

/-! ## Lemmas -/

theorem decodeUtf8_cons_of_lt {b : UInt8} (h : b.toNat < 0x80) (bs : List UInt8) :
    decodeUtf8 (b :: bs) = Char.ofNat b.toNat :: decodeUtf8 bs := by
  simp [decodeUtf8, decodeFrom, h]

end Hypermark.Text
