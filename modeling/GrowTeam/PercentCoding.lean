import Mathlib.Data.List.Basic
import Mathlib.Data.Nat.Notation

/-!
# Texts in percent-encoding

A text is written with a few plain characters; of every other character each byte of its UTF-8
is written as a mark and two hexadecimal digits.  What was so written with `%` is read back
as it was.  The reader accepts every text: a `%` without two digits stands for itself, and
bytes that are no UTF-8 become replacement characters.
-/

namespace PercentCoding

open List

/-! ## UTF-8 with replacement characters -/

/-- What may follow the first byte of a sequence of three or four. -/
def second (lead b : UInt8) : Bool :=
  let least : UInt8 := if lead = 0xE0 then 0xA0 else if lead = 0xF0 then 0x90 else 0x80
  let greatest : UInt8 := if lead = 0xED then 0x9F else if lead = 0xF4 then 0x8F else 0xBF
  least ≤ b && b ≤ greatest

/-- The bytes that one replacement character stands for: as many as begin some sequence, and at
least one. -/
def refused (lead : UInt8) (rest : List UInt8) : ℕ :=
  if 0xE0 ≤ lead && lead ≤ 0xF4 then
    match rest with
    | [] => 1
    | b :: more =>
      if second lead b then
        if 0xF0 ≤ lead && more.head?.any fun c => 0x80 ≤ c && c ≤ 0xBF then 3 else 2
      else 1
  else 1

/-- The characters of so many bytes at most. -/
def decodeUpTo : ℕ → List UInt8 → List Char
  | 0, _ => []
  | _ + 1, [] => []
  | n + 1, b :: rest =>
    match ByteArray.utf8DecodeChar? (b :: rest).toByteArray 0 with
    | some c => c :: decodeUpTo n ((b :: rest).drop c.utf8Size)
    | none => Char.ofNat 0xFFFD :: decodeUpTo n ((b :: rest).drop (refused b rest))

/-- `bytes.decode("utf-8", "replace")`. -/
def decode (bytes : List UInt8) : List Char := decodeUpTo bytes.length bytes

theorem decodeUpTo_flatMap (s : List Char) :
    ∀ n, (s.flatMap String.utf8EncodeChar).length ≤ n →
      decodeUpTo n (s.flatMap String.utf8EncodeChar) = s := by
  induction s with
  | nil =>
    intro n _
    cases n <;> rfl
  | cons c s ih =>
    intro n hn
    rw [flatMap_cons] at hn ⊢
    have hlength := String.length_utf8EncodeChar c
    have hpos := Char.utf8Size_pos c
    rw [List.length_append] at hn
    obtain ⟨m, rfl⟩ : ∃ m, n = m + 1 := ⟨n - 1, by omega⟩
    obtain ⟨b, rest, hcode⟩ := exists_cons_of_ne_nil (String.utf8EncodeChar_ne_nil (c := c))
    -- the first character is read whatever follows it
    have hread : ByteArray.utf8DecodeChar?
        (String.utf8EncodeChar c ++ s.flatMap String.utf8EncodeChar).toByteArray 0 = some c := by
      rw [toByteArray_append]
      exact ByteArray.utf8DecodeChar?_utf8EncodeChar_append
    rw [hcode, cons_append] at hread ⊢
    rw [decodeUpTo, hread]
    dsimp only
    rw [← cons_append, ← hcode, ← hlength, drop_left, ih m (by omega)]

/-- **The bytes of a text are read as the text.** -/
theorem decode_flatMap (s : List Char) : decode (s.flatMap String.utf8EncodeChar) = s :=
  decodeUpTo_flatMap s _ (Nat.le_refl _)

/-! ## The two directions -/

/-- The hexadecimal digit of a number below 16. -/
def hexDigit (n : ℕ) : Char := Char.ofNat (if n < 10 then 0x30 + n else 0x37 + n)

def hexValue (c : Char) : Option ℕ :=
  if '0' ≤ c ∧ c ≤ '9' then some (c.toNat - 0x30)
  else if 'A' ≤ c ∧ c ≤ 'F' then some (c.toNat - 0x37)
  else if 'a' ≤ c ∧ c ≤ 'f' then some (c.toNat - 0x57)
  else none

/-- A byte as a mark and two digits. -/
def escape (mark : Char) (b : UInt8) : List Char :=
  [mark, hexDigit (b.toNat / 16), hexDigit (b.toNat % 16)]

def encodeChar (mark : Char) (kept : Char → Bool) (c : Char) : List Char :=
  if kept c then [c] else (String.utf8EncodeChar c).flatMap (escape mark)

/-- A text in which only the kept characters stand as they are. -/
def encode (mark : Char) (kept : Char → Bool) (s : List Char) : List Char :=
  s.flatMap (encodeChar mark kept)

def isAscii (c : Char) : Bool := c.toNat < 0x80

/-- `unquote_to_bytes` of an ASCII text. -/
def unquoteToBytes : List Char → List UInt8
  | [] => []
  | '%' :: high :: low :: rest =>
    match hexValue high, hexValue low with
    | some h, some l => UInt8.ofNat (16 * h + l) :: unquoteToBytes rest
    | _, _ => UInt8.ofNat '%'.toNat :: unquoteToBytes (high :: low :: rest)
  | c :: rest => UInt8.ofNat c.toNat :: unquoteToBytes rest

/-- Of a text after an ASCII run, which stands in reverse. -/
def unquoteAfter (run : List Char) : List Char → List Char
  | [] => decode (unquoteToBytes run.reverse)
  | c :: rest =>
    if isAscii c then unquoteAfter (c :: run) rest
    else decode (unquoteToBytes run.reverse) ++ c :: unquoteAfter [] rest

/-- `unquote`: the ASCII runs are read as bytes, all else stays. -/
def unquote (s : List Char) : List Char := unquoteAfter [] s

/-! ## What is written is read back -/

theorem hexValue_hexDigit : ∀ n < 16, hexValue (hexDigit n) = some n := by
  decide

theorem hexDigit_ascii : ∀ n < 16, isAscii (hexDigit n) = true := by
  decide

theorem escape_ascii {mark : Char} (hmark : isAscii mark = true) (b : UInt8) :
    ∀ c ∈ escape mark b, isAscii c = true := by
  have hb := b.toNat_lt
  intro c hc
  simp only [escape, mem_cons, not_mem_nil, or_false] at hc
  rcases hc with rfl | rfl | rfl
  · exact hmark
  · exact hexDigit_ascii _ (by omega)
  · exact hexDigit_ascii _ (by omega)

theorem encode_ascii {mark : Char} {kept : Char → Bool} (hmark : isAscii mark = true)
    (hkept : ∀ c, kept c = true → isAscii c = true) (s : List Char) :
    ∀ c ∈ encode mark kept s, isAscii c = true := by
  intro c hc
  obtain ⟨a, -, ha⟩ := mem_flatMap.mp hc
  unfold encodeChar at ha
  split at ha
  · next h =>
    rw [mem_singleton.mp ha]
    exact hkept a h
  · obtain ⟨b, -, hb⟩ := mem_flatMap.mp ha
    exact escape_ascii hmark b c hb

theorem unquoteToBytes_escape (b : UInt8) (rest : List Char) :
    unquoteToBytes (escape '%' b ++ rest) = b :: unquoteToBytes rest := by
  have hb := b.toNat_lt
  show unquoteToBytes ('%' :: hexDigit (b.toNat / 16) :: hexDigit (b.toNat % 16) :: rest) = _
  rw [unquoteToBytes, hexValue_hexDigit _ (by omega), hexValue_hexDigit _ (by omega)]
  dsimp only
  rw [Nat.div_add_mod, UInt8.ofNat_toNat]

theorem unquoteToBytes_escapes (bytes : List UInt8) (rest : List Char) :
    unquoteToBytes (bytes.flatMap (escape '%') ++ rest) = bytes ++ unquoteToBytes rest := by
  induction bytes with
  | nil => rfl
  | cons b bytes ih =>
    rw [flatMap_cons, append_assoc, unquoteToBytes_escape, ih, cons_append]

theorem unquoteToBytes_cons {c : Char} (hc : c ≠ '%') (rest : List Char) :
    unquoteToBytes (c :: rest) = UInt8.ofNat c.toNat :: unquoteToBytes rest := by
  rw [unquoteToBytes.eq_3]
  intro _ _ _ h
  exact absurd h hc

theorem utf8EncodeChar_ascii {c : Char} (hc : isAscii c = true) :
    String.utf8EncodeChar c = [UInt8.ofNat c.toNat] := by
  have hle : c.val.toNat ≤ 0x7F := by
    have : c.toNat < 0x80 := by simpa [isAscii] using hc
    show c.toNat ≤ 0x7F
    omega
  simp only [String.utf8EncodeChar, hle, if_true]
  rfl

section Kept

variable {kept : Char → Bool} (hascii : ∀ c, kept c = true → isAscii c = true)
  (hmark : kept '%' = false)

include hascii hmark

theorem unquoteToBytes_encode (s : List Char) :
    unquoteToBytes (encode '%' kept s) = s.flatMap String.utf8EncodeChar := by
  induction s with
  | nil => rfl
  | cons c s ih =>
    rw [flatMap_cons, ← ih]
    show unquoteToBytes (encodeChar '%' kept c ++ encode '%' kept s) = _
    unfold encodeChar
    split
    · next h =>
      have hc : c ≠ '%' := by
        rintro rfl
        rw [hmark] at h
        cases h
      rw [singleton_append, unquoteToBytes_cons hc, utf8EncodeChar_ascii (hascii c h)]
      rfl
    · rw [unquoteToBytes_escapes]

omit hascii hmark in
theorem unquoteAfter_ascii {s : List Char} (hs : ∀ c ∈ s, isAscii c = true) :
    ∀ run, unquoteAfter run s = decode (unquoteToBytes (run.reverse ++ s)) := by
  induction s with
  | nil =>
    intro run
    rw [append_nil]
    rfl
  | cons c s ih =>
    intro run
    rw [unquoteAfter, if_pos (hs c mem_cons_self), ih (fun d hd => hs d (mem_cons_of_mem _ hd))]
    simp

/-- **A text is read back from its percent-encoding.** -/
theorem unquote_encode (s : List Char) : unquote (encode '%' kept s) = s := by
  have hencoded : ∀ c ∈ encode '%' kept s, isAscii c = true := encode_ascii rfl hascii s
  rw [unquote, unquoteAfter_ascii hencoded, reverse_nil, nil_append,
    unquoteToBytes_encode hascii hmark, decode_flatMap]

end Kept

end PercentCoding
