/-
Texts in files. Decoding takes back the encoding of every text: the first byte of a character tells
how many bytes follow and in what range each of them lies, and a character keeps to these ranges in
its one, two, three or four bytes. So the bytes of a file that a text was written to give that text,
whichever way each of its line feeds was written and whether or not a mark was put in front.
-/
import BuildOrder.Text.Decoded
import Mathlib.Data.List.Infix
import Mathlib.Logic.Basic
import Mathlib.Tactic.SplitIfs

namespace BuildOrder.Text

namespace Utf8

/-! ## The bytes of a character -/

/-- The range of a byte that follows, where the byte before it leaves all of them. -/
def tailRange : UInt8 × UInt8 := (0x80, 0xBF)

/-- The range of the second byte behind a first one that gives `n`: where that is zero, from `low` on,
and where it is `last`, up to `high`. -/
def secondRange (low high : UInt8) (last n : Nat) : UInt8 × UInt8 :=
  (if n = 0 then low else 0x80, if n = last then high else 0xBF)

theorem toNat_byte {n : Nat} (h : n < 0x100) : (UInt8.ofNat n).toNat = n :=
  UInt8.toNat_ofNat_of_lt' h

theorem lead?_one {n : Nat} (h : n < 0x80) : lead? (.ofNat n) = some (n, []) := by
  have hn : (UInt8.ofNat n).toNat = n := toNat_byte (by omega)
  have hlt : UInt8.ofNat n < 0x80 := UInt8.lt_iff_toNat_lt.2 (by rwa [hn])
  rw [lead?, if_pos hlt, hn]

theorem lead?_two : ∀ n < 0x1E, lead? (.ofNat (n + 0xC2)) = some (n + 2, [tailRange]) := by
  decide

theorem lead?_three : ∀ n < 0x10, lead? (.ofNat (n + 0xE0)) =
    some (n, [secondRange 0xA0 0x9F 0xD n, tailRange]) := by
  decide

theorem lead?_four : ∀ n < 5, lead? (.ofNat (n + 0xF0)) =
    some (n, [secondRange 0x90 0x8F 4 n, tailRange, tailRange]) := by
  decide

/-- A byte that follows gives six bits. -/
theorem readTail_cons {value taken m : Nat} {range : UInt8 × UInt8} {ranges : List (UInt8 × UInt8)}
    {bytes : List UInt8} (hl : range.1.toNat ≤ m + 0x80) (hu : m + 0x80 ≤ range.2.toNat) :
    readTail value taken (range :: ranges) (.ofNat (m + 0x80) :: bytes) =
      readTail (64 * value + m) (taken + 1) ranges bytes := by
  have hm : (UInt8.ofNat (m + 0x80)).toNat = m + 0x80 :=
    toNat_byte (Nat.lt_of_le_of_lt hu range.2.toNat_lt)
  have hrange : range.1 ≤ .ofNat (m + 0x80) ∧ .ofNat (m + 0x80) ≤ range.2 := by
    rw [UInt8.le_iff_toNat_le, UInt8.le_iff_toNat_le, hm]
    exact ⟨hl, hu⟩
  rw [readTail, if_pos hrange, hm, Nat.add_sub_cancel]

theorem readTail_tail {value taken m : Nat} {ranges : List (UInt8 × UInt8)} {bytes : List UInt8}
    (hm : m < 0x40) :
    readTail value taken (tailRange :: ranges) (.ofNat (m + 0x80) :: bytes) =
      readTail (64 * value + m) (taken + 1) ranges bytes :=
  readTail_cons (Nat.le_add_left _ _) (Nat.add_le_add_right (Nat.le_of_lt_succ hm) _)

theorem readTail_second {low high : UInt8} {last n taken m : Nat} {ranges : List (UInt8 × UInt8)}
    {bytes : List UInt8} (hm : m < 0x40) (hlow : n = 0 → low.toNat ≤ m + 0x80)
    (hhigh : n = last → m + 0x80 ≤ high.toNat) :
    readTail n taken (secondRange low high last n :: ranges) (.ofNat (m + 0x80) :: bytes) =
      readTail (64 * n + m) (taken + 1) ranges bytes := by
  apply readTail_cons
  · dsimp only [secondRange]
    split_ifs with hn
    · exact hlow hn
    · exact Nat.le_add_left _ _
  · dsimp only [secondRange]
    split_ifs with hn
    · exact hhigh hn
    · exact Nat.add_le_add_right (Nat.le_of_lt_succ hm) _

/-! ## Decoding what is encoded -/

theorem decodeFrom_cons {b : UInt8} {value code : Nat} {ranges : List (UInt8 × UInt8)}
    {bytes rest : List UInt8} (hl : lead? b = some (value, ranges))
    (ht : readTail value 1 ranges bytes = .ok (code, rest)) (offset : Nat) :
    decodeFrom offset (b :: bytes) =
      (decodeFrom (offset + 1 + ranges.length) rest).map (Char.ofNat code :: ·) := by
  rw [decodeFrom]
  simp only [hl]
  split
  · rename_i h
    cases ht.symm.trans h
  · rename_i h
    cases ht.symm.trans h
    rfl

/-- The bytes of a character are read as that character, whatever follows them. -/
theorem decodeFrom_encodeChar (c : Char) (offset : Nat) (rest : List UInt8) :
    ∃ next, decodeFrom offset (String.utf8EncodeChar c ++ rest) =
      (decodeFrom next rest).map (c :: ·) := by
  have hvalid : c.val.toNat < 0xD800 ∨ 0xDFFF < c.val.toNat ∧ c.val.toNat < 0x110000 := c.valid
  have hcode : Char.ofNat c.val.toNat = c := Char.ofNat_toNat c
  unfold String.utf8EncodeChar
  generalize c.val.toNat = v at hvalid hcode
  dsimp only
  -- the bytes that follow give the lower bits of the character, six each
  split_ifs with hone htwo hthree
  · have htail : readTail v 1 [] rest = .ok (v, rest) := rfl
    rw [← hcode]
    exact ⟨_, decodeFrom_cons (lead?_one (Nat.lt_succ_of_le hone)) htail offset⟩
  · have hlead := lead?_two (v / 64 - 2) (by omega)
    rw [show v / 64 - 2 + 0xC2 = v / 64 % 0x20 + 0xC0 by omega] at hlead
    have htail : readTail (v / 64 - 2 + 2) 1 [tailRange] (.ofNat (v % 0x40 + 0x80) :: rest) =
        .ok (v, rest) := by
      rw [readTail_tail (by omega), readTail]
      congr 2
      omega
    rw [← hcode]
    exact ⟨_, decodeFrom_cons hlead htail offset⟩
  · have hlead := lead?_three (v / 4096 % 0x10) (by omega)
    -- a character of two bytes is too small, and a surrogate is none
    have hlow : v / 4096 % 0x10 = 0 → (0xA0 : UInt8).toNat ≤ v / 64 % 0x40 + 0x80 := by
      rw [show (0xA0 : UInt8).toNat = 0xA0 from rfl]
      omega
    have hhigh : v / 4096 % 0x10 = 0xD → v / 64 % 0x40 + 0x80 ≤ (0x9F : UInt8).toNat := by
      rw [show (0x9F : UInt8).toNat = 0x9F from rfl]
      omega
    have htail : readTail (v / 4096 % 0x10) 1
        [secondRange 0xA0 0x9F 0xD (v / 4096 % 0x10), tailRange]
        (.ofNat (v / 64 % 0x40 + 0x80) :: .ofNat (v % 0x40 + 0x80) :: rest) = .ok (v, rest) := by
      rw [readTail_second (by omega) hlow hhigh, readTail_tail (by omega), readTail]
      congr 2
      omega
    rw [← hcode]
    exact ⟨_, decodeFrom_cons hlead htail offset⟩
  · have hlead := lead?_four (v / 262144 % 0x08) (by omega)
    -- a character of three bytes is too small, and above the last one there is none
    have hlow : v / 262144 % 0x08 = 0 → (0x90 : UInt8).toNat ≤ v / 4096 % 0x40 + 0x80 := by
      rw [show (0x90 : UInt8).toNat = 0x90 from rfl]
      omega
    have hhigh : v / 262144 % 0x08 = 4 → v / 4096 % 0x40 + 0x80 ≤ (0x8F : UInt8).toNat := by
      rw [show (0x8F : UInt8).toNat = 0x8F from rfl]
      omega
    have htail : readTail (v / 262144 % 0x08) 1
        [secondRange 0x90 0x8F 4 (v / 262144 % 0x08), tailRange, tailRange]
        (.ofNat (v / 4096 % 0x40 + 0x80) :: .ofNat (v / 64 % 0x40 + 0x80) ::
          .ofNat (v % 0x40 + 0x80) :: rest) = .ok (v, rest) := by
      rw [readTail_second (by omega) hlow hhigh, readTail_tail (by omega),
        readTail_tail (by omega), readTail]
      congr 2
      omega
    rw [← hcode]
    exact ⟨_, decodeFrom_cons hlead htail offset⟩

theorem decodeFrom_flatMap (chars : List Char) (offset : Nat) :
    decodeFrom offset (chars.flatMap String.utf8EncodeChar) = .ok chars := by
  induction chars generalizing offset with
  | nil => rw [List.flatMap_nil, decodeFrom]
  | cons c chars ih =>
    obtain ⟨next, h⟩ := decodeFrom_encodeChar c offset (chars.flatMap String.utf8EncodeChar)
    rw [List.flatMap_cons, h, ih]
    rfl

/-- Decoding takes encoding back. -/
theorem decode_flatMap (chars : List Char) :
    decode (chars.flatMap String.utf8EncodeChar) = .ok chars :=
  decodeFrom_flatMap chars 0

end Utf8

/-! ## Marks and line ends -/

/-- Characters that write a text: each line feed is written as a line feed, as both characters or as
a carriage return, which no line feed may follow by chance. -/
inductive Written : List Char → List Char → Prop
  | nil : Written [] []
  | char {c : Char} {text chars : List Char} (hc : c ≠ '\n') (h : Written text chars) :
      Written (c :: text) (c :: chars)
  | feed {text chars : List Char} (h : Written text chars) :
      Written ('\n' :: text) ('\n' :: chars)
  | both {text chars : List Char} (h : Written text chars) :
      Written ('\n' :: text) ('\r' :: '\n' :: chars)
  | carriage {text chars : List Char} (h : Written text chars) (hnext : chars.head? ≠ some '\n') :
      Written ('\n' :: text) ('\r' :: chars)

/-- The bytes of a file that a text was written to, behind a mark or without one. -/
def Encodes (text : String) (bytes : List UInt8) : Prop :=
  ∃ chars, Written text.toList chars ∧
    (bytes = chars.flatMap String.utf8EncodeChar ∨
      bytes = byteOrderMark ++ chars.flatMap String.utf8EncodeChar)

theorem unifyLineEnds_cons {c : Char} (hc : c ≠ '\r') (chars : List Char) :
    unifyLineEnds (c :: chars) = c :: unifyLineEnds chars :=
  unifyLineEnds.eq_4 c chars (fun _ h _ => hc h) hc

theorem unifyLineEnds_carriage {chars : List Char} (hnext : chars.head? ≠ some '\n') :
    unifyLineEnds ('\r' :: chars) = '\n' :: unifyLineEnds chars := by
  refine unifyLineEnds.eq_3 chars fun rest hrest => hnext ?_
  rw [hrest, List.head?_cons]

/-- A text without carriage returns is what its line feeds are unified to. -/
theorem Written.unifyLineEnds {text chars : List Char} (h : Written text chars)
    (hr : '\r' ∉ text) : unifyLineEnds chars = text := by
  induction h with
  | nil => rfl
  | char _ _ ih =>
    rw [List.mem_cons, not_or] at hr
    rw [unifyLineEnds_cons (Ne.symm hr.1), ih hr.2]
  | feed _ ih => rw [unifyLineEnds_cons (by decide), ih (List.not_mem_of_not_mem_cons hr)]
  | both _ ih => rw [unifyLineEnds.eq_2, ih (List.not_mem_of_not_mem_cons hr)]
  | carriage _ hnext ih =>
    rw [unifyLineEnds_carriage hnext, ih (List.not_mem_of_not_mem_cons hr)]

/-- What is written begins with another character than the text only for a line feed. -/
theorem Written.head?_eq {text chars : List Char} (h : Written text chars) {c : Char}
    (hc : chars.head? = some c) (hr : c ≠ '\r') : text.head? = some c := by
  cases h with
  | nil => exact hc
  | char => exact hc
  | feed => exact hc
  | both => cases hc; exact absurd rfl hr
  | carriage => cases hc; exact absurd rfl hr

theorem withoutMark_append (bytes : List UInt8) : withoutMark (byteOrderMark ++ bytes) = bytes := by
  simp [withoutMark, byteOrderMark, List.isPrefixOf]

/-- Bytes that are read as characters of which the first one is no mark have no mark in front. -/
theorem withoutMark_of_decode {bytes : List UInt8} {chars : List Char}
    (h : Utf8.decode bytes = .ok chars) (hhead : chars.head? ≠ some '\uFEFF') :
    withoutMark bytes = bytes := by
  unfold withoutMark
  split_ifs with hmark hpart
  · obtain ⟨rest, rfl⟩ := List.isPrefixOf_iff_prefix.1 hmark
    obtain ⟨next, hdecode⟩ := Utf8.decodeFrom_encodeChar '\uFEFF' 0 rest
    have hok : (Utf8.decodeFrom next rest).map ('\uFEFF' :: ·) = .ok chars := hdecode.symm.trans h
    cases hrest : Utf8.decodeFrom next rest with
    | error e => rw [hrest] at hok; cases hok
    | ok more =>
      rw [hrest] at hok
      cases hok
      exact absurd rfl hhead
  · -- bytes that break off within the mark are no characters
    have hmem : bytes ∈ byteOrderMark.inits :=
      (List.mem_inits _ _).2 (List.isPrefixOf_iff_prefix.1 hpart)
    simp only [byteOrderMark, List.inits, List.map, List.mem_cons, List.not_mem_nil, or_false] at hmem
    rcases hmem with rfl | rfl | rfl | rfl
    · rfl
    · simp [Utf8.decode, Utf8.decodeFrom, Utf8.lead?, Utf8.readTail] at h
    · simp [Utf8.decode, Utf8.decodeFrom, Utf8.lead?, Utf8.readTail] at h
    · exact absurd rfl hmark
  · rfl

/-- The bytes of a file that a text was written to give that text. -/
theorem decodeFile_of_encodes {text : String} {bytes : List UInt8} (h : Encodes text bytes)
    (hr : '\r' ∉ text.toList) (hmark : text.toList.head? ≠ some '\uFEFF') :
    decodeFile bytes = .ok text := by
  obtain ⟨chars, hw, hbytes⟩ := h
  have hdecode := Utf8.decode_flatMap chars
  have hbody : withoutMark bytes = chars.flatMap String.utf8EncodeChar := by
    rcases hbytes with rfl | rfl
    · exact withoutMark_of_decode hdecode fun hc => hmark (hw.head?_eq hc (by decide))
    · exact withoutMark_append _
  rw [decodeFile, hbody, hdecode, Except.map, hw.unifyLineEnds hr, String.ofList_toList]

end BuildOrder.Text
