import Mathlib.Algebra.Group.Nat.Defs
import Mathlib.Data.List.Basic

/-!
# The containers of uploaded images

Library `Upload`. `hasCompleteContainer` in `Chess-Backend/src/middleware/upload.js` looks at the
framing of an uploaded image before it is decoded. A read outside the buffer throws.
-/

namespace ChessStack.Upload

/-- A Node buffer. -/
abbrev Buffer := List UInt8

/-! ### Reading a buffer -/

/-- The value of four bytes, the first the highest. -/
def bigEndian (b₀ b₁ b₂ b₃ : UInt8) : Nat :=
  b₀.toNat * 2 ^ 24 + b₁.toNat * 2 ^ 16 + b₂.toNat * 2 ^ 8 + b₃.toNat

/-- `buffer.readUInt32BE(offset)`; `none` where it throws. -/
def readUInt32BE (b : Buffer) (offset : Nat) : Option Nat :=
  match b.drop offset with
  | b₀ :: b₁ :: b₂ :: b₃ :: _ => some (bigEndian b₀ b₁ b₂ b₃)
  | _ => none

/-- `buffer.readUInt32LE(offset)`; `none` where it throws. -/
def readUInt32LE (b : Buffer) (offset : Nat) : Option Nat :=
  match b.drop offset with
  | b₀ :: b₁ :: b₂ :: b₃ :: _ => some (bigEndian b₃ b₂ b₁ b₀)
  | _ => none

/-- Node's `ascii` decoding: the top bit of each byte is dropped. -/
def asciiText (bytes : List UInt8) : String :=
  String.ofList (bytes.map fun byte ↦ Char.ofNat (byte &&& 0x7f).toNat)

/-- `buffer.toString("ascii", start, stop)`. -/
def ascii (b : Buffer) (start stop : Nat) : String := asciiText ((b.drop start).take (stop - start))

/-- `buffer.at(-n)`. -/
def atEnd (b : Buffer) (n : Nat) : Option UInt8 := if n ≤ b.length then b[b.length - n]? else none

/-! ### hasCompleteContainer -/

/-- The first eight bytes of a PNG. -/
def pngSignature : List UInt8 := [137, 80, 78, 71, 13, 10, 26, 10]

/-- The loop over the chunks of a PNG, `upload.js:16–23`. -/
def walkChunks (b : Buffer) (offset : Nat) : Option Bool :=
  if offset + 12 ≤ b.length then
    match readUInt32BE b offset with
    | none => none
    | some length =>
      if b.length < offset + length + 12 then some false
      else if ascii b (offset + 4) (offset + 8) = "IEND" then
        some (offset + length + 12 == b.length)
      else walkChunks b (offset + length + 12)
  else some false
termination_by b.length - offset

/-- The condition of the PNG branch. -/
def looksPng (b : Buffer) : Prop := 12 ≤ b.length ∧ b.take 8 = pngSignature

/-- The condition of the JPEG branch. -/
def looksJpeg (b : Buffer) : Prop := 4 ≤ b.length ∧ b[0]? = some 0xff ∧ b[1]? = some 0xd8

/-- The condition of the GIF branch. -/
def looksGif (b : Buffer) : Prop := 14 ≤ b.length ∧ ascii b 0 6 ∈ ["GIF87a", "GIF89a"]

/-- The condition of the WebP branch. -/
def looksWebp (b : Buffer) : Prop := 12 ≤ b.length ∧ ascii b 0 4 = "RIFF" ∧ ascii b 8 12 = "WEBP"

/-- The signature of a PNG is compared. -/
instance (b : Buffer) : Decidable (looksPng b) := inferInstanceAs (Decidable (_ ∧ _))
/-- The signature of a JPEG is compared. -/
instance (b : Buffer) : Decidable (looksJpeg b) := inferInstanceAs (Decidable (_ ∧ _ ∧ _))
/-- The signature of a GIF is compared. -/
instance (b : Buffer) : Decidable (looksGif b) := inferInstanceAs (Decidable (_ ∧ _))
/-- The signature of a WebP is compared. -/
instance (b : Buffer) : Decidable (looksWebp b) := inferInstanceAs (Decidable (_ ∧ _ ∧ _))

/-- `hasCompleteContainer(buffer)`, `upload.js:13–38`; `none` where it throws. -/
def hasCompleteContainer (b : Buffer) : Option Bool :=
  if looksPng b then walkChunks b 8
  else if looksJpeg b then some (atEnd b 2 == some 0xff && atEnd b 1 == some 0xd9)
  else if looksGif b then some (atEnd b 1 == some 0x3b)
  else if looksWebp b then (readUInt32LE b 4).map fun size ↦ size + 8 == b.length
  else some false

/-! ### Bytes -/

private theorem exists_four {l : List UInt8} (h : 4 ≤ l.length) :
    ∃ b₀ b₁ b₂ b₃ rest, l = b₀ :: b₁ :: b₂ :: b₃ :: rest := by
  match l, h with
  | b₀ :: b₁ :: b₂ :: b₃ :: rest, _ => exact ⟨b₀, b₁, b₂, b₃, rest, rfl⟩

private theorem bigEndian_lt (b₀ b₁ b₂ b₃ : UInt8) : bigEndian b₀ b₁ b₂ b₃ < 2 ^ 32 := by
  have h₀ := b₀.toNat_lt
  have h₁ := b₁.toNat_lt
  have h₂ := b₂.toNat_lt
  have h₃ := b₃.toNat_lt
  unfold bigEndian
  omega

/-- Four bytes are determined by their value. -/
theorem bigEndian_injective {b₀ b₁ b₂ b₃ c₀ c₁ c₂ c₃ : UInt8}
    (h : bigEndian b₀ b₁ b₂ b₃ = bigEndian c₀ c₁ c₂ c₃) :
    b₀ = c₀ ∧ b₁ = c₁ ∧ b₂ = c₂ ∧ b₃ = c₃ := by
  have h₀ := b₀.toNat_lt
  have h₁ := b₁.toNat_lt
  have h₂ := b₂.toNat_lt
  have h₃ := b₃.toNat_lt
  have h₀' := c₀.toNat_lt
  have h₁' := c₁.toNat_lt
  have h₂' := c₂.toNat_lt
  have h₃' := c₃.toNat_lt
  unfold bigEndian at h
  simp only [← UInt8.toNat_inj]
  omega

/-- A number of 32 bits, the highest byte first. -/
def toBytes (n : Nat) : List UInt8 :=
  [UInt8.ofNat (n / 2 ^ 24), UInt8.ofNat (n / 2 ^ 16), UInt8.ofNat (n / 2 ^ 8), UInt8.ofNat n]

private theorem bigEndian_toBytes {n : Nat} (h : n < 2 ^ 32) :
    bigEndian (UInt8.ofNat (n / 2 ^ 24)) (UInt8.ofNat (n / 2 ^ 16)) (UInt8.ofNat (n / 2 ^ 8))
      (UInt8.ofNat n) = n := by
  simp only [bigEndian, UInt8.toNat_ofNat']
  omega

private theorem toBytes_bigEndian (b₀ b₁ b₂ b₃ : UInt8) :
    toBytes (bigEndian b₀ b₁ b₂ b₃) = [b₀, b₁, b₂, b₃] := by
  obtain ⟨h₀, h₁, h₂, h₃⟩ := bigEndian_injective (bigEndian_toBytes (bigEndian_lt b₀ b₁ b₂ b₃))
  rw [toBytes, h₀, h₁, h₂, h₃]

private theorem read_of_room (b : Buffer) (offset : Nat) (h : offset + 4 ≤ b.length) :
    ∃ b₀ b₁ b₂ b₃ rest, b.drop offset = b₀ :: b₁ :: b₂ :: b₃ :: rest := by
  apply exists_four
  rw [List.length_drop]
  omega

/-! ### Nothing is read outside -/

private theorem walkChunks_isSome (b : Buffer) (offset : Nat) : (walkChunks b offset).isSome := by
  fun_induction walkChunks b offset with
  | case1 offset h hnone =>
    obtain ⟨b₀, b₁, b₂, b₃, rest, hdrop⟩ := read_of_room b offset (by omega)
    rw [readUInt32BE, hdrop] at hnone
    cases hnone
  | case2 offset h length hread hlt => rfl
  | case3 offset h length hread hle hend => rfl
  | case4 offset h length hread hle hend ih => exact ih
  | case5 offset h => rfl

/-- The check returns on every buffer, having read inside it only. -/
theorem hasCompleteContainer_isSome (b : Buffer) : (hasCompleteContainer b).isSome := by
  unfold hasCompleteContainer
  split
  · exact walkChunks_isSome b 8
  · split
    · rfl
    · split
      · rfl
      · split
        · next hwebp =>
          obtain ⟨b₀, b₁, b₂, b₃, rest, hdrop⟩ := read_of_room b 4
            (by have := hwebp.1; omega)
          rw [readUInt32LE, hdrop]
          rfl
        · rfl

/-! ### The grammar of a PNG -/

/-- A chunk: its data, its type and its CRC. -/
structure Chunk where
  type : List UInt8
  data : List UInt8
  crc : List UInt8
  typeLength : type.length = 4
  crcLength : crc.length = 4
  dataLength : data.length < 2 ^ 32

namespace Chunk

/-- The chunk as it stands in the file, after its length. -/
def bytes (c : Chunk) : List UInt8 := toBytes c.data.length ++ (c.type ++ (c.data ++ c.crc))

/-- A chunk that ends its file. -/
def IsEnd (c : Chunk) : Prop := asciiText c.type = "IEND"

private theorem length_bytes (c : Chunk) : c.bytes.length = c.data.length + 12 := by
  have htype := c.typeLength
  have hcrc := c.crcLength
  simp only [bytes, toBytes, List.length_append, List.length_cons, List.length_nil]
  omega

/-- The type of a chunk, after its four bytes of length. -/
theorem take_drop_bytes (c : Chunk) (rest : List UInt8) :
    ((c.bytes ++ rest).drop 4).take 4 = c.type := by
  simp only [bytes, toBytes, List.cons_append, List.nil_append, List.drop_succ_cons,
    List.drop_zero, List.append_assoc]
  exact List.take_left' c.typeLength

private theorem isEnd_of_bytes {c c' : Chunk} (h : c.bytes = c'.bytes) (hend : c.IsEnd) :
    c'.IsEnd := by
  have htype := c.take_drop_bytes []
  rw [h, c'.take_drop_bytes] at htype
  rw [IsEnd, htype]
  exact hend

/-- A chunk tells its own length, so what follows it cannot be part of it. -/
theorem bytes_append_injective {c c' : Chunk} {rest rest' : List UInt8}
    (h : c.bytes ++ rest = c'.bytes ++ rest') : c.bytes = c'.bytes ∧ rest = rest' := by
  apply List.append_inj h
  rw [length_bytes, length_bytes]
  simp only [bytes, toBytes, List.cons_append, List.nil_append, List.cons.injEq] at h
  have hlength := bigEndian_toBytes c.dataLength
  rw [h.1, h.2.1, h.2.2.1, h.2.2.2.1, bigEndian_toBytes c'.dataLength] at hlength
  rw [hlength]

end Chunk

/-- The chunks of a PNG, laid end to end: the last one ends it, and only that one. -/
inductive Chunks : List UInt8 → Prop
  | last {c : Chunk} : c.IsEnd → Chunks c.bytes
  | cons {c : Chunk} {rest : List UInt8} : ¬ c.IsEnd → Chunks rest → Chunks (c.bytes ++ rest)

/-- A chunk that stands at an offset, seen by the reads of the loop. -/
structure ChunkAt (b : Buffer) (offset : Nat) (c : Chunk) : Prop where
  fits : offset + c.data.length + 12 ≤ b.length
  length : readUInt32BE b offset = some c.data.length
  type : ascii b (offset + 4) (offset + 8) = asciiText c.type
  split : b.drop offset = c.bytes ++ b.drop (offset + c.data.length + 12)

/-- What the loop has read is a chunk. -/
theorem chunkAt_of_read {b : Buffer} {offset length : Nat}
    (hread : readUInt32BE b offset = some length) (hfits : offset + length + 12 ≤ b.length) :
    ∃ c, ChunkAt b offset c ∧ c.data.length = length := by
  obtain ⟨b₀, b₁, b₂, b₃, rest, hdrop⟩ := read_of_room b offset (by omega)
  rw [readUInt32BE, hdrop] at hread
  have hlength : bigEndian b₀ b₁ b₂ b₃ = length := Option.some.inj hread
  have hrest : rest = b.drop (offset + 4) := by
    rw [← List.drop_drop, hdrop]
    rfl
  have hroom : length + 8 ≤ rest.length := by
    rw [hrest, List.length_drop]
    omega
  let c : Chunk :=
    { type := rest.take 4
      data := (rest.drop 4).take length
      crc := (rest.drop (4 + length)).take 4
      typeLength := by simp; omega
      crcLength := by simp; omega
      dataLength := by
        have := bigEndian_lt b₀ b₁ b₂ b₃
        simp
        omega }
  have hdata : c.data.length = length := by
    show ((rest.drop 4).take length).length = length
    simp
    omega
  refine ⟨c, ⟨by omega, ?_, ?_, ?_⟩, hdata⟩
  · rw [readUInt32BE, hdrop, hdata, ← hlength]
  · rw [ascii, ← hrest]
    show asciiText (rest.take (offset + 8 - (offset + 4))) = _
    rw [show offset + 8 - (offset + 4) = 4 by omega]
  · have htail : b.drop (offset + c.data.length + 12) = rest.drop (4 + length + 4) := by
      rw [hdata, hrest, List.drop_drop]
      congr 1
      omega
    have hsplit : rest = c.type ++ (c.data ++ (c.crc ++ rest.drop (4 + length + 4))) := by
      show rest = rest.take 4 ++ ((rest.drop 4).take length ++
        ((rest.drop (4 + length)).take 4 ++ rest.drop (4 + length + 4)))
      rw [← List.drop_drop (i := 4) (j := 4 + length), List.take_append_drop,
        ← List.drop_drop (i := length) (j := 4), List.take_append_drop, List.take_append_drop]
    rw [htail, hdrop, Chunk.bytes, hdata, ← hlength, toBytes_bigEndian, hlength]
    simp only [List.append_assoc, List.cons_append, List.nil_append]
    rw [← hsplit]

/-- A chunk laid at an offset is what the loop reads. -/
theorem chunkAt_of_split {b : Buffer} {offset : Nat} {c : Chunk} {rest : List UInt8}
    (h : b.drop offset = c.bytes ++ rest) :
    ChunkAt b offset c ∧ b.drop (offset + c.data.length + 12) = rest := by
  have hlength : b.length - offset = c.data.length + 12 + rest.length := by
    rw [← List.length_drop, h, List.length_append, c.length_bytes]
  have htail : b.drop (offset + c.data.length + 12) = rest := by
    rw [Nat.add_assoc, ← List.drop_drop, h, ← c.length_bytes, List.drop_left]
  refine ⟨⟨by omega, ?_, ?_, by rw [htail, h]⟩, htail⟩
  · rw [readUInt32BE, h]
    simp only [Chunk.bytes, toBytes, List.cons_append, List.nil_append]
    rw [bigEndian_toBytes c.dataLength]
  · rw [ascii, ← List.drop_drop, h, show offset + 8 - (offset + 4) = 4 by omega]
    rw [c.take_drop_bytes]

/-! ### The loop recognises the grammar -/

private theorem chunks_of_walk {b : Buffer} {offset : Nat} (h : walkChunks b offset = some true) :
    Chunks (b.drop offset) := by
  fun_induction walkChunks b offset with
  | case1 offset hle hnone => cases h
  | case2 offset hle length hread hlt => cases h
  | case3 offset hle length hread hfits hend =>
    obtain ⟨c, hc, hlength⟩ := chunkAt_of_read hread (by omega)
    have hstop : offset + length + 12 = b.length := by simpa using h
    rw [hc.split, hlength, hstop, List.drop_length, List.append_nil]
    exact .last (hc.type.symm.trans hend)
  | case4 offset hle length hread hfits hend ih =>
    obtain ⟨c, hc, hlength⟩ := chunkAt_of_read hread (by omega)
    rw [hc.split, hlength]
    exact .cons (fun hc' ↦ hend (hc.type.trans hc')) (ih h)
  | case5 offset hlt => cases h

private theorem walk_of_chunks {b : Buffer} {offset : Nat} {l : List UInt8} (h : Chunks l)
    (hdrop : b.drop offset = l) : walkChunks b offset = some true := by
  induction h generalizing offset with
  | @last c hend =>
    obtain ⟨hc, htail⟩ := chunkAt_of_split (hdrop.trans (List.append_nil _).symm)
    have hfits := hc.fits
    have hstop := List.drop_eq_nil_iff.mp htail
    rw [walkChunks, if_pos (by omega), hc.length]
    dsimp only
    rw [if_neg (by omega), if_pos (hc.type.trans hend), Option.some.injEq, beq_iff_eq]
    omega
  | @cons c rest hend _ ih =>
    obtain ⟨hc, htail⟩ := chunkAt_of_split hdrop
    have hfits := hc.fits
    rw [walkChunks, if_pos (by omega), hc.length]
    dsimp only
    rw [if_neg (by omega), if_neg (fun h ↦ hend (hc.type.symm.trans h))]
    exact ih htail

/-- The signature and the chunks. -/
def PngFile (b : Buffer) : Prop := ∃ body, b = pngSignature ++ body ∧ Chunks body

private theorem Chunks.length {l : List UInt8} (h : Chunks l) : 12 ≤ l.length := by
  cases h with
  | @last c _ =>
    rw [c.length_bytes]
    omega
  | @cons c rest _ _ =>
    rw [List.length_append, c.length_bytes]
    omega

/-- The chunks of a file leave no room for more. -/
theorem Chunks.append_nil {l s : List UInt8} (h : Chunks l) (h' : Chunks (l ++ s)) : s = [] := by
  induction h with
  | @last c hend =>
    generalize hl : c.bytes ++ s = l' at h'
    cases h' with
    | @last c' hend' =>
      obtain ⟨-, hs⟩ := Chunk.bytes_append_injective (hl.trans (List.append_nil _).symm)
      exact hs
    | @cons c' rest' hend' _ =>
      obtain ⟨hbytes, -⟩ := Chunk.bytes_append_injective hl
      exact absurd (Chunk.isEnd_of_bytes hbytes hend) hend'
  | @cons c rest hend _ ih =>
    rw [List.append_assoc] at h'
    generalize hl : c.bytes ++ (rest ++ s) = l' at h'
    cases h' with
    | @last c' hend' =>
      obtain ⟨hbytes, -⟩ := Chunk.bytes_append_injective (hl.trans (List.append_nil _).symm)
      exact absurd (Chunk.isEnd_of_bytes hbytes.symm hend') hend
    | @cons c' rest' hend' hrest =>
      obtain ⟨-, htail⟩ := Chunk.bytes_append_injective hl
      exact ih (htail ▸ hrest)

private theorem png_accepts_iff (b : Buffer) :
    looksPng b ∧ hasCompleteContainer b = some true ↔ PngFile b := by
  constructor
  · rintro ⟨hpng, h⟩
    rw [hasCompleteContainer, if_pos hpng] at h
    refine ⟨b.drop 8, ?_, chunks_of_walk h⟩
    rw [← hpng.2, List.take_append_drop]
  · rintro ⟨body, rfl, hbody⟩
    have hlength := hbody.length
    have hpng : looksPng (pngSignature ++ body) := by
      refine ⟨?_, rfl⟩
      rw [List.length_append]
      omega
    refine ⟨hpng, ?_⟩
    rw [hasCompleteContainer, if_pos hpng]
    exact walk_of_chunks hbody rfl

/-- No file is the beginning of another. -/
theorem PngFile.append_nil {b s : Buffer} (h : PngFile b) (h' : PngFile (b ++ s)) : s = [] := by
  obtain ⟨body, rfl, hbody⟩ := h
  obtain ⟨body', hfile, hbody'⟩ := h'
  rw [List.append_assoc] at hfile
  obtain rfl := List.append_cancel_left hfile
  exact hbody.append_nil hbody'

/-- The PNG branch accepts exactly the PNG files, no accepted file is the beginning of another,
and the check returns on every buffer without a read outside it. -/
theorem png_branch_iff (b : Buffer) :
    (looksPng b ∧ hasCompleteContainer b = some true ↔ PngFile b) ∧
      (∀ s, looksPng b → hasCompleteContainer b = some true → looksPng (b ++ s) →
        hasCompleteContainer (b ++ s) = some true → s = []) ∧ (hasCompleteContainer b).isSome := by
  refine ⟨png_accepts_iff b, ?_, hasCompleteContainer_isSome b⟩
  intro s hpng h hpng' h'
  exact ((png_accepts_iff b).mp ⟨hpng, h⟩).append_nil ((png_accepts_iff _).mp ⟨hpng', h'⟩)

/-! ### Trailing content -/

section Trailing

variable {b s : Buffer}

private theorem ascii_append {start stop : Nat} (h : stop ≤ b.length) :
    ascii (b ++ s) start stop = ascii b start stop := by
  unfold ascii
  congr 1
  rw [List.take_drop, List.take_drop]
  by_cases hle : start ≤ stop
  · rw [Nat.add_sub_cancel' hle, List.take_append_of_le_length h]
  · rw [show stop - start = 0 by omega, Nat.add_zero, List.drop_take_self, List.drop_take_self]

/-- The last bytes of what follows are those of the whole. -/
theorem atEnd_append {n : Nat} (hle : n ≤ s.length) :
    atEnd (b ++ s) n = atEnd s n := by
  unfold atEnd
  rw [List.length_append, if_pos (by omega), if_pos hle, List.getElem?_append_right (by omega)]
  congr 1
  omega

private theorem looksPng_append (hb : 12 ≤ b.length) : looksPng (b ++ s) ↔ looksPng b := by
  unfold looksPng
  rw [List.length_append, List.take_append_of_le_length (by omega)]
  constructor
  · exact fun h ↦ ⟨hb, h.2⟩
  · exact fun h ↦ ⟨by omega, h.2⟩

/-- A JPEG and a GIF do not start like a PNG. -/
theorem not_looksPng_of_head {buf : Buffer} {byte : UInt8} (h : buf[0]? = some byte) (hne : byte ≠ 137) :
    ¬ looksPng buf := by
  intro hpng
  have hhead : buf[0]? = some 137 := by
    rw [← List.getElem?_take_of_lt (show 0 < 8 by decide), hpng.2]
    rfl
  rw [h] at hhead
  exact hne (Option.some.inj hhead)

/-- Enough bytes are there for every branch but the JPEG one to look the same. -/
theorem looksJpeg_append (hb : 4 ≤ b.length) : looksJpeg (b ++ s) ↔ looksJpeg b := by
  unfold looksJpeg
  rw [List.length_append, List.getElem?_append_left (by omega), List.getElem?_append_left (by omega)]
  constructor
  · exact fun h ↦ ⟨hb, h.2⟩
  · exact fun h ↦ ⟨by omega, h.2⟩

private theorem looksGif_append (hb : 14 ≤ b.length) : looksGif (b ++ s) ↔ looksGif b := by
  unfold looksGif
  rw [List.length_append, ascii_append (by omega)]
  constructor
  · exact fun h ↦ ⟨hb, h.2⟩
  · exact fun h ↦ ⟨by omega, h.2⟩

private theorem readUInt32LE_append (hb : 8 ≤ b.length) : readUInt32LE
    (b ++ s) 4 = readUInt32LE b 4 := by
  obtain ⟨b₀, b₁, b₂, b₃, rest, hdrop⟩ := read_of_room b 4 (by omega)
  rw [readUInt32LE, readUInt32LE, List.drop_append_of_le_length (by omega), hdrop]
  rfl

/-- The first character of a decoding. -/
theorem ascii_head {byte : UInt8} {rest : List UInt8} {n : Nat} {text : String}
    (h : ascii (byte :: rest) 0 (n + 1) = text) :
    text.toList.head? = some (Char.ofNat (byte &&& 0x7f).toNat) := by
  rw [← h, ascii, asciiText, String.toList_ofList]
  rfl

private theorem atEnd_succ (n : Nat) : atEnd s (n + 1) = s.reverse[n]? := by
  unfold atEnd
  split
  · next h =>
    rw [List.getElem?_reverse (by omega)]
    congr 1
    omega
  · next h =>
    rw [List.getElem?_eq_none]
    rw [List.length_reverse]
    omega

/-- The last byte. -/
theorem atEnd_one_iff {x : UInt8} : atEnd s 1 = some x ↔ [x] <:+ s := by
  rw [atEnd_succ, ← List.reverse_prefix, List.reverse_singleton]
  cases s.reverse with
  | nil => simp
  | cons a l => simp [eq_comm]

/-- The last two bytes. -/
theorem atEnd_two_iff {x y : UInt8} :
    atEnd s 2 = some x ∧ atEnd s 1 = some y ↔ [x, y] <:+ s := by
  rw [atEnd_succ, atEnd_succ, ← List.reverse_prefix]
  cases s.reverse with
  | nil => simp
  | cons a l =>
    cases l with
    | nil => simp
    | cons b l => simp [eq_comm, and_comm]

end Trailing

/-! ### The formats -/

/-- The formats that are told apart. -/
inductive Format where
  | png
  | jpeg
  | gif
  | webp
  deriving DecidableEq, Repr

/-- The branch a buffer takes. -/
def branch (b : Buffer) : Option Format :=
  if looksPng b then some .png
  else if looksJpeg b then some .jpeg
  else if looksGif b then some .gif
  else if looksWebp b then some .webp
  else none

/-- The check accepts the buffer as an image of the format. -/
def AcceptedAs (format : Format) (b : Buffer) : Prop :=
  branch b = some format ∧ hasCompleteContainer b = some true

private theorem AcceptedAs.jpeg {b : Buffer} (h : AcceptedAs .jpeg b) :
    looksJpeg b ∧ atEnd b 2 = some 0xff ∧ atEnd b 1 = some 0xd9 := by
  obtain ⟨hbranch, haccepted⟩ := h
  unfold branch at hbranch
  unfold hasCompleteContainer at haccepted
  split at hbranch
  · cases hbranch
  · next hpng =>
    split at hbranch
    · next hjpeg =>
      rw [if_neg hpng, if_pos hjpeg] at haccepted
      exact ⟨hjpeg, by simpa using haccepted⟩
    · split at hbranch
      · cases hbranch
      · split at hbranch <;> cases hbranch

/-- A GIF or a WebP has the first bytes of no format tried before it. -/
theorem AcceptedAs.gif {b : Buffer} (h : AcceptedAs .gif b) :
    ¬ looksPng b ∧ ¬ looksJpeg b ∧ looksGif b := by
  obtain ⟨hbranch, -⟩ := h
  unfold branch at hbranch
  split at hbranch
  · cases hbranch
  · next hpng =>
    split at hbranch
    · cases hbranch
    · next hjpeg =>
      split at hbranch
      · next hgif => exact ⟨hpng, hjpeg, hgif⟩
      · split at hbranch <;> cases hbranch

private theorem AcceptedAs.webp {b : Buffer} (h : AcceptedAs .webp b) :
    ¬ looksPng b ∧ ¬ looksJpeg b ∧ looksWebp b ∧ readUInt32LE b 4 = some (b.length - 8) := by
  obtain ⟨hbranch, haccepted⟩ := h
  unfold branch at hbranch
  unfold hasCompleteContainer at haccepted
  split at hbranch
  · cases hbranch
  · next hpng =>
    split at hbranch
    · cases hbranch
    · next hjpeg =>
      split at hbranch
      · cases hbranch
      · next hgif =>
        split at hbranch
        · next hwebp =>
          rw [if_neg hpng, if_neg hjpeg, if_neg hgif, if_pos hwebp] at haccepted
          obtain ⟨size, hsize, heq⟩ := Option.map_eq_some_iff.mp haccepted
          have hlength := beq_iff_eq.mp heq
          refine ⟨hpng, hjpeg, hwebp, ?_⟩
          rw [hsize, ← hlength, Nat.add_sub_cancel]
        · cases hbranch

/-- What follows an image does not bring the end marker of its format again. -/
def NoMarker (s : Buffer) : Format → Prop
  | .jpeg => ¬ [0xff, 0xd9] <:+ s
  | .gif => ¬ [0x3b] <:+ s
  | .png | .webp => True

section

variable {b s : Buffer}

private theorem jpeg_append (h : AcceptedAs .jpeg b) (hs : s ≠ []) :
    hasCompleteContainer (b ++ s) = some false ↔ NoMarker s .jpeg := by
  obtain ⟨hjpeg, -, hlast⟩ := h.jpeg
  have hlen := hjpeg.1
  have hpos := List.length_pos_iff.mpr hs
  have hhead : (b ++ s)[0]? = some 0xff := (List.getElem?_append_left (by omega)).trans hjpeg.2.1
  rw [hasCompleteContainer, if_neg (not_looksPng_of_head hhead (by decide)),
    if_pos ((looksJpeg_append hlen).mpr hjpeg)]
  unfold NoMarker
  rw [← atEnd_two_iff, Option.some.injEq, Bool.and_eq_false_iff, beq_eq_false_iff_ne,
    beq_eq_false_iff_ne, ← not_and_or, not_iff_not]
  by_cases hone : s.length = 1
  · -- The byte before the only new one ends the image.
    have hprev : atEnd (b ++ s) 2 = some 0xd9 := by
      rw [← hlast]
      unfold atEnd
      rw [List.length_append, hone, if_pos (by omega), if_pos (by omega),
        List.getElem?_append_left (by omega)]
      congr 1
    have hnone : atEnd s 2 = none := by
      unfold atEnd
      rw [if_neg (by omega)]
    rw [hprev, hnone]
    constructor
    · rintro ⟨hne, -⟩
      exact absurd hne (by decide)
    · rintro ⟨hne, -⟩
      cases hne
  · rw [atEnd_append (by omega), atEnd_append (by omega)]

private theorem gif_append (h : AcceptedAs .gif b) (hs : s ≠ []) :
    hasCompleteContainer (b ++ s) = some false ↔ NoMarker s .gif := by
  obtain ⟨hpng, hjpeg, hgif⟩ := h.gif
  have hlen := hgif.1
  have hpos := List.length_pos_iff.mpr hs
  rw [hasCompleteContainer, if_neg (fun h ↦ hpng ((looksPng_append (by omega)).mp h)),
    if_neg (fun h ↦ hjpeg ((looksJpeg_append (by omega)).mp h)),
    if_pos ((looksGif_append hlen).mpr hgif)]
  unfold NoMarker
  rw [← atEnd_one_iff, Option.some.injEq, beq_eq_false_iff_ne, Ne, not_iff_not,
    atEnd_append (by omega)]

/-- The length field of a WebP leaves nothing over. A WebP of twelve or thirteen bytes is too short
to be seen as a GIF, and so is what follows it, whose first bytes are not those of a GIF. -/
theorem webp_append (h : AcceptedAs .webp b) (hs : s ≠ []) :
    hasCompleteContainer (b ++ s) = some false := by
  obtain ⟨hpng, hjpeg, hwebp, hsize⟩ := h.webp
  have hlen := hwebp.1
  have hpos := List.length_pos_iff.mpr hs
  have hgif : ¬ looksGif (b ++ s) := by
    rintro ⟨-, htext⟩
    rw [ascii_append (by omega)] at htext
    obtain ⟨byte, rest, hb⟩ := List.exists_cons_of_length_pos (l := b) (by omega)
    have hriff : ascii (byte :: rest) 0 (3 + 1) = "RIFF" := hb ▸ hwebp.2.1
    have hfirst := ascii_head hriff
    rw [hb] at htext
    simp only [List.mem_cons, List.not_mem_nil, or_false] at htext
    rcases htext with htext | htext <;>
      exact absurd ((ascii_head (n := 5) htext).trans hfirst.symm) (by decide)
  have hwebp' : looksWebp (b ++ s) := by
    refine ⟨?_, ?_, ?_⟩
    · rw [List.length_append]
      omega
    · rw [ascii_append (by omega)]
      exact hwebp.2.1
    · rw [ascii_append (by omega)]
      exact hwebp.2.2
  rw [hasCompleteContainer, if_neg (fun h ↦ hpng ((looksPng_append (by omega)).mp h)),
    if_neg (fun h ↦ hjpeg ((looksJpeg_append (by omega)).mp h)), if_neg hgif, if_pos hwebp',
    readUInt32LE_append (by omega), hsize, Option.map_some, Option.some.injEq,
    beq_eq_false_iff_ne, List.length_append]
  omega

/-- Whatever follows an accepted JPEG, GIF or WebP, the whole is refused just where what follows
does not end like an image of the format. -/
theorem trailing_rejected_iff {format : Format} (h : AcceptedAs format b) (hformat : format ≠ .png)
    (hs : s ≠ []) : hasCompleteContainer (b ++ s) = some false ↔ NoMarker s format := by
  cases format with
  | png => exact absurd rfl hformat
  | jpeg => exact jpeg_append h hs
  | gif => exact gif_append h hs
  | webp => exact iff_of_true (webp_append h hs) trivial

end

/-- The smallest thing taken for a JPEG. -/
def shortJpeg : Buffer := [0xff, 0xd8, 0xff, 0xd9]

/-- `<svg/>`, then the end marker of a JPEG. -/
def hiddenSvg : Buffer := [0x3c, 0x73, 0x76, 0x67, 0x2f, 0x3e, 0xff, 0xd9]

/-- One byte after a JPEG, which is no marker. -/
theorem trailing_rejected_iff_short :
    hasCompleteContainer (shortJpeg ++ [0x3c]) = some false ↔ NoMarker [0x3c] .jpeg :=
  @trailing_rejected_iff shortJpeg _ .jpeg ⟨by decide, by decide⟩ (by decide)
    (by decide)

/-- A JPEG with an SVG behind it is accepted. -/
theorem not_rejected_hiddenSvg : AcceptedAs .jpeg shortJpeg ∧ hiddenSvg ≠ [] ∧
    hasCompleteContainer (shortJpeg ++ hiddenSvg) = some true :=
  ⟨⟨by decide, by decide⟩, by decide, by decide⟩

end ChessStack.Upload
