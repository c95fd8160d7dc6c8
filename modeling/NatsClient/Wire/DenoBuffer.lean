import Mathlib.Algebra.GroupWithZero.Nat
import Mathlib.Data.List.Basic
import Mathlib.Tactic.Common

/-!
# The growable byte buffer of the parser

Model of the part of `denobuffer.ts` the parser uses: `DenoBuffer` with its constructor, `bytes`,
`length`, `_tryGrowByReslice`, `_reslice`, `reset`, `_grow`, `write` and `writeByte`. A typed array
view is a prefix of its `ArrayBuffer`: `buffer` holds the bytes of the whole `ArrayBuffer`, the view
`_buf` is its first `byteLength` bytes, and the unread bytes start at `_off`.

`write_spec` is the one fact the parser's proof uses: on a buffer that was never read from, a write
appends the bytes as long as the result stays below `2 ^ 31` bytes. Above `maxSize` the code throws
(`write_throws`).
-/

set_option autoImplicit false

namespace NatsClient.Wire

/-- Bytes of the wire. -/
abbrev Bytes := List UInt8

/-- `buf.subarray(s, e)`: the bytes at the indices `s ≤ k < e`. -/
def subarray (buf : Bytes) (s e : Nat) : Bytes := (buf.take e).drop s

/-- `MAX_SIZE` of `denobuffer.ts`. -/
def maxSize : Nat := 2 ^ 32 - 2

/-- A `DenoBuffer`: the bytes of the underlying `ArrayBuffer`, the length of the view `_buf` on it
and the read offset `_off`. The two fields at the end say that view and offset are in range. -/
structure DenoBuffer where
  buffer : Bytes
  byteLength : Nat
  off : Nat
  fits : byteLength ≤ buffer.length
  off_le : off ≤ byteLength

namespace DenoBuffer

/-- `new DenoBuffer(ab)`: the argument is copied into an `ArrayBuffer` of its own length. -/
def new (ab : Bytes) : DenoBuffer where
  buffer := ab
  byteLength := ab.length
  off := 0
  fits := Nat.le_refl _
  off_le := Nat.zero_le _

/-- `capacity`. -/
def capacity (b : DenoBuffer) : Nat := b.buffer.length

/-- `length`: the unread bytes. -/
def length (b : DenoBuffer) : Nat := b.byteLength - b.off

/-- `bytes()`, with or without the copy. -/
def bytes (b : DenoBuffer) : Bytes := (b.buffer.take b.byteLength).drop b.off

/-- `reset()`. -/
def reset (b : DenoBuffer) : DenoBuffer where
  buffer := b.buffer
  byteLength := 0
  off := 0
  fits := Nat.zero_le _
  off_le := Nat.le_refl _

/-- `_tryGrowByReslice(n)`: extends the view inside the `ArrayBuffer`, if there is room. The index
returned is where the new bytes go. -/
def tryGrowByReslice (b : DenoBuffer) (n : Nat) : Option (DenoBuffer × Nat) :=
  if h : b.byteLength + n ≤ b.buffer.length then
    some (⟨b.buffer, b.byteLength + n, b.off, h, Nat.le_add_right_of_le b.off_le⟩, b.byteLength)
  else none

/-- The contents moved to the front of an `ArrayBuffer` of `cap` bytes, the view being the first
`len` of them. -/
def relocate (b : DenoBuffer) (rest : Bytes) (len : Nat)
    (h : len ≤ (b.bytes ++ rest).length) : DenoBuffer :=
  ⟨b.bytes ++ rest, len, 0, h, Nat.zero_le _⟩

theorem length_bytes (b : DenoBuffer) : b.bytes.length = b.length := by
  have h := b.fits
  simp only [bytes, length, List.length_drop, List.length_take]
  omega

/-- `_grow(n)`: room for `n` more bytes, and the index where they go. -/
def grow (b : DenoBuffer) (n : Nat) : Except String (DenoBuffer × Nat) :=
  let m := b.length
  -- an empty buffer that was read from starts over
  let b := if m = 0 ∧ b.off ≠ 0 then b.reset else b
  match b.tryGrowByReslice n with
  | some r => .ok r
  | none =>
    let c := b.capacity
    if h : n + m ≤ c / 2 then
      -- slide down inside the same `ArrayBuffer`; what is behind the contents keeps its bytes
      .ok (b.relocate (b.buffer.drop b.bytes.length) (min (m + n) maxSize) (by
        have hb := b.length_bytes
        have hc : c = b.buffer.length := rfl
        simp only [List.length_append, List.length_drop]
        omega), m)
    else if c + n > maxSize then
      .error "The buffer cannot be grown beyond the maximum size."
    else
      .ok (b.relocate (List.replicate (min (2 * c + n) maxSize - b.bytes.length) 0)
        (min (m + n) (min (2 * c + n) maxSize)) (by
          simp only [List.length_append, List.length_replicate]
          omega), m)

/-- `copy(p, _buf, at)`, the view being long enough. -/
def copyAt (b : DenoBuffer) (p : Bytes) (i : Nat) : DenoBuffer :=
  let p := p.take (b.byteLength - i)
  ⟨b.buffer.take i ++ p ++ b.buffer.drop (i + p.length), b.byteLength, b.off, by
    have h := b.fits
    have hp : p.length ≤ b.byteLength - i := List.length_take_le _ _
    simp only [List.length_append, List.length_take, List.length_drop]
    omega, b.off_le⟩

/-- `write(p)`. -/
def write (b : DenoBuffer) (p : Bytes) : Except String DenoBuffer :=
  match b.grow p.length with
  | .ok (b', m) => .ok (b'.copyAt p m)
  | .error e => .error e

/-- `writeByte(n)`. -/
def writeByte (b : DenoBuffer) (n : UInt8) : Except String DenoBuffer := b.write [n]

@[simp] theorem bytes_new (ab : Bytes) : (new ab).bytes = ab := by
  simp [new, bytes]

@[simp] theorem off_new (ab : Bytes) : (new ab).off = 0 := rfl

/-- The bytes written at the end of the view follow the contents in front of them. -/
theorem bytes_copyAt (b : DenoBuffer) (p : Bytes) (i : Nat) (hoff : b.off = 0)
    (hend : i + p.length = b.byteLength) : (b.copyAt p i).bytes = b.buffer.take i ++ p := by
  have hfit := b.fits
  have hp : p.take (b.byteLength - i) = p := List.take_of_length_le (by omega)
  have hlen : (b.buffer.take i ++ p).length = b.byteLength := by
    simp only [List.length_append, List.length_take]
    omega
  show ((b.buffer.take i ++ p.take (b.byteLength - i) ++ b.buffer.drop _).take b.byteLength).drop
    b.off = _
  rw [hp, hoff, List.drop_zero, ← hlen, List.take_left]

/-- A buffer that was never read from and stays below `2 ^ 31` bytes can be grown: the contents
stay in front and the view ends after `n` more bytes. -/
theorem grow_spec (b : DenoBuffer) (n : Nat) (hoff : b.off = 0) (hlim : b.length + n < 2 ^ 31) :
    ∃ b', b.grow n = .ok (b', b.length) ∧ b'.off = 0 ∧ b'.byteLength = b.length + n ∧
      b'.buffer.take b.length = b.bytes := by
  have hfit := b.fits
  have hm : b.length = b.byteLength := by simp [length, hoff]
  have hbytes : b.bytes = b.buffer.take b.byteLength := by simp [bytes, hoff]
  have hkeep : ¬ (b.length = 0 ∧ b.off ≠ 0) := by simp [hoff]
  unfold grow
  simp only [if_neg hkeep, tryGrowByReslice]
  by_cases hroom : b.byteLength + n ≤ b.buffer.length
  · rw [dif_pos hroom]
    refine ⟨_, congrArg Except.ok (Prod.ext rfl hm.symm), hoff, ?_, ?_⟩
    · show b.byteLength + n = b.length + n
      rw [hm]
    · show b.buffer.take b.length = b.bytes
      rw [hm, hbytes]
  · have hcap : b.capacity = b.buffer.length := rfl
    have hslide : ¬ n + b.length ≤ b.capacity / 2 := by omega
    have hmax : ¬ b.capacity + n > maxSize := by
      simp only [maxSize]
      omega
    rw [dif_neg hroom]
    simp only [dif_neg hslide, if_neg hmax]
    refine ⟨_, rfl, rfl, ?_, ?_⟩
    · show min (b.length + n) (min (2 * b.capacity + n) maxSize) = b.length + n
      simp only [maxSize]
      omega
    · show (b.bytes ++ _).take b.length = b.bytes
      rw [← b.length_bytes, List.take_left]

/-- **A write appends.** -/
theorem write_spec (b : DenoBuffer) (p : Bytes) (hoff : b.off = 0)
    (hlim : b.length + p.length < 2 ^ 31) :
    ∃ b', b.write p = .ok b' ∧ b'.off = 0 ∧ b'.bytes = b.bytes ++ p := by
  obtain ⟨b₁, hgrow, hoff₁, hlen₁, hfront⟩ := b.grow_spec p.length hoff hlim
  refine ⟨b₁.copyAt p b.length, ?_, hoff₁, ?_⟩
  · unfold write
    rw [hgrow]
  · rw [bytes_copyAt b₁ p b.length hoff₁ hlen₁.symm, hfront]

/-- An empty buffer throws on a write that exceeds `maxSize`. -/
theorem write_throws (p : Bytes) (h : maxSize < p.length) :
    (new []).write p = .error "The buffer cannot be grown beyond the maximum size." := by
  have hpos : ¬ p.length ≤ 0 := by
    simp only [maxSize] at h
    omega
  have hgrow : (new []).grow p.length =
      .error "The buffer cannot be grown beyond the maximum size." := by
    simp [grow, new, length, tryGrowByReslice, capacity, hpos, h]
  unfold write
  rw [hgrow]

end DenoBuffer

end NatsClient.Wire
