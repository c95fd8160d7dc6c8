import NatsClient.Foundation.Run
import NatsClient.Wire.DenoBuffer
import NatsClient.Wire.Text

/-!
# The byte buffer as a queue

Model of all of `DenoBuffer` (`denobuffer.ts`). The read offset is not kept within the view here:
`readFrom` can leave it behind the end, where `length` is negative. Where it is within the view,
`growInner_cases` and `write_cases` say what the calls do, and `readFrom_spec` what a reader does.

`readFrom` reads into the `ArrayBuffer` at the number of unread bytes, and ends the view behind what
it read there; both forget the read offset. The buffer is a queue along a run exactly where no
reader gives something on that path while bytes have been read, and no write slides contents above
`maxSize` (`fifo_iff_meets`).
-/

set_option autoImplicit false

namespace NatsClient.Wire

open NatsClient.Foundation

/-- `MIN_READ`. -/
def minRead : Nat := 32 * 1024

/-- `bytes.Buffer: truncation out of range`. -/
def truncationOutOfRange : String := "bytes.Buffer: truncation out of range"

/-- `Buffer._grow: negative count`. -/
def negativeCount : String := "Buffer._grow: negative count"

/-- `The buffer cannot be grown beyond the maximum size.` -/
def beyondMaxSize : String := "The buffer cannot be grown beyond the maximum size."

/-- The message of a failed `assert`. -/
def assertionFailed : String := "Assertion failed."

/-- The `RangeError` of a typed array whose length is negative. -/
def invalidLength : String := "Invalid typed array length"

/-- The `RangeError` of `set`. -/
def offsetOutOfBounds : String := "offset is out of bounds"

/-- A reader that ends: what it gives depends on the room it is given. -/
inductive Reader where
  | eof
  | fails (e : String)
  | gives (chunk : Nat → Bytes) (next : Nat → Reader)

/-- The fields of a `DenoBuffer`: the bytes of the `ArrayBuffer`, the length of the view `_buf` on
it and the read offset `_off`. -/
structure RawBuffer where
  buffer : Bytes
  byteLength : Nat
  off : Nat
  fits : byteLength ≤ buffer.length

/-- The fields of a buffer of the parser. -/
def DenoBuffer.raw (b : DenoBuffer) : RawBuffer := ⟨b.buffer, b.byteLength, b.off, b.fits⟩

namespace RawBuffer

/-- The constructor. -/
def new (ab : Bytes) : RawBuffer := (DenoBuffer.new ab).raw

/-- `bytes(options)`, with or without the copy. -/
def bytes (b : RawBuffer) : Bytes := (b.buffer.take b.byteLength).drop b.off

/-- `empty()`. -/
def empty (b : RawBuffer) : Bool := b.byteLength ≤ b.off

/-- `length`. -/
def length (b : RawBuffer) : Int := b.byteLength - b.off

/-- `capacity`. -/
def capacity (b : RawBuffer) : Nat := b.buffer.length

/-- `_reslice(len)`. -/
def reslice (b : RawBuffer) (len : Int) : RawBuffer × Option String :=
  if h : 0 ≤ len ∧ len ≤ b.buffer.length then (⟨b.buffer, len.toNat, b.off, by omega⟩, none)
  else (b, some (if 0 ≤ len then assertionFailed else invalidLength))

/-- `reset()`. -/
def reset (b : RawBuffer) : RawBuffer := ⟨b.buffer, 0, 0, Nat.zero_le _⟩

/-- `truncate(n)`. -/
def truncate (b : RawBuffer) (n : Int) : RawBuffer × Option String :=
  if n = 0 then (b.reset, none)
  else if n < 0 ∨ b.length < n then (b, some truncationOutOfRange)
  else b.reslice (b.off + n)

/-- `_tryGrowByReslice(n)`. -/
def tryGrowByReslice (b : RawBuffer) (n : Nat) : Option (RawBuffer × Int) :=
  if h : b.byteLength + n ≤ b.buffer.length then
    some (⟨b.buffer, b.byteLength + n, b.off, h⟩, b.byteLength)
  else none

/-- The unread bytes moved to the front of the `ArrayBuffer`. -/
def slide (b : RawBuffer) : RawBuffer where
  buffer := b.bytes ++ b.buffer.drop b.bytes.length
  byteLength := b.byteLength
  off := 0
  fits := by
    have h := b.fits
    have hle : b.bytes.length ≤ b.buffer.length := by
      rw [bytes, List.length_drop, List.length_take]
      omega
    rw [List.length_append, List.length_drop]
    omega

/-- The unread bytes in a new `ArrayBuffer` of `size` bytes. -/
def allocate (b : RawBuffer) (size : Nat) : RawBuffer where
  buffer := b.bytes ++ List.replicate (size - b.bytes.length) 0
  byteLength := size
  off := 0
  fits := by
    rw [List.length_append, List.length_replicate]
    omega

/-- The end of `_grow(n)` behind a slide or an allocation: the view is restored. -/
def restore (b : RawBuffer) (m : Int) (n : Nat) : RawBuffer × Except String Int :=
  match b.reslice (min (m + n) maxSize) with
  | (b, none) => (b, .ok m)
  | (b, some e) => (b, .error e)

/-- An empty buffer that was read from starts over. -/
def recovered (b : RawBuffer) : RawBuffer := if b.length = 0 ∧ b.off ≠ 0 then b.reset else b

/-- `_grow(n)`. -/
def growInner (b : RawBuffer) (n : Nat) : RawBuffer × Except String Int :=
  let m := b.length
  let b := b.recovered
  match b.tryGrowByReslice n with
  | some (b, i) => (b, .ok i)
  | none =>
      let c := b.capacity
      if n ≤ ((c / 2 : Nat) : Int) - m then b.slide.restore m n
      else if c + n > maxSize then (b, .error beyondMaxSize)
      else (b.allocate (min (2 * c + n) maxSize)).restore m n

/-- `copy(p, _buf, at)` within the view, with the number of bytes copied. -/
def copyAt (b : RawBuffer) (p : Bytes) (i : Nat) : RawBuffer × Nat :=
  let p := p.take (b.byteLength - i)
  (⟨b.buffer.take i ++ p ++ b.buffer.drop (i + p.length), b.byteLength, b.off, by
    have h := b.fits
    have hp : p.length ≤ b.byteLength - i := List.length_take_le _ _
    simp only [List.length_append, List.length_take, List.length_drop]
    omega⟩, p.length)

/-- `write(p)`. -/
def write (b : RawBuffer) (p : Bytes) : RawBuffer × Except String Nat :=
  match b.growInner p.length with
  | (b, .error e) => (b, .error e)
  | (b, .ok i) =>
      if 0 ≤ i ∧ i ≤ b.byteLength then ((b.copyAt p i.toNat).1, .ok (b.copyAt p i.toNat).2)
      else (b, .error offsetOutOfBounds)

/-- `writeByte(n)`. -/
def writeByte (b : RawBuffer) (n : UInt8) : RawBuffer × Except String Nat := b.write [n]

/-- `writeString(s)`. -/
def writeString (b : RawBuffer) (s : String) : RawBuffer × Except String Nat := b.write (encode s)

/-- `grow(n)`. -/
def grow (b : RawBuffer) (n : Int) : RawBuffer × Option String :=
  if n < 0 then (b, some negativeCount)
  else
    match b.growInner n.toNat with
    | (b, .error e) => (b, some e)
    | (b, .ok m) => b.reslice m

/-- `read(p)`, for `p` of `k` bytes: what is copied into it. -/
def read (b : RawBuffer) (k : Nat) : RawBuffer × Option Bytes :=
  if b.empty then (b.reset, if k = 0 then some [] else none)
  else
    let copied := b.bytes.take k
    (⟨b.buffer, b.byteLength, b.off + copied.length, b.fits⟩, some copied)

/-- `readByte()`. -/
def readByte (b : RawBuffer) : RawBuffer × Option UInt8 :=
  match b.read 1 with
  | (b, some (n :: _)) => (b, some n)
  | (b, _) => (b, none)

/-- What `readFrom` does with what a reader wrote into the `ArrayBuffer`, at the number of unread
bytes. -/
def intake (b : RawBuffer) (p : Bytes) : RawBuffer where
  buffer := b.buffer.take b.length.toNat ++ p ++ b.buffer.drop (b.length.toNat + p.length)
  byteLength := b.length.toNat + p.length
  off := b.off
  fits := by
    have hfits := b.fits
    have hle : b.length.toNat ≤ b.buffer.length := by
      rw [length]
      omega
    simp only [List.length_append, List.length_take, List.length_drop]
    omega

/-- What a reader writes into an array with some room. -/
def given (chunk : Nat → Bytes) (room : Nat) : Bytes := (chunk room).take room

/-- The length of the array that begins at the number of unread bytes. -/
def room (b : RawBuffer) : Nat := (b.capacity - b.length).toNat

/-- The bytes read before come in front. -/
def received (p : Bytes) (r : RawBuffer × Bytes × Except String Nat) :
    RawBuffer × Bytes × Except String Nat :=
  (r.1, p ++ r.2.1, r.2.2)

/-- What the end of a reader makes of a call: in front of it the array to read into is made, which
throws where it would begin at a negative number. -/
def ended (b : RawBuffer) (r : Except String Nat) : RawBuffer × Bytes × Except String Nat :=
  (b, [], if b.capacity - b.length < minRead ∨ 0 ≤ b.length then r else .error invalidLength)

/-- `readFrom(r)`, with the bytes that were read and kept. -/
def readFrom (b : RawBuffer) (n : Nat) : Reader → RawBuffer × Bytes × Except String Nat
  | .eof => b.ended (.ok n)
  | .fails e => b.ended (.error e)
  | .gives chunk next =>
      if b.capacity - b.length < minRead then
        -- without much room it reads into an array of its own, and writes that
        match b.write (given chunk minRead) with
        | (b, .error e) => (b, [], .error e)
        | (b, .ok _) =>
            received (given chunk minRead)
              (readFrom b (n + (given chunk minRead).length) (next minRead))
      -- otherwise into the buffer at the number of unread bytes
      else if 0 ≤ b.length then
        received (given chunk b.room)
          (readFrom (b.intake (given chunk b.room)) (n + (given chunk b.room).length) (next b.room))
      else (b, [], .error invalidLength)

/-! ## What the calls do while the offset is in the view -/

theorem eq_of_fields {b b' : RawBuffer} (hbuffer : b.buffer = b'.buffer)
    (hlength : b.byteLength = b'.byteLength) (hoff : b.off = b'.off) : b = b' := by
  cases b
  cases b'
  cases hbuffer
  cases hlength
  cases hoff
  rfl

/-- The read offset is within the view. -/
def Valid (b : RawBuffer) : Prop := b.off ≤ b.byteLength

/-- A write of `n` bytes slides the contents down and has more than `maxSize` bytes then. -/
def Overflows (b : RawBuffer) (n : Nat) : Prop :=
  0 < b.length ∧ b.capacity < b.byteLength + n ∧ b.length + n ≤ (b.capacity / 2 : Nat) ∧
    (maxSize : Int) < b.length + n

variable {b b' : RawBuffer} {n : Nat}

theorem length_bytes (h : b.Valid) : (b.bytes.length : Int) = b.length := by
  have hfits := b.fits
  rw [Valid] at h
  rw [bytes, length, List.length_drop, List.length_take]
  omega

theorem empty_iff (h : b.Valid) : b.empty = true ↔ b.bytes = [] := by
  have hlen := length_bytes h
  rw [Valid] at h
  rw [empty, decide_eq_true_eq, ← List.length_eq_zero_iff]
  rw [length] at hlen
  omega

/-- Starting over keeps the contents. -/
theorem recovered_spec (h : b.Valid) :
    b.recovered.Valid ∧ b.recovered.bytes = b.bytes ∧ b.recovered.buffer = b.buffer ∧
      b.recovered.byteLength ≤ b.byteLength ∧ (b.recovered.off = 0 ∨ b.recovered = b) := by
  by_cases hstart : b.length = 0 ∧ b.off ≠ 0
  · have hnil : b.bytes = [] := by
      have hlen := length_bytes h
      rw [hstart.1] at hlen
      exact List.length_eq_zero_iff.1 (Int.ofNat_eq_zero.1 hlen)
    rw [recovered, if_pos hstart]
    refine ⟨Nat.le_refl _, ?_, rfl, Nat.zero_le _, .inl rfl⟩
    rw [hnil, reset, bytes, List.take_zero, List.drop_nil]
  · rw [recovered, if_neg hstart]
    exact ⟨h, rfl, rfl, Nat.le_refl _, .inr rfl⟩

theorem byteLength_recovered (hzero : b.length = 0) : b.recovered.byteLength = 0 := by
  by_cases hoff : b.off = 0
  · have hsame : b.recovered = b := if_neg fun hstart => hstart.2 hoff
    rw [hsame]
    rw [length] at hzero
    omega
  · have hreset : b.recovered = b.reset := if_pos ⟨hzero, hoff⟩
    rw [hreset, reset]

theorem capacity_slide (b : RawBuffer) : b.slide.capacity = b.capacity := by
  have hle : b.bytes.length ≤ b.buffer.length := by
    rw [bytes, List.length_drop, List.length_take]
    omega
  rw [capacity, capacity, slide, List.length_append, List.length_drop]
  omega

theorem le_capacity_allocate (b : RawBuffer) (size : Nat) : size ≤ (b.allocate size).capacity := by
  rw [capacity, allocate, List.length_append, List.length_replicate]
  omega

theorem restore_eq {m : Int} (hpos : 0 ≤ m + n) (hle : m + n ≤ b.capacity ∨ maxSize ≤ b.capacity) :
    ∃ b', b.restore m n = (b', .ok m) ∧ b'.buffer = b.buffer ∧ b'.off = b.off ∧
      (b'.byteLength : Int) = min (m + n) maxSize := by
  have hroom : 0 ≤ min (m + n) (maxSize : Int) ∧ min (m + n) (maxSize : Int) ≤ b.buffer.length := by
    rw [capacity] at hle
    omega
  refine ⟨⟨b.buffer, (min (m + n) (maxSize : Int)).toNat, b.off, by omega⟩, ?_, rfl, rfl, ?_⟩
  · rw [restore, reslice, dif_pos hroom]
  · exact Int.toNat_of_nonneg hroom.1

/-- What `_grow` does where it does not throw: the contents end at the index `i` that it returns,
with room for `n` bytes behind that unless it overflows. -/
structure Grown (b : RawBuffer) (n : Nat) (b' : RawBuffer) (i : Nat) : Prop where
  off_le : b'.off ≤ i
  contents : (b'.buffer.take i).drop b'.off = b.bytes
  index : (i : Int) = b'.off + b.length
  capacity_le : b.capacity ≤ b'.capacity
  kept : b'.off = 0 ∨ b'.off = b.off ∧ b'.buffer = b.buffer
  room : ¬ b.Overflows n → b'.byteLength = i + n
  overflow : b.Overflows n → b'.byteLength = maxSize ∧ b'.off = 0

/-- The contents in front of a moved buffer. -/
theorem grown_moved (h : b.Valid) {rest : Bytes} (hbuffer : b'.buffer = b.bytes ++ rest)
    (hoff : b'.off = 0) (hcapacity : b.capacity ≤ b'.capacity)
    (hlength : (b'.byteLength : Int) = min (b.length + n) maxSize)
    (hover : b.Overflows n ↔ (maxSize : Int) < b.length + n) : b.Grown n b' b.bytes.length where
  off_le := hoff ▸ Nat.zero_le _
  contents := by rw [hbuffer, hoff, List.take_left, List.drop_zero]
  index := by rw [length_bytes h, hoff, Int.ofNat_zero, Int.zero_add]
  capacity_le := hcapacity
  kept := .inl hoff
  room := by
    intro hnot
    have hlen := length_bytes h
    rw [hover] at hnot
    omega
  overflow := by
    intro hyes
    rw [hover] at hyes
    exact ⟨by omega, hoff⟩

theorem grown_fast (h : b.Valid) (hroom : b.recovered.byteLength + n ≤ b.recovered.buffer.length)
    (hbuffer : b'.buffer = b.recovered.buffer) (hoff : b'.off = b.recovered.off)
    (hlength : b'.byteLength = b.recovered.byteLength + n) :
    b.Grown n b' b.recovered.byteLength := by
  obtain ⟨hvalid, hbytes, hsame, -, hrecovered⟩ := recovered_spec h
  have hlen : b.recovered.length = b.length := by
    rw [← length_bytes hvalid, hbytes, length_bytes h]
  have hnot : ¬ b.Overflows n := by
    rintro ⟨hpos, hover, -⟩
    have hsame' : b.recovered = b := if_neg fun hzero => by omega
    rw [hsame'] at hroom
    rw [capacity] at hover
    omega
  constructor
  · rw [hoff]
    exact hvalid
  · rw [hbuffer, hoff, ← hbytes]
    rfl
  · rw [hoff, ← hlen, length]
    omega
  · apply Nat.le_of_eq
    rw [capacity, capacity, hbuffer, hsame]
  · rw [hoff, hbuffer]
    rcases hrecovered with hzero | hsame'
    · exact .inl hzero
    · exact .inr ⟨by rw [hsame'], hsame⟩
  · exact fun _ => hlength
  · exact fun hover => absurd hover hnot

/-- **What `_grow` does.** -/
theorem growInner_cases (h : b.Valid) (n : Nat) :
    (∃ b' e, b.growInner n = (b', .error e) ∧ b'.Valid ∧ b'.bytes = b.bytes ∧ ¬ b.Overflows n) ∨
      ∃ b' i, b.growInner n = (b', .ok (i : Nat)) ∧ b.Grown n b' i := by
  obtain ⟨hvalid, hbytes, hbuffer, -, hrecovered⟩ := recovered_spec h
  have hlen := length_bytes h
  have hpos : 0 ≤ b.length := hlen ▸ Int.natCast_nonneg _
  have hle : b.length ≤ b.capacity := by
    have hfits := b.fits
    rw [length, capacity]
    omega
  have hcap : b.recovered.capacity = b.capacity := congrArg List.length hbuffer
  rw [growInner]
  simp only [tryGrowByReslice]
  by_cases hfast : b.recovered.byteLength + n ≤ b.recovered.buffer.length
  · rw [dif_pos hfast]
    exact .inr ⟨_, _, rfl, grown_fast h hfast rfl rfl rfl⟩
  · rw [dif_neg hfast]
    rw [← capacity, hcap] at hfast
    simp only [hcap]
    by_cases hslide : (n : Int) ≤ ((b.capacity / 2 : Nat) : Int) - b.length
    · rw [if_pos hslide]
      -- only a buffer with contents gets here, and it did not start over
      have hcontents : 0 < b.length := by
        by_contra hnot
        have hzero := byteLength_recovered (b := b) (by omega)
        omega
      have hsame : b.recovered = b := if_neg fun hzero => by omega
      rw [hsame] at hfast ⊢
      obtain ⟨b', heq, hb, hoff, hlength⟩ := restore_eq (b := b.slide) (m := b.length) (n := n)
        (by omega) (.inl (by rw [capacity_slide]; omega))
      rw [heq, ← hlen]
      refine .inr ⟨b', _, rfl, grown_moved h hb hoff ?_ hlength ?_⟩
      · apply Nat.le_of_eq
        rw [← capacity_slide b, capacity, capacity, hb]
      · refine ⟨fun hover => hover.2.2.2, fun hlarge => ⟨hcontents, by omega, by omega, hlarge⟩⟩
    · rw [if_neg hslide]
      by_cases hmax : b.capacity + n > maxSize
      · rw [if_pos hmax]
        exact .inl ⟨_, _, rfl, hvalid, hbytes, fun hover => hslide (by have := hover.2.2.1; omega)⟩
      · rw [if_neg hmax]
        have hsize := b.recovered.le_capacity_allocate (min (2 * b.capacity + n) maxSize)
        obtain ⟨b', heq, hb, hoff, hlength⟩ :=
          restore_eq (b := b.recovered.allocate (min (2 * b.capacity + n) maxSize))
            (m := b.length) (n := n) (by omega) (.inl (by omega))
        rw [heq, ← hlen]
        have hfront : b'.buffer =
            b.bytes ++ List.replicate (min (2 * b.capacity + n) maxSize - b.bytes.length) 0 := by
          rw [hb, ← hbytes]
          rfl
        refine .inr ⟨b', _, rfl, grown_moved h hfront hoff ?_ hlength ?_⟩
        · have hcap' : b'.capacity = _ := congrArg List.length hb
          rw [← capacity] at hcap'
          omega
        · refine iff_of_false (fun hover => ?_) (by omega)
          obtain ⟨-, -, hhalf, -⟩ := hover
          omega

/-- What is copied behind the contents follows them. -/
theorem bytes_copyAt {p : Bytes} {i : Nat} (hoff : b.off ≤ i) (hend : b.byteLength = i + p.length) :
    (b.copyAt p i).1.bytes = (b.buffer.take i).drop b.off ++ p ∧
      (b.copyAt p i).1.capacity = b.capacity ∧ (b.copyAt p i).2 = p.length := by
  have hfits := b.fits
  have hall : p.take (b.byteLength - i) = p := List.take_of_length_le (by omega)
  have hfront : (b.buffer.take i).length = i := by
    rw [List.length_take]
    omega
  refine ⟨?_, ?_, congrArg List.length hall⟩
  swap
  · show (b.buffer.take i ++ p.take (b.byteLength - i) ++ b.buffer.drop (i + _)).length =
        b.buffer.length
    rw [hall, List.length_append, List.length_append, hfront, List.length_drop]
    omega
  show ((b.buffer.take i ++ p.take (b.byteLength - i) ++ b.buffer.drop _).take b.byteLength).drop
      b.off = _
  have hend' : b.byteLength = (b.buffer.take i ++ p).length :=
    by rw [List.length_append, hfront, hend]
  rw [hall, hend', List.take_left]
  exact List.drop_append_of_le_length (by rw [hfront]; exact hoff)

/-- **What a write does**: it throws and keeps the contents, or it appends, unless it overflows. -/
theorem write_cases (h : b.Valid) (p : Bytes) :
    (∃ b' e, b.write p = (b', .error e) ∧ b'.Valid ∧ b'.bytes = b.bytes ∧ ¬ b.Overflows p.length) ∨
      (∃ b', b.write p = (b', .ok p.length) ∧ b'.Valid ∧ b'.bytes = b.bytes ++ p ∧
        b.capacity ≤ b'.capacity ∧ (b'.off = 0 ∨ b'.off = b.off ∧ b'.capacity = b.capacity) ∧
        ¬ b.Overflows p.length) ∨
      b.Overflows p.length ∧ (b.write p).1.length = maxSize ∧
        ∀ e, (b.write p).2 = .error e → (maxSize : Int) < b.length := by
  rw [write]
  rcases growInner_cases h p.length with ⟨b', e, heq, hvalid, hbytes, hnot⟩ | ⟨b', i, heq, hgrown⟩
  · rw [heq]
    exact .inl ⟨b', e, rfl, hvalid, hbytes, hnot⟩
  · rw [heq]
    by_cases hover : b.Overflows p.length
    · obtain ⟨hlength, hoff⟩ := hgrown.overflow hover
      refine .inr (.inr ⟨hover, ?_⟩)
      simp only
      split
      · refine ⟨?_, fun e he => (by cases he)⟩
        show (b'.byteLength : Int) - b'.off = maxSize
        omega
      · have hindex := hgrown.index
        refine ⟨?_, fun e _ => by omega⟩
        show (b'.byteLength : Int) - b'.off = maxSize
        omega
    · have hroom := hgrown.room hover
      have hin : 0 ≤ (i : Int) ∧ (i : Int) ≤ b'.byteLength := by omega
      obtain ⟨hbytes, hcap, hcount⟩ := bytes_copyAt (p := p) hgrown.off_le hroom
      refine .inr (.inl ⟨(b'.copyAt p i).1, ?_, ?_, ?_, ?_, ?_, hover⟩)
      · simp only [if_pos hin, Int.toNat_natCast, hcount]
      · have hoff := hgrown.off_le
        show b'.off ≤ b'.byteLength
        omega
      · rw [hbytes, hgrown.contents]
      · rw [hcap]
        exact hgrown.capacity_le
      · rw [hcap]
        rcases hgrown.kept with hzero | ⟨hoff, hbuffer⟩
        · exact .inl hzero
        · exact .inr ⟨hoff, congrArg List.length hbuffer⟩

theorem read_spec (h : b.Valid) (k : Nat) :
    (b.read k).1.Valid ∧ (b.read k).1.bytes = b.bytes.drop k ∧
      (b.read k).2.getD [] = b.bytes.take k := by
  rw [read]
  cases hempty : b.empty with
  | true =>
      have hnil := (empty_iff h).1 hempty
      rw [if_pos rfl, hnil, List.drop_nil, List.take_nil]
      refine ⟨Nat.le_refl _, ?_, ?_⟩
      · rw [reset, bytes, List.take_zero, List.drop_nil]
      · split
        · rfl
        · rfl
  | false =>
      rw [if_neg Bool.false_ne_true]
      have hlen := length_bytes h
      rw [length] at hlen
      refine ⟨?_, ?_, rfl⟩
      · show b.off + (b.bytes.take k).length ≤ b.byteLength
        rw [List.length_take]
        rw [Valid] at h
        omega
      · show (b.buffer.take b.byteLength).drop (b.off + (b.bytes.take k).length) = b.bytes.drop k
        rw [← List.drop_drop, ← bytes, List.length_take, List.drop_eq_drop_iff]
        omega

theorem readByte_spec (h : b.Valid) :
    b.readByte.1 = (b.read 1).1 ∧ b.readByte.2.toList = b.bytes.take 1 := by
  have hread := (read_spec h 1).2.2
  rw [readByte]
  rcases hres : b.read 1 with ⟨b', _ | _ | ⟨x, rest⟩⟩
  · rw [hres] at hread
    exact ⟨rfl, hread⟩
  · rw [hres] at hread
    exact ⟨rfl, hread⟩
  · rw [hres] at hread
    have hone : (x :: rest).length ≤ 1 := by
      rw [show x :: rest = b.bytes.take 1 from hread, List.length_take]
      exact Nat.min_le_left _ _
    have hnil : rest = [] := List.length_eq_zero_iff.1 (Nat.le_zero.1 (Nat.le_of_succ_le_succ hone))
    refine ⟨rfl, ?_⟩
    rw [← show x :: rest = b.bytes.take 1 from hread, hnil]
    rfl

theorem truncate_spec (h : b.Valid) (n : Int) :
    (b.truncate n).1.Valid ∧
      (b.truncate n).1.bytes = if 0 ≤ n ∧
      n ≤ b.bytes.length then b.bytes.take n.toNat else b.bytes := by
  have hlen := length_bytes h
  have hfits := b.fits
  rw [truncate, hlen]
  by_cases hzero : n = 0
  · rw [if_pos hzero, hzero]
    refine ⟨Nat.le_refl _, ?_⟩
    have hin : 0 ≤ (0 : Int) ∧ 0 ≤ b.length := ⟨Int.le_refl _, by omega⟩
    rw [if_pos hin, reset, bytes, List.take_zero, List.drop_nil]
    rfl
  · rw [if_neg hzero]
    by_cases hout : n < 0 ∨ b.length < n
    · rw [if_pos hout, if_neg (by omega)]
      exact ⟨h, rfl⟩
    · rw [if_neg hout, if_pos (by omega)]
      have hoff : b.length = b.byteLength - b.off := rfl
      have hroom : 0 ≤ (b.off : Int) + n ∧ (b.off : Int) + n ≤ b.buffer.length := by omega
      rw [reslice, dif_pos hroom]
      constructor
      · show b.off ≤ ((b.off : Int) + n).toNat
        omega
      · show (b.buffer.take ((b.off : Int) + n).toNat).drop b.off = b.bytes.take n.toNat
        rw [bytes, List.take_drop, List.take_take]
        congr 2
        omega

theorem grow_spec (h : b.Valid) (n : Int) : (b.grow n).1.Valid ∧ (b.grow n).1.bytes = b.bytes := by
  rw [grow]
  split
  · exact ⟨h, rfl⟩
  · rcases growInner_cases h n.toNat with ⟨b', e, heq, hvalid, hbytes, -⟩ | ⟨b', i, heq, hgrown⟩
    · rw [heq]
      exact ⟨hvalid, hbytes⟩
    · rw [heq]
      have hroom : 0 ≤ (i : Int) ∧ (i : Int) ≤ b'.buffer.length := by
        have hfits := b'.fits
        by_cases hover : b.Overflows n.toNat
        · have hindex := hgrown.index
          have hcap := hgrown.capacity_le
          have hfits' := b.fits
          rw [(hgrown.overflow hover).2, length] at hindex
          rw [capacity, capacity] at hcap
          omega
        · have hroom := hgrown.room hover
          omega
      simp only [reslice, dif_pos hroom]
      exact ⟨hgrown.off_le, hgrown.contents⟩

/-- What a reader gives to a buffer that was not read from follows the contents. -/
theorem intake_spec (hoff : b.off = 0) (p : Bytes) :
    (b.intake p).Valid ∧ (b.intake p).off = 0 ∧ (b.intake p).bytes = b.bytes ++ p := by
  have hlen : b.length.toNat = b.byteLength := by
    rw [length, hoff]
    omega
  have hfront : (b.buffer.take b.byteLength).length = b.byteLength := by
    rw [List.length_take]
    exact Nat.min_eq_left b.fits
  refine ⟨?_, hoff, ?_⟩
  · show b.off ≤ _
    rw [hoff]
    exact Nat.zero_le _
  · show ((b.buffer.take b.length.toNat ++ p ++ _).take (b.length.toNat + p.length)).drop b.off = _
    have hend : b.byteLength + p.length = (b.buffer.take b.byteLength ++ p).length := by
      rw [List.length_append, hfront]
    rw [hlen, hend, List.take_left, bytes, hoff, List.drop_zero, List.drop_zero]

/-- A full buffer takes a chunk of a reader without a slide above `maxSize`. -/
theorem not_overflows_of_full (hfull : (b.capacity : Int) - b.length < minRead) (hn : n ≤ minRead) :
    ¬ b.Overflows n := by
  rintro ⟨-, -, hhalf, hmax⟩
  have hsize : maxSize = 4294967294 := by decide
  have hmin : minRead = 32768 := by decide
  omega

/-- **What a reader gives** follows the contents, where nothing was read from the buffer or it is
full. -/
theorem readFrom_spec (r : Reader) (n : Nat) (h : b.Valid)
    (hsafe : b.off = 0 ∨ (b.capacity : Int) - b.length < minRead) :
    (b.readFrom n r).1.Valid ∧ (b.readFrom n r).1.bytes = b.bytes ++ (b.readFrom n r).2.1 := by
  induction r generalizing b n with
  | eof => exact ⟨h, (List.append_nil _).symm⟩
  | fails e => exact ⟨h, (List.append_nil _).symm⟩
  | gives chunk next ih =>
      rw [readFrom]
      by_cases hfull : (b.capacity : Int) - b.length < minRead
      · rw [if_pos hfull]
        have hnot := not_overflows_of_full hfull (List.length_take_le minRead (chunk minRead))
        rcases write_cases h (given chunk minRead) with
          ⟨b', e, heq, hvalid, hbytes, -⟩ | ⟨b', heq, hvalid, hbytes, -, hkept, -⟩ | ⟨hover, -, -⟩
        · simp only [heq]
          exact ⟨hvalid, hbytes.trans (List.append_nil _).symm⟩
        · simp only [heq]
          have hsafe' : b'.off = 0 ∨ (b'.capacity : Int) - b'.length < minRead := by
            rcases hkept with hzero | ⟨-, hcap⟩
            · exact .inl hzero
            · -- the contents are longer, and the room is the same
              right
              have hlen := length_bytes h
              have hlen' := length_bytes hvalid
              rw [hbytes, List.length_append] at hlen'
              omega
          obtain ⟨hvalid', hbytes'⟩ := ih minRead (n + (given chunk minRead).length) hvalid hsafe'
          refine ⟨hvalid', ?_⟩
          simp only [received]
          rw [hbytes', hbytes, List.append_assoc]
        · exact absurd hover hnot
      · have hoff : b.off = 0 := hsafe.resolve_right hfull
        have hpos : 0 ≤ b.length := length_bytes h ▸ Int.natCast_nonneg _
        rw [if_neg hfull, if_pos hpos]
        obtain ⟨hvalid, hoff', hbytes⟩ := intake_spec hoff (given chunk b.room)
        obtain ⟨hvalid', hbytes'⟩ := ih b.room (n + (given chunk b.room).length) hvalid (.inl hoff')
        refine ⟨hvalid', ?_⟩
        simp only [received]
        rw [hbytes', hbytes, List.append_assoc]

theorem length_intake (b : RawBuffer) (p : Bytes) (h : 0 ≤ b.length) :
    (b.intake p).length = b.length + p.length - b.off := by
  show ((b.length.toNat + p.length : Nat) : Int) - b.off = b.length + p.length - b.off
  omega

theorem capacity_intake (b : RawBuffer) (p : Bytes) : b.capacity ≤ (b.intake p).capacity := by
  rw [capacity, capacity, intake]
  simp only [List.length_append, List.length_take, List.length_drop]
  omega

/-- **Bytes that are lost stay lost** while the reader goes on. -/
theorem readFrom_short (r : Reader) (n : Nat) (hcap : minRead ≤ b.capacity) :
    (b.readFrom n r).1.length ≤ b.length + (b.readFrom n r).2.1.length := by
  induction r generalizing b n with
  | eof => exact Int.le_of_eq (Int.add_zero _).symm
  | fails e => exact Int.le_of_eq (Int.add_zero _).symm
  | gives chunk next ih =>
      rw [readFrom]
      by_cases hfull : (b.capacity : Int) - b.length < minRead
      · rw [if_pos hfull]
        have hvalid : b.Valid := by
          rw [length] at hfull
          rw [Valid]
          omega
        have hlen := length_bytes hvalid
        have hnot := not_overflows_of_full hfull (List.length_take_le minRead (chunk minRead))
        rcases write_cases hvalid (given chunk minRead) with
          ⟨b', e, heq, hvalid', hbytes, -⟩ | ⟨b', heq, hvalid', hbytes, hgrown, -,
            -⟩ | ⟨hover, -, -⟩
        · simp only [heq]
          rw [← length_bytes hvalid', hbytes, hlen]
          exact Int.le_of_eq (Int.add_zero _).symm
        · simp only [heq, received]
          have hrest := ih minRead (n + (given chunk minRead).length) (Nat.le_trans hcap hgrown)
          have hlen' := length_bytes hvalid'
          rw [hbytes, List.length_append] at hlen'
          rw [List.length_append]
          omega
        · exact absurd hover hnot
      · rw [if_neg hfull]
        split
        · next hpos =>
            have hrest :=
              ih b.room (b := b.intake (given chunk b.room)) (n + (given chunk b.room).length)
              (Nat.le_trans hcap (b.capacity_intake _))
            rw [length_intake b _ hpos] at hrest
            simp only [received]
            rw [List.length_append]
            omega
        · exact Int.le_of_eq (Int.add_zero _).symm

/-- **A reader that gives something** to a buffer that was read from, and is not full, makes it lose
bytes. -/
theorem readFrom_loses (h : b.Valid) (hoff : b.off ≠ 0)
    (hroom : ¬ (b.capacity : Int) - b.length < minRead) (chunk : Nat → Bytes)
    (next : Nat → Reader) (n : Nat) :
    (b.readFrom n (.gives chunk next)).1.length <
      b.length + (b.readFrom n (.gives chunk next)).2.1.length := by
  have hpos : 0 ≤ b.length := length_bytes h ▸ Int.natCast_nonneg _
  rw [readFrom, if_neg hroom, if_pos hpos]
  have hcap : minRead ≤ b.capacity := by omega
  have hrest := readFrom_short (b := b.intake (given chunk b.room)) (next b.room)
    (n + (given chunk b.room).length) (Nat.le_trans hcap (b.capacity_intake _))
  rw [length_intake b _ hpos] at hrest
  simp only [received]
  rw [List.length_append]
  omega

end RawBuffer

/-! ## The queue -/

/-- A queue of bytes, with what was taken from its front. -/
structure ByteQueue where
  bytes : Bytes
  taken : Bytes
deriving DecidableEq, Repr

namespace ByteQueue

/-- Bytes come to its end. -/
def append (q : ByteQueue) (p : Bytes) : ByteQueue := { q with bytes := q.bytes ++ p }

/-- The first `k` bytes are taken. -/
def take (q : ByteQueue) (k : Nat) : ByteQueue := ⟨q.bytes.drop k, q.taken ++ q.bytes.take k⟩

/-- All but the first `n` bytes are dropped, if it has as many. -/
def cut (q : ByteQueue) (n : Int) : ByteQueue :=
  { q with bytes := if 0 ≤ n ∧ n ≤ q.bytes.length then q.bytes.take n.toNat else q.bytes }

end ByteQueue

/-- The calls. -/
inductive BufferCall where
  | write (p : Bytes)
  | writeByte (n : UInt8)
  | writeString (s : String)
  | read (k : Nat)
  | readByte
  | truncate (n : Int)
  | reset
  | grow (n : Int)
  | readFrom (r : Reader)

/-- A buffer with the bytes that its reads returned, and the queue it is to be. -/
structure FifoSession where
  buf : RawBuffer
  out : Bytes
  queue : ByteQueue

namespace FifoSession

/-- A new buffer. -/
def new (ab : Bytes) : FifoSession := ⟨.new ab, [], ⟨ab, []⟩⟩

/-- A write; one that throws writes nothing. -/
def written (s : FifoSession) (p : Bytes) (r : RawBuffer × Except String Nat) : FifoSession :=
  { s with
    buf := r.1
    queue :=
      match r.2 with
      | .ok _ => s.queue.append p
      | .error _ => s.queue }

/-- A call. -/
def step (s : FifoSession) : BufferCall → FifoSession
  | .write p => s.written p (s.buf.write p)
  | .writeByte n => s.written [n] (s.buf.writeByte n)
  | .writeString t => s.written (encode t) (s.buf.writeString t)
  | .read k =>
      { buf := (s.buf.read k).1, out := s.out ++ (s.buf.read k).2.getD [], queue := s.queue.take k }
  | .readByte =>
      { buf := s.buf.readByte.1, out := s.out ++ s.buf.readByte.2.toList, queue := s.queue.take 1 }
  | .truncate n => { s with buf := (s.buf.truncate n).1, queue := s.queue.cut n }
  | .reset => { s with buf := s.buf.reset, queue := s.queue.cut 0 }
  | .grow n => { s with buf := (s.buf.grow n).1 }
  | .readFrom r =>
      { s with buf := (s.buf.readFrom 0 r).1, queue := s.queue.append (s.buf.readFrom 0 r).2.1 }

/-- The buffer is the queue: the unread bytes, their number, whether there are any, and what was
read. -/
structure Refines (s : FifoSession) : Prop where
  bytes : s.buf.bytes = s.queue.bytes
  length : s.buf.length = s.queue.bytes.length
  empty : s.buf.empty = true ↔ s.queue.bytes = []
  out : s.out = s.queue.taken

/-- A reader ends at once, or the buffer was not read from, or it has no room for a read into it. -/
def Safe (b : RawBuffer) : Reader → Prop
  | .gives _ _ => b.off = 0 ∨ (b.capacity : Int) - b.length < minRead
  | _ => True

/-- The calls under which the buffer remains the queue. -/
def Spares (s : FifoSession) : BufferCall → Prop
  | .write p => ¬ s.buf.Overflows p.length
  | .writeByte _ => ¬ s.buf.Overflows 1
  | .writeString t => ¬ s.buf.Overflows (encode t).length
  | .readFrom r => Safe s.buf r
  | _ => True

variable {s : FifoSession}

theorem refines_iff (s : FifoSession) :
    s.Refines ↔ s.buf.Valid ∧ s.buf.bytes = s.queue.bytes ∧ s.out = s.queue.taken := by
  constructor
  · intro h
    refine ⟨?_, h.bytes, h.out⟩
    have hlen := h.length
    rw [RawBuffer.length] at hlen
    rw [RawBuffer.Valid]
    omega
  · rintro ⟨hvalid, hbytes, hout⟩
    refine ⟨hbytes, ?_, ?_, hout⟩
    · rw [← hbytes, RawBuffer.length_bytes hvalid]
    · rw [← hbytes]
      exact RawBuffer.empty_iff hvalid

theorem refines_new (ab : Bytes) : (new ab).Refines := by
  rw [refines_iff]
  refine ⟨Nat.zero_le _, ?_, rfl⟩
  show (ab.take ab.length).drop 0 = ab
  rw [List.take_length, List.drop_zero]

theorem refines_written (h : s.Refines) (p : Bytes) :
    (s.written p (s.buf.write p)).Refines ↔ ¬ s.buf.Overflows p.length := by
  have hlength := h.length
  obtain ⟨hvalid, hbytes, hout⟩ := s.refines_iff.1 h
  rcases RawBuffer.write_cases hvalid p with
    ⟨b', e, heq, hvalid', hbytes', hnot⟩ | ⟨b', heq, hvalid', hbytes', -, -, hnot⟩ |
    ⟨hover, hshort, herror⟩
  · rw [heq]
    refine iff_of_true ?_ hnot
    rw [refines_iff]
    exact ⟨hvalid', hbytes'.trans hbytes, hout⟩
  · rw [heq]
    refine iff_of_true ?_ hnot
    rw [refines_iff]
    exact ⟨hvalid', by rw [written, hbytes', hbytes]; rfl, hout⟩
  · -- the view ends at `maxSize`, before or behind what the queue has
    refine iff_of_false (fun hrefines => ?_) fun hnot => hnot hover
    have hlen : (s.buf.write p).1.length = _ := hrefines.length
    obtain ⟨-, -, -, hmax⟩ := hover
    rw [hshort, written] at hlen
    cases hresult : (s.buf.write p).2 with
    | ok n =>
        rw [hresult] at hlen
        simp only [ByteQueue.append, List.length_append] at hlen
        omega
    | error e =>
        rw [hresult] at hlen
        have hlarge := herror e hresult
        simp only at hlen
        omega

/-- **One call** keeps the buffer the queue exactly where it spares it. -/
theorem refines_step (h : s.Refines) (c : BufferCall) : (s.step c).Refines ↔ s.Spares c := by
  obtain ⟨hvalid, hbytes, hout⟩ := s.refines_iff.1 h
  cases c with
  | write p => exact refines_written h p
  | writeByte n => exact refines_written h [n]
  | writeString t => exact refines_written h (encode t)
  | read k =>
      obtain ⟨hvalid', hbytes', hread⟩ := RawBuffer.read_spec hvalid k
      refine iff_of_true ((refines_iff _).2 ⟨hvalid', ?_, ?_⟩) trivial
      · rw [step, hbytes', hbytes]
        rfl
      · rw [step, hread, hbytes, hout]
        rfl
  | readByte =>
      obtain ⟨hfst, hread⟩ := RawBuffer.readByte_spec hvalid
      obtain ⟨hvalid', hbytes', -⟩ := RawBuffer.read_spec hvalid 1
      rw [← hfst] at hvalid' hbytes'
      refine iff_of_true ((refines_iff _).2 ⟨hvalid', ?_, ?_⟩) trivial
      · rw [step, hbytes', hbytes]
        rfl
      · rw [step, hread, hbytes, hout]
        rfl
  | truncate n =>
      obtain ⟨hvalid', hbytes'⟩ := RawBuffer.truncate_spec hvalid n
      refine iff_of_true ((refines_iff _).2 ⟨hvalid', ?_, hout⟩) trivial
      rw [step, hbytes', hbytes]
      rfl
  | reset =>
      refine iff_of_true ((refines_iff _).2 ⟨Nat.le_refl _, ?_, hout⟩) trivial
      have hin : 0 ≤ (0 : Int) ∧ (0 : Int) ≤ s.queue.bytes.length :=
        ⟨Int.le_refl _, Int.natCast_nonneg _⟩
      simp only [step, ByteQueue.cut, if_pos hin]
      rw [RawBuffer.reset, RawBuffer.bytes, List.take_zero, List.drop_nil]
      rfl
  | grow n =>
      obtain ⟨hvalid', hbytes'⟩ := RawBuffer.grow_spec hvalid n
      exact iff_of_true ((refines_iff _).2 ⟨hvalid', hbytes'.trans hbytes, hout⟩) trivial
  | readFrom r =>
      -- from the start, or behind a `grow`, what is read goes behind the contents
      have hsafe : s.buf.off = 0 ∨ (s.buf.capacity : Int) - s.buf.length < minRead →
          (s.step (.readFrom r)).Refines := by
        intro hsafe
        obtain ⟨hvalid', hbytes'⟩ := RawBuffer.readFrom_spec r 0 hvalid hsafe
        rw [refines_iff]
        refine ⟨hvalid', ?_, hout⟩
        rw [step, hbytes', hbytes]
        rfl
      cases r with
      | eof =>
          refine iff_of_true ((refines_iff _).2 ⟨hvalid, ?_, hout⟩) trivial
          exact hbytes.trans (List.append_nil _).symm
      | fails e =>
          refine iff_of_true ((refines_iff _).2 ⟨hvalid, ?_, hout⟩) trivial
          exact hbytes.trans (List.append_nil _).symm
      | gives chunk next =>
          refine ⟨fun hrefines => ?_, hsafe⟩
          by_contra hnot
          obtain ⟨hoff, hroom⟩ := not_or.1 hnot
          -- otherwise it overwrites some of them
          have hloses := RawBuffer.readFrom_loses hvalid hoff hroom chunk next 0
          have hlen : (s.buf.readFrom 0 (.gives chunk next)).1.length =
              ((s.queue.bytes ++ (s.buf.readFrom 0 (.gives chunk next)).2.1).length : Nat) :=
                hrefines.length
          rw [List.length_append] at hlen
          have hlength := h.length
          omega

/-- **The buffer is a queue** all along exactly where no reader gives something to a buffer that was
read from and has room, and no write slides contents above `maxSize`. -/
theorem fifo_iff_meets (ab : Bytes) (cs : List BufferCall) :
    Always (fun s c => some (s.step c)) Refines (new ab) cs ↔
      Meets (fun s c => some (s.step c)) Spares (new ab) cs := by
  refine always_iff_meets (I := fun _ => True) (fun _ _ _ _ _ => trivial) ?_ ?_ cs trivial
    (refines_new ab)
  · rintro s c s' - hs ⟨⟩
    exact refines_step hs c
  · rintro s c ⟨⟩

/-- A read leaves the offset behind what it returned. -/
theorem read_new {ab : Bytes} {k : Nat} (hk : k < ab.length) :
    ((RawBuffer.new ab).read k).1.off = k ∧ ((RawBuffer.new ab).read k).1.capacity = ab.length ∧
      ((RawBuffer.new ab).read k).1.length = (ab.length : Int) - k := by
  have hempty : ¬ (RawBuffer.new ab).empty = true := by
    rw [RawBuffer.empty, decide_eq_true_eq]
    exact Nat.not_le_of_lt (Nat.zero_lt_of_lt hk)
  have hcopied : ((RawBuffer.new ab).bytes.take k).length = k := by
    show (((ab.take ab.length).drop 0).take k).length = k
    rw [List.take_length, List.drop_zero, List.length_take]
    omega
  have hoff : ((RawBuffer.new ab).read k).1.off = k := by
    rw [RawBuffer.read, if_neg hempty]
    show 0 + _ = k
    rw [hcopied, Nat.zero_add]
  have hbuf : ((RawBuffer.new ab).read k).1.buffer = ab ∧
      ((RawBuffer.new ab).read k).1.byteLength = ab.length := by
    rw [RawBuffer.read, if_neg hempty]
    exact ⟨rfl, rfl⟩
  refine ⟨hoff, ?_, ?_⟩
  · rw [RawBuffer.capacity, hbuf.1]
  · rw [RawBuffer.length, hoff, hbuf.2]

/-- 40000 of 65536 bytes are read, and a reader gives one byte. -/
theorem not_fifo : ¬ ∀ (ab : Bytes) (cs : List BufferCall),
    Always (fun s c => some (s.step c)) Refines (new ab) cs := by
  intro hall
  obtain ⟨ab, hlen⟩ : ∃ ab : Bytes, ab.length = 65536 :=
    ⟨List.replicate 65536 0, List.length_replicate⟩
  obtain ⟨-, hread, hgiven⟩ :=
    hall ab [.read 40000, .readFrom (.gives (fun _ => [1]) fun _ => .eof)]
  obtain ⟨hoff, hcap, hlength⟩ := read_new (show 40000 < ab.length by omega)
  have hsafe : Safe ((RawBuffer.new ab).read 40000).1 (.gives (fun _ => [1]) fun _ => .eof) :=
    (refines_step hread _).1 hgiven
  have hmin : minRead = 32768 := by decide
  rcases hsafe with hzero | hfull
  · omega
  · omega

end FifoSession

/-! ## The buffer of the parser -/

namespace DenoBuffer

/-- Room in a buffer that was never read from. -/
theorem raw_grow (b : DenoBuffer) (n : Nat) (hoff : b.off = 0) :
    b.raw.growInner n =
      match b.grow n with
      | .ok (b', m) => (b'.raw, .ok (m : Nat))
      | .error e => (b.raw, .error e) := by
  have hfits := b.fits
  have hlen : b.length = b.byteLength := by rw [length, hoff, Nat.sub_zero]
  have hlen' : b.raw.length = b.byteLength := by
    show (b.byteLength : Int) - b.off = b.byteLength
    rw [hoff, Int.ofNat_zero, Int.sub_zero]
  -- nothing was read, so there is nothing in front to recover
  have hsame : b.raw.recovered = b.raw := if_neg fun hstart => hstart.2 hoff
  have hkeep : ¬ (b.length = 0 ∧ b.off ≠ 0) := fun hstart => hstart.2 hoff
  rw [RawBuffer.growInner, hsame, grow]
  simp only [if_neg hkeep, RawBuffer.tryGrowByReslice, tryGrowByReslice]
  by_cases hroom : b.byteLength + n ≤ b.buffer.length
  · have hroom' : b.raw.byteLength + n ≤ b.raw.buffer.length := hroom
    rw [dif_pos hroom, dif_pos hroom']
    rfl
  · have hroom' : ¬ b.raw.byteLength + n ≤ b.raw.buffer.length := hroom
    -- contents that fill the buffer are not slid down
    have hslide : ¬ n + b.length ≤ b.capacity / 2 := by
      rw [capacity]
      omega
    have hslide' : ¬ (n : Int) ≤ ((b.raw.capacity / 2 : Nat) : Int) - b.raw.length := by
      show ¬ (n : Int) ≤ ((b.buffer.length / 2 : Nat) : Int) - b.raw.length
      omega
    rw [dif_neg hroom, dif_neg hroom']
    simp only [dif_neg hslide, if_neg hslide']
    by_cases hmax : b.capacity + n > maxSize
    · -- both are refused above the largest size
      have hmax' : b.raw.capacity + n > maxSize := hmax
      rw [if_pos hmax, if_pos hmax']
      rfl
    · have hmax' : ¬ b.raw.capacity + n > maxSize := hmax
      rw [if_neg hmax, if_neg hmax']
      have hcap : b.raw.capacity = b.buffer.length := rfl
      have hsize := b.raw.le_capacity_allocate (min (2 * b.raw.capacity + n) maxSize)
      rw [capacity] at hmax
      obtain ⟨b', heq, hbuffer, hoff', hlength⟩ := RawBuffer.restore_eq
        (b := b.raw.allocate (min (2 * b.raw.capacity + n) maxSize)) (m := b.raw.length) (n := n)
        (by omega) (.inl (by omega))
      rw [heq, hlen', ← hlen]
      refine congrArg (fun b' => (b', Except.ok (b.length : Int))) ?_
      refine RawBuffer.eq_of_fields (hbuffer.trans rfl) ?_ (hoff'.trans rfl)
      show b'.byteLength = min (b.length + n) (min (2 * b.capacity + n) maxSize)
      rw [capacity]
      omega

/-- **A write of the parser** is one of the buffer with all its calls. -/
theorem raw_write (b : DenoBuffer) (p : Bytes) (hoff : b.off = 0) :
    b.raw.write p =
      match b.write p with
      | .ok b' => (b'.raw, .ok p.length)
      | .error e => (b.raw, .error e) := by
  have hfits := b.fits
  have hvalid : b.raw.Valid := b.off_le
  have hnot : ¬ b.raw.Overflows p.length := by
    rintro ⟨-, hover, hhalf, -⟩
    have hlen' : b.raw.length = (b.byteLength : Int) - b.off := rfl
    have hover' : b.buffer.length < b.byteLength + p.length := hover
    have hcap : b.raw.capacity = b.buffer.length := rfl
    omega
  have hraw := raw_grow b p.length hoff
  rw [RawBuffer.write, write]
  cases hgrow : b.grow p.length with
  | error e =>
      rw [hgrow] at hraw
      rw [hraw]
  | ok r =>
      obtain ⟨b', m⟩ := r
      rw [hgrow] at hraw
      rcases RawBuffer.growInner_cases hvalid p.length with ⟨_, _, heq, -⟩ | ⟨b₁, i, heq, hgrown⟩
      · rw [hraw] at heq
        cases heq
      · rw [hraw] at heq
        cases heq
        have hroom : b'.byteLength = m + p.length := hgrown.room hnot
        have hin : 0 ≤ (m : Int) ∧ (m : Int) ≤ b'.raw.byteLength := by
          show 0 ≤ (m : Int) ∧ (m : Int) ≤ b'.byteLength
          omega
        have hcount := (RawBuffer.bytes_copyAt (p := p) hgrown.off_le hroom).2.2
        rw [hraw]
        simp only [if_pos hin, Int.toNat_natCast, hcount]
        rfl

end DenoBuffer

end NatsClient.Wire
