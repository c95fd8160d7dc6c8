import NatsClient.Wire.DenoBuffer

/-!
# The queue of byte arrays

Model of `DataBuffer` (`databuffer.ts`): a list of byte arrays with the number of their bytes.
`pack` joins the arrays into one, and `drain` cuts bytes off its front.

To a caller it is a queue of bytes (`contents`): `fill` appends (`contents_fill`), `drain` and
`shift` take from the front (`drain_contents`, `shift_contents`). So it is over all runs
(`fifo_run`).
-/

set_option autoImplicit false

namespace NatsClient.Wire

/-- A `DataBuffer`: its arrays, and the number of bytes in them. -/
structure DataBuffer where
  buffers : List Bytes
  byteLength : Nat
  length_flatten : buffers.flatten.length = byteLength

namespace DataBuffer

/-- The constructor, and what `reset()` leaves. -/
def empty : DataBuffer := ⟨[], 0, rfl⟩

/-- The bytes in the buffer, in order. -/
def contents (db : DataBuffer) : Bytes := db.buffers.flatten

/-- `size()`. -/
def size (db : DataBuffer) : Nat := db.byteLength

/-- `length()`: the number of arrays. -/
def length (db : DataBuffer) : Nat := db.buffers.length

/-- `fill(a, ...bufs)`: an empty array is pushed only in the first place. -/
def fill (db : DataBuffer) (a : Bytes) (bufs : List Bytes) : DataBuffer where
  buffers := db.buffers ++ a :: bufs.filter (· ≠ [])
  byteLength := db.byteLength + (a.length + (bufs.filter (· ≠ [])).flatten.length)
  length_flatten := by
    rw [List.flatten_append, List.flatten_cons, List.length_append, List.length_append,
      db.length_flatten]

/-- `pack()`: more than one array become one. -/
def pack (db : DataBuffer) : DataBuffer :=
  if 1 < db.buffers.length then ⟨[db.buffers.flatten], db.byteLength, by
    rw [List.flatten_singleton]
    exact db.length_flatten⟩
  else db

/-- What packing leaves is one array with all the bytes, if there was an array at all. -/
theorem buffers_pack (db : DataBuffer) :
    (db.buffers = [] ∧ db.pack.buffers = []) ∨ db.pack.buffers = [db.contents] := by
  unfold pack
  by_cases hmany : 1 < db.buffers.length
  · rw [if_pos hmany]
    exact Or.inr rfl
  · rw [if_neg hmany]
    cases hbuffers : db.buffers with
    | nil => exact Or.inl ⟨rfl, rfl⟩
    | cons v rest =>
        have hone : rest = [] := by
          rw [hbuffers, List.length_cons] at hmany
          exact List.length_eq_zero_iff.1 (by omega)
        right
        rw [contents, hbuffers, hone, List.flatten_singleton]

/-- The packed array has all the bytes. -/
theorem length_packed {db : DataBuffer} {v : Bytes} {rest : List Bytes}
    (hpack : db.pack.buffers = v :: rest) : v.length = db.byteLength := by
  rcases db.buffers_pack with ⟨-, hnil⟩ | hone
  · rw [hnil] at hpack
    cases hpack
  · rw [hone, List.cons.injEq] at hpack
    rw [← hpack.1]
    exact db.length_flatten

/-- The buffer behind `n` bytes of its packed array of `max` bytes: the rest is pushed unless it is
empty. -/
def ofRest (v : Bytes) (max n : Nat) (hv : v.length = max) : DataBuffer where
  buffers := if n < max then [v.drop n] else []
  byteLength := max - n
  length_flatten := by
    by_cases hn : n < max
    · rw [if_pos hn, List.flatten_singleton, List.length_drop, hv]
    · rw [if_neg hn, List.flatten_nil, List.length_nil]
      omega

/-- `drain(n)`, `none` being no argument: up to `n` bytes are cut off the packed array. -/
def drain (db : DataBuffer) (n : Option Nat) : Bytes × DataBuffer :=
  match hpack : db.pack.buffers with
  | [] => ([], db)
  | v :: _ =>
      let max := db.byteLength
      let n := min (n.getD max) max
      (v.take n, ofRest v max n (length_packed hpack))

/-- `shift()`: the first array leaves. -/
def shift (db : DataBuffer) : Bytes × DataBuffer :=
  match hbuffers : db.buffers with
  | [] => ([], db)
  | a :: rest => (a, ⟨rest, db.byteLength - a.length, by
      rw [← db.length_flatten, hbuffers, List.flatten_cons, List.length_append,
        Nat.add_sub_cancel_left]⟩)

/-- `peek()`: the first array of the packed buffer, which stays. -/
def peek (db : DataBuffer) : Bytes × DataBuffer :=
  match db.buffers with
  | [] => ([], db)
  | _ :: _ => (db.pack.buffers.headD [], db.pack)

/-- `reset()`. -/
def reset (_ : DataBuffer) : DataBuffer := empty

@[simp] theorem contents_empty : empty.contents = [] := rfl

theorem length_contents (db : DataBuffer) : db.contents.length = db.size := db.length_flatten

/-- **Filling appends.** -/
theorem contents_fill (db : DataBuffer) (a : Bytes) (bufs : List Bytes) :
    (db.fill a bufs).contents = db.contents ++ (a ++ bufs.flatten) := by
  have hskip : (bufs.filter (· ≠ [])).flatten = bufs.flatten := by
    induction bufs with
    | nil => rfl
    | cons b bufs ih =>
        by_cases hb : b = []
        · subst hb
          rw [List.filter_cons_of_neg (by simp), ih]
          rfl
        · rw [List.filter_cons_of_pos (by simpa using hb), List.flatten_cons, List.flatten_cons, ih]
  show (db.buffers ++ a :: bufs.filter (· ≠ [])).flatten = _
  rw [List.flatten_append, List.flatten_cons, hskip]
  rfl

theorem length_fill_ne_zero (db : DataBuffer) (a : Bytes) (bufs : List Bytes) :
    (db.fill a bufs).length ≠ 0 := by
  simp [length, fill]

/-- Packing keeps the contents. -/
theorem contents_pack (db : DataBuffer) : db.pack.contents = db.contents := by
  unfold pack
  by_cases hmany : 1 < db.buffers.length
  · rw [if_pos hmany]
    exact List.flatten_singleton
  · rw [if_neg hmany]

theorem contents_ofRest {v : Bytes} {max n : Nat} (hv : v.length = max) :
    (ofRest v max n hv).contents = v.drop n := by
  by_cases hn : n < max
  · simp only [contents, ofRest, if_pos hn, List.flatten_singleton]
  · simp only [contents, ofRest, if_neg hn, List.flatten_nil]
    exact (List.drop_eq_nil_of_le (by omega)).symm

/-- Without arrays nothing is drained; otherwise the contents are cut. -/
theorem drain_cases (db : DataBuffer) (n : Option Nat) :
    (db.buffers = [] ∧ db.drain n = ([], db)) ∨
      let k := min (n.getD db.size) db.size
      db.drain n = (db.contents.take k, ofRest db.contents db.size k db.length_contents) := by
  unfold drain
  split
  · next hnil =>
      rcases db.buffers_pack with ⟨hbuffers, -⟩ | hone
      · exact Or.inl ⟨hbuffers, rfl⟩
      · rw [hone] at hnil
        cases hnil
  · next v rest hpack =>
      rcases db.buffers_pack with ⟨-, hnil⟩ | hone
      · rw [hnil] at hpack
        cases hpack
      · rw [hone, List.cons.injEq] at hpack
        obtain ⟨rfl, -⟩ := hpack
        exact Or.inr rfl

/-- Draining cuts the first bytes off the contents. -/
theorem drain_eq (db : DataBuffer) (n : Option Nat) :
    (db.drain n).1 = db.contents.take (n.getD db.size) ∧
      (db.drain n).2.contents = db.contents.drop (n.getD db.size) := by
  have hlength := db.length_contents
  rcases db.drain_cases n with ⟨hnil, hdrain⟩ | hdrain
  · have hcontents : db.contents = [] := by
      rw [contents, hnil, List.flatten_nil]
    rw [hdrain, hcontents, List.take_nil, List.drop_nil]
    exact ⟨rfl, rfl⟩
  · rw [hdrain, contents_ofRest]
    by_cases hle : n.getD db.size ≤ db.size
    · rw [Nat.min_eq_left hle]
      exact ⟨rfl, rfl⟩
    · have hge : db.size ≤ n.getD db.size := Nat.le_of_not_le hle
      rw [Nat.min_eq_right hge, List.take_of_length_le (by omega),
        List.take_of_length_le (by omega),
        List.drop_eq_nil_of_le (by omega), List.drop_eq_nil_of_le (by omega)]
      exact ⟨rfl, rfl⟩

/-- **Draining takes from the front.** -/
theorem drain_contents (db : DataBuffer) (n : Option Nat) :
    (db.drain n).1 ++ (db.drain n).2.contents = db.contents := by
  rw [(db.drain_eq n).1, (db.drain_eq n).2, List.take_append_drop]

/-- Draining without an argument takes all, and leaves no array. -/
theorem drain_all (db : DataBuffer) :
    (db.drain none).1 = db.contents ∧ (db.drain none).2.length = 0 := by
  have hsize : (none : Option Nat).getD db.size = db.contents.length := db.length_contents.symm
  refine ⟨?_, ?_⟩
  · rw [(db.drain_eq none).1, hsize, List.take_length]
  · rcases db.drain_cases none with ⟨hnil, hdrain⟩ | hdrain
    · rw [hdrain]
      exact List.length_eq_zero_iff.2 hnil
    · rw [hdrain, Option.getD_none, Nat.min_self]
      simp only [length, ofRest, if_neg (Nat.lt_irrefl _), List.length_nil]

/-- Shifting takes the first array. -/
theorem shift_contents (db : DataBuffer) : (db.shift).1 ++ (db.shift).2.contents = db.contents := by
  unfold shift
  split
  · rfl
  · next a rest hbuffers =>
      show a ++ rest.flatten = db.contents
      rw [contents, hbuffers, List.flatten_cons]

/-- Peeking shows all the bytes and keeps them. -/
theorem peek_contents (db : DataBuffer) :
    (db.peek).1 = db.contents ∧ (db.peek).2.contents = db.contents := by
  unfold peek
  split
  · next hnil => exact ⟨by rw [contents, hnil, List.flatten_nil], rfl⟩
  · next a rest hbuffers =>
      refine ⟨?_, db.contents_pack⟩
      rcases db.buffers_pack with ⟨hnil, -⟩ | hone
      · rw [hbuffers] at hnil
        cases hnil
      · rw [hone]
        rfl

/-! ## Runs -/

/-- The calls. -/
inductive Call where
  | fill (a : Bytes) (bufs : List Bytes)
  | pack
  | peek
  | shift
  | drain (n : Option Nat)
  | reset
deriving DecidableEq, Repr

/-- A buffer with the bytes that were filled into it and those that `shift` and `drain` returned,
since it was reset. -/
structure Traced where
  db : DataBuffer
  filled : Bytes
  returned : Bytes

namespace Traced

/-- The constructor. -/
def new : Traced := ⟨empty, [], []⟩

/-- A call. -/
def call (t : Traced) : Call → Traced
  | .fill a bufs => { t with db := t.db.fill a bufs, filled := t.filled ++ (a ++ bufs.flatten) }
  | .pack => { t with db := t.db.pack }
  | .peek => { t with db := t.db.peek.2 }
  | .shift => { t with db := t.db.shift.2, returned := t.returned ++ t.db.shift.1 }
  | .drain n => { t with db := (t.db.drain n).2, returned := t.returned ++ (t.db.drain n).1 }
  | .reset => ⟨t.db.reset, [], []⟩

/-- **A call** keeps the bytes in order. -/
theorem filled_call (t : Traced) (c : Call) (h : t.returned ++ t.db.contents = t.filled) :
    (t.call c).returned ++ (t.call c).db.contents = (t.call c).filled := by
  cases c with
  | fill a bufs =>
      show t.returned ++ (t.db.fill a bufs).contents = t.filled ++ (a ++ bufs.flatten)
      rw [contents_fill, ← List.append_assoc, h]
  | pack =>
      show t.returned ++ t.db.pack.contents = t.filled
      rw [contents_pack, h]
  | peek =>
      show t.returned ++ t.db.peek.2.contents = t.filled
      rw [t.db.peek_contents.2, h]
  | shift =>
      show t.returned ++ t.db.shift.1 ++ t.db.shift.2.contents = t.filled
      rw [List.append_assoc, shift_contents, h]
  | drain n =>
      show t.returned ++ (t.db.drain n).1 ++ (t.db.drain n).2.contents = t.filled
      rw [List.append_assoc, drain_contents, h]
  | reset => rfl

theorem filled_run (t : Traced) (cs : List Call) (h : t.returned ++ t.db.contents = t.filled) :
    (cs.foldl call t).returned ++ (cs.foldl call t).db.contents = (cs.foldl call t).filled := by
  induction cs generalizing t with
  | nil => exact h
  | cons c cs ih => exact ih (t.call c) (t.filled_call c h)

/-- **First in, first out**: behind any calls the number of bytes is right, the bytes returned since
the last reset and those in the buffer are the ones filled, in order, and `drain` returns as many
bytes as it is asked for, or all. -/
theorem fifo_run (cs : List Call) :
    let t := cs.foldl call new
    t.db.byteLength = (t.db.buffers.map List.length).sum ∧ t.returned ++ t.db.contents = t.filled ∧
      ∀ n, (t.db.drain n).1.length = min (n.getD t.db.size) t.db.size := by
  intro t
  refine ⟨?_, filled_run new cs rfl, fun n => ?_⟩
  · rw [← t.db.length_flatten, List.length_flatten]
  · rw [(t.db.drain_eq n).1, List.length_take, t.db.length_contents]

end Traced

end DataBuffer

end NatsClient.Wire
