import Mathlib.Algebra.Ring.Int.Defs
import NatsClient.Foundation.Run
import NatsClient.Wire.HeaderStore

/-!
# Header blocks

What becomes of headers that are written and read again, with the entry points that make them:
`headers` with a status, and `fromRecord`.

* `block_round_trip`: headers that were built by calls are read back as they were, and can be
  compared unless a key has more values than a call takes;
* `uninjected_iff`: a block has just the lines of its headers exactly if the texts in them are fit
  for lines. `set` and `append` see to that; `headers` does not look at the description, and
  `fromRecord` looks at nothing.
-/

set_option autoImplicit false

namespace NatsClient.Wire

open NatsClient.Foundation

/-- `headers(code, description)`, with the text of the error it throws. -/
def headers (code : Int) (description : String) : Except String MsgHdrs :=
  if (code = 0 ∧ description ≠ "") ∨ (0 < code ∧ description = "") then
    .error "setting status requires both code and description"
  else .ok ⟨code, description, .empty⟩

namespace MsgHdrs

/-- `fromRecord(r)`, for the entries of the record. -/
def fromRecord (r : List (String × List String)) : MsgHdrs :=
  { new with headers := r.foldl (fun hs e => hs.set e.1 e.2) .empty }

/-! ## The status line -/

/-- A status that the headers may have. -/
def ValidStatus (code : Int) (description : String) : Prop :=
  code = 0 ∨ 0 < code ∧ code < 2 ^ 53 ∧ description ≠ "" ∧
    trim description.toList = description.toList ∧ ¬ Breaks description.toList

section

variable {cs xs ys : List Char} {p : List Char}

/-- The first character of a trimmed text is no space, and neither is the last. -/
theorem not_isSpace_of_trim (h : trim cs = cs) :
    (∀ c ∈ cs.head?, isSpace c = false) ∧ ∀ c ∈ cs.getLast?, isSpace c = false := by
  have hfront : cs.dropWhile isSpace = cs := by
    have hle := (List.rdropWhile_prefix isSpace (cs.dropWhile isSpace)).length_le
    rw [show (cs.dropWhile isSpace).rdropWhile isSpace = cs from h] at hle
    exact (List.dropWhile_suffix isSpace).eq_of_length_le hle
  constructor
  · intro c hc
    cases cs with
    | nil => cases hc
    | cons d cs =>
        obtain rfl : d = c := Option.some.inj hc
        have hfirst := List.dropWhile_eq_self_iff.1 hfront (Nat.succ_pos _)
        exact Bool.eq_false_iff.2 hfirst
  · intro c hc
    rw [trim, hfront] at h
    have hne : cs ≠ [] := by
      rintro rfl
      cases hc
    have hlast := List.rdropWhile_eq_self_iff.1 h hne
    rw [List.getLast?_eq_getLast_of_ne_nil hne] at hc
    exact Option.some.inj hc ▸ Bool.eq_false_iff.2 hlast

theorem trim_space_cons (cs : List Char) : trim (' ' :: cs) = trim cs := by
  rw [trim, List.dropWhile_cons_of_pos (by decide), trim]

/-- What is in front is what is removed. -/
theorem removeFirst_append (hne : p ≠ []) (cs : List Char) : removeFirst p (p ++ cs) = cs := by
  cases p with
  | nil => exact absurd rfl hne
  | cons c p =>
      have hprefix : (c :: p).isPrefixOf (c :: (p ++ cs)) = true :=
        List.isPrefixOf_iff_prefix.2 (List.prefix_append (c :: p) cs)
      rw [List.cons_append, removeFirst, if_pos hprefix]
      exact List.drop_left

/-- A number is printed in digits. -/
theorem numberText_natCast {n : Nat} (h : n < 2 ^ 53) : numberText n = Nat.toDigits 10 n := by
  rw [numberText, if_neg (by omega), Int.natAbs_natCast, f64Text_of_lt h]

/-- The digits in front of a text are read. -/
theorem readInt_digits (n : Nat) {rest : List Char} (hrest : rest.takeWhile Char.isDigit = []) :
    readInt (Nat.toDigits 10 n ++ rest) = some (n : Int) := by
  have hdigits : ∀ c ∈ Nat.toDigits 10 n, c.isDigit = true := fun c hc =>
    Nat.isDigit_of_mem_toDigits (by decide) (by decide) hc
  have htake : (Nat.toDigits 10 n ++ rest).takeWhile Char.isDigit = Nat.toDigits 10 n := by
    rw [List.takeWhile_append_of_pos hdigits, hrest, List.append_nil]
  have hne : Nat.toDigits 10 n ≠ [] := Nat.toDigits_ne_nil
  have hread : (if Nat.toDigits 10 n = [] then none
      else some (1 * ((Nat.ofDigitChars 10 (Nat.toDigits 10 n) 0 : Nat) : Int))) = some
      (n : Int) := by
    rw [if_neg hne, Nat.ofDigitChars_ten_toDigits, Int.one_mul]
  rw [← htake] at hread
  -- no sign is in front of it
  obtain ⟨d, ds, hcons⟩ := List.exists_cons_of_ne_nil hne
  have hd : d.isDigit = true := hdigits d (hcons ▸ List.mem_cons_self)
  have hspace : ¬ isSpace d = true := by
    rw [isSpace_of_isDigit hd]
    exact Bool.false_ne_true
  rw [hcons, List.cons_append] at hread ⊢
  rw [readInt, List.dropWhile_cons_of_neg hspace]
  dsimp only
  split
  · next heq =>
      obtain ⟨rfl, -⟩ := List.cons.inj heq
      exact absurd hd (by decide)
  · next heq =>
      obtain ⟨rfl, -⟩ := List.cons.inj heq
      exact absurd hd (by decide)
  · exact hread

/-- The number in front of a text is read. -/
theorem parseInt_digits {n : Nat} (h : n < 2 ^ 53) (rest : List Char) :
    parseInt (Nat.toDigits 10 n ++ ' ' :: rest) = some (n : Int) := by
  have hvalue : (n : Int).sign * (n : Int).natAbs = n := Int.sign_mul_natAbs n
  rw [Int.natAbs_natCast] at hvalue
  rw [parseInt, readInt_digits n (List.takeWhile_cons_of_neg (by decide)), Option.map_some,
    Int.natAbs_natCast, f64_of_le h.le, hvalue]

/-- **The status line is read as the status.** -/
theorem statusOf_statusLine {h : MsgHdrs} (hpos : 0 < h.code) (hlt : h.code < 2 ^ 53)
    (hne : h.description ≠ "") (htrim : trim h.description.toList = h.description.toList) :
    statusOf h.statusLine = (h.code, h.description) := by
  obtain ⟨n, hn⟩ := Int.eq_ofNat_of_zero_le hpos.le
  have hbound : n < 2 ^ 53 := by omega
  have hdigits : numberText h.code = Nat.toDigits 10 n := by rw [hn, numberText_natCast hbound]
  have hline : h.statusLine = header ++ ' ' ::
      (Nat.toDigits 10 n ++ ' ' :: h.description.toList) := by
    rw [statusLine, if_pos ⟨hpos, hne⟩, hdigits]
  have hlist : h.description.toList ≠ [] := fun hnil => hne (String.toList_eq_nil_iff.1 hnil)
  obtain ⟨hfirst, hlast⟩ := not_isSpace_of_trim htrim
  -- behind the header, the text is trimmed: its ends are a digit and the end of the description
  have hstr : trim (removeFirst header h.statusLine) = Nat.toDigits 10 n ++ ' ' ::
      h.description.toList := by
    rw [hline, removeFirst_append (by decide), trim_space_cons]
    obtain ⟨d, ds, hcons⟩ := List.exists_cons_of_ne_nil (@Nat.toDigits_ne_nil n 10)
    apply trim_of_not_isSpace
    · intro c hc
      rw [hcons] at hc
      obtain rfl : d = c := Option.some.inj hc
      exact isSpace_of_isDigit
        (Nat.isDigit_of_mem_toDigits (by decide) (by decide) (hcons ▸ List.mem_cons_self))
    · intro c hc
      apply hlast c
      rw [List.getLast?_append_of_ne_nil _ (List.cons_ne_nil _ _), List.getLast?_cons] at hc
      rw [List.getLast?_eq_getLast_of_ne_nil hlist] at hc ⊢
      exact hc
  have hplain : h.statusLine ≠ header := by
    intro heq
    rw [hline] at heq
    have hlength := congrArg List.length heq
    rw [List.length_append, List.length_cons] at hlength
    omega
  have hstrne : Nat.toDigits 10 n ++ ' ' :: h.description.toList ≠ [] := by simp
  rw [statusOf, if_neg hplain, decodeStatus, hstr]
  dsimp only
  rw [if_neg hstrne, parseInt_digits hbound, Option.getD_some, ← hn, hdigits,
    removeFirst_append Nat.toDigits_ne_nil, trim_space_cons, htrim, String.ofList_toList]

/-- A number is printed in one line. -/
theorem not_mem_numberText (n : Int) : '\r' ∉ numberText n := by
  have hdigits : ∀ m, '\r' ∉ Nat.toDigits 10 m := by
    intro m hmem
    have hdigit : '\r'.isDigit = true := Nat.isDigit_of_mem_toDigits (by decide) (by decide) hmem
    exact absurd hdigit (by decide)
  have htext : '\r' ∉ f64Text n.natAbs := by
    unfold f64Text
    dsimp only
    split
    · exact hdigits _
    · intro hmem
      rcases List.mem_append.1 hmem with hmem | hmem
      · rcases List.mem_append.1 hmem with hmem | hmem
        · exact hdigits _ (List.mem_of_mem_take (List.mem_of_mem_take hmem))
        · split at hmem
          · cases hmem
          · rcases List.mem_cons.1 hmem with heq | hmem
            · exact absurd heq (by decide)
            · exact hdigits _ (List.mem_of_mem_take (List.mem_of_mem_drop hmem))
      · simp only [List.mem_cons, Char.reduceEq, false_or] at hmem
        exact hdigits _ hmem
  rw [numberText]
  split
  · intro hmem
    rcases List.mem_cons.1 hmem with heq | hmem
    · exact absurd heq (by decide)
    · exact htext hmem
  · exact htext

/-- A line break is not in front of the place where a carriage return may be. -/
theorem breaks_append_iff (hxs : '\r' ∉ xs) : Breaks (xs ++ ys) ↔ Breaks ys := by
  induction xs with
  | nil => exact Iff.rfl
  | cons x xs ih =>
      rw [List.mem_cons, not_or] at hxs
      have hfirst : ¬ ['\r', '\n'] <+: x :: (xs ++ ys) := by
        rw [List.cons_prefix_cons]
        exact fun hprefix => hxs.1 hprefix.1
      rw [List.cons_append, Breaks, List.infix_cons_iff, or_iff_right hfirst]
      exact ih hxs.2

/-- A line break in the status line is one in the description. -/
theorem breaks_statusLine_iff (h : MsgHdrs) :
    Breaks h.statusLine ↔ 0 < h.code ∧ Breaks h.description.toList := by
  have hheader : '\r' ∉ header := by decide
  have hempty : ¬ Breaks [] := not_breaks_of_not_mem List.not_mem_nil
  unfold statusLine
  split
  · next hboth =>
      have hsplit : header ++ ' ' :: (numberText h.code ++ ' ' :: h.description.toList) =
          (header ++ ' ' :: (numberText h.code ++ [' '])) ++ h.description.toList := by
        simp only [List.append_assoc, List.cons_append, List.nil_append]
      rw [hsplit, breaks_append_iff, and_iff_right hboth.1]
      have hnumber := not_mem_numberText h.code
      simp [hheader, hnumber]
  · next hnot =>
      refine iff_of_false (not_breaks_of_not_mem hheader) fun hboth => hnot ⟨hboth.1, ?_⟩
      rintro hdescription
      rw [hdescription] at hboth
      exact hempty hboth.2

end

/-! ## The round trip -/

section

variable [Engine]

/-- A call that is accepted. -/
def accepted (h : MsgHdrs) (e : Edit) : Option MsgHdrs :=
  match h.edit e with
  | (h', none) => some h'
  | (_, some _) => none

/-- The bytes of headers are read as the same keys and values in the same order, with the status, in
headers that are equal in both directions and are written as the same bytes. -/
def RoundTrip (h : MsgHdrs) : Prop :=
  ∃ d, decode h.encode = .ok d ∧ d.headers.entries = h.headers.entries ∧ d.code = h.code ∧
    d.description = h.description ∧ h.equals d = .ok true ∧ d.equals h = .ok true ∧
    d.encode = h.encode

variable {h h' : MsgHdrs} {e : Edit}

theorem status_edit (h : MsgHdrs) (e : Edit) :
    (h.edit e).1.code = h.code ∧ (h.edit e).1.description = h.description := by
  cases e with
  | set k v m => exact h.status_set k v m
  | append k v m => exact h.status_append k v m
  | delete k m => exact h.status_delete k m

theorem status_edits (h : MsgHdrs) (es : List Edit) :
    (h.edits es).code = h.code ∧ (h.edits es).description = h.description := by
  induction es generalizing h with
  | nil => exact ⟨rfl, rfl⟩
  | cons e es ih =>
      obtain ⟨hcode, hdescription⟩ := ih (h.edit e).1
      exact ⟨hcode.trans (h.status_edit e).1, hdescription.trans (h.status_edit e).2⟩

theorem edit_of_accepted (haccepted : h.accepted e = some h') : h' = (h.edit e).1 := by
  unfold accepted at haccepted
  split at haccepted
  · next heq =>
      rw [heq]
      exact (Option.some.inj haccepted).symm
  · cases haccepted

/-- What was built is read back as it was. -/
theorem decode_built {code : Int} {description : String} {h₀ : MsgHdrs} {es : List Edit}
    (hstatus : ValidStatus code description) (hnew : Wire.headers code description = .ok h₀)
    (hrun : run accepted h₀ es = some h) : decode h.encode = .ok h := by
  unfold Wire.headers at hnew
  split at hnew
  · cases hnew
  next hpair =>
  cases hnew
  have hinv : h.Fit ∧ h.code = code ∧ h.description = description := by
    refine invariant_run (I := fun h => h.Fit ∧ h.code = code ∧ h.description = description)
      ?_ hrun ⟨fit_empty code description, rfl, rfl⟩
    rintro h e h' ⟨hfit, hcode, hdescription⟩ hstep
    rw [edit_of_accepted hstep]
    exact ⟨hfit.edit e, (h.status_edit e).1.trans hcode, (h.status_edit e).2.trans hdescription⟩
  obtain ⟨hfit, rfl, rfl⟩ := hinv
  have hnone : h.code = 0 → h.description = "" := fun hzero =>
    Classical.byContradiction fun hne => hpair (.inl ⟨hzero, hne⟩)
  by_cases hempty : h.size = 0 ∧ h.code = 0
  · -- headers without keys and without a status are written as nothing
    have hentries : h.headers.entries = [] := List.length_eq_zero_iff.1 hempty.1
    have hsame : h = new := by
      obtain ⟨code, description, headers⟩ := h
      obtain rfl : headers = .empty := OrderedMap.eq_of_entries hentries
      obtain rfl : code = 0 := hempty.2
      obtain rfl : description = "" := hnone rfl
      rfl
    rw [hsame]
    rfl
  · rcases hstatus with hzero | ⟨hpos, hlt, hne, htrim, hbreaks⟩
    · have hline : h.statusLine = header := by
        rw [statusLine, if_neg]
        omega
      refine decode_encode_of_status hfit hempty ?_ ?_
      · rw [hline]
        exact not_breaks_of_not_mem (by decide)
      · rw [hline, statusOf, if_pos rfl, hzero, hnone hzero]
    · refine decode_encode_of_status hfit hempty ?_ (statusOf_statusLine hpos hlt hne htrim)
      rw [breaks_statusLine_iff]
      exact fun hboth => hbreaks hboth.2

/-- Headers that are read back as they were make the round trip if they can be compared. -/
theorem roundTrip_iff (hread : decode h.encode = .ok h) :
    h.RoundTrip ↔ ∀ e ∈ h.headers.entries, Listed e := by
  rw [← equals_self_iff]
  constructor
  · rintro ⟨d, hd, -, -, -, hequals, -, -⟩
    obtain rfl : h = d := Except.ok.inj (hread.symm.trans hd)
    exact hequals
  · exact fun hequals => ⟨h, hread, rfl, rfl, rfl, hequals, hequals, rfl⟩

/-- **What was built is read back**, with its keys and values in their order and the status, and the
two are equal exactly if no key has more values than a call takes. -/
theorem block_round_trip {code : Int} {description : String} {h₀ : MsgHdrs} {es : List Edit}
    (hstatus : ValidStatus code description) (hnew : Wire.headers code description = .ok h₀)
    (hrun : run accepted h₀ es = some h) :
    h.RoundTrip ↔ ∀ e ∈ h.headers.entries, Listed e :=
  roundTrip_iff (decode_built hstatus hnew hrun)

end

/-- Keys with colons in their values, a repeated key, and a status that has its code in its text. -/
theorem block_round_trip_status :
    letI : Engine := .common
    ∃ h₀ h, Wire.headers 503 "No 503 Responders" = .ok h₀ ∧
      run accepted h₀ [.set "x-id" " a: b " .exact, .append "X-ID" "" .ignoreCase,
        .set "y" "1" .canonicalMIME] = some h ∧
      h.RoundTrip := by
  let _ : Engine := .common
  have hstatus : ValidStatus 503 "No 503 Responders" :=
    .inr ⟨by decide, by decide, by decide, by decide, not_breaks_of_not_mem (by decide)⟩
  let es : List Edit := [.set "x-id" " a: b " .exact, .append "X-ID" "" .ignoreCase,
    .set "y" "1" .canonicalMIME]
  obtain ⟨h, hrun, hfew⟩ :=
    (Option.any_eq_true (fun h : MsgHdrs => h.headers.entries.all (·.2.length ≤ 3))
    (run accepted ⟨503, "No 503 Responders", .empty⟩ es)).1 (by decide)
  refine ⟨_, h, rfl, hrun, (block_round_trip hstatus rfl hrun).2 fun e he => ?_⟩
  have hle := of_decide_eq_true (List.all_eq_true.1 hfew e he)
  exact length_le_of_enough (hle.trans (by decide))

/-- Values that were appended. -/
theorem run_manyValues [Engine] (n : Nat) :
    run accepted new (List.replicate (n + 1) (.append "k" "v" .exact)) = some
      (manyValues (n + 1)) := by
  have hfirst : accepted new (.append "k" "v" .exact) = some (manyValues 1) := by
    rw [accepted, edit, append_new]
  have hrest : ∀ m n, run accepted (manyValues m) (List.replicate n (.append "k" "v" .exact)) =
      some (manyValues (m + n)) := by
    intro m n
    induction n generalizing m with
    | zero => rfl
    | succ n ih =>
        have hstep : accepted (manyValues m) (.append "k" "v" .exact) = some
            (manyValues (m + 1)) := by
          rw [accepted, edit, append_manyValues]
        rw [List.replicate_succ, run_cons hstep (ih (m + 1)), Nat.add_right_comm, Nat.add_assoc]
  rw [List.replicate_succ, run_cons hfirst (hrest 1 n), Nat.add_comm]

/-- Headers with more values of a key than a call takes cannot be compared. -/
theorem not_block_round_trip :
    letI : Engine := .common
    ¬ ∀ (code : Int) (description : String) (h₀ h : MsgHdrs) (es : List Edit),
      ValidStatus code description → Wire.headers code description = .ok h₀ →
      run accepted h₀ es = some h → h.RoundTrip := by
  let _ : Engine := .common
  intro hall
  have hstatus : ValidStatus 0 "" := .inl rfl
  have hrun := run_manyValues 199999
  have htrip := hall 0 "" _ _ _ hstatus rfl hrun
  rw [roundTrip_iff (decode_built hstatus rfl hrun)] at htrip
  exact not_listed_manyValues (by decide) htrip

/-! ## Lines that no argument makes -/

section

variable [Engine]

/-- What the entry points give, with the calls of `set` and `append` that are accepted. -/
inductive Obtainable : MsgHdrs → Prop
  | headers {code : Int} {description : String} {h : MsgHdrs}
      (hnew : Wire.headers code description = .ok h) :
      Obtainable h
  | fromRecord (r : List (String × List String)) : Obtainable (fromRecord r)
  | set {h h' : MsgHdrs} {k v : String} {m : Match} (hh : Obtainable h)
      (hset : h.set k v m = (h', none)) :
      Obtainable h'
  | append {h h' : MsgHdrs} {k v : String} {m : Match} (hh : Obtainable h)
      (happend : h.append k v m = (h', none)) : Obtainable h'

/-- The block is the lines of the headers with one blank line at its end, and they are read with the
same keys. Headers with no key and no status are written as no block at all. -/
structure Uninjected (h : MsgHdrs) : Prop where
  blank : h.text ≠ "" → ∃ ls, [] ∉ ls ∧ splitLines h.text.toList = ls ++ [[], []]
  lines : h.text ≠ "" → splitLines h.text.toList = h.statusLine :: h.lines ++ [[], []]
  keys : ∃ d, decode h.encode = .ok d ∧ ∀ k, k ∈ d.headers.keys ↔ k ∈ h.headers.keys

/-- The texts are fit for lines: no line break in the description of a status, characters of a key
in the keys and not too many of them, values under each, no line break in the values and neither
half of one inside. -/
structure Sealed (h : MsgHdrs) : Prop where
  status : 0 < h.code → ¬ Breaks h.description.toList
  key : ∀ e ∈ h.headers.entries, FitKey e.1 ∧ e.2 ≠ []
  value : ∀ e ∈ h.headers.entries, ∀ v ∈ e.2,
    ¬ Breaks v.toList ∧ '\r' ∉ trim v.toList ∧ '\n' ∉ trim v.toList

end

section

variable {h mh mh' : MsgHdrs} {k v : String} {cs s : List Char} {ls : List (List Char)}

/-- A text with a line break has two lines. -/
theorem not_breaks_of_length (hlength : (splitLines cs).length ≤ 1) : ¬ Breaks cs := by
  rintro ⟨xs, ys, rfl⟩
  have hsplit : splitLines (xs ++ ['\r', '\n'] ++ ys) = splitLines xs ++ splitLines ys := by
    rw [List.append_assoc]
    exact splitLines_append xs ys
  have hxs := List.length_pos_of_ne_nil (splitLines_ne_nil xs)
  have hys := List.length_pos_of_ne_nil (splitLines_ne_nil ys)
  rw [hsplit, List.length_append] at hlength
  omega

/-- Lines are not fewer when they are split again, and they are as many only if none of them
breaks. -/
theorem length_flatMap_splitLines (ls : List (List Char)) :
    ls.length ≤ (ls.flatMap splitLines).length ∧
      ((ls.flatMap splitLines).length ≤ ls.length → ∀ l ∈ ls, ¬ Breaks l) := by
  induction ls with
  | nil => exact ⟨Nat.le_refl 0, fun _ l hl => absurd hl List.not_mem_nil⟩
  | cons l ls ih =>
      have hl := List.length_pos_of_ne_nil (splitLines_ne_nil l)
      rw [List.flatMap_cons, List.length_append, List.length_cons]
      refine ⟨by omega, fun hle => List.forall_mem_cons.2 ⟨not_breaks_of_length (by omega), ?_⟩⟩
      exact ih.2 (by omega)

theorem text_eq_empty_iff (h : MsgHdrs) : h.text = "" ↔ h.size = 0 ∧ h.code = 0 := by
  refine ⟨fun hempty => ?_, fun hnone => by rw [text, if_pos hnone]⟩
  by_contra hnot
  have htext := toList_text hnot
  rw [hempty] at htext
  simp at htext

theorem mem_lines : s ∈ h.lines ↔ ∃ e ∈ h.headers.entries, ∃ v ∈ e.2, s = line e.1 v := by
  simp only [lines, List.mem_flatMap, List.mem_map, line, eq_comm]

/-- A value is written in one line exactly if it has no line break. -/
theorem breaks_of_breaks_value (k : String) (hv : Breaks v.toList) : Breaks (line k v) :=
  hv.trans
    ((List.suffix_cons ' ' _).trans
      ((List.suffix_cons ':' _).trans (List.suffix_append _ _))).isInfix

/-- The lines are the lines of the headers only if none of them breaks. -/
theorem not_breaks_of_lines (hne : ¬ (h.size = 0 ∧ h.code = 0))
    (hlines : splitLines h.text.toList = h.statusLine :: h.lines ++ [[], []]) :
    ¬ Breaks h.statusLine ∧ ∀ l ∈ h.lines, ¬ Breaks l := by
  rw [toList_text hne, splitLines_block] at hlines
  have hsum := congrArg List.length hlines
  have hall := length_flatMap_splitLines (h.statusLine :: h.lines)
  rw [List.flatMap_cons] at hall
  simp only [List.length_append, List.length_cons] at hsum hall
  exact List.forall_mem_cons.1 (hall.2 (by omega))

variable [Engine]

/-- **What a line does that is read**: nothing without a colon, and else an append. -/
theorem decodeLine_cases (hs : decodeLine mh s = .ok mh') :
    (':' ∉ s ∧ mh' = mh) ∨ ':' ∈ s ∧
      mh.append (String.ofList (s.takeWhile (· ≠ ':')))
        (String.ofList (trim (s.drop ((s.takeWhile (· ≠ ':')).length + 1)))) .exact =
        (mh', none) := by
  rw [decodeLine] at hs
  split at hs
  · next hcolon =>
      dsimp only at hs
      split at hs
      · next heq =>
          cases hs
          exact .inr ⟨hcolon, heq⟩
      · cases hs
  · next hcolon =>
      cases hs
      exact .inl ⟨hcolon, rfl⟩

/-- An append under the key itself. -/
theorem append_exact (happend : mh.append k v .exact = (mh', none)) :
    FitKey k ∧ ('\r' ∉ v.toList ∧ '\n' ∉ v.toList) ∧
      mh'.headers = mh.headers.set k ((mh.headers.get k).getD [] ++ [stored v]) := by
  obtain ⟨hk, hv⟩ : FitKey k ∧ '\r' ∉ v.toList ∧ '\n' ∉ v.toList := by
    by_contra hinvalid
    refine (append_throws_iff mh k v .exact).2 hinvalid ?_
    rw [happend]
  have hself : (mh.headers.keys.filter (found k .exact)).head?.getD (ownKey k .exact) = k := by
    cases hhead : (mh.headers.keys.filter (found k .exact)).head? with
    | none => rfl
    | some k' => simpa [found] using List.of_mem_filter (List.mem_of_head? hhead)
  have heq := append_eq hk (validHeaderValue_eq hv) mh .exact
  dsimp only at heq
  rw [hself, happend] at heq
  refine ⟨hk, hv, ?_⟩
  rw [(Prod.mk.inj heq).1]

/-- The lines that are read are fit, and the keys in them are added. -/
theorem decodeLines_keys (hls : decodeLines mh ls = .ok mh') :
    (∀ k, k ∈ mh'.headers.keys ↔
      k ∈ mh.headers.keys ∨ ∃ s ∈ ls, ':' ∈ s ∧ k = String.ofList (s.takeWhile (· ≠ ':'))) ∧
    ∀ s ∈ ls, ':' ∈ s → FitKey (String.ofList (s.takeWhile (· ≠ ':'))) ∧
      '\r' ∉ trim (s.drop ((s.takeWhile (· ≠ ':')).length + 1)) ∧
      '\n' ∉ trim (s.drop ((s.takeWhile (· ≠ ':')).length + 1)) := by
  induction ls generalizing mh with
  | nil =>
      cases hls
      simp
  | cons s ls ih =>
      rw [decodeLines] at hls
      split at hls
      · next mh₁ hs =>
          obtain ⟨hkeys, hfit⟩ := ih hls
          rcases decodeLine_cases hs with ⟨hcolon, rfl⟩ | ⟨hcolon, happend⟩
          · refine ⟨fun k => ?_, List.forall_mem_cons.2 ⟨fun h => absurd h hcolon, hfit⟩⟩
            rw [hkeys k]
            simp [hcolon]
          · obtain ⟨hk, hv, hheaders⟩ := append_exact happend
            rw [String.toList_ofList] at hv
            refine ⟨fun k => ?_, List.forall_mem_cons.2 ⟨fun _ => ⟨hk, hv⟩, hfit⟩⟩
            rw [hkeys k, hheaders, OrderedMap.mem_keys_set]
            simp only [List.mem_cons, exists_eq_or_imp, hcolon, true_and]
            tauto
      · cases hls

/-- The lines of sealed headers are read as if the values had been trimmed. -/
theorem decodeLines_trimmed (mh : MsgHdrs) {es : List (String × List String)}
    (hkeys : ∀ e ∈ es, ValidKey e.1) :
    decodeLines mh (es.flatMap entryLines) =
      decodeLines mh ((es.map fun e => (e.1, e.2.map stored)).flatMap entryLines) := by
  have hline : ∀ (mh : MsgHdrs) (k v : String), ValidKey k →
      decodeLine mh (line k v) = decodeLine mh (line k (stored v)) := by
    intro mh k v hk
    simp only [decodeLine, if_pos (colon_mem_line k _), takeWhile_line hk, drop_line,
      trim_space_cons, stored, String.toList_ofList, trim_trim]
  have hentry : ∀ (mh : MsgHdrs) (k : String) (vs : List String) (ls ls' : List (List Char)),
      ValidKey k → (∀ mh, decodeLines mh ls = decodeLines mh ls') →
      decodeLines mh (vs.map (line k) ++ ls) = decodeLines mh
      ((vs.map stored).map (line k) ++ ls') := by
    intro mh k vs ls ls' hk hrest
    induction vs generalizing mh with
    | nil => exact hrest mh
    | cons v vs ih =>
        simp only [List.map_cons, List.cons_append, decodeLines, ← hline mh k v hk]
        cases decodeLine mh (line k v) with
        | ok mh₁ => exact ih mh₁
        | error e => rfl
  induction es generalizing mh with
  | nil => rfl
  | cons e es ih =>
      obtain ⟨hk, hks⟩ := List.forall_mem_cons.1 hkeys
      rw [List.map_cons, List.flatMap_cons, List.flatMap_cons]
      exact hentry mh e.1 e.2 _ _ hk fun mh => ih mh hks

/-- Sealed headers are read with the same keys. -/
theorem Sealed.read (hs : h.Sealed) (code : Int) (description : String) :
    ∃ d, decodeLines ⟨code, description, .empty⟩ (h.lines ++ [[], []]) = .ok d ∧
      d.headers.keys = h.headers.keys := by
  have hkeys : ((h.headers.entries.map fun e => (e.1, e.2.map stored)).map Prod.fst) =
      h.headers.keys := by
    rw [List.map_map]
    rfl
  obtain ⟨d, hdecode, hentries, -, -⟩ :=
    @decodeLines_entries _ ⟨code, description, .empty⟩
      (h.headers.entries.map fun e => (e.1, e.2.map stored)) (by
        rw [show (OrderedMap.empty : OrderedMap String (List String)).entries = [] from rfl,
          List.nil_append, hkeys]
        exact h.headers.nodup)
      (by
        intro e he
        obtain ⟨e, he', rfl⟩ := List.mem_map.1 he
        obtain ⟨hk, hne⟩ := hs.key e he'
        refine ⟨hk, fun hnil => hne (List.map_eq_nil_iff.1 hnil), fun v hv => ?_⟩
        obtain ⟨v, hv', rfl⟩ := List.mem_map.1 hv
        obtain ⟨-, hcr, hlf⟩ := hs.value e he' v hv'
        rw [ValidValue, stored, String.toList_ofList]
        exact ⟨hcr, hlf, trim_trim _⟩)
  refine ⟨d, ?_, ?_⟩
  · rw [← decodeLines_trimmed _ fun e he => (hs.key e he).1.1] at hdecode
    rw [show h.lines = h.headers.entries.flatMap entryLines from rfl, decodeLines_append _ hdecode]
    rfl
  · rw [OrderedMap.keys, hentries]
    exact hkeys

theorem Sealed.uninjected (hs : h.Sealed) : h.Uninjected := by
  by_cases hne : h.size = 0 ∧ h.code = 0
  · -- no entries and no status make no block
    have htext := h.text_eq_empty_iff.2 hne
    have hentries : h.headers.entries = [] := List.length_eq_zero_iff.1 hne.1
    refine ⟨fun hwritten => absurd htext hwritten, fun hwritten => absurd htext hwritten, new,
      ?_, fun k => ?_⟩
    · rw [encode, htext]
      rfl
    · rw [OrderedMap.keys, OrderedMap.keys, hentries]
      rfl
  · have hstatus : ¬ Breaks h.statusLine := by
      rw [breaks_statusLine_iff]
      exact fun hboth => hs.status hboth.1 hboth.2
    have hlines : h.lines.flatMap splitLines = h.lines := by
      refine (List.flatMap_congr fun l hl => ?_).trans (List.flatMap_singleton' h.lines)
      obtain ⟨e, he, v, hv, rfl⟩ := mem_lines.1 hl
      -- a line could only break in its value
      have hkey : '\r' ∉ e.1.toList ++ [':', ' '] := by
        intro hcr
        rcases List.mem_append.1 hcr with hcr | hcr
        · exact absurd ((hs.key e he).1.1 _ hcr) (by decide)
        · exact absurd hcr (by decide)
      apply splitLines_of_not_breaks
      rw [show line e.1 v = (e.1.toList ++ [':', ' ']) ++ v.toList
        by simp [line], breaks_append_iff hkey]
      exact (hs.value e he v hv).1
    have hsplit : splitLines h.text.toList = h.statusLine :: h.lines ++ [[], []] := by
      rw [toList_text hne, splitLines_block, hlines, splitLines_of_not_breaks hstatus]
      rfl
    refine ⟨fun _ => ⟨_, ?_, hsplit⟩, fun _ => hsplit, ?_⟩
    · intro hnil
      rcases List.mem_cons.1 hnil with hnil | hnil
      · -- neither the status line nor a line of an entry is blank
        have hheader := h.header_prefix_statusLine.length_le
        rw [← hnil] at hheader
        exact absurd hheader (by decide)
      · obtain ⟨e, -, v, -, heq⟩ := mem_lines.1 hnil
        have hcolon := colon_mem_line e.1 v
        rw [← heq] at hcolon
        cases hcolon
    · obtain ⟨d, hdecode, hkeys⟩ := hs.read (statusOf h.statusLine).1 (statusOf h.statusLine).2
      refine ⟨d, ?_, fun k => by rw [hkeys]⟩
      rw [decode_of_splitLines hne hsplit]
      exact hdecode

theorem Uninjected.sealed (hu : h.Uninjected) : h.Sealed := by
  obtain ⟨-, hlines, d, hdecode, hkeys⟩ := hu
  by_cases hne : h.size = 0 ∧ h.code = 0
  · have hentries : h.headers.entries = [] := List.length_eq_zero_iff.1 hne.1
    have hnone : ∀ e, e ∉ h.headers.entries := List.eq_nil_iff_forall_not_mem.1 hentries
    exact ⟨fun hpos => by omega, fun e he => absurd he (hnone e), fun e he => absurd he (hnone e)⟩
  · have hsplit := hlines fun hempty => hne (h.text_eq_empty_iff.1 hempty)
    obtain ⟨hstatus, hunbroken⟩ := not_breaks_of_lines hne hsplit
    rw [decode_of_splitLines hne hsplit] at hdecode
    obtain ⟨hread, hfit⟩ := decodeLines_keys hdecode
    have hadded : ∀ k, k ∈ h.headers.keys ↔
        ∃ s ∈ h.lines, ':' ∈ s ∧ k = String.ofList (s.takeWhile (· ≠ ':')) := by
      intro k
      rw [← hkeys k, hread k]
      have hempty : k ∉ (OrderedMap.empty : OrderedMap String (List String)).keys :=
        List.not_mem_nil
      simp [new, hempty, or_and_right, exists_or]
    -- the keys that are read are fit, and all keys are read
    have hvalid : ∀ k ∈ h.headers.keys, FitKey k := by
      intro k hk
      obtain ⟨s, hs, hcolon, rfl⟩ := (hadded k).1 hk
      exact (hfit s (List.mem_append_left _ hs) hcolon).1
    have hmem : ∀ e ∈ h.headers.entries, e.1 ∈ h.headers.keys := fun e he => List.mem_map_of_mem he
    refine ⟨fun hpos hbreaks => hstatus ((breaks_statusLine_iff h).2 ⟨hpos, hbreaks⟩),
      fun e he => ?_, fun e he v hv => ?_⟩
    · refine ⟨hvalid _ (hmem e he), ?_⟩
      obtain ⟨s, hs, -, hk⟩ := (hadded e.1).1 (hmem e he)
      obtain ⟨e', he', v, hv, rfl⟩ := mem_lines.1 hs
      rw [takeWhile_line (hvalid _ (hmem e' he')).1, String.ofList_toList] at hk
      have hsame := List.inj_on_of_nodup_map h.headers.nodup he he' hk
      rw [hsame]
      exact List.ne_nil_of_mem hv
    · have hline : line e.1 v ∈ h.lines := mem_lines.2 ⟨e, he, v, hv, rfl⟩
      have hvalue := (hfit _ (List.mem_append_left _ hline) (colon_mem_line e.1 v)).2
      rw [takeWhile_line (hvalid _ (hmem e he)).1, drop_line, trim_space_cons] at hvalue
      exact ⟨fun hbreaks => hunbroken _ hline (breaks_of_breaks_value e.1 hbreaks), hvalue⟩

/-- **The block has the lines of the headers and no others exactly if the headers are sealed.** -/
theorem uninjected_iff (h : MsgHdrs) : h.Uninjected ↔ h.Sealed :=
  ⟨Uninjected.sealed, Sealed.uninjected⟩

/-- Calls that edit headers look at what they store: only the description can be unfit behind
them. -/
theorem sealed_edits {code : Int} {description : String}
    (hstatus : 0 < code → ¬ Breaks description.toList) (es : List Edit) :
    (edits ⟨code, description, .empty⟩ es).Sealed := by
  have hfit : (edits ⟨code, description, .empty⟩ es).Fit := (fit_empty code description).edits es
  have hsame := status_edits ⟨code, description, .empty⟩ es
  have hentry := fun e (he : e ∈ (edits ⟨code, description, .empty⟩ es).headers.entries) =>
    hfit e.1 e.2 (OrderedMap.mem_entries.1 he)
  refine ⟨?_, fun e he => ⟨(hentry e he).1, (hentry e he).2.1⟩, fun e he v hv => ?_⟩
  · rw [hsame.1, hsame.2]
    exact hstatus
  · obtain ⟨hcr, hlf, htrim⟩ := (hentry e he).2.2 v hv
    rw [htrim]
    exact ⟨not_breaks_of_not_mem hcr, hcr, hlf⟩

end

/-- A description that is not looked at makes a header line, and so does a key of a record. -/
theorem not_uninjected :
    letI : Engine := .common
    ¬ ∀ h : MsgHdrs, h.Obtainable → h.Uninjected := by
  let _ : Engine := .common
  intro hall
  have hnew : Wire.headers 200 "OK\r\nX: y" = .ok ⟨200, "OK\r\nX: y", .empty⟩ := by
    rw [Wire.headers, if_neg (by decide)]
  have hsealed := (hall _ (.headers hnew)).sealed
  exact hsealed.status (by decide) ⟨"OK".toList, "X: y".toList, by decide⟩

end MsgHdrs

end NatsClient.Wire
