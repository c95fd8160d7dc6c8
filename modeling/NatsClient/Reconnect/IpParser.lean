import NatsClient.Reconnect.IpGrammar

/-!
# The parser of internet addresses

Model of `ipparser.ts`: the scanners of numbers, the loop over the octets, and the loop over the
groups with its index of the two colons and the expansion in place.

* `parseIPv4_iff`: what `parseIPv4` accepts is a dotted quad in front of a text, whatever the text
  is;
* `turn_iff`: what a turn of the loop over the groups reads;
* `expand_padded`: the bytes behind the expansion.
-/

set_option autoImplicit false

namespace NatsClient.Reconnect

def IPv4LEN : Nat := 4

def IPv6LEN : Nat := 16

/-- The limit of the scanners. -/
def big : Nat := 0xFFFFFF

/-! ## The scanners -/

/-- What a scanner returns: the number, the index behind it, and whether there is one. -/
structure Scan where
  n : Nat
  c : Nat
  ok : Bool
deriving DecidableEq, Repr

/-- The end of the loop. -/
def ended (i n : Nat) : Scan := if i = 0 then ⟨0, 0, false⟩ else ⟨n, i, true⟩

/-- The loop of the scanners, from an index on. -/
def scanFrom (digit : UInt16 → Option Nat) (base overflow : Nat) (i n : Nat) : Units → Scan
  | [] => ended i n
  | ch :: s =>
      match digit ch with
      | none => ended i n
      | some d =>
          if big ≤ n * base + d then ⟨overflow, i, false⟩
          else scanFrom digit base overflow (i + 1) (n * base + d) s

/-- `dtoi(s)`. -/
def dtoi (s : Units) : Scan := scanFrom decimalDigit 10 big 0 0 s

/-- `xtoi(s)`. -/
def xtoi (s : Units) : Scan := scanFrom hexDigit 16 0 0 0 s

section

variable {digit : UInt16 → Option Nat} {base overflow : Nat}

/-- **The digits in front of a text are read.** -/
theorem scanFrom_append (hbase : 1 ≤ base) {t r : Units} (hdigits : ∀ c ∈ t, digit c ≠ none)
    (hr : Stops digit r) (i n : Nat) (hlt : value digit base n t < big) :
    scanFrom digit base overflow i n (t ++ r) = ended (i + t.length) (value digit base n t) := by
  induction t generalizing i n with
  | nil =>
      cases r with
      | nil => rfl
      | cons c r =>
          rw [List.nil_append, scanFrom, hr c rfl]
          rfl
  | cons c t ih =>
      obtain ⟨hc, ht⟩ := List.forall_mem_cons.1 hdigits
      obtain ⟨d, hd⟩ := Option.ne_none_iff_exists'.1 hc
      have hvalue : value digit base n (c :: t) = value digit base (n * base + d) t := by
        simp [value, hd]
      rw [hvalue] at hlt ⊢
      have hfits : ¬ big ≤ n * base + d := fun hle =>
        absurd (Nat.lt_of_le_of_lt (Nat.le_trans hle (le_value hbase _ t)) hlt) (Nat.lt_irrefl _)
      rw [List.cons_append, scanFrom, hd]
      dsimp only
      rw [if_neg hfits, ih ht (i + 1) (n * base + d) hlt, List.length_cons, Nat.add_right_comm,
        Nat.add_assoc]

/-- What is read is the digits in front. -/
theorem scanFrom_cases (i n : Nat) (s : Units) :
    (scanFrom digit base overflow i n s).ok = false ∨
      ∃ t r, s = t ++ r ∧ (∀ c ∈ t, digit c ≠ none) ∧ Stops digit r ∧ i + t.length ≠ 0 ∧
        scanFrom digit base overflow i n s = ⟨value digit base n t, i + t.length, true⟩ := by
  have hended : ∀ (i n : Nat) (s : Units), Stops digit s → (ended i n).ok = false ∨
      ∃ t r, s = t ++ r ∧ (∀ c ∈ t, digit c ≠ none) ∧ Stops digit r ∧ i + t.length ≠ 0 ∧
        ended i n = ⟨value digit base n t, i + t.length, true⟩ := by
    intro i n s hstops
    rw [ended]
    split
    · exact .inl rfl
    · next hi => exact .inr ⟨[], s, rfl, fun c hc => absurd hc List.not_mem_nil, hstops, hi, rfl⟩
  induction s generalizing i n with
  | nil => exact hended i n [] fun c hc => by cases hc
  | cons ch s ih =>
      rw [scanFrom]
      cases hd : digit ch with
      | none =>
          apply hended
          intro c hc
          obtain rfl : ch = c := Option.some.inj hc
          exact hd
      | some d =>
          dsimp only
          split
          · exact .inl rfl
          · rcases ih (i + 1) (n * base + d) with hno | ⟨t, r, rfl, hdigits, hstops, -, heq⟩
            · exact .inl hno
            · refine .inr ⟨ch :: t, r, rfl, ?_, hstops, by simp, ?_⟩
              · exact List.forall_mem_cons.2 ⟨by rw [hd]; exact Option.some_ne_none d, hdigits⟩
              · rw [heq, List.length_cons, Nat.add_right_comm, Nat.add_assoc]
                simp [value, hd]

/-- A numeral is read, if the text behind it is no digit. -/
theorem scan_append (hbase : 1 ≤ base) {t r : Units} {n : Nat} (ht : Numeral digit base t n)
    (hlt : n < big) (hr : Stops digit r) :
    scanFrom digit base overflow 0 0 (t ++ r) = ⟨n, t.length, true⟩ := by
  have hlength : t.length ≠ 0 := fun hzero => ht.ne (List.length_eq_zero_iff.1 hzero)
  rw [scanFrom_append hbase ht.digits hr 0 0 (ht.value.symm ▸ hlt), ht.value, Nat.zero_add, ended,
    if_neg hlength]

/-- What is read is a numeral. -/
theorem scan_ok {s : Units} (hok : (scanFrom digit base overflow 0 0 s).ok = true) :
    ∃ t r n, s = t ++ r ∧ Numeral digit base t n ∧ Stops digit r ∧
      scanFrom digit base overflow 0 0 s = ⟨n, t.length, true⟩ := by
  rcases @scanFrom_cases digit base overflow 0 0 s with hno | ⟨t, r, hs, hdigits, hstops, hne, heq⟩
  · rw [hno] at hok
    cases hok
  · rw [Nat.zero_add] at hne heq
    refine ⟨t, r, _, hs, ⟨fun hnil => hne ?_, hdigits, rfl⟩, hstops, heq⟩
    rw [hnil, List.length_nil]

end

/-! ## Four octets -/

/-- `ipV4(a, b, c, d)`. -/
def ipV4 (a b c d : UInt8) : List UInt8 := [0, 0, 0, 0, 0, 0, 0, 0, 0, 0, 0xff, 0xff, a, b, c, d]

/-- One turn of the loop of `parseIPv4`: a number, and the text behind it. -/
def octet (i : Nat) (s : Units) : Option (Nat × Units) :=
  if s.length = 0 then none
  else if 0 < i ∧ s[0]? ≠ some dot then none
  else
    let s := if 0 < i then s.drop 1 else s
    let d := dtoi s
    if d.ok = false ∨ 0xFF < d.n then none else some (d.n, s.drop d.c)

/-- The loop of `parseIPv4`, with the octets that were read. -/
def octets (ip : List UInt8) (s : Units) : List Nat → Option (List UInt8)
  | [] => some ip
  | i :: is =>
      match octet i s with
      | none => none
      | some (n, s) => octets (ip.set i (.ofNat n)) s is

/-- `parseIPv4(s)`. -/
def parseIPv4 (s : Units) : Option (List UInt8) :=
  match octets (List.replicate IPv4LEN 0) s (List.range IPv4LEN) with
  | none => none
  | some ip => some (ipV4 (ip.getD 0 0) (ip.getD 1 0) (ip.getD 2 0) (ip.getD 3 0))

section

variable {s r o : Units} {i n : Nat}

/-- **One octet is read**, with the dot in front of it. -/
theorem octet_iff :
    octet i s = some (n, r) ↔
      ∃ o, s = (if 0 < i then [dot] else []) ++ (o ++ r) ∧ Octet o n ∧ Stops decimalDigit r := by
  -- what is read behind the dot
  have hread : ∀ s : Units,
      (let d := dtoi s
        if d.ok = false ∨ 0xFF < d.n then none else some (d.n, s.drop d.c)) = some (n, r) ↔
      ∃ o, s = o ++ r ∧ Octet o n ∧ Stops decimalDigit r := by
    intro s
    dsimp only
    constructor
    · intro h
      split at h
      · cases h
      · next hno =>
          obtain ⟨hok, hle⟩ := not_or.1 hno
          rw [Bool.not_eq_false] at hok
          obtain ⟨t, r', m, rfl, ht, hstops, heq⟩ := scan_ok hok
          rw [dtoi, heq] at h hle
          obtain ⟨rfl, rfl⟩ := Prod.mk.inj (Option.some.inj h)
          rw [List.drop_left]
          exact ⟨t, rfl, ⟨ht, Nat.le_of_not_lt hle⟩, hstops⟩
    · rintro ⟨o, rfl, ho, hstops⟩
      -- an octet is far below the number where `dtoi` gives up
      have hlt : n < big := Nat.lt_of_le_of_lt ho.le (by decide)
      have hscan : dtoi (o ++ r) = ⟨n, o.length, true⟩ :=
        scan_append (by decide) ho.toNumeral hlt hstops
      rw [hscan, if_neg, List.drop_left]
      exact not_or.2 ⟨Bool.noConfusion, Nat.not_lt.2 ho.le⟩
  unfold octet
  by_cases hi : 0 < i
  · simp only [hi, true_and]
    cases s with
    | nil => simp
    | cons c s =>
        by_cases hc : c = dot
        · subst hc
          simpa using hread s
        · simp [hc]
  · simp only [hi, false_and, if_false, List.nil_append]
    split
    · next hzero =>
        obtain rfl := List.length_eq_zero_iff.1 hzero
        refine iff_of_false (fun h => by cases h) ?_
        rintro ⟨o, hs, ho, -⟩
        exact ho.ne (List.append_eq_nil_iff.1 hs.symm).1
    · exact hread s

/-- The octets go to their places, one after the other. -/
theorem octets_cons_eq_some_iff {ip ip' : List UInt8} {is : List Nat} :
    octets ip s (i :: is) = some ip' ↔
      ∃ n r, octet i s = some (n, r) ∧ octets (ip.set i (.ofNat n)) r is = some ip' := by
  rw [octets]
  cases octet i s with
  | none => simp
  | some x =>
      obtain ⟨n, r⟩ := x
      constructor
      · exact fun h => ⟨n, r, rfl, h⟩
      · rintro ⟨n', r', heq, h⟩
        obtain ⟨rfl, rfl⟩ := Prod.mk.inj (Option.some.inj heq)
        exact h

theorem octets_nil_eq_some_iff {ip ip' : List UInt8} : octets ip s [] = some ip' ↔ ip = ip' :=
  Option.some.injEq ip ip' ▸ Iff.rfl

theorem stops_dot (r : Units) : Stops decimalDigit (dot :: r) := by
  intro c hc
  obtain rfl : dot = c := Option.some.inj hc
  rfl

/-- **A dotted quad is read**, whatever is behind its last digit. -/
theorem parseIPv4_iff {ip : List UInt8} :
    parseIPv4 s = some ip ↔
      ∃ q r bs, s = q ++ r ∧ DottedQuad q bs ∧ Stops decimalDigit r ∧ ip = mapped bs := by
  rw [parseIPv4]
  have hrange : List.range IPv4LEN = [0, 1, 2, 3] := rfl
  -- four turns, and what they leave unread
  have hfour : ∀ ip', octets (List.replicate IPv4LEN 0) s (List.range IPv4LEN) = some ip' ↔
      ∃ q r, s = q ++ r ∧ DottedQuad q ip' ∧ Stops decimalDigit r := by
    intro ip'
    simp only [hrange, octets_cons_eq_some_iff, octet_iff, Nat.lt_irrefl, if_false, List.nil_append,
      octets_nil_eq_some_iff, Nat.reduceLT, if_true, List.singleton_append]
    constructor
    · rintro ⟨n₁, _, ⟨o₁, rfl, h₁, -⟩, n₂, _, ⟨o₂, rfl, h₂, -⟩, n₃, _, ⟨o₃, rfl, h₃, -⟩, n₄, r,
        ⟨o₄, rfl, h₄, hstops⟩, heq⟩
      cases heq
      refine ⟨_, r, ?_, .mk h₁ h₂ h₃ h₄, hstops⟩
      simp only [List.append_assoc, List.cons_append]
    · rintro ⟨_, r, rfl, @⟨o₁, o₂, o₃, o₄, n₁, n₂, n₃, n₄, h₁, h₂, h₃, h₄⟩, hstops⟩
      have htext : o₁ ++ dot :: (o₂ ++ dot :: (o₃ ++ dot :: o₄)) ++ r =
          o₁ ++ dot :: (o₂ ++ dot :: (o₃ ++ dot :: (o₄ ++ r))) := by
        simp only [List.append_assoc, List.cons_append]
      exact ⟨n₁, _, ⟨o₁, htext, h₁, stops_dot _⟩, n₂, _, ⟨o₂, rfl, h₂, stops_dot _⟩, n₃, _,
        ⟨o₃, rfl, h₃, stops_dot _⟩, n₄, r, ⟨o₄, rfl, h₄, hstops⟩, rfl⟩
  cases hread : octets (List.replicate IPv4LEN 0) s (List.range IPv4LEN) with
  | none =>
      refine iff_of_false (fun h => by cases h) ?_
      rintro ⟨q, r, bs, hs, hq, hstops, -⟩
      have hsome := (hfour bs).2 ⟨q, r, hs, hq, hstops⟩
      rw [hread] at hsome
      cases hsome
  | some bs =>
      obtain ⟨q, r, hs, hq, hstops⟩ := (hfour bs).1 hread
      have hmapped : ipV4 (bs.getD 0 0) (bs.getD 1 0) (bs.getD 2 0) (bs.getD 3 0) = mapped bs := by
        cases hq
        rfl
      simp only [hmapped, Option.some.injEq]
      constructor
      · rintro rfl
        exact ⟨q, r, bs, hs, hq, hstops, rfl⟩
      · rintro ⟨q', r', bs', hs', hq', hstops', rfl⟩
        have hsame := (hfour bs').2 ⟨q', r', hs', hq', hstops'⟩
        rw [hread] at hsame
        rw [Option.some.inj hsame]

end

/-! ## Eight groups -/

/-- The variables of the loop of `parseIPv6`. No ellipsis is its `-1`. -/
structure Reading where
  ip : List UInt8
  ellipsis : Option Nat
  i : Nat
  s : Units
deriving DecidableEq, Repr

/-- One turn of the loop: `none` where it returns `undefined`, and else whether the loop goes on. -/
def turn (st : Reading) : Option (Reading × Bool) :=
  let x := xtoi st.s
  if x.ok = false ∨ 0xFFFF < x.n then none
  -- an IPv4 address at the end; without an ellipsis it is in the last four bytes
  else if st.s[x.c]? = some dot then
    if st.ellipsis = none ∧ st.i ≠ IPv6LEN - IPv4LEN then none
    else if IPv6LEN < st.i + IPv4LEN then none
    else
      match parseIPv4 st.s with
      | none => none
      | some ip4 =>
          let ip :=
            (((st.ip.set st.i (ip4.getD 12 0)).set (st.i + 1) (ip4.getD 13 0)).set (st.i + 2)
            (ip4.getD 14 0)).set (st.i + 3) (ip4.getD 15 0)
          -- `s = ""` and `break`
          some (⟨ip, st.ellipsis, st.i + IPv4LEN, []⟩, false)
  else
    let ip := (st.ip.set st.i (.ofNat (x.n / 256))).set (st.i + 1) (.ofNat (x.n % 256))
    let i := st.i + 2
    let s := st.s.drop x.c
    if s.length = 0 then some (⟨ip, st.ellipsis, i, s⟩, false)
    else if s[0]? ≠ some colon ∨ s.length = 1 then none
    else
      let s := s.drop 1
      if s[0]? = some colon then
        -- only one ellipsis may be there
        if st.ellipsis ≠ none then none
        else
          let s := s.drop 1
          some (⟨ip, some i, i, s⟩, decide (s.length ≠ 0))
      else some (⟨ip, st.ellipsis, i, s⟩, true)

/-- The loop, for at most so many turns. -/
def turns : Nat → Reading → Option Reading
  | 0, st => some st
  | left + 1, st =>
      if st.i < IPv6LEN then
        match turn st with
        | none => none
        | some (st, true) => turns left st
        | some (st, false) => some st
      else some st

/-- The expansion in place: from the right, what is behind the ellipsis is moved to the end, and
then the gap is filled with zeros. -/
def expand (ip : List UInt8) (ellipsis i : Nat) : List UInt8 :=
  let n := IPv6LEN - i
  let ip := (List.range (i - ellipsis)).foldl
    (fun ip d => ip.set (i - 1 - d + n) (ip.getD (i - 1 - d) 0)) ip
  (List.range n).foldl (fun ip d => ip.set (ellipsis + n - 1 - d) 0) ip

/-- What follows the loop. -/
def finish (st : Reading) : Option (List UInt8) :=
  if st.s.length ≠ 0 then none
  else if st.i < IPv6LEN then
    match st.ellipsis with
    | none => none
    | some ellipsis => some (expand st.ip ellipsis st.i)
  else if st.ellipsis ≠ none then none
  else some st.ip

/-- The loop and what follows it. Each turn but the one with a dotted quad takes two bytes. -/
def groups (st : Reading) : Option (List UInt8) :=
  match turns 8 st with
  | none => none
  | some st => finish st

/-- `parseIPv6(s)`. -/
def parseIPv6 (s : Units) : Option (List UInt8) :=
  let ip := List.replicate IPv6LEN 0
  if 2 ≤ s.length ∧ s[0]? = some colon ∧ s[1]? = some colon then
    let s := s.drop 2
    if s.length = 0 then some ip else groups ⟨ip, some 0, 0, s⟩
  else groups ⟨ip, none, 0, s⟩

/-- `parseIP(h)`. -/
def parseIP (h : Units) : Option (List UInt8) :=
  match h.find? fun c => c = dot ∨ c = colon with
  | none => none
  | some c => if c = dot then parseIPv4 h else parseIPv6 h

/-- `isIP(h)`. -/
def isIP (h : Units) : Bool := (parseIP h).isSome

/-! ## One turn -/

/-- Bytes with the zeros of the array behind them. -/
def padded (bs : List UInt8) : List UInt8 := bs ++ List.replicate (IPv6LEN - bs.length) 0

/-- The loop behind some bytes. -/
def Reading.behind (done : List UInt8) (ellipsis : Option Nat) (s : Units) : Reading :=
  ⟨padded done, ellipsis, done.length, s⟩

/-- **What a turn does**: a dotted quad ends the loop, and so does a group with nothing behind
it. -/
inductive Turn (done : List UInt8) (ellipsis : Option Nat) : Units → Reading → Bool → Prop
  | quad {q r : Units} {bs : List UInt8} (hq : DottedQuad q bs) (hr : Stops decimalDigit r)
      (hplace : ellipsis = none → done.length = 12) (hroom : done.length + 4 ≤ 16) :
      Turn done ellipsis (q ++ r) (.behind (done ++ bs) ellipsis []) false
  | last {g : Units} {n : Nat} (hg : Group g n) :
      Turn done ellipsis g (.behind (done ++ pair n) ellipsis []) false
  | next {g s : Units} {n : Nat} (hg : Group g n) (hs : s ≠ []) (hcolon : s[0]? ≠ some colon) :
      Turn done ellipsis (g ++ colon :: s) (.behind (done ++ pair n) ellipsis s) true
  | elide {g s : Units} {n : Nat} (hg : Group g n) (he : ellipsis = none) :
      Turn done ellipsis (g ++ colon :: colon :: s)
        (.behind (done ++ pair n) (some (done.length + 2)) s) (decide (s.length ≠ 0))

section

variable {done bs : List UInt8} {e : Option Nat} {s q r g : Units} {n : Nat} {st : Reading}
    {more : Bool}

theorem length_pair (n : Nat) : (pair n).length = 2 := rfl

theorem DottedQuad.length (hq : DottedQuad q bs) : bs.length = 4 := by
  cases hq
  rfl

/-- A byte goes to the place of the first zero. -/
theorem set_padded (hlt : done.length < 16) (b : UInt8) :
    (padded done).set done.length b = padded (done ++ [b]) := by
  have hzeros : List.replicate (IPv6LEN - done.length) (0 : UInt8) =
      0 :: List.replicate (IPv6LEN - (done ++ [b]).length) 0 := by
    rw [← List.replicate_succ, List.length_append, List.length_singleton]
    congr 1
    show 16 - done.length = 16 - (done.length + 1) + 1
    omega
  rw [padded, hzeros, List.set_append_right _ _ (Nat.le_refl _), Nat.sub_self,
    List.set_cons_zero, padded, List.append_assoc]
  rfl

theorem set_pair (hroom : done.length + 2 ≤ 16) (a b : UInt8) :
    ((padded done).set done.length a).set (done.length + 1) b = padded (done ++ [a, b]) := by
  have hlength : done.length + 1 = (done ++ [a]).length := by simp
  rw [set_padded (by omega), hlength, set_padded (by simp; omega), List.append_assoc]
  rfl

theorem stops_hex_dot (r : Units) : Stops hexDigit (dot :: r) := by
  intro c hc
  obtain rfl : dot = c := Option.some.inj hc
  rfl

theorem stops_hex_colon (r : Units) : Stops hexDigit (colon :: r) := by
  intro c hc
  obtain rfl : colon = c := Option.some.inj hc
  rfl

theorem colon_ne_dot (r : Units) : (colon :: r)[0]? ≠ some dot :=
  fun h => absurd (Option.some.inj h) (by decide)

theorem xtoi_append (hg : Group g n) (hr : Stops hexDigit r) :
    xtoi (g ++ r) = ⟨n, g.length, true⟩ :=
  scan_append (by decide) hg.toNumeral (Nat.lt_of_le_of_lt hg.le (by decide)) hr

theorem getElem?_append_length (g r : Units) : (g ++ r)[g.length]? = r[0]? := by
  rw [List.getElem?_append_right (Nat.le_refl _), Nat.sub_self]

/-- A turn that reads a group, apart from one with a dot behind it. -/
theorem turn_group (hroom : done.length + 2 ≤ 16) (hg : Group g n) (hr : Stops hexDigit r)
    (hdot : r[0]? ≠ some dot) :
    turn (.behind done e (g ++ r)) =
      if r.length = 0 then some (.behind (done ++ pair n) e r, false)
      else if r[0]? ≠ some colon ∨ r.length = 1 then none
      else if (r.drop 1)[0]? = some colon then
        if e ≠ none then none
        else some (.behind (done ++ pair n) (some (done.length + 2)) (r.drop 2),
          decide ((r.drop 2).length ≠ 0))
      else some (.behind (done ++ pair n) e (r.drop 1), true) := by
  have hok : ¬ ((⟨n, g.length, true⟩ : Scan).ok = false ∨
      0xFFFF < (⟨n, g.length, true⟩ : Scan).n) :=
    not_or.2 ⟨Bool.noConfusion, Nat.not_lt.2 hg.le⟩
  have hlength : (done ++ pair n).length = done.length + 2 := List.length_append
  simp only [turn, Reading.behind, xtoi_append hg hr, if_neg hok, getElem?_append_length,
    if_neg hdot, List.drop_left, set_pair hroom, List.drop_drop, hlength, Nat.reduceAdd]
  rfl

/-- A turn that reads a dotted quad. -/
theorem turn_dot (hg : Group g n) (hr : Stops hexDigit r) (hdot : r[0]? = some dot) :
    turn (.behind done e (g ++ r)) = some (st, more) ↔
      (e = none → done.length = 12) ∧ done.length + 4 ≤ 16 ∧
        ∃ q r' bs, g ++ r = q ++ r' ∧ DottedQuad q bs ∧ Stops decimalDigit r' ∧
          st = .behind (done ++ bs) e [] ∧ more = false := by
  have hok : ¬ ((⟨n, g.length, true⟩ : Scan).ok = false ∨
      0xFFFF < (⟨n, g.length, true⟩ : Scan).n) :=
    not_or.2 ⟨Bool.noConfusion, Nat.not_lt.2 hg.le⟩
  -- the four bytes of the mapped address go behind those that are done
  have hwrite : ∀ bs, bs.length = 4 → done.length + 4 ≤ 16 →
      ((((padded done).set done.length ((mapped bs).getD 12 0)).set (done.length + 1)
        ((mapped bs).getD 13 0)).set (done.length + 2) ((mapped bs).getD 14 0)).set
          (done.length + 3) ((mapped bs).getD 15 0) = padded (done ++ bs) := by
    intro bs hlength hroom
    obtain ⟨a, b, c, d, rfl⟩ := List.length_eq_four.1 hlength
    have htwo : done.length + 2 = (done ++ [a, b]).length := by simp
    have hthree : done.length + 3 = (done ++ [a, b]).length + 1 := by simp
    show ((((padded done).set done.length a).set (done.length + 1) b).set (done.length + 2) c).set
      (done.length + 3) d = _
    rw [set_pair (by omega), htwo, hthree, set_pair (by simp; omega), List.append_assoc]
    rfl
  have hturn : turn (.behind done e (g ++ r)) =
      if e = none ∧ done.length ≠ 12 then none
      else if 16 < done.length + 4 then none
      else (parseIPv4 (g ++ r)).map fun ip4 =>
        (⟨(((padded done).set done.length (ip4.getD 12 0)).set (done.length + 1)
          (ip4.getD 13 0)).set (done.length + 2) (ip4.getD 14 0) |>.set (done.length + 3)
          (ip4.getD 15 0), e, done.length + 4, []⟩, false) := by
    simp only [turn, Reading.behind, xtoi_append hg hr, if_neg hok, getElem?_append_length,
      if_pos hdot]
    cases parseIPv4 (g ++ r) <;> rfl
  rw [hturn]
  constructor
  · intro h
    split at h
    · cases h
    · next hplace =>
        split at h
        · cases h
        · next hroom =>
            obtain ⟨ip4, hip4, h⟩ := Option.map_eq_some_iff.1 h
            obtain ⟨q, r', bs, hs, hq, hr', rfl⟩ := parseIPv4_iff.1 hip4
            obtain ⟨rfl, rfl⟩ := Prod.mk.inj h
            refine ⟨fun he => ?_, Nat.le_of_not_lt hroom, q, r', bs, hs, hq, hr', ?_, rfl⟩
            · exact Classical.byContradiction fun hne => hplace ⟨he, hne⟩
            · rw [hwrite bs hq.length (Nat.le_of_not_lt hroom), Reading.behind,
                List.length_append, hq.length]
  · rintro ⟨hplace, hroom, q, r', bs, hs, hq, hr', rfl, rfl⟩
    rw [if_neg fun hbad => hbad.2 (hplace hbad.1), if_neg (Nat.not_lt.2 hroom),
      parseIPv4_iff.2 ⟨q, r', bs, hs, hq, hr', rfl⟩, Option.map_some, hwrite bs hq.length hroom,
      Reading.behind, List.length_append, hq.length]

/-- **The turns are those of `Turn`.** -/
theorem turn_iff (hroom : done.length + 2 ≤ 16) :
    turn (.behind done e s) = some (st, more) ↔ Turn done e s st more := by
  constructor
  · intro h
    -- a group is in front, or the turn returns `undefined`
    obtain ⟨hok, hle⟩ : (xtoi s).ok = true ∧ (xtoi s).n ≤ 0xFFFF := by
      by_contra hbad
      rw [not_and_or, Bool.not_eq_true, Nat.not_le] at hbad
      have hnone : turn (.behind done e s) = none := if_pos hbad
      rw [hnone] at h
      cases h
    obtain ⟨g, r, n, rfl, hnumeral, hr, hscan⟩ := scan_ok hok
    have hg : Group g n := by
      rw [xtoi, hscan] at hle
      exact ⟨hnumeral, hle⟩
    by_cases hdot : r[0]? = some dot
    · obtain ⟨hplace, hroom', q, r', bs, hs, hq, hr', rfl, rfl⟩ := (turn_dot hg hr hdot).1 h
      rw [hs]
      exact .quad hq hr' hplace hroom'
    · rw [turn_group hroom hg hr hdot] at h
      match r with
      | [] =>
          obtain ⟨rfl, rfl⟩ := Prod.mk.inj (Option.some.inj h)
          rw [List.append_nil]
          exact .last hg
      | [c] => simp at h
      | c :: d :: r =>
          simp only [List.length_cons, Nat.add_eq_zero_iff, Nat.one_ne_zero, and_false, if_false,
            List.getElem?_cons_zero, List.drop_succ_cons, List.drop_zero] at h
          split at h
          · cases h
          · next hcolon =>
              obtain rfl : c = colon := by
                by_contra hne
                exact hcolon (.inl fun heq => hne (Option.some.inj heq))
              split at h
              · next hd =>
                  obtain rfl := Option.some.inj hd
                  split at h
                  · cases h
                  · next he =>
                      obtain ⟨rfl, rfl⟩ := Prod.mk.inj (Option.some.inj h)
                      exact .elide hg (not_not.1 he)
              · next hd =>
                  obtain ⟨rfl, rfl⟩ := Prod.mk.inj (Option.some.inj h)
                  exact .next hg (List.cons_ne_nil d r) hd
  · intro h
    cases h with
    | quad hq hr hplace hroom' =>
        obtain ⟨h₁, h₂, h₃, h₄⟩ := hq
        obtain ⟨m, hm⟩ := h₁.hex
        rw [List.append_assoc, List.cons_append, turn_dot hm (stops_hex_dot _) rfl]
        refine ⟨hplace, hroom', _, _, _, ?_, .mk h₁ h₂ h₃ h₄, hr, rfl, rfl⟩
        simp only [List.append_assoc, List.cons_append]
    | last hg =>
        have hturn := @turn_group done e [] s _ hroom hg (fun c hc => by cases hc) (by simp)
        rw [List.append_nil] at hturn
        rw [hturn]
        rfl
    | next hg hs hcolon =>
        rw [turn_group hroom hg (stops_hex_colon _) (colon_ne_dot _)]
        obtain ⟨c, s, rfl⟩ := List.exists_cons_of_ne_nil hs
        have hc : c ≠ colon := fun heq => hcolon (congrArg some heq)
        simp [hc]
    | elide hg he =>
        rw [turn_group hroom hg (stops_hex_colon _) (colon_ne_dot _)]
        simp [he]

end

/-! ## The expansion -/

theorem length_foldl_set {ip : List UInt8} (place : Nat → Nat) (byte : List UInt8 → Nat → UInt8)
    (d : Nat) :
    ((List.range d).foldl (fun ip d => ip.set (place d) (byte ip d)) ip).length = ip.length := by
  induction d with
  | zero => rfl
  | succ d ih =>
      rw [List.range_succ, List.foldl_append, List.foldl_cons, List.foldl_nil, List.length_set, ih]

/-- The first loop of the expansion: it has not yet written where it reads. -/
theorem getElem?_moved {ip : List UInt8} {n i d : Nat} (hn : 0 < n) (hlength : ip.length = i + n)
    (hd : d ≤ i) {m : Nat} (hm : m < i + n) :
    ((List.range d).foldl (fun ip d => ip.set (i - 1 - d + n) (ip.getD (i - 1 - d) 0)) ip)[m]? =
      if i + n - d ≤ m then ip[m - n]? else ip[m]? := by
  induction d generalizing m with
  | zero => rw [if_neg (by omega), List.range_zero, List.foldl_nil]
  | succ d ih =>
      -- the byte that is read is in front of all that was written
      have hread := @ih (by omega) (i - 1 - d) (by omega)
      have hin : i - 1 - d < ip.length := by omega
      rw [if_neg (by omega), List.getElem?_eq_getElem hin] at hread
      rw [List.range_succ, List.foldl_append, List.foldl_cons, List.foldl_nil, List.getElem?_set,
        length_foldl_set, hlength, List.getD_eq_getElem?_getD, hread, Option.getD_some]
      by_cases hplace : i - 1 - d + n = m
      · rw [if_pos hplace, if_pos (by omega), if_pos (by omega), ← List.getElem?_eq_getElem]
        congr 1
        omega
      · rw [if_neg hplace, ih (by omega) hm]
        by_cases hle : i + n - d ≤ m
        · rw [if_pos hle, if_pos (by omega)]
        · rw [if_neg hle, if_neg (by omega)]

/-- The second loop of the expansion. -/
theorem getElem?_zeroed {ip : List UInt8} {n k d : Nat} (hlength : k + n ≤ ip.length)
    (hd : d ≤ n) (m : Nat) :
    ((List.range d).foldl (fun ip d => ip.set (k + n - 1 - d) 0) ip)[m]? =
      if k + n - d ≤ m ∧ m < k + n then some 0 else ip[m]? := by
  induction d with
  | zero => rw [if_neg (by omega), List.range_zero, List.foldl_nil]
  | succ d ih =>
      rw [List.range_succ, List.foldl_append, List.foldl_cons, List.foldl_nil, List.getElem?_set,
        length_foldl_set (fun d => k + n - 1 - d) (fun _ _ => 0), ih (by omega)]
      by_cases hplace : k + n - 1 - d = m
      · rw [if_pos hplace, if_pos (by omega), if_pos (by omega)]
      · rw [if_neg hplace]
        by_cases hin : k + n - d ≤ m ∧ m < k + n
        · rw [if_pos hin, if_pos (by omega)]
        · rw [if_neg hin, if_neg (by omega)]

/-- **The expansion puts zeros at the ellipsis.** -/
theorem expand_padded {done : List UInt8} {k : Nat} (hk : k ≤ done.length)
    (hlt : done.length < 16) :
    expand (padded done) k done.length =
      done.take k ++ List.replicate (16 - done.length) 0 ++ done.drop k := by
  have hlength : (padded done).length = done.length + (16 - done.length) := by
    rw [padded, List.length_append, List.length_replicate]
    rfl
  have hfirst : ∀ m, m < done.length → (padded done)[m]? = done[m]? := fun m hm =>
    List.getElem?_append_left hm
  unfold expand
  dsimp only
  rw [show IPv6LEN - done.length = 16 - done.length from rfl]
  apply List.ext_getElem?
  intro m
  rw [getElem?_zeroed (by rw [length_foldl_set (fun d => _) (fun ip d => _), hlength]; omega)
    (Nat.le_refl _)]
  by_cases hm : m < 16
  · rw [getElem?_moved (by omega) hlength (by omega) (by omega)]
    rcases Nat.lt_or_ge m k with hfront | hbehind
    · rw [if_neg (by omega), if_neg (by omega), hfirst m (by omega), List.append_assoc,
        List.getElem?_append_left (by rw [List.length_take]; omega),
        List.getElem?_take_of_lt hfront]
    · rcases Nat.lt_or_ge m (k + (16 - done.length)) with hzero | hend
      · rw [if_pos (by omega), List.append_assoc,
          List.getElem?_append_right (by rw [List.length_take]; omega),
          List.getElem?_append_left (by rw [List.length_take, List.length_replicate]; omega),
          List.getElem?_replicate_of_lt (by rw [List.length_take]; omega)]
      · rw [if_neg (by omega), if_pos (by omega), hfirst _ (by omega),
          List.getElem?_append_right (by simp; omega), List.getElem?_drop]
        congr 1
        simp
        omega
  · rw [if_neg (by omega),
      List.getElem?_eq_none (by rw [length_foldl_set (fun d => _) (fun ip d => _)]; omega),
      List.getElem?_eq_none (by simp; omega)]

end NatsClient.Reconnect
