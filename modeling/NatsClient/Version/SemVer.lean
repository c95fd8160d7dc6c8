import Mathlib.Data.Prod.Lex
import NatsClient.Foundation.Number
import NatsClient.Foundation.Pattern
import NatsClient.Reconnect.IpGrammar

/-!
# Versions

Model of `parseSemVer` and `compare` (`semver.ts`). A text is a list of UTF-16 code units. The text
of a version is taken apart by the pattern `/(\d+).(\d+).(\d+)/`, whose full stops stand for any
character that does not end a line (`pattern`).

`Leftmost` says what the pattern is for: the leftmost three runs of digits with full stops between
them. `exact_iff`: a text is read as this if and only if it is `Faithful`, that is, if the leftmost
three runs with any two characters between them are separated by full stops, or else have by chance
the same numbers as those that are.

`compare` is the lexicographic order of the three numbers (`compare_lt`, `compare_eq`,
`compare_gt`).
-/

set_option autoImplicit false

namespace NatsClient.Version

open NatsClient.Foundation NatsClient.Foundation.Pattern NatsClient.Reconnect

/-- `SemVer`. -/
@[ext] structure SemVer where
  major : Number
  minor : Number
  micro : Number
deriving DecidableEq

/-! ## The order of versions -/

/-- `compare`. -/
def compare (a b : SemVer) : Int :=
  if a.major.lt b.major then -1
  else if b.major.lt a.major then 1
  else if a.minor.lt b.minor then -1
  else if b.minor.lt a.minor then 1
  else if a.micro.lt b.micro then -1
  else if b.micro.lt a.micro then 1
  else 0

namespace SemVer

/-- The three numbers, in lexicographic order. -/
def triple (v : SemVer) : Number ×ₗ Number ×ₗ Number := toLex (v.major, toLex (v.minor, v.micro))

theorem triple_injective : Function.Injective triple := by
  rintro ⟨major, minor, micro⟩ ⟨major', minor', micro'⟩ h
  simpa [triple] using h

/-- **The lexicographic order of versions.** -/
instance : LinearOrder SemVer := LinearOrder.lift' triple triple_injective

theorem triple_lt_triple {a b : SemVer} : a.triple < b.triple ↔ a < b := Iff.rfl

theorem lt_iff {a b : SemVer} :
    a < b ↔ a.major < b.major ∨ a.major = b.major ∧
      (a.minor < b.minor ∨ a.minor = b.minor ∧ a.micro < b.micro) := by
  rw [← triple_lt_triple]
  simp only [triple, Prod.Lex.toLex_lt_toLex]

end SemVer

section

variable {a b : SemVer}

/-- **`compare` tells how two versions are ordered.** -/
theorem compare_cases (a b : SemVer) :
    a < b ∧ compare a b = -1 ∨ a = b ∧ compare a b = 0 ∨ b < a ∧ compare a b = 1 := by
  simp only [SemVer.lt_iff, compare, Number.lt_iff, SemVer.ext_iff]
  rcases lt_trichotomy a.major b.major with hmajor | hmajor | hmajor
  · simp [hmajor]
  · rcases lt_trichotomy a.minor b.minor with hminor | hminor | hminor
    · simp [hmajor, hminor]
    · rcases lt_trichotomy a.micro b.micro with hmicro | hmicro | hmicro
      · simp [hmajor, hminor, hmicro]
      · simp [hmajor, hminor, hmicro]
      · simp [hmajor, hminor, hmicro, hmicro.not_gt]
    · simp [hmajor, hminor, hminor.not_gt]
  · simp [hmajor, hmajor.not_gt]

theorem compare_lt : compare a b < 0 ↔ a < b := by
  rcases compare_cases a b with ⟨h, heq⟩ | ⟨h, heq⟩ | ⟨h, heq⟩
  · exact iff_of_true (by omega) h
  · exact iff_of_false (by omega) h.not_lt
  · exact iff_of_false (by omega) h.not_gt

theorem compare_eq : compare a b = 0 ↔ a = b := by
  rcases compare_cases a b with ⟨h, heq⟩ | ⟨h, heq⟩ | ⟨h, heq⟩
  · exact iff_of_false (by omega) h.ne
  · exact iff_of_true heq h
  · exact iff_of_false (by omega) h.ne'

theorem compare_gt : 0 < compare a b ↔ b < a := by
  rcases compare_cases a b with ⟨h, heq⟩ | ⟨h, heq⟩ | ⟨h, heq⟩
  · exact iff_of_false (by omega) h.not_gt
  · exact iff_of_false (by omega) h.not_gt
  · exact iff_of_true (by omega) h

theorem compare_nonneg : 0 ≤ compare a b ↔ b ≤ a := by
  rw [← not_lt, ← not_lt, compare_lt]

end

/-! ## The text of a version -/

/-- `\d`. -/
def isDigit (c : UInt16) : Bool := (decimalDigit c).isSome

/-- `.` in a regular expression: every code unit but the four that end a line. -/
def isAny (c : UInt16) : Bool := c ≠ 0x0A && c ≠ 0x0D && c ≠ 0x2028 && c ≠ 0x2029

/-- Three runs of digits, with one character of a class between each two. -/
def runs (sep : UInt16 → Bool) : List (Piece UInt16) :=
  [.plus isDigit, .one sep, .plus isDigit, .one sep, .plus isDigit]

/-- `/(\d+).(\d+).(\d+)/`. -/
def pattern : List (Piece UInt16) := runs isAny

/-- `parseInt` of a text of digits. -/
def parseInt (t : Units) : Number := .ofNat (value decimalDigit 10 0 t)

/-- `parseSemVer`. What is thrown is the message. -/
def parseSemVer (s : Units) : Except Units SemVer :=
  match search pattern s with
  | some (_, m) => .ok ⟨parseInt (m.getD 0 []), parseInt (m.getD 2 []), parseInt (m.getD 4 [])⟩
  | none => .error (codeUnits "'" ++ s ++ codeUnits "' is not a semver value")

/-! ## What it is for -/

/-- A text of digits. -/
def Run (t : Units) : Prop := t ≠ [] ∧ ∀ c ∈ t, isDigit c = true

/-- A text begins with three runs of digits with full stops between them; the last of them goes on
as far as there are digits. -/
structure Triple (s a b c : Units) : Prop where
  text : ∃ rest, s = a ++ dot :: (b ++ dot :: (c ++ rest)) ∧ ∀ x ∈ rest.head?, isDigit x = false
  major : Run a
  minor : Run b
  micro : Run c

/-- **The leftmost three runs of digits with full stops between them**, and the text in front of
them. -/
structure Leftmost (s pre a b c : Units) : Prop where
  here : ∃ rest, s = pre ++ rest ∧ Triple rest a b c
  leftmost : ∀ pre' rest a' b' c', s = pre' ++ rest → Triple rest a' b' c' →
    pre.length ≤ pre'.length

/-- A text is read as a version exactly if it has three runs of digits with full stops between them,
and as the numbers of the leftmost ones. -/
def Exact (s : Units) : Prop :=
  ∀ v, parseSemVer s = .ok v ↔
    ∃ pre a b c, Leftmost s pre a b c ∧ v = ⟨parseInt a, parseInt b, parseInt c⟩

/-- The leftmost three runs of digits with any two characters between them have full stops there, or
the same numbers as the leftmost with full stops, which are further to the right. -/
def Faithful (s : Units) : Prop :=
  ∀ pre a x b y c, First pattern s pre [a, [x], b, [y], c] →
    x = dot ∧ y = dot ∨
      ∃ pre' a' b' c', Leftmost s pre' a' b' c' ∧ pre.length < pre'.length ∧
        parseInt a' = parseInt a ∧ parseInt b' = parseInt b ∧ parseInt c' = parseInt c

section

variable {s pre a b c : Units} {sep : UInt16 → Bool} {ms : List Units}

/-- What the pieces of a pattern of three runs take. -/
theorem fits_runs (h : Fits (runs sep) s ms) :
    ∃ a x b y c rest, ms = [a, [x], b, [y], c] ∧ s = a ++ x :: (b ++ y :: (c ++ rest)) ∧
      Run a ∧ sep x = true ∧ Run b ∧ sep y = true ∧ Run c := by
  obtain ⟨a, _, _, rfl, rfl, ha, h₁⟩ := h.cons_inv
  obtain ⟨_, _, _, rfl, rfl, ⟨x, rfl, hx⟩, h₂⟩ := h₁.cons_inv
  obtain ⟨b, _, _, rfl, rfl, hb, h₃⟩ := h₂.cons_inv
  obtain ⟨_, _, _, rfl, rfl, ⟨y, rfl, hy⟩, h₄⟩ := h₃.cons_inv
  obtain ⟨c, rest, _, rfl, rfl, hc, h₅⟩ := h₄.cons_inv
  rw [h₅.nil_inv]
  exact ⟨a, x, b, y, c, rest, rfl, rfl, ha, hx, hb, hy, hc⟩

/-- The pattern that is meant: only a full stop between the runs. -/
def dotted : List (Piece UInt16) := runs (· == dot)

theorem separated_dotted : Separated dotted := by
  have hdot : ∀ c : UInt16, (c == dot) = true → isDigit c = false := by
    intro c hc
    rw [beq_iff_eq.1 hc]
    decide
  exact ⟨hdot, hdot, trivial⟩

theorem wider_pattern : List.Forall₂ Piece.Wider dotted pattern := by
  have hdot : ∀ c : UInt16, (c == dot) = true → isAny c = true := by
    intro c hc
    rw [beq_iff_eq.1 hc]
    decide
  exact .cons rfl (.cons hdot (.cons rfl (.cons hdot (.cons rfl .nil))))

/-- **The best fit of the pattern that is meant** is three runs with full stops between them. -/
theorem best_dotted :
    Best dotted s ms ↔ ∃ a b c, ms = [a, [dot], b, [dot], c] ∧ Triple s a b c := by
  rw [best_iff_tight separated_dotted]
  constructor
  · intro h
    obtain ⟨a, _, _, rfl, rfl, ha, -, h₁⟩ := h.plus_inv
    obtain ⟨x, _, _, rfl, rfl, hx, h₂⟩ := h₁.one_inv
    obtain ⟨b, _, _, rfl, rfl, hb, -, h₃⟩ := h₂.plus_inv
    obtain ⟨y, _, _, rfl, rfl, hy, h₄⟩ := h₃.one_inv
    obtain ⟨c, rest, _, rfl, rfl, hc, hstops, h₅⟩ := h₄.plus_inv
    obtain rfl := beq_iff_eq.1 hx
    obtain rfl := beq_iff_eq.1 hy
    rw [h₅.nil_inv]
    exact ⟨a, b, c, rfl, ⟨rest, rfl, hstops⟩, ha, hb, hc⟩
  · rintro ⟨a, b, c, rfl, ⟨rest, rfl, hstops⟩, ha, hb, hc⟩
    have hdot : ∀ t : Units, Stops isDigit (dot :: t) := by
      intro t c hc
      rw [← Option.some.inj hc]
      decide
    exact .plus ha (hdot _) (.one rfl (.plus hb (hdot _) (.one rfl (.plus hc hstops (.nil rest)))))

/-- **The leftmost match of the pattern that is meant** is the leftmost three runs with full
stops. -/
theorem first_dotted :
    First dotted s pre ms ↔ ∃ a b c, ms = [a, [dot], b, [dot], c] ∧ Leftmost s pre a b c := by
  constructor
  · rintro ⟨⟨rest, rfl, hbest⟩, hleftmost⟩
    obtain ⟨a, b, c, rfl, htriple⟩ := best_dotted.1 hbest
    refine ⟨a, b, c, rfl, ⟨rest, rfl, htriple⟩, ?_⟩
    intro pre' rest' a' b' c' hs htriple'
    exact hleftmost _ _ _ hs (best_dotted.2 ⟨a', b', c', rfl, htriple'⟩).fits
  · rintro ⟨a, b, c, rfl, ⟨rest, rfl, htriple⟩, hleftmost⟩
    refine ⟨⟨rest, rfl, best_dotted.2 ⟨a, b, c, rfl, htriple⟩⟩, ?_⟩
    intro pre' rest' ms' hs hfits
    -- where the pattern fits it has a best fit
    cases hfound : matchHere dotted rest' with
    | none => exact absurd hfits (matchHere_eq_none hfound)
    | some ms'' =>
        obtain ⟨a', b', c', -, htriple'⟩ := best_dotted.1 (best_of_matchHere hfound)
        exact hleftmost _ _ _ _ _ hs htriple'

/-- What `parseSemVer` returns, by the leftmost match. -/
theorem parseSemVer_of_first {x y : UInt16} (h : First pattern s pre [a, [x], b, [y], c]) :
    parseSemVer s = .ok ⟨parseInt a, parseInt b, parseInt c⟩ := by
  rw [parseSemVer, search_eq_some.2 h]
  rfl

/-- **A version is the numbers of the leftmost match.** -/
theorem parseSemVer_eq_ok {v : SemVer} :
    parseSemVer s = .ok v ↔
      ∃ pre a x b y c, First pattern s pre [a, [x], b, [y], c] ∧
      v = ⟨parseInt a, parseInt b, parseInt c⟩ := by
  constructor
  · intro h
    cases hfound : search pattern s with
    | none => rw [parseSemVer, hfound] at h; cases h
    | some m =>
        obtain ⟨pre, ms⟩ := m
        have hfirst := search_eq_some.1 hfound
        obtain ⟨rest, -, hbest⟩ := hfirst.here
        obtain ⟨a, x, b, y, c, -, rfl, -⟩ := fits_runs hbest.fits
        rw [parseSemVer_of_first hfirst] at h
        exact ⟨pre, a, x, b, y, c, hfirst, (Except.ok.inj h).symm⟩
  · rintro ⟨pre, a, x, b, y, c, hfirst, rfl⟩
    exact parseSemVer_of_first hfirst

/-- **Every error names the text** that is not a version. -/
theorem parseSemVer_eq_error {e : Units} (h : parseSemVer s = .error e) :
    e = codeUnits "'" ++ s ++ codeUnits "' is not a semver value" := by
  rw [parseSemVer] at h
  split at h
  · cases h
  · exact (Except.error.inj h).symm

/-! ## When a text is read as it should be -/

/-- There is one leftmost triple. -/
theorem Leftmost.unique {pre' a' b' c' : Units} (h : Leftmost s pre a b c)
    (h' : Leftmost s pre' a' b' c') : a = a' ∧ b = b' ∧ c = c' := by
  have hsame := ((first_dotted.2 ⟨a, b, c, rfl, h⟩).unique (first_dotted.2 ⟨a', b', c', rfl, h'⟩)).2
  simp only [List.cons.injEq, and_true, true_and] at hsame
  exact hsame

/-- **A leftmost match with full stops in it** is the leftmost one of the pattern that is meant. -/
theorem leftmost_of_first (h : First pattern s pre [a, [dot], b, [dot], c]) :
    Leftmost s pre a b c := by
  obtain ⟨rest, hs, hbest⟩ := h.here
  obtain ⟨_, _, _, _, _, tail, heq, rfl, ha, -, hb, -, hc⟩ := fits_runs hbest.fits
  cases heq
  have hfits : Fits dotted (a ++ ([dot] ++ (b ++ ([dot] ++ (c ++ tail)))))
      [a, [dot], b, [dot], c] :=
    .cons ha (.cons ⟨dot, rfl, rfl⟩ (.cons hb (.cons ⟨dot, rfl, rfl⟩ (.cons hc (.nil tail)))))
  obtain ⟨pre', ms', hfirst⟩ := exists_first hs hfits
  have hle := hfirst.le_of_wider separated_dotted wider_pattern h
  have hge := hfirst.leftmost _ _ _ hs hfits
  obtain ⟨rfl, rfl⟩ := hfirst.eq_of_wider separated_dotted wider_pattern h (Nat.le_antisymm hle hge)
  obtain ⟨_, _, _, heq, hleftmost⟩ := first_dotted.1 hfirst
  cases heq
  exact hleftmost

/-- A text with three runs and full stops between them has a leftmost match. -/
theorem Leftmost.exists_first (h : Leftmost s pre a b c) :
    ∃ pre' a' x b' y c', First pattern s pre' [a', [x], b', [y], c'] := by
  obtain ⟨rest, hs, htriple⟩ := h.here
  have htight := (best_iff_tight separated_dotted).1 (best_dotted.2 ⟨a, b, c, rfl, htriple⟩)
  obtain ⟨pre', ms, hfirst⟩ := Pattern.exists_first hs (htight.wider wider_pattern).fits
  obtain ⟨rest', -, hbest⟩ := hfirst.here
  obtain ⟨a', x, b', y, c', -, rfl, -⟩ := fits_runs hbest.fits
  exact ⟨pre', a', x, b', y, c', hfirst⟩

/-- **When exactly a text is read as it should be.** -/
theorem exact_iff : Exact s ↔ Faithful s := by
  constructor
  · intro hexact pre a x b y c hfirst
    obtain ⟨pre', a', b', c', hleftmost, heq⟩ := (hexact _).1 (parseSemVer_of_first hfirst)
    have hdotted := first_dotted.2 ⟨a', b', c', rfl, hleftmost⟩
    rcases Nat.lt_or_eq_of_le (hdotted.le_of_wider separated_dotted wider_pattern hfirst) with
      hlt | hlength
    · obtain ⟨hmajor, hminor, hmicro⟩ := SemVer.mk.inj heq
      exact Or.inr ⟨pre', a', b', c', hleftmost, hlt, hmajor.symm, hminor.symm, hmicro.symm⟩
    · have hsame := (hdotted.eq_of_wider separated_dotted wider_pattern hfirst hlength).2
      simp only [List.cons.injEq, and_true] at hsame
      exact Or.inl ⟨hsame.2.1, hsame.2.2.2.1⟩
  · intro hfaithful v
    rw [parseSemVer_eq_ok]
    constructor
    · rintro ⟨pre, a, x, b, y, c, hfirst, rfl⟩
      rcases hfaithful _ _ _ _ _ _ hfirst with ⟨rfl, rfl⟩ | ⟨pre', a', b', c', hleftmost,
        -, ha, hb, hc⟩
      · exact ⟨pre, a, b, c, leftmost_of_first hfirst, rfl⟩
      · exact ⟨pre', a', b', c', hleftmost, by rw [ha, hb, hc]⟩
    · rintro ⟨pre, a, b, c, hleftmost, rfl⟩
      obtain ⟨pre', a', x, b', y, c', hfirst⟩ := hleftmost.exists_first
      refine ⟨pre', a', x, b', y, c', hfirst, ?_⟩
      rcases hfaithful _ _ _ _ _ _ hfirst with ⟨rfl, rfl⟩ | ⟨pre'', a'', b'', c'', hright,
        -, ha, hb, hc⟩
      · obtain ⟨rfl, rfl, rfl⟩ := hleftmost.unique (leftmost_of_first hfirst)
        rfl
      · obtain ⟨rfl, rfl, rfl⟩ := hleftmost.unique hright
        rw [ha, hb, hc]

end

end NatsClient.Version
