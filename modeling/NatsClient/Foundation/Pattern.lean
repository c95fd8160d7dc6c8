import Mathlib.Data.List.Forall2
import Mathlib.Tactic.Common

/-!
# Patterns of single characters and runs

A pattern is a list of pieces. A piece takes one character of a class, or a run of characters of a
class. Where a text can be taken apart in several ways, the first run is as long as it can be, then
the second, and so on.

`Fits` says that a text begins with what the pieces take, `Best` that no other fit is preferred,
`First` that no fit begins further to the left. The search that tries the longest run first and goes
back one character at a time finds exactly these (`matchHere_eq_some`, `search_eq_some`, and
`search_eq_none` for a text without a fit).

A fit is `Tight` where no run can be extended. Such a fit is the best one whatever the single
characters in it are (`Tight.best`), and where every run is followed by a character of another class
no other is the best (`best_iff_tight`). With a wider class for its single characters a pattern
matches no further to the right, and the same at the same place (`First.le_of_wider`,
`First.eq_of_wider`).
-/

set_option autoImplicit false

namespace NatsClient.Foundation.Pattern

variable {α β : Type}

/-- A piece of a pattern: one character of a class, or one or more of them. -/
inductive Piece (α : Type) where
  | one (cls : α → Bool)
  | plus (cls : α → Bool)

/-! ## The search -/

/-- The longest run with which `next` accepts what is behind it. -/
def plusHere (cls : α → Bool) (next : List α → Option β) : List α → Option (List α × β)
  | [] => none
  | c :: cs =>
      if cls c then
        match plusHere cls next cs with
        | some (run, m) => some (c :: run, m)
        | none => (next cs).map fun m => ([c], m)
      else none

/-- What the pieces take from the beginning of a text. -/
def matchHere : List (Piece α) → List α → Option (List (List α))
  | [], _ => some []
  | .one _ :: _, [] => none
  | .one cls :: ps, c :: cs => if cls c then (matchHere ps cs).map fun ms => [c] :: ms else none
  | .plus cls :: ps, cs => (plusHere cls (matchHere ps) cs).map fun m => m.1 :: m.2

/-- The leftmost place at which a pattern matches: the text in front of it, and what the pieces
take. -/
def search (ps : List (Piece α)) : List α → Option (List α × List (List α))
  | [] => (matchHere ps []).map fun ms => ([], ms)
  | c :: cs =>
      match matchHere ps (c :: cs) with
      | some ms => some ([], ms)
      | none => (search ps cs).map fun m => (c :: m.1, m.2)

/-! ## What it should find -/

/-- What a piece may take. -/
def Piece.Takes : Piece α → List α → Prop
  | .one cls, m => ∃ c, m = [c] ∧ cls c = true
  | .plus cls, m => m ≠ [] ∧ ∀ c ∈ m, cls c = true

/-- A text begins with what the pieces take, one behind the other. -/
inductive Fits : List (Piece α) → List α → List (List α) → Prop
  | nil (cs : List α) : Fits [] cs []
  | cons {p : Piece α} {ps : List (Piece α)} {m rest : List α} {ms : List (List α)}
      (htakes : p.Takes m) (hrest : Fits ps rest ms) : Fits (p :: ps) (m ++ rest) (m :: ms)

/-- The first piece that differs is not the shorter one. -/
def Prefers : List (List α) → List (List α) → Prop
  | m :: ms, m' :: ms' => m'.length < m.length ∨ m'.length = m.length ∧ Prefers ms ms'
  | _, _ => True

/-- A fit to which no other is preferred. -/
structure Best (ps : List (Piece α)) (cs : List α) (ms : List (List α)) : Prop where
  fits : Fits ps cs ms
  prefers : ∀ ms', Fits ps cs ms' → Prefers ms ms'

/-- **The leftmost match**, with the text in front of it. -/
structure First (ps : List (Piece α)) (cs pre : List α) (ms : List (List α)) : Prop where
  here : ∃ rest, cs = pre ++ rest ∧ Best ps rest ms
  leftmost : ∀ pre' rest ms', cs = pre' ++ rest → Fits ps rest ms' → pre.length ≤ pre'.length

section

variable {p : Piece α} {ps : List (Piece α)} {cs rest pre : List α} {ms ms' : List (List α)}
  {m : List α} {cls : α → Bool}

theorem Fits.cons_inv (h : Fits (p :: ps) cs ms) :
    ∃ m rest ms', cs = m ++ rest ∧ ms = m :: ms' ∧ p.Takes m ∧ Fits ps rest ms' := by
  cases h with
  | cons htakes hrest => exact ⟨_, _, _, rfl, rfl, htakes, hrest⟩

theorem Fits.nil_inv (h : Fits [] cs ms) : ms = [] := by
  cases h
  rfl

/-- The pieces that two fits prefer to each other are the same. -/
theorem Fits.unique (h : Fits ps cs ms) (h' : Fits ps cs ms') (hprefers : Prefers ms ms')
    (hprefers' : Prefers ms' ms) : ms = ms' := by
  induction h generalizing ms' with
  | nil _ => exact h'.nil_inv.symm
  | @cons p ps m rest ms _ _ ih =>
      obtain ⟨m', rest', ms'', heq, rfl, -, hfits⟩ := h'.cons_inv
      have hlength : m.length = m'.length := by
        rcases hprefers with hlt | ⟨hlt, -⟩
        · rcases hprefers' with hlt' | ⟨hlt', -⟩
          · omega
          · exact hlt'
        · exact hlt.symm
      obtain ⟨rfl, rfl⟩ := List.append_inj heq hlength
      rw [ih hfits (hprefers.resolve_left (Nat.lt_irrefl _)).2
        (hprefers'.resolve_left (Nat.lt_irrefl _)).2]

/-- **There is one best fit.** -/
theorem Best.unique (h : Best ps cs ms) (h' : Best ps cs ms') : ms = ms' :=
  h.fits.unique h'.fits (h.prefers _ h'.fits) (h'.prefers _ h.fits)

/-- What is left of the best fit behind the first piece. -/
theorem Best.cons_inv (h : Best (p :: ps) cs ms) :
    ∃ m rest ms', cs = m ++ rest ∧ ms = m :: ms' ∧ p.Takes m ∧ Best ps rest ms' := by
  obtain ⟨m, rest, ms', rfl, rfl, htakes, hrest⟩ := h.fits.cons_inv
  refine ⟨m, rest, ms', rfl, rfl, htakes, hrest, fun ms'' hfits => ?_⟩
  exact ((h.prefers _ (.cons htakes hfits)).resolve_left (Nat.lt_irrefl _)).2

/-- **There is one leftmost match.** -/
theorem First.unique {pre' : List α} (h : First ps cs pre ms) (h' : First ps cs pre' ms') :
    pre = pre' ∧ ms = ms' := by
  obtain ⟨rest, hcs, hbest⟩ := h.here
  obtain ⟨rest', hcs', hbest'⟩ := h'.here
  have hlength : pre.length = pre'.length :=
    Nat.le_antisymm (h.leftmost _ _ _ hcs' hbest'.fits) (h'.leftmost _ _ _ hcs hbest.fits)
  obtain ⟨rfl, rfl⟩ := List.append_inj (hcs.symm.trans hcs') hlength
  exact ⟨rfl, hbest.unique hbest'⟩

/-! ## The search finds it -/

section

variable {next : List α → Option β} {run : List α} {b : β}

/-- **Where no run is found none can be followed.** -/
theorem plusHere_eq_none (h : plusHere cls next cs = none) (hcs : cs = run ++ rest)
    (htakes : (Piece.plus cls).Takes run) : next rest = none := by
  induction cs generalizing run with
  | nil => exact absurd (List.append_eq_nil_iff.1 hcs.symm).1 htakes.1
  | cons c cs ih =>
      obtain ⟨c', run, rfl⟩ := List.exists_cons_of_ne_nil htakes.1
      obtain ⟨rfl, htail⟩ := List.cons.inj hcs
      obtain ⟨hc, hrun⟩ := List.forall_mem_cons.1 htakes.2
      rw [plusHere, if_pos hc] at h
      cases hfound : plusHere cls next cs with
      | some found => rw [hfound] at h; cases h
      | none =>
          rw [hfound] at h
          cases run with
          | nil =>
              have hrest : cs = rest := htail
              exact hrest ▸ Option.map_eq_none_iff.1 h
          | cons d run => exact ih hfound htail ⟨List.cons_ne_nil d run, hrun⟩

/-- **A run that is found is followed, and no longer one is.** -/
theorem plusHere_eq_some (h : plusHere cls next cs = some (run, b)) :
    (Piece.plus cls).Takes run ∧ (∃ rest, cs = run ++ rest ∧ next rest = some b) ∧
      ∀ run' rest, cs = run' ++ rest → (Piece.plus cls).Takes run' → run.length < run'.length →
        next rest = none := by
  induction cs generalizing run with
  | nil => cases h
  | cons c cs ih =>
      rw [plusHere] at h
      split at h
      · next hc =>
          cases hfound : plusHere cls next cs with
          | some found =>
              obtain ⟨run', b'⟩ := found
              rw [hfound] at h
              obtain ⟨rfl, rfl⟩ := Prod.mk.inj (Option.some.inj h)
              obtain ⟨htakes, ⟨rest, rfl, hnext⟩, hlonger⟩ := ih hfound
              refine ⟨⟨List.cons_ne_nil c run', List.forall_mem_cons.2 ⟨hc, htakes.2⟩⟩,
                ⟨rest, rfl, hnext⟩, ?_⟩
              intro run'' rest' hcs htakes' hlt
              obtain ⟨c', run'', rfl⟩ := List.exists_cons_of_ne_nil htakes'.1
              have hlt' : run'.length < run''.length := Nat.lt_of_succ_lt_succ hlt
              refine hlonger run'' rest' (List.cons.inj hcs).2
                ⟨?_, (List.forall_mem_cons.1 htakes'.2).2⟩ hlt'
              exact List.ne_nil_of_length_pos (Nat.zero_lt_of_lt hlt')
          | none =>
              -- the run is this one character: what is longer is longer by a run that is not there
              rw [hfound] at h
              obtain ⟨b', hnext, heq⟩ := Option.map_eq_some_iff.1 h
              obtain ⟨rfl, rfl⟩ := Prod.mk.inj heq
              refine ⟨⟨List.cons_ne_nil c [], List.forall_mem_singleton.2 hc⟩, ⟨cs, rfl, hnext⟩, ?_⟩
              intro run' rest hcs htakes hlt
              obtain ⟨c', run', rfl⟩ := List.exists_cons_of_ne_nil htakes.1
              refine plusHere_eq_none hfound (List.cons.inj hcs).2
                ⟨?_, (List.forall_mem_cons.1 htakes.2).2⟩
              exact List.ne_nil_of_length_pos (Nat.lt_of_succ_lt_succ hlt)
      · cases h

end

/-- **Where the pieces match nothing there is no fit.** -/
theorem matchHere_eq_none (h : matchHere ps cs = none) : ¬ Fits ps cs ms := by
  intro hfits
  induction hfits with
  | nil _ => cases h
  | @cons p ps m rest ms htakes _ ih =>
      cases p with
      | one cls =>
          obtain ⟨c, rfl, hc⟩ := htakes
          rw [List.singleton_append, matchHere, if_pos hc] at h
          exact ih (Option.map_eq_none_iff.1 h)
      | plus cls =>
          rw [matchHere] at h
          exact ih (plusHere_eq_none (Option.map_eq_none_iff.1 h) rfl htakes)

/-- What the pieces match is the best fit. -/
theorem best_of_matchHere (h : matchHere ps cs = some ms) : Best ps cs ms := by
  induction ps generalizing cs ms with
  | nil =>
      obtain rfl := Option.some.inj h
      exact ⟨.nil cs, fun _ _ => trivial⟩
  | cons p ps ih =>
      cases p with
      | one cls =>
          cases cs with
          | nil => cases h
          | cons c cs =>
              rw [matchHere] at h
              split at h
              · next hc =>
                  obtain ⟨ms, hms, rfl⟩ := Option.map_eq_some_iff.1 h
                  have hbest := ih hms
                  refine ⟨.cons (m := [c]) ⟨c, rfl, hc⟩ hbest.fits, fun ms' hfits => ?_⟩
                  obtain ⟨m, rest, ms', heq, rfl, ⟨d, rfl, -⟩, hrest⟩ := hfits.cons_inv
                  obtain ⟨-, rfl⟩ := List.cons.inj heq
                  exact Or.inr ⟨rfl, hbest.prefers _ hrest⟩
              · cases h
      | plus cls =>
          rw [matchHere] at h
          obtain ⟨⟨run, ms⟩, hfound, rfl⟩ := Option.map_eq_some_iff.1 h
          obtain ⟨htakes, ⟨rest, rfl, hms⟩, hlonger⟩ := plusHere_eq_some hfound
          have hbest := ih hms
          refine ⟨.cons htakes hbest.fits, fun ms' hfits => ?_⟩
          obtain ⟨run', rest', ms', heq, rfl, htakes', hrest⟩ := hfits.cons_inv
          rcases Nat.lt_trichotomy run'.length run.length with hlt | hlength | hlt
          · exact Or.inl hlt
          · obtain ⟨rfl, rfl⟩ := List.append_inj heq hlength.symm
            exact Or.inr ⟨rfl, hbest.prefers _ hrest⟩
          · exact absurd hrest (matchHere_eq_none (hlonger run' rest' heq htakes' hlt))

/-- **What the pieces match is exactly the best fit.** -/
theorem matchHere_eq_some : matchHere ps cs = some ms ↔ Best ps cs ms := by
  refine ⟨best_of_matchHere, fun hbest => ?_⟩
  cases hfound : matchHere ps cs with
  | none => exact absurd hbest.fits (matchHere_eq_none hfound)
  | some ms' => rw [(best_of_matchHere hfound).unique hbest]

/-- **Where the search finds nothing there is no fit** anywhere in the text. -/
theorem search_eq_none (h : search ps cs = none) (hcs : cs = pre ++ rest) : ¬ Fits ps rest ms := by
  induction cs generalizing pre with
  | nil =>
      obtain ⟨rfl, rfl⟩ := List.append_eq_nil_iff.1 hcs.symm
      exact matchHere_eq_none (Option.map_eq_none_iff.1 h)
  | cons c cs ih =>
      rw [search] at h
      cases hfound : matchHere ps (c :: cs) with
      | some ms' => rw [hfound] at h; cases h
      | none =>
          rw [hfound] at h
          cases pre with
          | nil =>
              have hrest : c :: cs = rest := hcs
              exact hrest ▸ matchHere_eq_none hfound
          | cons d pre => exact ih (Option.map_eq_none_iff.1 h) (List.cons.inj hcs).2

/-- What the search finds is the leftmost match. -/
theorem first_of_search (h : search ps cs = some (pre, ms)) : First ps cs pre ms := by
  induction cs generalizing pre with
  | nil =>
      obtain ⟨ms', hms, heq⟩ := Option.map_eq_some_iff.1 h
      obtain ⟨rfl, rfl⟩ := Prod.mk.inj heq
      exact ⟨⟨[], rfl, best_of_matchHere hms⟩, fun _ _ _ _ _ => Nat.zero_le _⟩
  | cons c cs ih =>
      rw [search] at h
      cases hfound : matchHere ps (c :: cs) with
      | some ms' =>
          rw [hfound] at h
          obtain ⟨rfl, rfl⟩ := Prod.mk.inj (Option.some.inj h)
          exact ⟨⟨c :: cs, rfl, best_of_matchHere hfound⟩, fun _ _ _ _ _ => Nat.zero_le _⟩
      | none =>
          rw [hfound] at h
          obtain ⟨⟨pre', ms'⟩, hrest, heq⟩ := Option.map_eq_some_iff.1 h
          obtain ⟨rfl, rfl⟩ := Prod.mk.inj heq
          obtain ⟨⟨rest, rfl, hbest⟩, hleftmost⟩ := ih hrest
          refine ⟨⟨rest, rfl, hbest⟩, fun pre'' rest' ms'' hcs hfits => ?_⟩
          cases pre'' with
          | nil =>
              rw [List.nil_append] at hcs
              exact absurd (hcs ▸ hfits) (matchHere_eq_none hfound)
          | cons d pre'' =>
              exact Nat.succ_le_succ (hleftmost pre'' rest' ms'' (List.cons.inj hcs).2 hfits)

/-- **What the search finds is exactly the leftmost match.** -/
theorem search_eq_some : search ps cs = some (pre, ms) ↔ First ps cs pre ms := by
  refine ⟨first_of_search, fun hfirst => ?_⟩
  cases hfound : search ps cs with
  | none =>
      obtain ⟨rest, hcs, hbest⟩ := hfirst.here
      exact absurd hbest.fits (search_eq_none hfound hcs)
  | some m =>
      obtain ⟨rfl, rfl⟩ := (first_of_search hfound).unique hfirst
      rfl

/-! ## Fits in which no run can be extended -/

/-- A text does not begin with a character of a class. -/
def Stops (cls : α → Bool) (rest : List α) : Prop := ∀ c ∈ rest.head?, cls c = false

/-- A fit in which no run can be extended. -/
inductive Tight : List (Piece α) → List α → List (List α) → Prop
  | nil (cs : List α) : Tight [] cs []
  | one {cls : α → Bool} {c : α} {ps : List (Piece α)} {rest : List α} {ms : List (List α)}
      (hc : cls c = true) (hrest : Tight ps rest ms) :
      Tight (.one cls :: ps) (c :: rest) ([c] :: ms)
  | plus {cls : α → Bool} {run : List α} {ps : List (Piece α)} {rest : List α} {ms : List (List α)}
      (htakes : (Piece.plus cls).Takes run) (hstops : Stops cls rest) (hrest : Tight ps rest ms) :
      Tight (.plus cls :: ps) (run ++ rest) (run :: ms)

theorem Tight.fits (h : Tight ps cs ms) : Fits ps cs ms := by
  induction h with
  | nil cs => exact .nil cs
  | one hc _ ih => exact .cons (m := [_]) ⟨_, rfl, hc⟩ ih
  | plus htakes _ _ ih => exact .cons htakes ih

theorem Tight.nil_inv (h : Tight [] cs ms) : ms = [] := h.fits.nil_inv

theorem Tight.one_inv (h : Tight (.one cls :: ps) cs ms) :
    ∃ c rest ms', cs = c :: rest ∧ ms = [c] :: ms' ∧ cls c = true ∧ Tight ps rest ms' := by
  cases h with
  | one hc hrest => exact ⟨_, _, _, rfl, rfl, hc, hrest⟩

theorem Tight.plus_inv (h : Tight (.plus cls :: ps) cs ms) :
    ∃ run rest ms', cs = run ++ rest ∧ ms = run :: ms' ∧ (Piece.plus cls).Takes run ∧
      Stops cls rest ∧ Tight ps rest ms' := by
  cases h with
  | plus htakes hstops hrest => exact ⟨_, _, _, rfl, rfl, htakes, hstops, hrest⟩

/-- A run behind which the text stops is the longest. -/
theorem length_le_of_stops {run run' rest' : List α} (hstops : Stops cls rest)
    (heq : run ++ rest = run' ++ rest') (htakes : ∀ c ∈ run', cls c = true) :
    run'.length ≤ run.length := by
  rcases List.append_eq_append_iff.1 heq with ⟨l, rfl, rfl⟩ | ⟨l, rfl, rfl⟩
  · cases l with
    | nil => exact Nat.le_of_eq (congrArg List.length (List.append_nil run))
    | cons c l =>
        have hc := htakes c (List.mem_append_right run List.mem_cons_self)
        rw [hstops c rfl] at hc
        cases hc
  · rw [List.length_append]
    exact Nat.le_add_right _ _

/-- **A fit in which no run can be extended is the best one.** -/
theorem Tight.best (h : Tight ps cs ms) : Best ps cs ms := by
  refine ⟨h.fits, ?_⟩
  induction h with
  | nil cs => exact fun _ _ => trivial
  | one hc _ ih =>
      intro ms' hfits
      obtain ⟨m, rest', ms', heq, rfl, ⟨d, rfl, -⟩, hrest⟩ := hfits.cons_inv
      obtain ⟨-, rfl⟩ := List.cons.inj heq
      exact Or.inr ⟨rfl, ih _ hrest⟩
  | plus htakes hstops _ ih =>
      intro ms' hfits
      obtain ⟨run', rest', ms', heq, rfl, htakes', hrest⟩ := hfits.cons_inv
      rcases Nat.lt_or_eq_of_le (length_le_of_stops hstops heq htakes'.2) with hlt | hlength
      · exact Or.inl hlt
      · obtain ⟨rfl, rfl⟩ := List.append_inj heq hlength.symm
        exact Or.inr ⟨rfl, ih _ hrest⟩

/-- Behind every run comes a character that is not of its class, or the end of the pattern. -/
def Separated : List (Piece α) → Prop
  | [] => True
  | .one _ :: ps => Separated ps
  | .plus _ :: [] => True
  | .plus cls :: .one sep :: ps => (∀ c, sep c = true → cls c = false) ∧ Separated (.one sep :: ps)
  | .plus _ :: .plus _ :: _ => False

/-- **Where runs are separated the best fit is the one in which no run can be extended.** -/
theorem best_iff_tight (hsep : Separated ps) : Best ps cs ms ↔ Tight ps cs ms := by
  refine ⟨fun hbest => ?_, Tight.best⟩
  fun_induction Separated ps generalizing cs ms with
  | case1 =>
      rw [hbest.fits.nil_inv]
      exact .nil cs
  | case2 cls ps ih =>
      obtain ⟨m, rest, ms, rfl, rfl, ⟨c, rfl, hc⟩, hrest⟩ := hbest.cons_inv
      exact .one hc (ih hsep hrest)
  | case3 cls =>
      obtain ⟨run, rest, ms, rfl, rfl, htakes, hrest⟩ := hbest.cons_inv
      obtain rfl := hrest.fits.nil_inv
      refine .plus htakes (fun c hc => ?_) (.nil rest)
      obtain ⟨rest, rfl⟩ := List.head?_eq_some_iff.1 hc
      -- one character more would be preferred
      refine Bool.eq_false_iff.2 fun hcls => ?_
      have hlonger : Fits [.plus cls] (run ++ [c] ++ rest) [run ++ [c]] :=
        .cons ⟨by simp, fun d hd => (List.mem_append.1 hd).elim (htakes.2 d) fun hd => by
          rw [List.mem_singleton.1 hd]
          exact hcls⟩ (.nil rest)
      rw [List.append_assoc, List.singleton_append] at hlonger
      have hprefers := hbest.prefers _ hlonger
      simp only [Prefers, List.length_append, List.length_singleton] at hprefers
      omega
  | case4 cls sep ps ih =>
      obtain ⟨run, rest, ms, rfl, rfl, htakes, hrest⟩ := hbest.cons_inv
      refine .plus htakes (fun c hc => ?_) (ih hsep.2 hrest)
      obtain ⟨m, rest, ms, rfl, -, ⟨d, rfl, hd⟩, -⟩ := hrest.cons_inv
      obtain rfl := Option.some.inj hc
      exact hsep.1 d hd
  | case5 => exact hsep.elim

/-- **A text with a fit has a leftmost match.** -/
theorem exists_first (hcs : cs = pre ++ rest) (hfits : Fits ps rest ms) :
    ∃ pre' ms', First ps cs pre' ms' := by
  cases hfound : search ps cs with
  | none => exact absurd hfits (search_eq_none hfound hcs)
  | some m => exact ⟨m.1, m.2, first_of_search hfound⟩

/-! ## Patterns with wider classes -/

/-- The same piece, or a single character of a wider class. -/
def Piece.Wider : Piece α → Piece α → Prop
  | .one cls, .one cls' => ∀ c, cls c = true → cls' c = true
  | .plus cls, .plus cls' => cls = cls'
  | _, _ => False

variable {qs : List (Piece α)}

/-- **What is tight stays tight** where the classes of single characters are wider. -/
theorem Tight.wider (h : Tight ps cs ms) (hwider : List.Forall₂ Piece.Wider ps qs) :
    Tight qs cs ms := by
  induction h generalizing qs with
  | nil cs =>
      rw [List.forall₂_nil_left_iff.1 hwider]
      exact .nil cs
  | one hc _ ih =>
      obtain ⟨q, qs, hpart, hrest, rfl⟩ := List.forall₂_cons_left_iff.1 hwider
      cases q with
      | one cls' => exact .one (hpart _ hc) (ih hrest)
      | plus cls' => exact hpart.elim
  | plus htakes hstops _ ih =>
      obtain ⟨q, qs, hpart, hrest, rfl⟩ := List.forall₂_cons_left_iff.1 hwider
      cases q with
      | one cls' => exact hpart.elim
      | plus cls' =>
          cases hpart
          exact .plus htakes hstops (ih hrest)

section

variable {pre' : List α} (hsep : Separated ps) (hwider : List.Forall₂ Piece.Wider ps qs)
  (h : First ps cs pre ms) (h' : First qs cs pre' ms')

include hsep hwider h h'

/-- **The leftmost match of a wider pattern is not to the right.** -/
theorem First.le_of_wider : pre'.length ≤ pre.length := by
  obtain ⟨rest, hcs, hbest⟩ := h.here
  exact h'.leftmost _ _ _ hcs (((best_iff_tight hsep).1 hbest).wider hwider).fits

/-- **At the same place it is the same match.** -/
theorem First.eq_of_wider (hlength : pre'.length = pre.length) : pre' = pre ∧ ms' = ms := by
  obtain ⟨rest, hcs, hbest⟩ := h.here
  obtain ⟨rest', hcs', hbest'⟩ := h'.here
  obtain ⟨rfl, rfl⟩ := List.append_inj (hcs'.symm.trans hcs) hlength
  exact ⟨rfl, hbest'.unique (((best_iff_tight hsep).1 hbest).wider hwider).best⟩

end

end

end NatsClient.Foundation.Pattern
