import NatsClient.Reconnect.IpParser

/-!
# The texts that are parsed as addresses

* `parseIP_eq_some_iff`: what is accepted is the text of an address, with any text behind it if it
  ends in a dotted quad: nothing looks at what is left behind the fourth octet;
* `parseIP_iff`: apart from these texts, just the texts of addresses are accepted, each as the bytes
  it denotes;
* `not_parseIP_short`: more than four digits in a group are accepted.
-/

set_option autoImplicit false

namespace NatsClient.Reconnect

/-- What may be behind the text of an address: a text in front of which no number goes on, if the
address ends in a dotted quad. -/
def Trail (q r : Units) : Prop := r = [] ∨ dot ∈ q ∧ Stops decimalDigit r

/-- The bytes with zeros at a place. -/
def elided (k : Nat) (bs : List UInt8) : List UInt8 :=
  bs.take k ++ List.replicate (16 - bs.length) 0 ++ bs.drop k

section

variable {done bs bs' ip : List UInt8} {e : Option Nat} {s q r g l : Units} {n k left : Nat}
  {st : Reading} {more : Bool}

/-! ## The end of the loop -/

theorem groups_eq (st : Reading) : groups st = (turns 8 st).bind finish := by
  rw [groups]
  cases turns 8 st <;> rfl

theorem finish_of_ne_nil (hs : s ≠ []) : finish (.behind done e s) = none :=
  if_pos fun hzero => hs (List.length_eq_zero_iff.1 hzero)

theorem finish_none_iff (hle : done.length ≤ 16) :
    finish (.behind done none []) = some ip ↔ done.length = 16 ∧ ip = done := by
  have hfinish : finish (.behind done none []) = if done.length < 16 then none else some
      (padded done) := rfl
  rw [hfinish]
  by_cases hlt : done.length < 16
  · rw [if_pos hlt]
    exact iff_of_false (fun h => by cases h) fun h => absurd h.1 (Nat.ne_of_lt hlt)
  · have hlength : done.length = 16 := by omega
    have hpadded : padded done = done := by
      rw [padded, hlength]
      exact List.append_nil done
    rw [if_neg hlt, hpadded, Option.some.injEq, and_iff_right hlength, eq_comm]

theorem finish_some_iff (hk : k ≤ done.length) :
    finish (.behind done (some k) []) = some ip ↔ done.length < 16 ∧ ip = elided k done := by
  have hfinish : finish (.behind done (some k) []) =
      if done.length < 16 then some (expand (padded done) k done.length) else none := rfl
  rw [hfinish]
  by_cases hlt : done.length < 16
  · rw [if_pos hlt, expand_padded hk hlt, Option.some.injEq, and_iff_right hlt, eq_comm]
    rfl
  · rw [if_neg hlt]
    exact iff_of_false (fun h => by cases h) fun h => hlt h.1

/-! ## What is in front of a text -/

theorem Group.dot_not_mem (hg : Group g n) : dot ∉ g := fun hmem => hg.digits dot hmem (by decide)

theorem Pieces.cons_ne_colon (hq : Pieces q bs) : ∃ c q', q = c :: q' ∧ c ≠ colon := by
  have hnumeral : ∀ {digit : UInt16 → Option Nat} {base n : Nat} {t : Units} (r : Units),
      Numeral digit base t n → digit colon = none → ∃ c q', t ++ r = c :: q' ∧ c ≠ colon := by
    intro digit base n t r ht hcolon
    obtain ⟨c, t', rfl, hc⟩ := ht.cons
    refine ⟨c, t' ++ r, rfl, ?_⟩
    rintro rfl
    exact hc hcolon
  cases hq with
  | group hg =>
      have hcons := hnumeral [] hg.toNumeral (by decide)
      rw [List.append_nil] at hcons
      exact hcons
  | quad hq =>
      obtain ⟨ho, -, -, -⟩ := hq
      exact hnumeral _ ho.toNumeral (by decide)
  | cons hg _ => exact hnumeral _ hg.toNumeral (by decide)

theorem Trail.of_cons (hg : Group g n) (ht : Trail (g ++ colon :: q) r) : Trail q r := by
  rcases ht with hnil | ⟨hdot, hr⟩
  · exact .inl hnil
  · rcases List.mem_append.1 hdot with hdot | hdot
    · exact absurd hdot hg.dot_not_mem
    · rcases List.mem_cons.1 hdot with heq | hdot
      · exact absurd heq (by decide)
      · exact .inr ⟨hdot, hr⟩

theorem Trail.cons (g : Units) (ht : Trail q r) : Trail (g ++ q) r :=
  ht.imp_right fun h => ⟨List.mem_append_right g h.1, h.2⟩

theorem Trail.stops (ht : Trail q r) : Stops decimalDigit r := by
  rcases ht with rfl | ⟨-, hr⟩
  · exact fun c hc => by cases hc
  · exact hr

theorem Trail.eq_nil (ht : Trail q r) (hdot : dot ∉ q) : r = [] :=
  ht.resolve_right fun h => hdot h.1

theorem DottedQuad.dot_mem (hq : DottedQuad q bs) : dot ∈ q := by
  cases hq
  exact List.mem_append_right _ List.mem_cons_self

/-! ## Reading -/

/-- The loop takes a turn and goes on, or it ends. -/
theorem turns_succ_iff (hroom : done.length + 2 ≤ 16) :
    (turns (left + 1) (.behind done e s)).bind finish = some ip ↔
      ∃ st more, Turn done e s st more ∧
        (if more then (turns left st).bind finish else finish st) = some ip := by
  have hlt : (Reading.behind done e s).i < IPv6LEN := show done.length < 16 by omega
  rw [turns, if_pos hlt]
  constructor
  · intro h
    cases hturn : turn (.behind done e s) with
    | none =>
        rw [hturn] at h
        cases h
    | some x =>
        obtain ⟨st, more⟩ := x
        rw [hturn] at h
        refine ⟨st, more, (turn_iff hroom).1 hturn, ?_⟩
        cases more with
        | true => exact h
        | false => exact h
  · rintro ⟨st, more, hturn, h⟩
    rw [(turn_iff hroom).2 hturn]
    cases more with
    | true => exact h
    | false => exact h

/-- **Pieces are read**, and then the loop ends. -/
theorem read_of_pieces (hp : Pieces q bs) (hroom : done.length + 2 * left = 16)
    (hle : done.length + bs.length ≤ 16) (hfull : e = none → done.length + bs.length = 16)
    (ht : Trail q r) (hread : finish (.behind (done ++ bs) e []) = some ip) :
    (turns left (.behind done e (q ++ r))).bind finish = some ip := by
  induction hp generalizing left done with
  | @group g n hg =>
      rw [length_pair] at hle
      obtain ⟨left, rfl⟩ : ∃ left', left = left' + 1 := ⟨left - 1, by omega⟩
      rw [turns_succ_iff (by omega), ht.eq_nil hg.dot_not_mem, List.append_nil]
      exact ⟨_, false, .last hg, hread⟩
  | @quad q bs hq =>
      rw [hq.length] at hle hfull
      obtain ⟨left, rfl⟩ : ∃ left', left = left' + 1 := ⟨left - 1, by omega⟩
      rw [turns_succ_iff (by omega)]
      exact ⟨_, false, .quad hq ht.stops (fun he => by have := hfull he; omega) hle, hread⟩
  | @cons g q n bs hg hp ih =>
      rw [List.length_append, length_pair] at hle hfull
      obtain ⟨left, rfl⟩ : ∃ left', left = left' + 1 := ⟨left - 1, by omega⟩
      rw [turns_succ_iff (by omega), List.append_assoc, List.cons_append]
      obtain ⟨c, q', rfl, hc⟩ := hp.cons_ne_colon
      refine ⟨_, true, .next hg (List.cons_ne_nil _ _) fun heq => hc (Option.some.inj heq), ?_⟩
      have hlength : (done ++ pair n).length = done.length + 2 := List.length_append
      refine ih (by omega) (by omega) (fun he => by have := hfull he; omega) (ht.of_cons hg) ?_
      rw [List.append_assoc]
      exact hread

/-- **What is read is pieces**, with two colons among the groups in front of them. -/
theorem pieces_of_read (hroom : done.length + 2 * left = 16) (hs : s ≠ [])
    (hread : (turns left (.behind done e s)).bind finish = some ip) :
    (∃ q r bs, s = q ++ r ∧ Trail q r ∧ Pieces q bs ∧ done.length + bs.length ≤ 16 ∧
      finish (.behind (done ++ bs) e []) = some ip) ∨
    e = none ∧ ∃ l q r bs bs', s = l ++ colon :: colon :: (q ++ r) ∧ Groups l bs ∧ Trail q r ∧
      (q = [] ∧ bs' = [] ∨ Pieces q bs') ∧
        finish (.behind (done ++ bs ++ bs') (some (done ++ bs).length) []) = some ip := by
  induction left generalizing done e s with
  | zero =>
      -- sixteen bytes are there, and something is left to read
      rw [turns, Option.bind_some, finish_of_ne_nil hs] at hread
      cases hread
  | succ left ih =>
      have hlength : ∀ n, (done ++ pair n).length = done.length + 2 := fun n => List.length_append
      obtain ⟨st, more, hturn, hrest⟩ := (turns_succ_iff (by omega)).1 hread
      cases hturn with
      | @quad q r bs hq hr hplace hroom' =>
          refine .inl ⟨q, r, bs, rfl, ?_, .quad hq, ?_, hrest⟩
          · exact .inr ⟨hq.dot_mem, hr⟩
          · rw [hq.length]
            exact hroom'
      | @last g n hg =>
          refine .inl ⟨_, [], _, (List.append_nil _).symm, .inl rfl, .group hg, ?_, hrest⟩
          rw [length_pair]
          omega
      | @next g s n hg hs' hcolon =>
          rcases ih (by rw [hlength]; omega) hs' hrest with
            ⟨q, r, bs, rfl, ht, hp, hle, hfinish⟩ | ⟨he, l, q, r, bs, bs', rfl, hl, ht, hq, hfinish⟩
          · -- the two colons were in front, or come later
            refine .inl ⟨g ++ colon :: q, r, pair n ++ bs, ?_, ?_, .cons hg hp, ?_, ?_⟩
            · simp only [List.append_assoc, List.cons_append]
            · exact .cons g (.cons [colon] ht)
            · rw [List.length_append, length_pair]
              rw [hlength] at hle
              omega
            · rw [← List.append_assoc]
              exact hfinish
          · refine .inr ⟨he, g ++ colon :: l, q, r, pair n ++ bs, bs', ?_, .cons hg hl, ht, hq, ?_⟩
            · simp only [List.append_assoc, List.cons_append]
            · rw [← List.append_assoc]
              exact hfinish
      | @elide g s n hg he =>
          subst he
          rw [← hlength n] at hrest
          rcases Classical.em (s = []) with rfl | hne
          · exact .inr ⟨rfl, g, [], [], pair n, [], rfl, .one hg, .inl rfl, .inl ⟨rfl, rfl⟩,
              (List.append_nil (done ++ pair n)).symm ▸ hrest⟩
          · have hmore : decide (s.length ≠ 0) = true :=
              decide_eq_true fun hzero => hne (List.length_eq_zero_iff.1 hzero)
            rw [hmore] at hrest
            rcases ih (by rw [hlength]; omega) hne hrest with
              ⟨q, r, bs, rfl, ht, hp, -, hfinish⟩ | ⟨he, -⟩
            · exact .inr ⟨rfl, g, q, r, pair n, bs, rfl, .one hg, ht, .inr hp, hfinish⟩
            · -- two colons come once
              cases he

theorem Groups.pieces (hl : Groups l bs) : Pieces l bs := by
  induction hl with
  | one hg => exact .group hg
  | cons hg _ ih => exact .cons hg ih

theorem Groups.dot_not_mem (hl : Groups l bs) : dot ∉ l := by
  induction hl with
  | one hg => exact hg.dot_not_mem
  | cons hg _ ih =>
      intro hmem
      rcases List.mem_append.1 hmem with hmem | hmem
      · exact hg.dot_not_mem hmem
      · rcases List.mem_cons.1 hmem with heq | hmem
        · exact absurd heq (by decide)
        · exact ih hmem

/-- **Groups with two colons behind them are read**, and then the pieces behind these. -/
theorem read_of_groups (hl : Groups l bs) (hroom : done.length + 2 * left = 16)
    (hq : q = [] ∧ bs' = [] ∨ Pieces q bs') (ht : Trail q r)
    (hlt : done.length + (bs.length + bs'.length) < 16)
    (hread : finish (.behind (done ++ bs ++ bs') (some (done ++ bs).length) []) = some ip) :
    (turns left (.behind done none (l ++ colon :: colon :: (q ++ r)))).bind finish = some ip := by
  induction hl generalizing left done with
  | @one g n hg =>
      rw [length_pair] at hlt
      have hlength : (done ++ pair n).length = done.length + 2 := List.length_append
      obtain ⟨left, rfl⟩ : ∃ left', left = left' + 1 := ⟨left - 1, by omega⟩
      rw [turns_succ_iff (by omega)]
      refine ⟨_, _, .elide hg rfl, ?_⟩
      rw [← hlength]
      rcases hq with ⟨rfl, rfl⟩ | hq
      · obtain rfl := ht.eq_nil List.not_mem_nil
        rw [List.append_nil] at hread
        exact hread
      · obtain ⟨c, q', heq, -⟩ := hq.cons_ne_colon
        have hmore : decide ((q ++ r).length ≠ 0) = true := by simp [heq]
        rw [hmore]
        exact read_of_pieces hq (by omega) (by omega) (fun he => by cases he) ht hread
  | @cons g l n bs hg hl ih =>
      rw [List.length_append, length_pair] at hlt
      have hlength : (done ++ pair n).length = done.length + 2 := List.length_append
      obtain ⟨left, rfl⟩ : ∃ left', left = left' + 1 := ⟨left - 1, by omega⟩
      rw [turns_succ_iff (by omega), List.append_assoc, List.cons_append]
      obtain ⟨c, l', rfl, hc⟩ := hl.pieces.cons_ne_colon
      refine ⟨_, true, .next hg (List.cons_ne_nil _ _) fun heq => hc (Option.some.inj heq), ?_⟩
      refine ih (by omega) (by omega) ?_
      rw [List.append_assoc done]
      exact hread

/-! ## The texts that are accepted -/

theorem elided_append (bs bs' : List UInt8) :
    elided bs.length (bs ++ bs') =
      bs ++ List.replicate (16 - (bs.length + bs'.length)) 0 ++ bs' := by
  rw [elided, List.take_left, List.drop_left, List.length_append]

theorem groups_behind (e : Option Nat) (s : Units) :
    groups ⟨List.replicate IPv6LEN 0, e, 0, s⟩ = (turns 8 (.behind [] e s)).bind finish :=
      groups_eq _

/-- Where the text does not start with two colons. -/
theorem parseIPv6_groups {c : UInt16} (hstart : ¬ (c = colon ∧ s[0]? = some colon)) :
    parseIPv6 (c :: s) = (turns 8 (.behind [] none (c :: s))).bind finish := by
  rw [parseIPv6, if_neg fun hboth => hstart ⟨Option.some.inj hboth.2.1, hboth.2.2⟩, groups_behind]

/-- Where it does. -/
theorem parseIPv6_elided (s : Units) :
    parseIPv6 (colon :: colon :: s) =
      if s.length = 0 then some (List.replicate IPv6LEN 0)
      else (turns 8 (.behind [] (some 0) s)).bind finish := by
  have hstart : 2 ≤ (colon :: colon :: s).length ∧ (colon :: colon :: s)[0]? = some colon ∧
      (colon :: colon :: s)[1]? = some colon := ⟨Nat.le_add_left 2 s.length, rfl, rfl⟩
  rw [parseIPv6, if_pos hstart]
  simp only [groups_behind, List.drop_succ_cons, List.drop_zero]

/-- **What `parseIPv6` accepts.** -/
theorem parseIPv6_iff : parseIPv6 s = some ip ↔ ∃ q r, s = q ++ r ∧ Trail q r ∧ Long q ip := by
  constructor
  · intro h
    match s with
    | [] => cases h
    | c :: s =>
        by_cases hstart : c = colon ∧ s[0]? = some colon
        · obtain ⟨rfl, hstart⟩ := hstart
          obtain ⟨s, rfl⟩ : ∃ s', s = colon :: s' := by
            cases s with
            | nil => cases hstart
            | cons d s => exact ⟨s, by rw [Option.some.inj hstart]⟩
          -- a text that starts with two colons
          rw [parseIPv6_elided] at h
          split at h
          · next hzero =>
              obtain rfl := List.length_eq_zero_iff.1 hzero
              obtain rfl := Option.some.inj h
              exact ⟨[colon, colon], [], rfl, .inl rfl,
                .elided (.inl ⟨rfl, rfl⟩) (.inl ⟨rfl, rfl⟩) (by decide)⟩
          · next hne =>
              have hs : s ≠ [] := fun hnil => hne (List.length_eq_zero_iff.2 hnil)
              rcases pieces_of_read rfl hs h with ⟨q, r, bs, rfl, ht, hp, -, hfinish⟩ | ⟨he, -⟩
              · obtain ⟨hlt, rfl⟩ := (finish_some_iff (Nat.zero_le _)).1 hfinish
                refine ⟨colon :: colon :: q, r, rfl, .cons [colon, colon] ht, ?_⟩
                have hlong :=
                  Long.elided (.inl ⟨rfl, rfl⟩) (.inr hp) ((Nat.zero_add bs.length).symm ▸ hlt)
                exact elided_append [] bs ▸ hlong
              · cases he
        · -- a text that starts with a group
          rw [parseIPv6_groups hstart] at h
          rcases pieces_of_read rfl (List.cons_ne_nil c s) h with
            ⟨q, r, bs, hs, ht, hp, hle, hfinish⟩ | ⟨-, l, q, r, bs, bs', hs, hl, ht, hq, hfinish⟩
          · obtain ⟨hlength, rfl⟩ := (finish_none_iff (List.length_append ▸ hle)).1 hfinish
            exact ⟨q, r, hs, ht, .full hp hlength⟩
          · rw [List.nil_append] at hfinish
            obtain ⟨hlt, rfl⟩ := (finish_some_iff (by rw [List.length_append]; omega)).1 hfinish
            refine ⟨l ++ colon :: colon :: q, r, by simp [hs], ?_, ?_⟩
            · exact .cons l (.cons [colon, colon] ht)
            · rw [elided_append]
              exact .elided (.inr hl) hq (List.length_append ▸ hlt)
  · rintro ⟨q, r, rfl, ht, hlong⟩
    cases hlong with
    | full hp hlength =>
        obtain ⟨c, q', rfl, hc⟩ := hp.cons_ne_colon
        rw [List.cons_append, parseIPv6_groups fun hboth => hc hboth.1, ← List.cons_append]
        refine read_of_pieces hp rfl ?_ (fun _ => ?_) ht ((finish_none_iff ?_).2 ⟨hlength, rfl⟩)
        · rw [hlength]
          exact Nat.le_refl 16
        · rw [hlength]
          rfl
        · exact Nat.le_of_eq hlength
    | @elided l q bs bs' hl hq hlength =>
        have hfinish : finish (.behind (bs ++ bs') (some bs.length) []) =
            some (bs ++ List.replicate (16 - (bs.length + bs'.length)) 0 ++ bs') := by
          rw [finish_some_iff (by rw [List.length_append]; omega), elided_append,
            List.length_append]
          exact ⟨hlength, rfl⟩
        -- groups have no dot, so the quad that the trail needs is behind the colons
        have hdots : Trail q r := by
          rcases ht with hnil | ⟨hdot, hr⟩
          · exact .inl hnil
          · refine .inr ⟨?_, hr⟩
            rcases List.mem_append.1 hdot with hmem | hmem
            · rcases hl with ⟨rfl, -⟩ | hl
              · cases hmem
              · exact absurd hmem hl.dot_not_mem
            · simpa [dot, colon] using hmem
        rcases hl with ⟨rfl, rfl⟩ | hl
        · rw [List.nil_append, List.cons_append, List.cons_append, parseIPv6_elided]
          rcases hq with ⟨rfl, rfl⟩ | hq
          · obtain rfl := hdots.eq_nil List.not_mem_nil
            rfl
          · obtain ⟨c, q', heq, -⟩ := hq.cons_ne_colon
            rw [if_neg (by simp [heq])]
            exact read_of_pieces hq rfl (by simp at hlength ⊢; omega)
              (fun he => by cases he) hdots hfinish
        · obtain ⟨c, l', heq, hc⟩ := hl.pieces.cons_ne_colon
          have hread := @read_of_groups [] bs bs' _ q r l 8 hl rfl hq hdots
            (by simp at hlength ⊢; omega) hfinish
          rw [heq] at hread ⊢
          simp only [List.append_assoc, List.cons_append] at hread ⊢
          rw [parseIPv6_groups fun hboth => hc hboth.1]
          exact hread

theorem find_digits (hs : ∀ c ∈ g, c ≠ dot ∧ c ≠ colon) {c : UInt16} (hc : c = dot ∨ c = colon)
    (r : Units) : (g ++ c :: r).find? (fun c => c = dot ∨ c = colon) = some c := by
  have hnone : g.find? (fun c => c = dot ∨ c = colon) = none := by
    rw [List.find?_eq_none]
    intro c hc
    rw [decide_eq_true_eq, not_or]
    exact hs c hc
  rw [List.find?_append, hnone, Option.none_or, List.find?_cons, decide_eq_true hc]

theorem Group.plain (hg : Group g n) : ∀ c ∈ g, c ≠ dot ∧ c ≠ colon := by
  intro c hc
  refine ⟨?_, ?_⟩
  · rintro rfl
    exact hg.digits _ hc (by decide)
  · rintro rfl
    exact hg.digits _ hc (by decide)

/-- A text with a dotted quad in front goes to `parseIPv4`. -/
theorem parseIP_of_dottedQuad (hq : DottedQuad q bs) (r : Units) :
    parseIP (q ++ r) = parseIPv4 (q ++ r) := by
  obtain ⟨ho, -, -, -⟩ := hq
  obtain ⟨m, hm⟩ := ho.hex
  rw [parseIP, List.append_assoc, List.cons_append, find_digits hm.plain (.inl rfl)]
  exact if_pos rfl

/-- A text with a long address in front goes to `parseIPv6`. -/
theorem parseIP_of_long (hlong : Long q ip) (r : Units) :
    parseIP (q ++ r) = parseIPv6 (q ++ r) := by
  obtain ⟨g, q', hplain, heq⟩ : ∃ g q', (∀ c ∈ g, c ≠ dot ∧ c ≠ colon) ∧
      q ++ r = g ++ colon :: q' := by
    cases hlong with
    | full hp hlength =>
        cases hp with
        | group hg => cases hlength
        | quad hq =>
            rw [hq.length] at hlength
            cases hlength
        | cons hg hp =>
            rw [List.append_assoc, List.cons_append]
            exact ⟨_, _, hg.plain, rfl⟩
    | elided hl hq hlength =>
        rcases hl with ⟨rfl, rfl⟩ | hl
        · exact ⟨[], _, fun c hc => absurd hc List.not_mem_nil, rfl⟩
        · cases hl with
          | one hg =>
              rw [List.append_assoc, List.cons_append]
              exact ⟨_, _, hg.plain, rfl⟩
          | cons hg hl =>
              simp only [List.append_assoc, List.cons_append]
              exact ⟨_, _, hg.plain, rfl⟩
  rw [parseIP, heq, find_digits hplain (.inr rfl)]
  exact if_neg (by decide)

/-- **What `parseIP` accepts**: the text of an address, and any text behind a dotted quad at its
end. -/
theorem parseIP_eq_some_iff :
    parseIP s = some ip ↔ ∃ q r, s = q ++ r ∧ Trail q r ∧ Address q ip := by
  constructor
  · intro h
    rw [parseIP] at h
    split at h
    · cases h
    · split at h
      · obtain ⟨q, r, bs, hs, hq, hr, rfl⟩ := parseIPv4_iff.1 h
        exact ⟨q, r, hs, .inr ⟨hq.dot_mem, hr⟩, .short hq⟩
      · obtain ⟨q, r, hs, ht, hlong⟩ := parseIPv6_iff.1 h
        exact ⟨q, r, hs, ht, .long hlong⟩
  · rintro ⟨q, r, rfl, ht, haddress⟩
    cases haddress with
    | @short bs hq =>
        rw [parseIP_of_dottedQuad hq]
        exact parseIPv4_iff.2 ⟨q, r, bs, rfl, hq, ht.stops, rfl⟩
    | long hlong =>
        rw [parseIP_of_long hlong]
        exact parseIPv6_iff.2 ⟨q, r, rfl, ht, hlong⟩

/-- Text goes on behind the last octet of an address. -/
def Trails (s : Units) : Prop :=
  ∃ q r ip, s = q ++ r ∧ r ≠ [] ∧ Address q ip ∧ dot ∈ q ∧ Stops decimalDigit r

/-- **Just the texts of addresses are accepted**, where no text goes on behind a last octet. -/
theorem parseIP_iff (s : Units) (ip : List UInt8) (hs : ¬ Trails s) :
    parseIP s = some ip ↔ Address s ip := by
  rw [parseIP_eq_some_iff]
  constructor
  · rintro ⟨q, r, rfl, ht, haddress⟩
    rcases Classical.em (r = []) with rfl | hne
    · rw [List.append_nil]
      exact haddress
    · obtain ⟨hdot, hr⟩ := ht.resolve_left hne
      exact absurd ⟨q, r, ip, rfl, hne, haddress, hdot, hr⟩ hs
  · exact fun haddress => ⟨s, [], (List.append_nil s).symm, .inl rfl, haddress⟩

/-- A text with two colons among its groups. -/
theorem parseIP_iff_elided :
    Address (codeUnits "2001:4860:0:2001::68")
      [0x20, 0x01, 0x48, 0x60, 0, 0, 0x20, 0x01, 0, 0, 0, 0, 0, 0, 0x00, 0x68] := by
  have hs : ¬ Trails (codeUnits "2001:4860:0:2001::68") := by
    rintro ⟨q, r, ip, hs, -, -, hdot, -⟩
    have hmem : dot ∈ codeUnits "2001:4860:0:2001::68" := hs ▸ List.mem_append_left r hdot
    exact absurd hmem (by decide)
  exact (parseIP_iff _ _ hs).1 (by decide +kernel)

example : parseIP (codeUnits "0:0:0:0::ffff:127.1.2.3") = some (mapped [127, 1, 2, 3]) :=
  by decide +kernel

example : parseIP (codeUnits "a1:a2:a3:a4::b1:b2:b3:b4") = none := by decide +kernel

/-- A group may have more than four digits. -/
theorem not_parseIP_short :
    ¬ ∀ (s : Units) (ip : List UInt8), parseIP s = some ip ↔ Address s ip ∧ Short s := by
  intro hall
  have hread : parseIP (codeUnits "0:0:0:0:000000:ffff:127.1.2.3") = some
      (mapped [127, 1, 2, 3]) := by
    decide +kernel
  have hshort := ((hall _ _).1 hread).2
  revert hshort
  decide +kernel

end

end NatsClient.Reconnect
