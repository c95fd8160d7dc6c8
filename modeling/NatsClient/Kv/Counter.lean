import NatsClient.Kv.Create
import Mathlib.Logic.Function.Iterate
import Mathlib.Data.List.Perm.Basic

/-!
# Reading, computing and updating

Clients that share a value in a bucket read it, compute the next one from what they read, and
`update` the version they read; who loses reads again. What they read may be old, requests and
answers may be late or lost, and other keys are edited at will.

No step is lost and none is made twice (`updates_counted`): the value is what the updates that were
stored make of the first one after another, each call is stored at most once, and a call that
resolves was.
-/

set_option autoImplicit false

namespace NatsClient.Kv

open NatsClient.Foundation NatsClient.JetStream

/-- The key that a call edits. -/
def Call.key : Call → Text
  | .create k _ | .put k _ _ | .update k _ _ | .delete k _ | .purge k _ => k

namespace Clients

section

variable (b : Bucket) (route : Text → Text) (subject : Text) (f : List UInt8 → List UInt8)

/-- The call updates a version that the subject had once, with what `f` makes of its value. -/
def Computed (past : List Msg) (c : Call) : Prop :=
  ∃ m ∈ past, m.subject = subject ∧ ∃ k, c = .update k (f m.body.data) m.seq

/-- All edits of the subject are of this kind, and its last message is not removed. -/
def Careful (s : Clients) : Event → Prop
  | .call c => route (editSubject b c.key) = subject → Computed subject f s.past c
  | .remove seq => s.stream.lastSeqFor subject ≠ seq
  | .serve .. | .refuse .. | .serveGet .. | .answer _ | .lose _ | .fail _ => True

/-- The call whose publication the event stores on the subject. -/
def stores (s : Clients) : Event → List Nat
  | .serve n _ =>
      match s.requests[n]? with
      | some (i, p) =>
          if route p.subject = subject ∧ s.stream.accepts (routed route p) = true then [i] else []
      | none => []
  | .call _ | .refuse .. | .serveGet .. | .answer _ | .lose _ | .fail _ | .remove _ => []

/-- Call `i` edits the subject. -/
def Edits (s : Clients) (i : Nat) : Prop :=
  ∃ c, s.callOf i = some c ∧ route (editSubject b c.key) = subject

end

instance decidableComputed (subject : Text) (f : List UInt8 → List UInt8) (past : List Msg) :
    (c : Call) → Decidable (Computed subject f past c)
  | .update k data version =>
      decidable_of_iff (∃ m ∈ past, m.subject = subject ∧ data = f m.body.data ∧ version = m.seq)
        ⟨fun ⟨m, hm, hsubject, hdata, hversion⟩ => ⟨m, hm, hsubject, k, by rw [hdata, hversion]⟩,
          fun ⟨m, hm, hsubject, _, heq⟩ => by
            cases heq
            exact ⟨m, hm, hsubject, rfl, rfl⟩⟩
  | .create .. | .put .. | .delete .. | .purge .. => isFalse fun ⟨_, _, _, _, heq⟩ => by cases heq

instance decidableCareful (b : Bucket) (route : Text → Text) (subject : Text)
    (f : List UInt8 → List UInt8) (s : Clients) :
    (e : Event) → Decidable (Careful b route subject f s e)
  | .call _ => inferInstanceAs (Decidable (_ → _))
  | .remove _ => inferInstanceAs (Decidable (_ ≠ _))
  | .serve .. | .refuse .. | .serveGet .. | .answer _ | .lose _ | .fail _ => isTrue trivial

/-- The promise of call `i` resolved. -/
def Resolved (s : Clients) (i seq : Nat) : Prop :=
  ∃ c, s.callers[i]? = some c ∧ c.phase = .settled (.ok seq)

/-! ## One event -/

section

variable {b : Bucket} {route : Text → Text} {direct : Bool} {s s' : Clients} {e : Event}
    {i j seq : Nat}

theorem resolved_setPhase {phase : Phase} (h : (s.setPhase i phase).Resolved j seq) :
    s.Resolved j seq ∨ (j = i ∧ phase = .settled (.ok seq)) := by
  obtain ⟨c, hc, hphase⟩ := h
  simp only [setPhase, List.getElem?_modify] at hc
  obtain ⟨c', hc', hmodified⟩ := Option.map_eq_some_iff.1 hc
  by_cases hij : i = j
  · rw [if_pos hij] at hmodified
    rw [← hmodified] at hphase
    exact Or.inr ⟨hij.symm, hphase⟩
  · rw [if_neg hij] at hmodified
    rw [← hmodified] at hphase
    exact Or.inl ⟨c', hc', hphase⟩

/-- How call `i` takes an answer: it may send a request, unless it is an update, and resolves only
with the sequence it was answered with. -/
structure Reacts (s s' : Clients) (i : Nat) (a : Answer) : Prop where
  calls : ∀ j, s'.callOf j = s.callOf j
  length : s'.callers.length = s.callers.length
  requests : ∃ new, s'.requests = s.requests ++ new ∧ (∀ r ∈ new, r.1 = i) ∧
    ((∃ k data version, s.callOf i = some (.update k data version)) → new = [])
  answers : s'.answers = s.answers
  stream : s'.stream = s.stream
  past : s'.past = s.past
  resolved : ∀ j seq, s'.Resolved j seq → s.Resolved j seq ∨ (j = i ∧ a = .published (.ok seq))

theorem reacts_refl (s : Clients) (i : Nat) (a : Answer) : Reacts s s i a :=
  ⟨fun _ => rfl, rfl, ⟨[], (List.append_nil _).symm, fun _ hr => absurd hr List.not_mem_nil,
    fun _ => rfl⟩, rfl, rfl, rfl, fun _ _ h => Or.inl h⟩

theorem length_setPhase (s : Clients) (i : Nat) (phase : Phase) :
    (s.setPhase i phase).callers.length = s.callers.length := by
  simp only [setPhase, List.length_modify]

theorem reacts_setPhase (s : Clients) (i : Nat) {a : Answer} {phase : Phase}
    (hphase : ∀ seq, phase = .settled (.ok seq) → a = .published (.ok seq)) :
    Reacts s (s.setPhase i phase) i a where
  calls j := callOf_setPhase i j phase
  length := length_setPhase s i phase
  requests := ⟨[], (List.append_nil _).symm, fun _ hr => absurd hr List.not_mem_nil, fun _ => rfl⟩
  answers := rfl
  stream := rfl
  past := rfl
  resolved _ seq h := (resolved_setPhase h).imp id fun ⟨hj, hp⟩ => ⟨hj, hphase seq hp⟩

theorem Reacts.asks {a : Answer} (h : Reacts s s' i a) (gets : List (Nat × Text)) :
    Reacts s { s' with gets := gets } i a :=
  ⟨h.calls, h.length, h.requests, h.answers, h.stream, h.past, h.resolved⟩

theorem Reacts.sends {a : Answer} (h : Reacts s s' i a) (hsame : s'.requests = s.requests)
    (p : Publication Body)
    (hcall : ¬ ∃ k data version, s.callOf i = some (.update k data version)) :
    Reacts s { s' with requests := s'.requests ++ [(i, p)] } i a := by
  refine ⟨h.calls, h.length, ⟨[(i, p)], ?_, fun r hr => ?_, fun hupdate => absurd hupdate hcall⟩,
    h.answers, h.stream, h.past, h.resolved⟩
  · rw [hsame]
  · rw [List.mem_singleton.1 hr]

theorem reacts_receive (s : Clients) (i : Nat) (a : Answer) : Reacts s (s.receive b i a) i a := by
  unfold receive
  cases hi : s.callers[i]? with
  | none => exact reacts_refl s i a
  | some c =>
      have hcall : s.callOf i = some c.call := by simp only [callOf, hi, Option.map_some]
      have hgoes : ∀ (a : Answer) (phase : Phase), (∀ seq, phase = .settled (.ok seq) →
          a = .published (.ok seq)) → Reacts s (s.setPhase i phase) i a :=
            fun a phase hphase => reacts_setPhase s i hphase
      have herror : ∀ (a : Answer) (reason : Reason), Reacts s (s.settle i (.error reason)) i a :=
        fun a reason => hgoes a _ fun seq h => by cases h
      simp only
      split
      · rename_i seq _
        exact reacts_setPhase s i fun seq' h => by cases h; rfl
      · rename_i seq _
        exact reacts_setPhase s i fun seq' h => by cases h; rfl
      · exact herror _ _
      · split
        · rename_i k data hcreate
          unfold afterRejection
          split
          · exact herror _ _
          · split
            · exact (hgoes _ .getting fun seq h => by cases h).asks _
            · exact herror _ _
        all_goals exact herror _ _
      · split
        · rename_i k data hcreate
          unfold afterGet
          split
          · split
            · -- the second request of a `create`
              rename_i e _ _
              cases b.update k data e.revision with
              | error message => exact herror _ _
              | ok p =>
                  refine (hgoes _ .updating fun seq h => by cases h).sends rfl p ?_
                  rintro ⟨k', data', version, hupdate⟩
                  rw [hcall, hcreate] at hupdate
                  cases hupdate
            · exact herror _ _
          · exact herror _ _
        all_goals exact reacts_refl s i _
      all_goals exact reacts_refl s i _

/-- The calls behind a new one. -/
theorem callOf_start (s : Clients) (c : Call) (j : Nat) :
    (s.start b c).callOf j = if j = s.callers.length then some c else s.callOf j := by
  have hpublish : (s.start b c).callOf j =
      callOf { s with callers := s.callers ++ [⟨c, .publishing⟩] } j := by
    unfold start
    cases b.request c with
    | error message => exact callOf_setPhase _ _ _
    | ok p => exact callOf_setPhase _ _ _
  rw [hpublish]
  by_cases hj : j = s.callers.length
  · rw [if_pos hj, hj]
    simp only [callOf, List.getElem?_concat_length, Option.map_some]
  · rw [if_neg hj]
    by_cases hlt : j < s.callers.length
    · simp only [callOf, List.getElem?_append_left hlt]
    · have hge : s.callers.length + 1 ≤ j := by omega
      simp only [callOf]
      rw [List.getElem?_eq_none (by rw [List.length_append]; exact hge),
        List.getElem?_eq_none (by omega)]

/-- What a new call sends, and that it has not resolved. -/
theorem start_spec (s : Clients) (c : Call) :
    (∃ new, (s.start b c).requests = s.requests ++ new ∧
      (new = [] ∨ ∃ p, new = [(s.callers.length, p)])) ∧
      (s.start b c).answers = s.answers ∧ (s.start b c).stream = s.stream ∧
      (s.start b c).past = s.past ∧ ∀ j seq, (s.start b c).Resolved j seq → s.Resolved j seq := by
  have hgrown : ∀ j seq, Resolved { s with callers := s.callers ++ [⟨c, .publishing⟩] } j seq →
    s.Resolved j seq := by
    rintro j seq ⟨caller, hcaller, hphase⟩
    simp only [List.getElem?_append] at hcaller
    split at hcaller
    · exact ⟨caller, hcaller, hphase⟩
    · rw [List.getElem?_singleton] at hcaller
      split at hcaller
      · cases hcaller
        cases hphase
      · cases hcaller
  unfold start
  cases b.request c with
  | error message =>
      refine ⟨⟨[], (List.append_nil _).symm, Or.inl rfl⟩, rfl, rfl, rfl, fun j seq h => ?_⟩
      rcases resolved_setPhase h with h | ⟨-, h⟩
      · exact hgrown j seq h
      · cases h
  | ok p =>
      refine ⟨⟨[(s.callers.length, p)], rfl, Or.inr ⟨p, rfl⟩⟩, rfl, rfl, rfl, fun j seq h => ?_⟩
      rcases resolved_setPhase h with h | ⟨-, h⟩
      · exact hgrown j seq h
      · cases h

theorem Allowed.subject {past : List Msg} {c : Call} {p : Publication Body}
    (h : Allowed b past c p) : p.subject = editSubject b c.key := by
  cases c with
  | create k data => exact h.1
  | put k data previousSeq => exact h.1
  | update k data version => exact h.1
  | delete k previousSeq => exact h.1
  | purge k previousSeq => exact h.1

theorem count_of_getElem? {α : Type} [DecidableEq α] {l : List (Nat × α)} {n : Nat} {x : Nat × α}
    (h : l[n]? = some x) (j : Nat) :
    (l.map Prod.fst).count j = ((l.eraseIdx n).map Prod.fst).count j + if x.1 = j
      then 1 else 0 := by
  obtain ⟨hlt, hx⟩ := List.getElem?_eq_some_iff.1 h
  have hperm := (List.getElem_cons_eraseIdx_perm hlt).map Prod.fst
  rw [← hperm.count_eq, List.map_cons, List.count_cons, hx]
  simp only [beq_iff_eq]

end

/-! ## The count -/

/-- The updates in `done` were stored, and the value is what they made of `d₀`. -/
structure Counts (b : Bucket) (route : Text → Text) (subject : Text) (f : List UInt8 → List UInt8)
    (d₀ : List UInt8) (s : Clients) (done : List Nat) : Prop where
  inv : Inv b s
  computed : ∀ i c, s.callOf i = some c → route (editSubject b c.key) = subject →
    Computed subject f s.past c
  value : ∃ m, s.stream.lastFor subject = some m ∧ m.body.data = f^[done.length] d₀
  nodup : done.Nodup
  edits : ∀ i ∈ done, s.Edits b route subject i
  once : ∀ i, s.Edits b route subject i → (s.requests.map Prod.fst).count i ≤ 1
  waiting : ∀ i ∈ done, i ∉ s.requests.map Prod.fst
  answered : ∀ i seq, (i, Answer.published (.ok seq)) ∈ s.answers →
    (∃ c, s.callOf i = some c) ∧ (s.Edits b route subject i → i ∈ done)
  resolved : ∀ i seq, s.Edits b route subject i → s.Resolved i seq → i ∈ done

section

variable {b : Bucket} {route : Text → Text} {subject : Text} {f : List UInt8 → List UInt8}
  {d₀ : List UInt8} {direct : Bool} {s s' : Clients} {done : List Nat} {e : Event}

theorem Edits.congr (h : ∀ j, s'.callOf j = s.callOf j) {i : Nat} :
    s'.Edits b route subject i ↔ s.Edits b route subject i := by
  rw [Edits, Edits, h]

theorem Computed.mono {past past' : List Msg} {c : Call} (h : Computed subject f past c)
    (hsub : ∀ m ∈ past, m ∈ past') : Computed subject f past' c := by
  obtain ⟨m, hm, hrest⟩ := h
  exact ⟨m, hsub m hm, hrest⟩

/-- A call that edits the subject is an update. -/
theorem Counts.update (h : Counts b route subject f d₀ s done) {i : Nat}
    (hi : s.Edits b route subject i) :
    ∃ k data version, s.callOf i = some (.update k data version) := by
  obtain ⟨c, hc, hroute⟩ := hi
  obtain ⟨m, -, -, k, hupdate⟩ := h.computed i c hc hroute
  exact ⟨k, f m.body.data, m.seq, hupdate ▸ hc⟩

theorem Counts.start (h : Counts b route subject f d₀ s done) {c : Call}
    (hc : route (editSubject b c.key) = subject → Computed subject f s.past c) :
    Counts b route subject f d₀ (s.start b c) done := by
  obtain ⟨⟨new, hrequests, hnew⟩, hanswers, hstream, hpast, hresolved⟩ := start_spec (b := b) s c
  have hbound : ∀ j, s.Edits b route subject j → j ≠ s.callers.length := by
    rintro j ⟨c', hc', -⟩ rfl
    simp only [callOf, List.getElem?_eq_none (Nat.le_refl s.callers.length), Option.map_none,
      reduceCtorEq] at hc'
  have hold : ∀ j, j ≠ s.callers.length → (s.start b c).Edits b route subject j →
      s.Edits b route subject j := by
    rintro j hj ⟨c', hc', hroute⟩
    rw [callOf_start, if_neg hj] at hc'
    exact ⟨c', hc', hroute⟩
  -- no request has the number of the new call
  have hfresh : (s.requests.map Prod.fst).count s.callers.length = 0 := by
    rw [List.count_eq_zero]
    intro hmem
    obtain ⟨r, hr, hlength⟩ := List.mem_map.1 hmem
    obtain ⟨c', hc', -⟩ := h.inv.requests r hr
    rw [hlength] at hc'
    simp only [callOf, List.getElem?_eq_none (Nat.le_refl s.callers.length), Option.map_none,
      reduceCtorEq] at hc'
  have hcount : ∀ j, j ≠ s.callers.length →
      ((s.start b c).requests.map Prod.fst).count j = (s.requests.map Prod.fst).count j := by
    intro j hj
    rw [hrequests, List.map_append, List.count_append]
    rcases hnew with rfl | ⟨p, rfl⟩
    · rfl
    · rw [List.map_singleton, List.count_singleton, if_neg (by simpa using Ne.symm hj),
        Nat.add_zero]
  constructor
  · exact h.inv.start c
  · intro i c' hi hroute
    rw [callOf_start] at hi
    rw [hpast]
    split at hi
    · cases hi
      exact hc hroute
    · exact h.computed i c' hi hroute
  · rw [hstream]
    exact h.value
  · exact h.nodup
  · intro i hi
    obtain ⟨c', hc', hroute⟩ := h.edits i hi
    refine ⟨c', ?_, hroute⟩
    rw [callOf_start, if_neg (hbound i (h.edits i hi))]
    exact hc'
  · intro i hi
    by_cases hlast : i = s.callers.length
    · rw [hlast, hrequests, List.map_append, List.count_append, hfresh, Nat.zero_add]
      rcases hnew with rfl | ⟨p, rfl⟩
      · exact Nat.zero_le _
      · rw [List.map_singleton, List.count_singleton]
        split <;> omega
    · rw [hcount i hlast]
      exact h.once i (hold i hlast hi)
  · intro i hi hmem
    rw [← List.count_pos_iff, hcount i (hbound i (h.edits i hi)), List.count_pos_iff] at hmem
    exact h.waiting i hi hmem
  · intro i seq hmem
    rw [hanswers] at hmem
    obtain ⟨⟨c', hc'⟩, hdone⟩ := h.answered i seq hmem
    have hlast : i ≠ s.callers.length := by
      rintro rfl
      simp only [callOf, List.getElem?_eq_none (Nat.le_refl s.callers.length), Option.map_none,
        reduceCtorEq] at hc'
    refine ⟨⟨c', ?_⟩, fun hi => hdone (hold i hlast hi)⟩
    rw [callOf_start, if_neg hlast]
    exact hc'
  · intro i seq hi hres
    have hres' := hresolved i seq hres
    by_cases hlast : i = s.callers.length
    · obtain ⟨c', hc', -⟩ := hres'
      rw [hlast, List.getElem?_eq_none (Nat.le_refl _)] at hc'
      cases hc'
    · exact h.resolved i seq (hold i hlast hi) hres'

/-- Requests and answers that leave, and answers that come without a success. -/
theorem Counts.handle (h : Counts b route subject f d₀ s done)
    {requests : List (Nat × Publication Body)} {gets : List (Nat × Text)}
    {answers : List (Nat × Answer)}
    (hinv : Inv b { s with requests := requests, gets := gets, answers := answers })
    (hrequests : requests.Sublist s.requests)
    (hanswers : ∀ i seq, (i, Answer.published (.ok seq)) ∈ answers →
      (i, Answer.published (.ok seq)) ∈ s.answers) :
    Counts b route subject f d₀ { s with requests := requests, gets := gets, answers := answers }
      done where
  inv := hinv
  computed := h.computed
  value := h.value
  nodup := h.nodup
  edits := h.edits
  once i hi := Nat.le_trans ((hrequests.map Prod.fst).count_le i) (h.once i hi)
  waiting i hi hmem := h.waiting i hi ((hrequests.map Prod.fst).subset hmem)
  answered i seq hmem := h.answered i seq (hanswers i seq hmem)
  resolved := h.resolved

/-- The phase of a call changes, and not to a success. -/
theorem Counts.settle (h : Counts b route subject f d₀ s done) (i : Nat) (reason : Reason) :
    Counts b route subject f d₀ (s.settle i (.error reason)) done where
  inv := h.inv.setPhase i _
  computed j c hc hroute := h.computed j c ((callOf_setPhase i j _).symm.trans hc) hroute
  value := h.value
  nodup := h.nodup
  edits j hj := (Edits.congr fun k => callOf_setPhase i k _).2 (h.edits j hj)
  once j hj := h.once j ((Edits.congr fun k => callOf_setPhase i k _).1 hj)
  waiting := h.waiting
  answered j seq hmem := by
    obtain ⟨⟨c, hc⟩, hdone⟩ := h.answered j seq hmem
    exact ⟨⟨c, (callOf_setPhase i j _).trans hc⟩,
      fun hj => hdone ((Edits.congr fun k => callOf_setPhase i k _).1 hj)⟩
  resolved j seq hj hres := by
    rcases resolved_setPhase hres with hres | ⟨-, hphase⟩
    · exact h.resolved j seq ((Edits.congr fun k => callOf_setPhase i k _).1 hj) hres
    · cases hphase

/-- **An answer.** An update sends nothing any more, and resolves only if it was stored. -/
theorem Counts.receive (h : Counts b route subject f d₀ s done) {i : Nat} {a : Answer}
    (ha : ∀ m, a = .message (some m) → m ∈ s.past)
    (hstored : ∀ seq, a = .published (.ok seq) → s.Edits b route subject i → i ∈ done) :
    Counts b route subject f d₀ (s.receive b i a) done := by
  have hreacts := reacts_receive (b := b) s i a
  obtain ⟨new, hrequests, hnew, hupdate⟩ := hreacts.requests
  have hedits : ∀ j, (s.receive b i a).Edits b route subject j ↔ s.Edits b route subject j :=
    fun j =>
    Edits.congr hreacts.calls
  have hsame : ∀ j, s.Edits b route subject j →
      ((s.receive b i a).requests.map Prod.fst).count j = (s.requests.map Prod.fst).count j := by
    intro j hj
    rw [hrequests, List.map_append, List.count_append]
    have hzero : (new.map Prod.fst).count j = 0 := by
      rw [List.count_eq_zero]
      intro hmem
      obtain ⟨r, hr, hrj⟩ := List.mem_map.1 hmem
      rw [hnew r hr] at hrj
      -- an update does not answer with another request, as a `create` may
      rw [hupdate (hrj ▸ h.update hj)] at hr
      exact List.not_mem_nil hr
    rw [hzero, Nat.add_zero]
  constructor
  · exact h.inv.receive ha
  · intro j c hc hroute
    rw [hreacts.calls] at hc
    rw [hreacts.past]
    exact h.computed j c hc hroute
  · rw [hreacts.stream]
    exact h.value
  · exact h.nodup
  · exact fun j hj => (hedits j).2 (h.edits j hj)
  · intro j hj
    rw [hsame j ((hedits j).1 hj)]
    exact h.once j ((hedits j).1 hj)
  · intro j hj hmem
    rw [← List.count_pos_iff, hsame j (h.edits j hj), List.count_pos_iff] at hmem
    exact h.waiting j hj hmem
  · intro j seq hmem
    rw [hreacts.answers] at hmem
    obtain ⟨⟨c, hc⟩, hdone⟩ := h.answered j seq hmem
    exact ⟨⟨c, (hreacts.calls j).trans hc⟩, fun hj => hdone ((hedits j).1 hj)⟩
  · intro j seq hj hres
    rcases hreacts.resolved j seq hres with hres | ⟨rfl, ha⟩
    · exact h.resolved j seq ((hedits j).1 hj) hres
    · exact hstored seq ha ((hedits j).1 hj)

/-- What the server stores for another subject. -/
theorem Counts.storeOther (h : Counts b route subject f d₀ s done) {i : Nat}
    {p : Publication Body} {c : Call} (hc : s.callOf i = some c) (hallowed : Allowed b s.past c p)
    (hother : route p.subject ≠ subject) (time : Nat) :
    Counts b route subject f d₀ (s.serve route i p time) done := by
  have hinv : Inv b (s.serve route i p time) := h.inv.serve i p time
  unfold serve at hinv ⊢
  split
  · rename_i haccepts
    rw [if_pos haccepts] at hinv
    refine ⟨hinv, fun j c' hc' hroute => ?_, ?_, h.nodup, h.edits, h.once, h.waiting,
      fun j seq hmem => ?_, h.resolved⟩
    · exact (h.computed j c' hc' hroute).mono fun m hm => List.mem_append_left _ hm
    · obtain ⟨m, hm, hdata⟩ := h.value
      exact ⟨m, (StreamState.lastFor_append_of_ne fun heq => hother heq.symm).trans hm, hdata⟩
    · rcases List.mem_append.1 hmem with hmem | hmem
      · exact h.answered j seq hmem
      · cases List.mem_singleton.1 hmem
        refine ⟨⟨c, hc⟩, fun ⟨c', hc', hroute⟩ => absurd ?_ hother⟩
        have hsame : c = c' := Option.some.inj (hc.symm.trans hc')
        rw [hallowed.subject, hsame]
        exact hroute
  · rename_i haccepts
    rw [if_neg haccepts] at hinv
    refine ⟨hinv, h.computed, h.value, h.nodup, h.edits, h.once, h.waiting,
      fun j seq hmem => ?_, h.resolved⟩
    rcases List.mem_append.1 hmem with hmem | hmem
    · exact h.answered j seq hmem
    · cases List.mem_singleton.1 hmem

/-- **An update is stored**: over the version it was computed from, for the first time. -/
theorem Counts.store (h : Counts b route subject f d₀ s done) {i : Nat}
    {p : Publication Body} {c : Call} (hc : s.callOf i = some c) (hallowed : Allowed b s.past c p)
    (hroute : route p.subject = subject) (haccepts : s.stream.accepts (routed route p) = true)
    (hfirst : i ∉ done) (hgone : i ∉ s.requests.map Prod.fst) (time : Nat) :
    Counts b route subject f d₀ (s.serve route i p time) (done ++ [i]) := by
  have hinv : Inv b (s.serve route i p time) := h.inv.serve i p time
  have hedits : s.Edits b route subject i := ⟨c, hc, by rw [← hallowed.subject]; exact hroute⟩
  obtain ⟨m, hm, hsubject, k, hupdate⟩ :=
    h.computed i c hc (by rw [← hallowed.subject]; exact hroute)
  rw [hupdate] at hallowed
  obtain ⟨-, hbody, -, hexpected⟩ := hallowed
  rw [Int.toNat_natCast] at hexpected
  -- the version that is expected is the last message
  have hlast := accepts_routed haccepts hexpected
  rw [hroute] at hlast
  obtain ⟨last, hlastFor, hdata⟩ := h.value
  have hsame : last = m := by
    refine eq_of_seq_eq h.inv.past_ordered
      (h.inv.msgs_past _ (StreamState.lastFor_mem hlastFor).1) hm ?_
    rw [← hlast, StreamState.lastSeqFor, hlastFor]
  unfold serve at hinv ⊢
  rw [if_pos haccepts] at hinv ⊢
  refine ⟨hinv, fun j c' hc' hroute' => ?_, ?_, ?_, fun j hj => ?_, h.once, fun j hj => ?_,
    fun j seq hmem => ?_, fun j seq hj hres => List.mem_append_left _ (h.resolved j seq hj hres)⟩
  · exact (h.computed j c' hc' hroute').mono fun m hm => List.mem_append_left _ hm
  · have happend : (s.stream.append (routed route p) time).lastFor (routed route p).subject = _ :=
      StreamState.lastFor_append
    rw [show (routed route p).subject = subject from hroute] at happend
    refine ⟨_, happend, ?_⟩
    rw [List.length_append, List.length_singleton, Function.iterate_succ_apply', ← hdata, hsame]
    show p.body.data = f m.body.data
    rw [hbody]
  · exact List.nodup_append.2 ⟨h.nodup, List.nodup_singleton i, fun j hj j' hj' => by
      rw [List.mem_singleton.1 hj']
      rintro rfl
      exact hfirst hj⟩
  · rcases List.mem_append.1 hj with hj | hj
    · exact h.edits j hj
    · rw [List.mem_singleton.1 hj]
      exact hedits
  · rcases List.mem_append.1 hj with hj | hj
    · exact h.waiting j hj
    · rw [List.mem_singleton.1 hj]
      exact hgone
  · rcases List.mem_append.1 hmem with hmem | hmem
    · obtain ⟨hcall, hdone⟩ := h.answered j seq hmem
      exact ⟨hcall, fun hj => List.mem_append_left _ (hdone hj)⟩
    · cases List.mem_singleton.1 hmem
      exact ⟨⟨c, hc⟩, fun _ => List.mem_append_right _ (List.mem_singleton.2 rfl)⟩

/-- **One event.** -/
theorem Counts.step (h : Counts b route subject f d₀ s done)
    (hcareful : Careful b route subject f s e) (hstep : Clients.step b route direct s e = some s') :
    Counts b route subject f d₀ s' (done ++ stores route subject s e) := by
  have hinv' : Inv b s' := inv_step h.inv hstep
  cases step_of_eq hstep with
  | call c =>
      rw [stores, List.append_nil]
      exact h.start hcareful
  | serve n time i p hn =>
      have hmem := List.mem_of_getElem? hn
      obtain ⟨c, hc, hallowed⟩ := h.inv.requests _ hmem
      have herased : Counts b route subject f d₀
          { s with requests := s.requests.eraseIdx n } done :=
        h.handle (h.inv.of_sublists (List.eraseIdx_sublist _ _) h.inv.answers)
          (List.eraseIdx_sublist _ _) fun _ _ hanswer => hanswer
      simp only [stores, hn]
      by_cases hroute : route p.subject = subject
      · have hedits : s.Edits b route subject i := ⟨c, hc, by rw [← hallowed.subject]; exact hroute⟩
        -- each call has one request, so that it is not stored twice
        have hwaits : i ∈ s.requests.map Prod.fst := List.mem_map.2 ⟨_, hmem, rfl⟩
        have hgone : i ∉ (s.requests.eraseIdx n).map Prod.fst := by
          have hcount := count_of_getElem? hn i
          have honce := h.once i hedits
          rw [if_pos rfl] at hcount
          rw [← List.count_eq_zero]
          omega
        by_cases haccepts : s.stream.accepts (routed route p) = true
        · rw [if_pos ⟨hroute, haccepts⟩]
          exact herased.store hc hallowed hroute haccepts
            (fun hdone => h.waiting i hdone hwaits) hgone time
        · rw [if_neg fun hboth => haccepts hboth.2, List.append_nil]
          -- another client was faster, and the value stays
          have hrejected : serve route { s with requests := s.requests.eraseIdx n } i p time =
              { s with
                requests := s.requests.eraseIdx n
                answers := s.answers ++ [(i, .published (.error wrongLastSequence))] } := by
            rw [serve, if_neg haccepts]
          rw [hrejected] at hinv' ⊢
          refine h.handle hinv' (List.eraseIdx_sublist _ _) fun j seq hanswer => ?_
          rcases List.mem_append.1 hanswer with hanswer | hanswer
          · exact hanswer
          · cases List.mem_singleton.1 hanswer
      · rw [if_neg fun hboth => hroute hboth.1, List.append_nil]
        -- another key
        exact herased.storeOther hc hallowed hroute time
  | refuse n errCode i p hn =>
      rw [stores, List.append_nil]
      refine h.handle hinv' (List.eraseIdx_sublist _ _) fun j seq hanswer => ?_
      rcases List.mem_append.1 hanswer with hanswer | hanswer
      · exact hanswer
      · cases List.mem_singleton.1 hanswer
  | serveGet n i subject' sm hn hmay =>
      rw [stores, List.append_nil]
      refine h.handle hinv' (List.Sublist.refl _) fun j seq hanswer => ?_
      rcases List.mem_append.1 hanswer with hanswer | hanswer
      · exact hanswer
      · cases List.mem_singleton.1 hanswer
  | answer n i a hn =>
      rw [stores, List.append_nil]
      have hmem := List.mem_of_getElem? hn
      have herased : Counts b route subject f d₀ { s with answers := s.answers.eraseIdx n } done :=
        h.handle
          (h.inv.of_sublists (List.Sublist.refl _) fun r hr => h.inv.answers r
            (List.mem_of_mem_eraseIdx hr))
          (List.Sublist.refl _) fun _ _ hanswer => List.mem_of_mem_eraseIdx hanswer
      refine herased.receive (fun m hm => h.inv.answers _ hmem m hm) fun seq ha => ?_
      exact (h.answered i seq (ha ▸ hmem)).2
  | lose n =>
      rw [stores, List.append_nil]
      exact h.handle hinv' (List.Sublist.refl _) fun _ _ hanswer => List.mem_of_mem_eraseIdx hanswer
  | fail i =>
      rw [stores, List.append_nil]
      exact h.settle i _
  | remove seq =>
      rw [stores, List.append_nil]
      obtain ⟨m, hm, hdata⟩ := h.value
      exact ⟨hinv', h.computed, ⟨m, StreamState.lastFor_remove hcareful hm, hdata⟩, h.nodup,
        h.edits, h.once, h.waiting, h.answered, h.resolved⟩

theorem Counts.run :
    ∀ {es : List Event} {s s' : Clients} {done : List Nat}, Counts b route subject f d₀ s done →
    Meets (Clients.step b route direct) (Careful b route subject f) s es →
    Foundation.run (Clients.step b route direct) s es = some s' →
    Counts b route subject f d₀ s'
    (done ++ outputs (Clients.step b route direct) (stores route subject) s es) := by
  intro es
  induction es with
  | nil =>
      intro s s' done h _ hrun
      cases hrun
      rw [outputs, List.append_nil]
      exact h
  | cons e es ih =>
      intro s s' done h hcareful hrun
      obtain ⟨s₁, hstep, hrest⟩ := run_cons_inv hrun
      obtain ⟨hhere, hlater⟩ := hcareful
      rw [hstep] at hlater
      rw [outputs_cons hstep, ← List.append_assoc]
      exact ih (h.step hhere hstep) hlater hrest

theorem counts_new (stream : Stream) {m₀ : Msg} (h : stream.lastFor subject = some m₀) :
    Counts b route subject f m₀.body.data (new stream) [] where
  inv := inv_new stream
  computed i c hc := by cases hc
  value := ⟨m₀, h, rfl⟩
  nodup := List.nodup_nil
  edits _ hi := absurd hi List.not_mem_nil
  once _ _ := Nat.zero_le _
  waiting _ hi := absurd hi List.not_mem_nil
  answered _ _ hmem := absurd hmem List.not_mem_nil
  resolved i seq _ hres := by
    obtain ⟨c, hc, -⟩ := hres
    cases hc

end

/-- **No update is lost and none is made twice.** A subject has a value, and all its edits are
updates of a version it had once with what `f` makes of that version's value. However their requests
and answers are ordered, delayed and lost, and whatever is done to other keys: the value is what `f`
makes of the first one in as many rounds as updates were stored, each call was stored at most once,
and each that resolved was stored. -/
theorem updates_counted (b : Bucket) (route : Text → Text) (direct : Bool) (stream : Stream)
    (subject : Text) (f : List UInt8 → List UInt8) (m₀ : Msg) (es : List Event) (s : Clients)
    (hlast : stream.lastFor subject = some m₀)
    (hrun : run (step b route direct) (new stream) es = some s)
    (hcareful : Meets (step b route direct) (Careful b route subject f) (new stream) es) :
    let done := outputs (step b route direct) (stores route subject) (new stream) es
    (∃ m, s.stream.lastFor subject = some m ∧ m.body.data = f^[done.length] m₀.body.data) ∧
      done.Nodup ∧ (∀ i ∈ done, s.Edits b route subject i) ∧
      ∀ i seq, s.Edits b route subject i → s.Resolved i seq → i ∈ done := by
  have hcounts := (counts_new stream hlast).run hcareful hrun
  rw [List.nil_append] at hcounts
  exact ⟨hcounts.value, hcounts.nodup, hcounts.edits, hcounts.resolved⟩

/-- A bucket whose key `a` has the value `[0]`. -/
def counterStream : Stream :=
  (StreamState.empty 1 Nat.one_pos).append ⟨"$KV.b.a".toList, ⟨[0], none⟩, false, none⟩ 9

/-- Two clients that read the same version; who loses reads again. -/
def raced : List Event :=
  [.call (.update "a".toList [1] 1), .call (.update "a".toList [1] 1), .serve 0 10, .serve 0 11,
    .answer 0, .answer 0, .call (.update "a".toList [2] 2), .serve 0 12]

theorem updates_counted_raced :
    ∃ m₀ s, counterStream.lastFor "$KV.b.a".toList = some m₀ ∧
      run (step (Bucket.plain noopCodec) id false) (new counterStream) raced = some s ∧
      ∃ m, s.stream.lastFor "$KV.b.a".toList = some m ∧ m.body.data = (List.map (· + 1))^[
        (outputs (step (Bucket.plain noopCodec) id false) (stores id "$KV.b.a".toList)
          (new counterStream) raced).length] m₀.body.data := by
  have hends : (run (step (Bucket.plain noopCodec) id false) (new counterStream) raced).isSome =
      true := by
    decide +kernel
  obtain ⟨s, hrun⟩ := Option.isSome_iff_exists.1 hends
  exact ⟨⟨"$KV.b.a".toList, 1, 9, ⟨[0], none⟩⟩, s, by decide +kernel, hrun,
    (updates_counted (Bucket.plain noopCodec) id false counterStream "$KV.b.a".toList
      (List.map (· + 1)) _ raced s (by decide +kernel) hrun (by decide +kernel)).1⟩

end Clients

end NatsClient.Kv
