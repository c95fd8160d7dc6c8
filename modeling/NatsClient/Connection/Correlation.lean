import Mathlib.Logic.Relation
import NatsClient.Connection.MuxSubscription

/-!
# Requests and their replies

Over all runs of the mux subscription: the map holds the requests that are not over, each published
with its own token under the current inbox; a reply gets to the request whose token it carries; a
permission error ends one request, or all if it names the inbox (`correlated_run`).

What an event does is a sequence of moves (`step_cases`); the invariant is kept by each of them.
Whatever its operation, an error that names the inbox ends all requests (`not_endsOne`).
-/

set_option autoImplicit false

namespace NatsClient.Connection.Mux

open NatsClient.Foundation

namespace MuxSubscription

variable {nuid : Nat → String} {inboxPrefix : String} {heard : Request → Request → Prop}
  {s s' : MuxSubscription} {i : Nat} {r r' : Request} {off : Bool}

/-- A token that no request has. -/
structure Fresh (nuid : Nat → String) (s : MuxSubscription) (token : String) : Prop where
  drawn : ∃ n < s.nuids, token = nuid n
  unused : ∀ r ∈ s.objs, r.token ≠ token

/-- One move: a request takes a step, of which `heard` says what it may hear; a nuid is drawn; the
mux subscription is made; a new request is published, or is over because its publish throws; or the
mux subscription is given up. -/
inductive Move (nuid : Nat → String) (inboxPrefix : String) (heard : Request → Request → Prop)
    (s : MuxSubscription) : MuxSubscription → Prop
  | update {i : Nat} {r r' : Request} {off : Bool} (found : s.objs[i]? = some r)
      (follows : r.Follows r' off) (hears : heard r r') :
      Move nuid inboxPrefix heard s (s.update i r' off)
  | draw : Move nuid inboxPrefix heard s { s with nuids := s.nuids + 1 }
  | init (off : s.mux = none) : Move nuid inboxPrefix heard s (s.initMux nuid inboxPrefix)
  | publish {r : Request} {base subject : String} (mux : s.mux = some subject)
      (inbox : s.baseInbox = some base) (fresh : s.Fresh nuid r.token) (ended : r.ended = false) :
      Move nuid inboxPrefix heard s { s.add r with
        published := s.published ++ [(s.objs.length, r.requestSubject, base ++ r.token)] }
  | throw {r : Request} (fresh : s.Fresh nuid r.token) (ended : r.ended = true) :
      Move nuid inboxPrefix heard s { s.add r with
        reqs := (s.reqs.set r.token s.objs.length).delete r.token }
  | idle (empty : ∀ token, s.reqs.get token = none) :
      Move nuid inboxPrefix heard s { s with mux := none }

/-- Moves one after the other. -/
abbrev Moves (nuid : Nat → String) (inboxPrefix : String) (heard : Request → Request → Prop)
    (s s' : MuxSubscription) : Prop :=
  Relation.ReflTransGen (Move nuid inboxPrefix heard) s s'

/-- What an event does without a reply. -/
abbrev Quietly (r r' : Request) : Prop := r'.replies = r.replies

/-- The map has the requests that are not over, each published under the current inbox; no token is
there twice; the inboxes come from nuids; and without the mux subscription nothing waits for a
reply. -/
structure Inv (nuid : Nat → String) (inboxPrefix : String) (s : MuxSubscription) : Prop where
  entry : ∀ token i, s.reqs.get token = some i → ∃ r base, s.objs[i]? = some r ∧ r.token = token ∧
    r.ended = false ∧ s.baseInbox = some base ∧ (i, r.requestSubject, base ++ token) ∈ s.published
  pending : ∀ i r, s.objs[i]? = some r → r.ended = false → s.reqs.get r.token = some i
  drawn : ∀ r ∈ s.objs, ∃ n < s.nuids, r.token = nuid n
  nodup : (s.objs.map Request.token).Nodup
  inbox : ∀ subject, s.mux = some subject → ∃ base ∈ s.inboxes, s.baseInbox = some base
  idle : s.mux = none → ∀ token, s.reqs.get token = none
  inboxes : ∀ inbox ∈ s.inboxes, ∃ n < s.nuids, inbox = inboxOf nuid inboxPrefix n

theorem inv_new : new.Inv nuid inboxPrefix where
  entry := fun token i hget => by cases hget
  pending := fun i r hr => by cases hr
  drawn := fun r hr => by cases hr
  nodup := List.nodup_nil
  inbox := fun subject hmux => by cases hmux
  idle := fun _ token => rfl
  inboxes := fun inbox hinbox => by cases hinbox

/-- A token belongs to one request. -/
theorem Inv.index (h : s.Inv nuid inboxPrefix) {j : Nat} {x : Request} (hr : s.objs[i]? = some r)
    (hx : s.objs[j]? = some x) (heq : r.token = x.token) : i = j := by
  have hi := (List.getElem?_eq_some_iff.1 hr).1
  apply (List.getElem?_inj (by rw [List.length_map]; exact hi) h.nodup).1
  rw [List.getElem?_map, List.getElem?_map, hr, hx, Option.map_some, Option.map_some, heq]

theorem get_update (token : String) : (s.update i r off).reqs.get token =
    if off = true ∧ token = r.token then none else s.reqs.get token := by
  cases off with
  | false => simp [update]
  | true => simp [update, OrderedMap.get_delete]

theorem objs_update_self (hr : s.objs[i]? = some r) : (s.update i r' off).objs[i]? = some r' :=
  List.getElem?_set_self (List.getElem?_eq_some_iff.1 hr).1

theorem objs_update_ne {j : Nat} (hne : i ≠ j) : (s.update i r' off).objs[j]? = s.objs[j]? :=
  List.getElem?_set_ne hne

/-- A request takes a step. -/
theorem Inv.update (h : s.Inv nuid inboxPrefix) (hr : s.objs[i]? = some r) (hf : r.Follows r' off) :
    (s.update i r' off).Inv nuid inboxPrefix where
  entry := by
    intro token j hget
    rw [get_update] at hget
    split at hget
    · cases hget
    · next hkept =>
      obtain ⟨x, base, hx, htoken, hopen, hbase, hpublished⟩ := h.entry token j hget
      by_cases hij : i = j
      · subst hij
        obtain rfl : r = x := Option.some.inj (hr.symm.trans hx)
        refine ⟨r', base, objs_update_self hr, hf.token.trans htoken, ?_, hbase, ?_⟩
        · -- it did not take itself off the map
          have hoff : off = false := Bool.eq_false_iff.2 fun hoff =>
            hkept ⟨hoff, (hf.token.trans htoken).symm⟩
          rw [hf.ended, hopen, hoff, Bool.or_false]
        · rw [hf.requestSubject]
          exact hpublished
      · exact ⟨x, base, (objs_update_ne hij).trans hx, htoken, hopen, hbase, hpublished⟩
  pending := by
    intro j x hx hopen
    rw [get_update]
    by_cases hij : i = j
    · subst hij
      obtain rfl : r' = x := Option.some.inj ((objs_update_self hr).symm.trans hx)
      rw [hf.ended, Bool.or_eq_false_iff] at hopen
      rw [if_neg (by simp [hopen.2]), hf.token]
      exact h.pending i r hr hopen.1
    · rw [objs_update_ne hij] at hx
      rw [if_neg]
      · exact h.pending j x hx hopen
      · rintro ⟨-, htoken⟩
        exact hij (h.index hr hx (hf.token.symm.trans htoken.symm))
  drawn := by
    intro x hx
    rcases List.mem_or_eq_of_mem_set hx with hx | rfl
    · exact h.drawn x hx
    · rw [hf.token]
      exact h.drawn r (List.mem_of_getElem? hr)
  nodup := by
    have hsame : (s.objs.set i r').map Request.token = s.objs.map Request.token := by
      obtain ⟨hi, rfl⟩ := List.getElem?_eq_some_iff.1 hr
      rw [List.map_set, hf.token]
      apply List.ext_getElem (by simp)
      intro j hj hj'
      by_cases hij : i = j
      · subst hij
        simp
      · simp [hij]
    show ((s.objs.set i r').map Request.token).Nodup
    rw [hsame]
    exact h.nodup
  inbox := h.inbox
  idle := by
    intro hmux token
    rw [get_update, h.idle hmux token, ite_self]
  inboxes := h.inboxes

/-- An object is old or the new one. -/
theorem objs_add_cases {j : Nat} {x : Request} (hx : (s.objs ++ [r])[j]? = some x) :
    s.objs[j]? = some x ∨ j = s.objs.length ∧ x = r := by
  rcases Nat.lt_trichotomy j s.objs.length with hlt | rfl | hgt
  · rw [List.getElem?_append_left hlt] at hx
    exact .inl hx
  · rw [List.getElem?_concat_length, Option.some.injEq] at hx
    exact .inr ⟨rfl, hx.symm⟩
  · rw [List.getElem?_eq_none (by rw [List.length_append, List.length_singleton]; omega)] at hx
    cases hx

theorem objs_add_old {j : Nat} {x : Request} (hx : s.objs[j]? = some x) :
    (s.objs ++ [r])[j]? = some x := by
  rw [List.getElem?_append_left (List.getElem?_eq_some_iff.1 hx).1]
  exact hx

theorem Fresh.get_eq_none (hfresh : s.Fresh nuid r.token) (h : s.Inv nuid inboxPrefix) :
    s.reqs.get r.token = none := by
  cases hget : s.reqs.get r.token with
  | none => rfl
  | some i =>
      obtain ⟨x, -, hx, htoken, -⟩ := h.entry r.token i hget
      exact absurd htoken (hfresh.unused x (List.mem_of_getElem? hx))

theorem Fresh.nodup_add (hfresh : s.Fresh nuid r.token) (h : s.Inv nuid inboxPrefix) :
    ((s.objs ++ [r]).map Request.token).Nodup := by
  rw [List.map_append, List.map_singleton, List.nodup_append]
  refine ⟨h.nodup, List.nodup_singleton _, fun token htoken token' htoken' heq => ?_⟩
  obtain ⟨x, hx, rfl⟩ := List.mem_map.1 htoken
  exact hfresh.unused x hx (heq.trans (List.mem_singleton.1 htoken'))

theorem Fresh.drawn_add (hfresh : s.Fresh nuid r.token) (h : s.Inv nuid inboxPrefix) :
    ∀ x ∈ s.objs ++ [r], ∃ n < s.nuids, x.token = nuid n := by
  intro x hx
  rcases List.mem_append.1 hx with hx | hx
  · exact h.drawn x hx
  · rw [List.mem_singleton.1 hx]
    exact hfresh.drawn

/-- **Moves keep the map in order.** -/
theorem inv_move (h : s.Inv nuid inboxPrefix) (hm : Move nuid inboxPrefix heard s s') :
    s'.Inv nuid inboxPrefix := by
  cases hm with
  | update found follows hears => exact h.update found follows
  | draw =>
      refine ⟨h.entry, h.pending, fun r hr => ?_, h.nodup, h.inbox, h.idle, fun inbox hinbox => ?_⟩
      · obtain ⟨n, hn, htoken⟩ := h.drawn r hr
        exact ⟨n, Nat.lt_succ_of_lt hn, htoken⟩
      · obtain ⟨n, hn, heq⟩ := h.inboxes inbox hinbox
        exact ⟨n, Nat.lt_succ_of_lt hn, heq⟩
  | init hoff =>
      simp only [initMux, hoff]
      refine ⟨fun token i hget => ?_, h.pending, fun r hr => ?_, h.nodup, fun _ _ => ?_,
        fun hmux => ?_, fun inbox hinbox => ?_⟩
      · -- nothing waits
        have hnone : s.reqs.get token = none := h.idle hoff token
        rw [show s.reqs.get token = some i from hget] at hnone
        cases hnone
      · obtain ⟨n, hn, htoken⟩ := h.drawn r hr
        exact ⟨n, Nat.lt_succ_of_lt hn, htoken⟩
      · exact ⟨_, List.mem_append_right _ (List.mem_singleton_self _), rfl⟩
      · cases hmux
      · rcases List.mem_append.1 hinbox with hinbox | hinbox
        · obtain ⟨n, hn, heq⟩ := h.inboxes inbox hinbox
          exact ⟨n, Nat.lt_succ_of_lt hn, heq⟩
        · exact ⟨s.nuids, Nat.lt_succ_self _, List.mem_singleton.1 hinbox⟩
  | @publish r base subject hmux hbase hfresh hopen =>
      refine ⟨fun token i hget => ?_, fun i x hx hx' => ?_, hfresh.drawn_add h,
        hfresh.nodup_add h, h.inbox, fun hoff => ?_, h.inboxes⟩
      · rw [show (s.add r).reqs.get token = _ from OrderedMap.get_set ..] at hget
        split at hget
        · next htoken =>
          obtain rfl := Option.some.inj hget
          refine ⟨r, base, List.getElem?_concat_length, htoken.symm, hopen, hbase, ?_⟩
          rw [htoken]
          exact List.mem_append_right _ (List.mem_singleton_self _)
        · obtain ⟨x, base', hx, htoken, hopen', hbase', hpublished⟩ := h.entry token i hget
          exact ⟨x, base', objs_add_old hx, htoken, hopen', hbase',
            List.mem_append_left _ hpublished⟩
      · show (s.add r).reqs.get x.token = some i
        rw [add, OrderedMap.get_set]
        rcases objs_add_cases hx with hx | ⟨rfl, rfl⟩
        · rw [if_neg (hfresh.unused x (List.mem_of_getElem? hx))]
          exact h.pending i x hx hx'
        · rw [if_pos rfl]
      · exact absurd (hmux.symm.trans hoff) (Option.some_ne_none subject)
  | @throw r hfresh hended =>
      have hget : ∀ token, ((s.reqs.set r.token s.objs.length).delete r.token).get token =
          s.reqs.get token := by
        intro token
        rw [OrderedMap.get_delete, OrderedMap.get_set]
        split
        · next htoken => rw [htoken, hfresh.get_eq_none h]
        · rfl
      refine ⟨fun token i hi => ?_, fun i x hx hopen => ?_, hfresh.drawn_add h,
        hfresh.nodup_add h, h.inbox, fun hoff token => ?_, h.inboxes⟩
      · rw [hget] at hi
        obtain ⟨x, base, hx, hrest⟩ := h.entry token i hi
        exact ⟨x, base, objs_add_old hx, hrest⟩
      · rw [hget]
        rcases objs_add_cases hx with hx | ⟨-, rfl⟩
        · exact h.pending i x hx hopen
        · rw [hended] at hopen
          cases hopen
      · rw [hget]
        exact h.idle hoff token
  | idle hempty =>
      refine ⟨h.entry, h.pending, h.drawn, h.nodup, fun subject hmux => ?_,
        fun _ => hempty, h.inboxes⟩
      cases hmux

theorem inv_moves (h : s.Inv nuid inboxPrefix) (hm : Moves nuid inboxPrefix heard s s') :
    s'.Inv nuid inboxPrefix := by
  induction hm with
  | refl => exact h
  | tail _ hmove ih => exact inv_move ih hmove

/-! ## What an event does -/

theorem moves_cancel (s : MuxSubscription) (i : Nat) (err : Option RequestError) :
    Moves nuid inboxPrefix Quietly s (s.cancel i err) := by
  unfold cancel
  split
  · exact .refl
  · next r hr => exact .single (.update hr (r.follows_cancel err) (r.replies_cancel err))

theorem moves_error (s : MuxSubscription) (i : Nat) (err : RequestError) :
    Moves nuid inboxPrefix Quietly s (s.resolver i (.error err)) := by
  unfold resolver
  split
  · exact .refl
  · next r hr => exact .single (.update hr (r.follows_resolver _) (r.replies_error err))

theorem moves_resolveAll (s : MuxSubscription) (err : RequestError) (is : List Nat) :
    Moves nuid inboxPrefix Quietly s (s.resolveAll err is) := by
  induction is generalizing s with
  | nil => exact .refl
  | cons i is ih => exact (moves_error s i err).trans (ih (s.resolver i (.error err)))

theorem moves_handleError (s : MuxSubscription) (isMuxPermissionError : Bool)
    (ctx : PermissionContext) :
    Moves nuid inboxPrefix Quietly s (s.handleError isMuxPermissionError ctx) := by
  unfold handleError
  split
  · exact moves_resolveAll s _ s.all
  · split
    · exact .refl
    · split
      · exact moves_error s _ _
      · exact .refl

theorem object_token (q : NewRequest) (token : String) : (q.object token).token = token := by
  unfold NewRequest.object
  split <;> rfl

theorem object_requestSubject (q : NewRequest) (token : String) :
    (q.object token).requestSubject = q.requestSubject := by
  unfold NewRequest.object
  split <;> rfl

theorem ended_object (q : NewRequest) (token : String) : (q.object token).ended = false := by
  unfold NewRequest.object
  split <;> rfl

/-- What `initMux` leaves alone, and that the mux subscription is there behind it. -/
theorem initMux_spec (s : MuxSubscription) (h : s.Inv nuid inboxPrefix) :
    Moves nuid inboxPrefix heard s (s.initMux nuid inboxPrefix) ∧
      (s.initMux nuid inboxPrefix).objs = s.objs ∧ s.nuids ≤ (s.initMux nuid inboxPrefix).nuids ∧
      ∃ subject base, (s.initMux nuid inboxPrefix).mux = some subject ∧
        (s.initMux nuid inboxPrefix).baseInbox = some base := by
  cases hmux : s.mux with
  | some subject =>
      obtain ⟨base, -, hbase⟩ := h.inbox subject hmux
      have hsame : s.initMux nuid inboxPrefix = s := by simp only [initMux, hmux]
      rw [hsame]
      exact ⟨.refl, rfl, Nat.le_refl _, subject, base, hmux, hbase⟩
  | none =>
      refine ⟨.single (.init hmux), ?_⟩
      rw [initMux, hmux]
      exact ⟨rfl, Nat.le_succ _, _, _, rfl, rfl⟩

/-- **A request**: it is published with its token under the inbox, or it is over at once. -/
theorem moves_request (hnuid : Function.Injective nuid) (h : s.Inv nuid inboxPrefix)
    (q : NewRequest) : Moves nuid inboxPrefix Quietly s (s.request nuid inboxPrefix q) := by
  have hdraw : Move nuid inboxPrefix Quietly s { s with nuids := s.nuids + 1 } := .draw
  obtain ⟨hinit, hobjs, hnuids, subject, base, hmux, hbase⟩ :=
    @initMux_spec nuid inboxPrefix Quietly _ (inv_move h hdraw)
  rw [request]
  generalize initMux nuid inboxPrefix { s with nuids := s.nuids + 1 } =
    s₁ at hinit hobjs hnuids hmux hbase
  refine Relation.ReflTransGen.head hdraw (hinit.trans ?_)
  have hobjs' : s₁.objs = s.objs := hobjs
  have htoken := object_token q (nuid s.nuids)
  have hsubject := object_requestSubject q (nuid s.nuids)
  have hopen := ended_object q (nuid s.nuids)
  generalize q.object (nuid s.nuids) = r at htoken hsubject hopen
  -- the nuid was not drawn before
  have hfresh : s₁.Fresh nuid r.token := by
    rw [htoken]
    refine ⟨⟨s.nuids, hnuids, rfl⟩, fun x hx heq => ?_⟩
    obtain ⟨n, hn, hx'⟩ := h.drawn x (hobjs' ▸ hx)
    exact absurd (hnuid (hx'.symm.trans heq)) (Nat.ne_of_lt hn)
  cases q.thrown with
  | some err =>
      have hf := r.follows_cancel (some (.thrown err))
      have hself : (s₁.add r).objs[s.objs.length]? = some r := by
        rw [add, ← hobjs', List.getElem?_concat_length]
      have hthrow : (s₁.add r).cancel s.objs.length (some (.thrown err)) =
          { s₁.add (r.cancel (some (.thrown err))) with
            reqs := (s₁.reqs.set (r.cancel (some (.thrown err))).token s₁.objs.length).delete
              (r.cancel (some (.thrown err))).token } := by
        rw [cancel, hself]
        simp only [update, add, hf.token, if_true, ← hobjs',
          List.set_append_right _ _ (Nat.le_refl _), Nat.sub_self, List.set_cons_zero]
      show Moves nuid inboxPrefix Quietly s₁ ((s₁.add r).cancel s.objs.length (some (.thrown err)))
      rw [hthrow]
      refine .single (.throw ?_ ?_)
      · rw [hf.token]
        exact hfresh
      · rw [hf.ended, Bool.or_true]
  | none =>
      have hpublish : Move nuid inboxPrefix Quietly s₁ { s₁.add r with
          published := s₁.published ++ [(s₁.objs.length, r.requestSubject, base ++ r.token)] } :=
        .publish hmux hbase hfresh hopen
      have hreply : (s₁.add r).baseInbox.getD "" = base := by
        rw [show (s₁.add r).baseInbox = some base from hbase, Option.getD_some]
      rw [hobjs', hsubject, ← hreply] at hpublish
      exact .single hpublish

theorem moves_call (hnuid : Function.Injective nuid) (h : s.Inv nuid inboxPrefix) (c : MuxCall) :
    Moves nuid inboxPrefix Quietly s (s.call nuid inboxPrefix c) := by
  cases c with
  | request q => exact moves_request hnuid h q
  | draw => exact .single .draw
  | close => exact moves_resolveAll s _ s.all

theorem moves_calls (hnuid : Function.Injective nuid) (h : s.Inv nuid inboxPrefix)
    (cs : List MuxCall) : Moves nuid inboxPrefix Quietly s (s.calls nuid inboxPrefix cs) := by
  induction cs generalizing s with
  | nil => exact .refl
  | cons c cs ih =>
      have hcall := moves_call hnuid h c
      exact hcall.trans (ih (inv_moves h hcall))

/-! ## Messages -/

theorem getToken_eq_some {m : Msg} {token : String} (h : s.getToken m = some token) :
    ∃ base, s.baseInbox = some base ∧ m.subject = base ++ token := by
  obtain ⟨base, hbase, htoken⟩ := Option.bind_eq_some_iff.1 h
  obtain ⟨hprefixed, htoken⟩ := Option.ite_none_right_eq_some.1 htoken
  obtain ⟨rest, hrest⟩ := List.isPrefixOf_iff_prefix.1 hprefixed
  refine ⟨base, hbase, String.toList_inj.1 ?_⟩
  rw [← Option.some.inj htoken, String.toList_append, String.toList_ofList, ← hrest, List.drop_left]

/-- **A message** gets to the request whose token it carries. -/
theorem dispatcher_cases (h : s.Inv nuid inboxPrefix) (m : Msg) : s.dispatcher m = s ∨
    Move nuid inboxPrefix (s.Hears (.message m)) s (s.dispatcher m) := by
  unfold dispatcher
  split
  · exact .inl rfl
  · next token htoken =>
    split
    · exact .inl rfl
    · split
      · exact .inl rfl
      · next i hget =>
        obtain ⟨base, hbase, hsubject⟩ := getToken_eq_some htoken
        obtain ⟨r, -, hr, hrtoken, hopen, -, -⟩ := h.entry token i hget
        right
        split
        · next err herr =>
          have hf := r.follows_resolver (.error err)
          rw [resolver, hr]
          refine .update hr hf ⟨hf.token, fun hended => ?_, .inl (r.replies_error err)⟩
          rw [hf.ended, hended, Bool.true_or]
        · have hf := r.follows_resolver (.reply m)
          rw [resolver, hr]
          refine .update hr hf
            ⟨hf.token, fun hended => ?_, .inr ⟨m, base, rfl, hopen, hbase, ?_, ?_⟩⟩
          · rw [hf.ended, hended, Bool.true_or]
          · rw [hrtoken]
            exact hsubject
          · exact Request.replies_reply hopen m

/-! ## Errors -/

/-- Requests end with an error one after the other. -/
theorem ends_resolveAll {is : List Nat} (hnodup : is.Nodup)
    (hopen : ∀ i ∈ is, ∃ r, s.objs[i]? = some r ∧ r.ended = false) (err : RequestError) :
    Ends is err s (s.resolveAll err is) := by
  induction is generalizing s with
  | nil => exact ⟨fun i hi => (by cases hi), fun _ _ => rfl⟩
  | cons i is ih =>
      obtain ⟨hnot, hnodup⟩ := List.nodup_cons.1 hnodup
      obtain ⟨r, hr, hended⟩ := hopen i List.mem_cons_self
      have hf := r.follows_resolver (.error err)
      have hresolver : s.resolver i (.error err) =
          s.update i (r.resolver (.error err)).1 (r.resolver (.error err)).2 := by
        rw [resolver, hr]
      have hother : ∀ j ≠ i, (s.resolver i (.error err)).objs[j]? = s.objs[j]? := fun j hne => by
        rw [hresolver, objs_update_ne hne.symm]
      have hrest := @ih (s.resolver i (.error err)) hnodup fun j hj => by
        rw [hother j fun heq => hnot (heq ▸ hj)]
        exact hopen j (List.mem_cons_of_mem i hj)
      refine ⟨fun j hj => ?_, fun j hj => ?_⟩
      · rcases List.mem_cons.1 hj with rfl | hj
        · refine ⟨r, _, hr, hended, (hrest.others j hnot).trans ?_, ?_,
            Request.outcomes_error hended err⟩
          · rw [hresolver]
            exact objs_update_self hr
          · rw [hf.ended, Request.off_error, Bool.or_true]
        · obtain ⟨x, x', hx, hx'⟩ := hrest.ended j hj
          rw [hother j fun heq => hnot (heq ▸ hj)] at hx
          exact ⟨x, x', hx, hx'⟩
      · obtain ⟨hne, hj⟩ := not_or.1 (List.mem_cons.not.1 hj)
        exact (hrest.others j hj).trans (hother j hne)

theorem Inv.mem_all (h : s.Inv nuid inboxPrefix) :
    i ∈ s.all ↔ ∃ r, s.objs[i]? = some r ∧ r.ended = false := by
  rw [all, OrderedMap.mem_values]
  constructor
  · rintro ⟨token, hget⟩
    obtain ⟨r, -, hr, -, hopen, -⟩ := h.entry token i hget
    exact ⟨r, hr, hopen⟩
  · rintro ⟨r, hr, hopen⟩
    exact ⟨r.token, h.pending i r hr hopen⟩

theorem Inv.nodup_all (h : s.Inv nuid inboxPrefix) : s.all.Nodup := by
  apply OrderedMap.nodup_values
  intro token token' i hget hget'
  obtain ⟨r, -, hr, rfl, -⟩ := h.entry token i hget
  obtain ⟨r', -, hr', rfl, -⟩ := h.entry token' i hget'
  rw [Option.some.inj (hr.symm.trans hr')]

theorem Inv.correlated (h : s.Inv nuid inboxPrefix) : s.Correlated where
  entry := h.entry
  all := fun _ => h.mem_all
  removed := by
    intro i r hr hended
    constructor
    · intro hall
      obtain ⟨x, hx, hopen⟩ := h.mem_all.1 hall
      rw [← Option.some.inj (hr.symm.trans hx), hended] at hopen
      cases hopen
    · cases hget : s.reqs.get r.token with
      | none => rfl
      | some j =>
          obtain ⟨x, -, hx, htoken, hopen, -⟩ := h.entry r.token j hget
          obtain rfl := h.index hr hx htoken.symm
          rw [← Option.some.inj (hr.symm.trans hx), hended] at hopen
          cases hopen

/-- All requests end, and none is left. -/
theorem get_resolveAll (h : s.Inv nuid inboxPrefix) (err : RequestError) (token : String) :
    (s.resolveAll err s.all).reqs.get token = none := by
  have hends := ends_resolveAll h.nodup_all (fun i hi => h.mem_all.1 hi) err
  cases hget : (s.resolveAll err s.all).reqs.get token with
  | none => rfl
  | some i =>
      obtain ⟨r, -, hr, -, hopen, -⟩ :=
        (inv_moves h (moves_resolveAll s err s.all)).entry token i hget
      by_cases hi : i ∈ s.all
      · obtain ⟨-, r', -, -, hr', hended, -⟩ := hends.ended i hi
        rw [Option.some.inj (hr.symm.trans hr'), hended] at hopen
        cases hopen
      · rw [hends.others i hi] at hr
        exact absurd (h.mem_all.2 ⟨r, hr, hopen⟩) hi

/-- **A permission error.** -/
theorem moves_processError (hnuid : Function.Injective nuid) (h : s.Inv nuid inboxPrefix)
    (ctx : PermissionContext) (cs : List MuxCall) :
    Moves nuid inboxPrefix Quietly s (s.processError nuid inboxPrefix ctx cs) := by
  have hcalls := moves_calls hnuid h cs
  have hinv := inv_moves h hcalls
  refine hcalls.trans ?_
  rw [processError]
  by_cases hmux : s.mux = some ctx.subject
  · simp only [hmux, decide_true, if_true]
    have hall : Moves nuid inboxPrefix Quietly (s.calls nuid inboxPrefix cs)
        ((s.calls nuid inboxPrefix cs).handleError true ctx) := moves_handleError _ true ctx
    refine hall.tail (.idle fun token => ?_)
    rw [handleError, if_pos rfl]
    exact get_resolveAll hinv _ token
  · simp only [hmux, decide_false, Bool.false_eq_true, if_false]
    exact moves_handleError _ false ctx

/-! ## Events -/

/-- **One event** is quiet moves, or a message that a request hears. -/
theorem step_cases (hnuid : Function.Injective nuid) (h : s.Inv nuid inboxPrefix) {e : MuxEvent}
    (hstep : s.step nuid inboxPrefix e = some s') :
    Moves nuid inboxPrefix Quietly s s' ∨ Move nuid inboxPrefix (s.Hears e) s s' := by
  cases e with
  | call c =>
      cases hstep
      exact .inl (moves_call hnuid h c)
  | message m =>
      cases hstep
      rcases dispatcher_cases h m with hsame | hmove
      · rw [hsame]
        exact .inl .refl
      · exact .inr hmove
  | timer i =>
      obtain ⟨r, hfilter, rfl⟩ := Option.map_eq_some_iff.1 hstep
      obtain ⟨hr, -⟩ := Option.filter_eq_some_iff.1 hfilter
      exact .inl (.single (.update hr r.follows_expire r.replies_expire))
  | cancel i err =>
      cases hstep
      exact .inl (moves_cancel s i err)
  | error ctx cs =>
      cases hstep
      exact .inl (moves_processError hnuid h ctx cs)

theorem inv_step (hnuid : Function.Injective nuid) (h : s.Inv nuid inboxPrefix) {e : MuxEvent}
    (hstep : s.step nuid inboxPrefix e = some s') : s'.Inv nuid inboxPrefix := by
  rcases step_cases hnuid h hstep with hm | hm
  · exact inv_moves h hm
  · exact inv_move h hm

/-- A request stays the one it is, and what is over stays over. -/
theorem kept_move (hm : Move nuid inboxPrefix heard s s') (hr : s.objs[i]? = some r) :
    ∃ r', s'.objs[i]? = some r' ∧ r'.token = r.token ∧ r'.requestSubject = r.requestSubject ∧
      (r.ended = true → r'.ended = true) ∧ (r' = r ∨ heard r r') := by
  have hsame : ∀ s' : MuxSubscription, s'.objs[i]? = some r → ∃ r', s'.objs[i]? = some r' ∧
      r'.token = r.token ∧ r'.requestSubject = r.requestSubject ∧
      (r.ended = true → r'.ended = true) ∧ (r' = r ∨ heard r r') :=
    fun s' hr' => ⟨r, hr', rfl, rfl, id, .inl rfl⟩
  cases hm with
  | @update j x x' off found follows hears =>
      by_cases hji : j = i
      · subst hji
        obtain rfl : r = x := Option.some.inj (hr.symm.trans found)
        refine ⟨x', objs_update_self hr, follows.token, follows.requestSubject,
          fun hended => ?_, .inr hears⟩
        rw [follows.ended, hended, Bool.true_or]
      · exact hsame _ ((objs_update_ne hji).trans hr)
  | draw => exact hsame _ hr
  | init hoff =>
      apply hsame
      simp only [initMux, hoff]
      exact hr
  | publish mux inbox fresh ended => exact hsame _ (objs_add_old hr)
  | throw fresh ended => exact hsame _ (objs_add_old hr)
  | idle empty => exact hsame _ hr

/-- Without a reply, the replies stay. -/
theorem kept_moves (hm : Moves nuid inboxPrefix Quietly s s') (hr : s.objs[i]? = some r) :
    ∃ r', s'.objs[i]? = some r' ∧ r'.token = r.token ∧ (r.ended = true → r'.ended = true) ∧
      r'.replies = r.replies := by
  induction hm with
  | refl => exact ⟨r, hr, rfl, id, rfl⟩
  | tail _ hmove ih =>
      obtain ⟨x, hx, htoken, hover, hreplies⟩ := ih
      obtain ⟨x', hx', htoken', -, hover', hsame | hquiet⟩ := kept_move hmove hx
      · exact ⟨x', hx', htoken'.trans htoken, fun hended => hover' (hover hended), hsame ▸ hreplies⟩
      · exact ⟨x', hx', htoken'.trans htoken, fun hended => hover' (hover hended),
          hquiet.trans hreplies⟩

/-- **A reply** reaches the request whose token it carries, while that is not over. -/
theorem hears_step (hnuid : Function.Injective nuid) (h : s.Inv nuid inboxPrefix) {e : MuxEvent}
    (hstep : s.step nuid inboxPrefix e = some s') (hr : s.objs[i]? = some r) :
    ∃ r', s'.objs[i]? = some r' ∧ s.Hears e r r' := by
  rcases step_cases hnuid h hstep with hm | hm
  · obtain ⟨r', hr', htoken, hover, hreplies⟩ := kept_moves hm hr
    exact ⟨r', hr', htoken, hover, .inl hreplies⟩
  · obtain ⟨r', hr', -, -, -, rfl | hears⟩ := kept_move hm hr
    · exact ⟨r', hr', rfl, id, .inl rfl⟩
    · exact ⟨r', hr', hears⟩

/-! ## Permission errors -/

/-- **A permission error that is not about the inbox** ends one request. -/
theorem endsOne_handleError (h : s.Inv nuid inboxPrefix) {ctx : PermissionContext}
    (hpublish : ctx.operation = .publish) : EndsOne ctx s (s.handleError false ctx) := by
  rw [handleError, if_neg Bool.false_ne_true, hpublish]
  cases hfind : s.all.find? fun i => (s.objs[i]?).any fun r => r.requestSubject = ctx.subject with
  | none =>
      refine .inr ⟨fun i r hr hopen hsubject => ?_, fun i hi => (by cases hi), fun _ _ => rfl⟩
      have hnot := List.find?_eq_none.1 hfind i (h.mem_all.2 ⟨r, hr, hopen⟩)
      rw [hr, Option.any_some] at hnot
      exact hnot (decide_eq_true hsubject)
  | some i =>
      obtain ⟨r, hr, hopen⟩ := h.mem_all.1 (List.mem_of_find?_eq_some hfind)
      have hsubject := List.find?_some hfind
      rw [hr, Option.any_some] at hsubject
      have hsingle : ∀ j ∈ [i], ∃ r, s.objs[j]? = some r ∧ r.ended = false := by
        intro j hj
        rw [List.mem_singleton.1 hj]
        exact ⟨r, hr, hopen⟩
      exact .inl ⟨i, r, hr, hopen, of_decide_eq_true hsubject,
        ends_resolveAll (List.nodup_singleton i) hsingle _⟩

theorem inboxOf_inj (hnuid : Function.Injective nuid) {n n' : Nat}
    (heq : inboxOf nuid inboxPrefix n = inboxOf nuid inboxPrefix n') : n = n' := by
  have hlist := congrArg String.toList heq
  simp only [inboxOf, String.toList_append, List.append_assoc] at hlist
  have hrest := List.append_cancel_left (List.append_cancel_left hlist)
  exact hnuid (String.toList_inj.1 (List.append_cancel_right hrest))

/-- What is published from `s₀` on has an inbox that `s₀` does not know. -/
structure Later (s₀ s : MuxSubscription) : Prop where
  published : ∃ later, s.published = s₀.published ++ later ∧
    ∀ p ∈ later, ∃ r, s.objs[p.1]? = some r ∧
    ∃ base ∈ s.inboxes, base ∉ s₀.inboxes ∧ p.2 = (r.requestSubject, base ++ r.token)
  inbox : ∀ subject, s.mux = some subject → ∀ base, s.baseInbox = some base →
    base ∈ s.inboxes ∧ base ∉ s₀.inboxes
  inboxes : ∀ inbox ∈ s₀.inboxes, inbox ∈ s.inboxes

theorem later_refl (hoff : s.mux = none) : Later s s where
  published := ⟨[], (List.append_nil _).symm, fun p hp => (by cases hp)⟩
  inbox := fun subject hmux => by
    rw [hoff] at hmux
    cases hmux
  inboxes := fun _ hinbox => hinbox

/-- The requests that were published are still there. -/
theorem Later.published_move {s₀ : MuxSubscription} (hl : Later s₀ s)
    (hm : Move nuid inboxPrefix heard s s') (hsame : s'.published = s.published)
    (hinboxes : ∀ inbox ∈ s.inboxes, inbox ∈ s'.inboxes) :
    ∃ later, s'.published = s₀.published ++ later ∧ ∀ p ∈ later, ∃ r, s'.objs[p.1]? = some r ∧
      ∃ base ∈ s'.inboxes, base ∉ s₀.inboxes ∧ p.2 = (r.requestSubject, base ++ r.token) := by
  obtain ⟨later, hpublished, hlater⟩ := hl.published
  refine ⟨later, hsame.trans hpublished, fun p hp => ?_⟩
  obtain ⟨r, hr, base, hbase, hnew, hp⟩ := hlater p hp
  obtain ⟨r', hr', htoken, hsubject, -⟩ := kept_move hm hr
  refine ⟨r', hr', base, hinboxes base hbase, hnew, ?_⟩
  rw [hsubject, htoken]
  exact hp

theorem later_move {s₀ : MuxSubscription} (hnuid : Function.Injective nuid)
    (h : s.Inv nuid inboxPrefix) (hl : Later s₀ s) (hm : Move nuid inboxPrefix heard s s') :
    Later s₀ s' := by
  have hkept := hl.published_move hm
  cases hm with
  | update found follows hears => exact ⟨hkept rfl fun _ hinbox => hinbox, hl.inbox, hl.inboxes⟩
  | draw => exact ⟨hkept rfl fun _ hinbox => hinbox, hl.inbox, hl.inboxes⟩
  | init hoff =>
      -- the inbox is of a nuid that was not drawn before
      have hnew : inboxOf nuid inboxPrefix s.nuids ∉ s₀.inboxes := by
        intro hmem
        obtain ⟨n, hn, heq⟩ := h.inboxes _ (hl.inboxes _ hmem)
        exact absurd (inboxOf_inj hnuid heq).symm (Nat.ne_of_lt hn)
      have hinit : s.initMux nuid inboxPrefix = { s with
          baseInbox := some (inboxOf nuid inboxPrefix s.nuids)
          mux := some (inboxOf nuid inboxPrefix s.nuids ++ "*")
          inboxes := s.inboxes ++ [inboxOf nuid inboxPrefix s.nuids]
          nuids := s.nuids + 1 } := by
        simp only [initMux, hoff]
      rw [hinit] at hkept ⊢
      refine ⟨hkept rfl fun _ => List.mem_append_left _, fun _ _ base hbase => ?_,
        fun inbox hinbox => ?_⟩
      · obtain rfl := Option.some.inj hbase
        exact ⟨List.mem_append_right _ (List.mem_singleton_self _), hnew⟩
      · exact List.mem_append_left _ (hl.inboxes inbox hinbox)
  | @publish r base subject hmux hbase hfresh hopen =>
      refine ⟨?_, hl.inbox, hl.inboxes⟩
      obtain ⟨later, hpublished, hlater⟩ := hl.published
      refine ⟨later ++ [(s.objs.length, r.requestSubject, base ++ r.token)], ?_, fun p hp => ?_⟩
      · show s.published ++ _ = _
        rw [hpublished, List.append_assoc]
      · rcases List.mem_append.1 hp with hp | hp
        · obtain ⟨x, hx, hrest⟩ := hlater p hp
          exact ⟨x, objs_add_old hx, hrest⟩
        · -- the request of this step has the inbox of this connection
          rw [List.mem_singleton.1 hp]
          obtain ⟨hmem, hnew⟩ := hl.inbox subject hmux base hbase
          exact ⟨r, List.getElem?_concat_length, base, hmem, hnew, rfl⟩
  | throw hfresh hended => exact ⟨hkept rfl fun _ hinbox => hinbox, hl.inbox, hl.inboxes⟩
  | idle hempty =>
      refine ⟨hkept rfl fun _ hinbox => hinbox, fun subject hmux => ?_, hl.inboxes⟩
      cases hmux

theorem later_moves {s₀ : MuxSubscription} (hnuid : Function.Injective nuid)
    (h : s.Inv nuid inboxPrefix) (hl : Later s₀ s) (hm : Moves nuid inboxPrefix heard s s') :
    Later s₀ s' := by
  induction hm with
  | refl => exact hl
  | tail hmoves hmove ih => exact later_move hnuid (inv_moves h hmoves) ih hmove

theorem later_run {s₀ : MuxSubscription} (hnuid : Function.Injective nuid)
    (h : s.Inv nuid inboxPrefix) (hl : Later s₀ s) {es : List MuxEvent}
    (hrun : run (step nuid inboxPrefix) s es = some s') : Later s₀ s' := by
  refine (invariant_run (I := fun s => s.Inv nuid inboxPrefix ∧ Later s₀ s) ?_ hrun ⟨h, hl⟩).2
  rintro s e s' ⟨hinv, hl⟩ hstep
  refine ⟨inv_step hnuid hinv hstep, ?_⟩
  rcases step_cases hnuid hinv hstep with hm | hm
  · exact later_moves hnuid hinv hl hm
  · exact later_move hnuid hinv hl hm

/-- **A permission error about the inbox** ends all requests. -/
theorem endsAll_processError (hnuid : Function.Injective nuid) (h : s.Inv nuid inboxPrefix)
    {ctx : PermissionContext} (hmux : s.mux = some ctx.subject) (cs : List MuxCall) :
    EndsAll nuid inboxPrefix ctx (s.calls nuid inboxPrefix cs)
      (s.processError nuid inboxPrefix ctx cs) := by
  have hinv := inv_moves h (moves_processError hnuid h ctx cs)
  have hcalls := inv_moves h (moves_calls hnuid h cs)
  have hsame : s.processError nuid inboxPrefix ctx cs =
      { (s.calls nuid inboxPrefix cs).resolveAll (.permissions ctx) (s.calls nuid inboxPrefix
        cs).all with
        mux := none } := by
    simp only [processError, hmux, decide_true, if_true, handleError]
  have hoff : (s.processError nuid inboxPrefix ctx cs).mux = none := by
    rw [hsame]
  refine ⟨?_, ?_, fun es s'' hrun => (later_run hnuid hinv (later_refl hoff) hrun).published⟩
  · have hends :=
      ends_resolveAll hcalls.nodup_all (fun i hi => hcalls.mem_all.1 hi) (.permissions ctx)
    rw [hsame]
    exact ⟨hends.ended, hends.others⟩
  · apply List.eq_nil_iff_forall_not_mem.2
    intro i hi
    obtain ⟨token, hget⟩ := OrderedMap.mem_values.1 hi
    rw [hinv.idle hoff token] at hget
    cases hget

/-- **Requests and replies belong together**, in whatever order calls, replies, timers,
cancellations and errors come. -/
theorem correlated_run (hnuid : Function.Injective nuid) {es : List MuxEvent}
    (hrun : run (step nuid inboxPrefix) new es = some s) :
    s.Correlated ∧
      (∀ e s', s.step nuid inboxPrefix e = some s' → ∀ (i : Nat) r, s.objs[i]? = some r →
        ∃ r', s'.objs[i]? = some r' ∧ s.Hears e r r') ∧
      ∀ ctx cs, (s.calls nuid inboxPrefix cs).Correlated ∧
        (ctx.operation = .publish → s.mux ≠ some ctx.subject →
          EndsOne ctx (s.calls nuid inboxPrefix cs) (s.processError nuid inboxPrefix ctx cs)) ∧
        (s.mux = some ctx.subject →
          EndsAll nuid inboxPrefix ctx (s.calls nuid inboxPrefix cs)
            (s.processError nuid inboxPrefix ctx cs)) := by
  have hinv : s.Inv nuid inboxPrefix :=
    invariant_run (I := Inv nuid inboxPrefix) (fun _ _ _ h hstep => inv_step hnuid h hstep)
      hrun inv_new
  refine ⟨hinv.correlated, fun e s' hstep i r hr => hears_step hnuid hinv hstep hr,
    fun ctx cs => ?_⟩
  have hcalls := inv_moves hinv (moves_calls hnuid hinv cs)
  refine ⟨hcalls.correlated, fun hpublish hother => ?_,
    fun hmux => endsAll_processError hnuid hinv hmux cs⟩
  simp only [processError, hother, decide_false, Bool.false_eq_true, if_false]
  exact endsOne_handleError hcalls hpublish

/-- The nuids `n`, `nn`, and so on. -/
def letters (n : Nat) : String := String.ofList (List.replicate (n + 1) 'n')

theorem letters_injective : Function.Injective letters := by
  intro n n' heq
  have hlength := congrArg (fun s : String => s.toList.length) heq
  simpa [letters] using hlength

/-- Two requests on the subjects `a` and `b`. -/
def requested : List MuxEvent :=
  [.call (.request ⟨"a", none, none⟩), .call (.request ⟨"b", some (.count, some 1), none⟩)]

theorem correlated_run_replied :
    ∃ s, run (step letters "") new (requested ++ [.message ⟨"_INBOX.nn.n", [1], none⟩]) = some s ∧
      s.all = [1] ∧ s.Correlated := by
  have hends : (run (step letters "") new (requested ++ [.message ⟨"_INBOX.nn.n", [1], none⟩])).any
      (fun s => decide (s.all = [1])) = true := by decide +kernel
  obtain ⟨s, hrun, hall⟩ := (Option.any_eq_true _ _).1 hends
  exact ⟨s, hrun, of_decide_eq_true hall, (correlated_run letters_injective hrun).1⟩

/-- A publish to the subject of the mux subscription is not allowed, and the requests on other
subjects end. -/
theorem not_endsOne :
    ¬ ∀ (nuid : Nat → String), Function.Injective nuid →
      ∀ (inboxPrefix : String) (es : List MuxEvent)
      (s : MuxSubscription), run (step nuid inboxPrefix) new es = some s →
      ∀ ctx cs, ctx.operation = .publish →
        EndsOne ctx (s.calls nuid inboxPrefix cs) (s.processError nuid inboxPrefix ctx cs) := by
  intro hall
  rcases hall letters letters_injective "" requested _ rfl ⟨.publish, "_INBOX.nn.*", none⟩
    [] rfl with
    ⟨i, r, hr, -, hsubject, -⟩ | ⟨-, hends⟩
  · have hnone : ((run (step letters "") new requested).any fun s =>
        s.objs.all fun r => decide (r.requestSubject ≠ "_INBOX.nn.*")) = true := by decide +kernel
    have hne := List.all_eq_true.1 hnone r (List.mem_of_getElem? hr)
    exact of_decide_eq_true hne hsubject
  · have hsame := hends.others 0 List.not_mem_nil
    revert hsame
    decide +kernel

end MuxSubscription

end NatsClient.Connection.Mux
