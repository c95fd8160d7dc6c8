import NatsClient.Foundation.Number
import NatsClient.JetStream.StreamState
import NatsClient.Wire.HeaderBlock

/-!
# What the reply subject of a message says

Model of `parseInfo` (`jsmsg.ts`). A JetStream server tells where a message comes from, and how
often it was delivered, in its reply subject, in an old form without domain and account and in a new
one. The numbers of the result are JavaScript numbers: `none` is `NaN`, what has more than 53 bits
is rounded, and what is too large is an infinity.

* `parseInfo_eq_ok_iff`: what is accepted, and as what;
* `parseInfo_reply`: what a server says comes back, numbers as far as their format goes.
-/

set_option autoImplicit false

namespace NatsClient.JetStream

open NatsClient.Foundation NatsClient.Wire

structure DeliveryInfo where
  domain : Text
  accountHash : Text
  stream : Text
  consumer : Text
  deliveryCount : Option Number
  redeliveryCount : Option Number
  redelivered : Bool
  streamSequence : Option Number
  deliverySequence : Option Number
  timestampNanos : Option Number
  pending : Option Number
deriving DecidableEq

/-- `parseInt(token, 10)`; `none` is `NaN`. -/
def parseNumber (token : Text) : Option Number := (readInt token).map .ofInt

/-- The domain of a server without one. -/
def blank : Text := ['_']

/-- What `parseInfo` reads, token by token. -/
structure Fields where
  domain : Text
  accountHash : Text
  stream : Text
  consumer : Text
  deliveryCount : Text
  streamSequence : Text
  deliverySequence : Text
  timestamp : Text
  pending : Text
deriving DecidableEq, Repr

namespace Fields

/-- The object that `parseInfo` fills. -/
def info (f : Fields) : DeliveryInfo where
  domain := if f.domain = blank then [] else f.domain
  accountHash := f.accountHash
  stream := f.stream
  consumer := f.consumer
  deliveryCount := parseNumber f.deliveryCount
  redeliveryCount := parseNumber f.deliveryCount
  redelivered := (parseNumber f.deliveryCount).any (Number.lt (.finite 1))
  streamSequence := parseNumber f.streamSequence
  deliverySequence := parseNumber f.deliverySequence
  timestampNanos := parseNumber f.timestamp
  pending := parseNumber f.pending

end Fields

/-- `tokens.splice(2, 0, "_", "")`. -/
def splice (ts : List Text) : List Text := ts.take 2 ++ blank :: [] :: ts.drop 2

/-- `parseInfo(s)`. -/
def parseInfo (s : Text) : Except String DeliveryInfo :=
  let ts := tokens s
  match if ts.length = 9 then splice ts else ts with
  | js :: ack :: domain :: accountHash :: stream :: consumer :: deliveryCount :: streamSequence ::
      deliverySequence :: timestamp :: pending :: _ =>
      if js ≠ "$JS".toList ∨ ack ≠ "ACK".toList then .error "not js message"
      else
        .ok (Fields.mk domain accountHash stream consumer deliveryCount streamSequence
          deliverySequence timestamp pending).info
  | _ => .error "not js message"

namespace Fields

/-- The tokens of both forms. -/
def counters (f : Fields) : List Text :=
  [f.stream, f.consumer, f.deliveryCount, f.streamSequence, f.deliverySequence,
    f.timestamp, f.pending]

/-- `$JS.ACK.<stream>.<consumer>` and, behind a full stop,
`<deliveryCount>.<streamSeq>.<deliverySequence>.<timestamp>.<pending>`. -/
def oldReply (f : Fields) : Text :=
  List.intercalate ['.'] ("$JS".toList :: "ACK".toList :: f.counters)

/-- The form with domain and account, and with what a server adds behind. -/
def newReply (f : Fields) (random : List Text) : Text :=
  List.intercalate ['.']
    ("$JS".toList :: "ACK".toList :: f.domain :: f.accountHash :: (f.counters ++ random))

/-- No field has a dot. -/
def Dotless (f : Fields) : Prop := ∀ t ∈ f.domain :: f.accountHash :: f.counters, '.' ∉ t

end Fields

/-! ## Tokens -/

section

variable {s : Text} {f : Fields} {di : DeliveryInfo} {ts random : List Text}

theorem not_mem_of_mem_tokens {t : Text} (h : t ∈ tokens s) : '.' ∉ t := by
  induction s generalizing t with
  | nil =>
      rw [List.mem_singleton.1 h]
      exact List.not_mem_nil
  | cons c s ih =>
      rw [tokens, List.splitOn, List.splitOnP_cons_eq_if_modifyHead] at h
      split at h
      case isTrue =>
        rcases List.mem_cons.1 h with rfl | hrest
        · exact List.not_mem_nil
        · exact ih hrest
      case isFalse hdot =>
        obtain ⟨t', ts, hts⟩ := List.exists_cons_of_ne_nil (List.splitOnP_ne_nil (· == '.') s)
        rw [hts, List.modifyHead_cons] at h
        have htokens : tokens s = t' :: ts := hts
        have hmem : ∀ t ∈ t' :: ts, '.' ∉ t := fun t ht => ih (htokens ▸ ht)
        rcases List.mem_cons.1 h with rfl | hrest
        · intro hin
          rcases List.mem_cons.1 hin with rfl | hin
          · exact hdot rfl
          · exact hmem t' List.mem_cons_self hin
        · exact hmem t (List.mem_cons_of_mem t' hrest)

theorem tokens_intercalate (hne : ts ≠ []) (hdots : ∀ t ∈ ts, '.' ∉ t) :
    tokens (List.intercalate ['.'] ts) = ts :=
  List.splitOn_intercalate '.' hdots hne

/-- Nine tokens are the old form. -/
theorem splice_inv (hnine : ts.length = 9)
    (h : splice ts = "$JS".toList :: "ACK".toList :: f.domain :: f.accountHash ::
      (f.counters ++ random)) :
    f.domain = blank ∧ f.accountHash = [] ∧ ts = "$JS".toList :: "ACK".toList :: f.counters := by
  have htwo : (ts.take 2).length = ["$JS".toList, "ACK".toList].length := by
    rw [List.length_take, hnine]
    rfl
  obtain ⟨hfront, hback⟩ := @List.append_inj _ (ts.take 2) ["$JS".toList, "ACK".toList] _
    (f.domain :: f.accountHash :: (f.counters ++ random)) h htwo
  obtain ⟨hdomain, hback⟩ := List.cons.inj hback
  obtain ⟨hhash, hback⟩ := List.cons.inj hback
  have hnil : random = [] := by
    have hlength := congrArg List.length hback
    rw [List.length_drop, hnine, List.length_append] at hlength
    have hcounters : f.counters.length = 7 := rfl
    exact List.length_eq_zero_iff.1 (by omega)
  refine ⟨hdomain.symm, hhash.symm, ?_⟩
  rw [← List.take_append_drop 2 ts, hfront, hback, hnil, List.append_nil]
  rfl

/-- The tokens in front. -/
theorem head_dotless : ∀ t ∈ ["$JS".toList, "ACK".toList], '.' ∉ t := by decide

theorem parseInfo_newReply (hf : f.Dotless) (hrandom : ∀ t ∈ random, '.' ∉ t) :
    parseInfo (f.newReply random) = .ok f.info := by
  have hts : tokens (f.newReply random) =
      "$JS".toList :: "ACK".toList :: f.domain :: f.accountHash :: (f.counters ++ random) := by
    refine tokens_intercalate (List.cons_ne_nil _ _) fun t ht => ?_
    rcases List.mem_append.1
      (show t ∈ ["$JS".toList, "ACK".toList] ++ ((f.domain :: f.accountHash :: f.counters) ++
      random) from ht) with hfront | hback
    · exact head_dotless t hfront
    · rcases List.mem_append.1 hback with hfields | hbehind
      · exact hf t hfields
      · exact hrandom t hbehind
  have hnine :
      ("$JS".toList :: "ACK".toList :: f.domain :: f.accountHash :: (f.counters ++ random)).length ≠
        9 := by
    simp [Fields.counters]
  rw [parseInfo, hts, if_neg hnine]
  exact if_neg (not_or.2 ⟨not_not.2 rfl, not_not.2 rfl⟩)

theorem parseInfo_oldReply (hf : f.Dotless) (hdomain : f.domain = blank)
    (hhash : f.accountHash = []) : parseInfo f.oldReply = .ok f.info := by
  have hts : tokens f.oldReply = "$JS".toList :: "ACK".toList :: f.counters := by
    refine tokens_intercalate (List.cons_ne_nil _ _) fun t ht => ?_
    rcases List.mem_append.1 (show t ∈ ["$JS".toList, "ACK".toList] ++ f.counters from ht) with
      hfront | hback
    · exact head_dotless t hfront
    · exact hf t (List.mem_cons_of_mem _ (List.mem_cons_of_mem _ hback))
  rw [parseInfo, hts, if_pos (by rfl)]
  obtain ⟨domain, accountHash, stream, consumer, deliveryCount, streamSequence,
      deliverySequence, timestamp,
    pending⟩ := f
  cases hdomain
  cases hhash
  exact if_neg (not_or.2 ⟨not_not.2 rfl, not_not.2 rfl⟩)

/-- **What `parseInfo` accepts**, and as what. -/
theorem parseInfo_eq_ok_iff (s : Text) (di : DeliveryInfo) :
    parseInfo s = .ok di ↔ ∃ f : Fields, f.Dotless ∧ di = f.info ∧
      (f.domain = blank ∧ f.accountHash = [] ∧ s = f.oldReply ∨
        ∃ random : List Text, (∀ t ∈ random, '.' ∉ t) ∧ s = f.newReply random) := by
  constructor
  · intro h
    rw [parseInfo] at h
    split at h
    case h_2 => cases h
    case h_1 js ack domain accountHash stream consumer deliveryCount streamSequence
        deliverySequence timestamp pending random heq =>
      split at h
      case isTrue => cases h
      case isFalse hhead =>
        obtain ⟨hjs, hack⟩ := not_or.1 hhead
        cases not_not.1 hjs
        cases not_not.1 hack
        cases h
        have hdots : ∀ t ∈ tokens s, '.' ∉ t := fun t ht => not_mem_of_mem_tokens ht
        refine ⟨⟨domain, accountHash, stream, consumer, deliveryCount, streamSequence,
          deliverySequence, timestamp, pending⟩, ?_⟩
        generalize hf : Fields.mk domain accountHash stream consumer deliveryCount streamSequence
          deliverySequence timestamp pending = f
        -- nine tokens get a blank domain and an empty account, others are read as they are
        by_cases hnine : (tokens s).length = 9
        · rw [if_pos hnine] at heq
          obtain ⟨hdomain, hhash, hts⟩ :=
            @splice_inv f (tokens s) random hnine (by rw [← hf]; exact heq)
          refine ⟨?_, rfl, .inl ⟨hdomain, hhash, ?_⟩⟩
          · intro t ht
            rw [hdomain, hhash] at ht
            -- the domain and the account were put in, the others are tokens of the text
            rcases List.mem_cons.1 ht with rfl | ht
            · decide
            · rcases List.mem_cons.1 ht with rfl | ht
              · exact List.not_mem_nil
              · exact hdots t (hts ▸ List.mem_cons_of_mem _ (List.mem_cons_of_mem _ ht))
          · rw [Fields.oldReply, ← hts, intercalate_tokens]
        · rw [if_neg hnine] at heq
          have hts : tokens s =
              "$JS".toList :: "ACK".toList :: f.domain :: f.accountHash ::
              (f.counters ++ random) := by
            rw [← hf]
            exact heq
          have hin : ∀ t ∈ f.domain :: f.accountHash :: (f.counters ++ random), '.' ∉ t :=
            fun t ht =>
            hdots t (hts ▸ List.mem_cons_of_mem _ (List.mem_cons_of_mem _ ht))
          refine ⟨fun t ht => hin t ?_, rfl, .inr ⟨random, fun t ht => hin t ?_, ?_⟩⟩
          · exact List.mem_append_left random ht
          · exact List.mem_append_right (f.domain :: f.accountHash :: f.counters) ht
          · rw [Fields.newReply, ← hts, intercalate_tokens]
  · rintro ⟨f, hdotless, rfl, ⟨hdomain, hhash, rfl⟩ | ⟨random, hrandom, rfl⟩⟩
    · exact parseInfo_oldReply hdotless hdomain hhash
    · exact parseInfo_newReply hdotless hrandom

end

/-! ## Numbers -/

/-- A number that a text of digits says, as a JavaScript number: exact up to `2 ^ 53`, then off by
at most its `2 ^ 53`-th part, and infinite where it is too large. -/
def Near (x : Option Number) (n : Nat) : Prop :=
  (n < Number.overflow →
    ∃ m : Nat, x = some (.finite m) ∧ (n ≤ 2 ^ 53 → m = n) ∧ m ≤ n + n / 2 ^ 53 ∧
    n ≤ m + n / 2 ^ 53) ∧
  (Number.overflow ≤ n → x = some .infinity)

theorem parseNumber_toDigits (n : Nat) : parseNumber (Nat.toDigits 10 n) = some (.ofNat n) := by
  have hread : readInt (Nat.toDigits 10 n ++ []) = some (n : Int) := MsgHdrs.readInt_digits n rfl
  rw [List.append_nil] at hread
  rw [parseNumber, hread]
  rfl

theorem near_parseNumber (n : Nat) : Near (parseNumber (Nat.toDigits 10 n)) n := by
  obtain ⟨hupper, hlower⟩ := roundNat_error 53 n
  rw [parseNumber_toDigits]
  constructor
  · intro hlt
    exact ⟨f64 n, congrArg some (Number.ofNat_of_lt hlt), fun hn => f64_of_le hn, hupper, hlower⟩
  · intro hge
    exact congrArg some (Number.ofNat_of_ge hge)

/-! ## Replies -/

/-- A delivery, as the server knows it. -/
structure Delivery where
  domain : Option Text
  accountHash : Text
  stream : Text
  consumer : Text
  deliveryCount : Nat
  streamSequence : Nat
  deliverySequence : Nat
  timestamp : Nat
  pending : Nat

namespace Delivery

/-- How the server writes it. -/
def fields (d : Delivery) : Fields where
  domain := d.domain.getD blank
  accountHash := d.accountHash
  stream := d.stream
  consumer := d.consumer
  deliveryCount := Nat.toDigits 10 d.deliveryCount
  streamSequence := Nat.toDigits 10 d.streamSequence
  deliverySequence := Nat.toDigits 10 d.deliverySequence
  timestamp := Nat.toDigits 10 d.timestamp
  pending := Nat.toDigits 10 d.pending

/-- Names without dots; `_` names no domain. -/
structure Named (d : Delivery) : Prop where
  domain : ∀ t, d.domain = some t → '.' ∉ t ∧ t ≠ blank
  accountHash : '.' ∉ d.accountHash
  stream : '.' ∉ d.stream
  consumer : '.' ∉ d.consumer

/-- A reply subject of the delivery, in one of the forms. -/
inductive Reply (d : Delivery) : Text → Prop where
  | old (hdomain : d.domain = none) (hhash : d.accountHash = []) : Reply d d.fields.oldReply
  | new (random : List Text) (hrandom : ∀ t ∈ random, '.' ∉ t) : Reply d (d.fields.newReply random)

end Delivery

theorem not_mem_toDigits (n : Nat) : '.' ∉ Nat.toDigits 10 n := fun hin =>
  absurd (Nat.isDigit_of_mem_toDigits (by decide) (by decide) hin) (by decide)

theorem Delivery.Named.dotless {d : Delivery} (h : d.Named) : d.fields.Dotless := by
  intro t ht
  have hdomain : '.' ∉ d.domain.getD blank := by
    cases hd : d.domain with
    | none => decide
    | some t => exact (h.domain t hd).1
  simp only [Fields.counters, fields, List.mem_cons, List.not_mem_nil, or_false] at ht
  rcases ht with rfl | rfl | rfl | rfl | rfl | rfl | rfl | rfl | rfl
  · exact hdomain
  · exact h.accountHash
  · exact h.stream
  · exact h.consumer
  all_goals exact not_mem_toDigits _

/-- **What a server says comes back**, in both forms of the reply subject. -/
theorem parseInfo_reply (d : Delivery) (hd : d.Named) {s : Text} (hs : d.Reply s) :
    ∃ di, parseInfo s = .ok di ∧ di.domain = d.domain.getD [] ∧ di.accountHash = d.accountHash ∧
      di.stream = d.stream ∧ di.consumer = d.consumer ∧ Near di.deliveryCount d.deliveryCount ∧
      di.redeliveryCount = di.deliveryCount ∧ (di.redelivered = true ↔ 1 < d.deliveryCount) ∧
      Near di.streamSequence d.streamSequence ∧ Near di.deliverySequence d.deliverySequence ∧
      Near di.timestampNanos d.timestamp ∧ Near di.pending d.pending := by
  refine ⟨d.fields.info, ?_, ?_, rfl, rfl, rfl, near_parseNumber _, rfl, ?_, near_parseNumber _,
    near_parseNumber _, near_parseNumber _, near_parseNumber _⟩
  · cases hs with
    | old hdomain hhash =>
        exact parseInfo_oldReply hd.dotless (congrArg (Option.getD · blank) hdomain) hhash
    | new random hrandom => exact parseInfo_newReply hd.dotless hrandom
  · show (if d.domain.getD blank = blank then [] else d.domain.getD blank) = d.domain.getD []
    cases hdomain : d.domain with
    | none => exact if_pos rfl
    | some t => exact if_neg (hd.domain t hdomain).2
  · show (parseNumber (Nat.toDigits 10 d.deliveryCount)).any (Number.lt (.finite 1)) = true ↔ _
    rw [parseNumber_toDigits, Option.any_some, Number.lt_iff]
    exact Number.one_lt_ofNat_iff _

/-- The second delivery of a message of a domain. -/
def second : Delivery :=
  ⟨some "hub".toList, "acc".toList, "S".toList, "C".toList, 2, 10, 3, 1700000000123456789, 0⟩

theorem parseInfo_reply_second :
    ∃ di, parseInfo (second.fields.newReply ["tok".toList]) = .ok di ∧ di.domain = "hub".toList ∧
      di.redelivered = true ∧ Near di.timestampNanos 1700000000123456789 := by
  have hnamed : second.Named := by
    refine ⟨?_, by decide, by decide, by decide⟩
    rintro t ⟨⟩
    decide
  obtain ⟨di, hok, hdomain, -, -, -, -, -, hredelivered, -, -, htimestamp, -⟩ :=
    parseInfo_reply second hnamed (.new ["tok".toList] (by decide))
  exact ⟨di, hok, hdomain, hredelivered.2 (by decide), htimestamp⟩

end NatsClient.JetStream
