import Mathlib.Data.List.Nodup
import NatsClient.Foundation.Base64
import NatsClient.Kv.Bucket

/-!
# Keys under a codec

What the calls of a bucket make of a key that `put` accepts, with a codec that decodes what it
encoded. Filters are encoded and the entries of consumers decoded; `get` hands out the subject as it
is stored. So the key behaves as itself in all calls exactly where the codec leaves it alone
(`transparent_iff`).

`route` is what the server makes of the subject of an edit: it undoes the API prefix of another
account and the one of a mirror's origin.
-/

set_option autoImplicit false

namespace NatsClient.Kv

open NatsClient.JetStream

/-! ## Codecs -/

/-- A token of a valid key. -/
def ValidToken (t : Text) : Prop := ∀ c ∈ t, isKeyChar c = true ∧ c ≠ '.'

instance (t : Text) : Decidable (ValidToken t) := List.decidableBAll _ t

/-- The codec decodes what it encoded, on the tokens of the key, and encodes to valid tokens. -/
def KeyCodec.Inverts (codec : KeyCodec) (k : Text) : Prop :=
  ∀ t ∈ tokens k, ValidToken (codec.encode t) ∧ codec.decode (codec.encode t) = t

instance (codec : KeyCodec) (k : Text) : Decidable (codec.Inverts k) :=
  inferInstanceAs (Decidable (∀ t ∈ tokens k, _))

/-- A text of the characters below 256, as bytes. -/
def latin1 (t : Text) : List UInt8 := t.map fun c => UInt8.ofNat c.toNat

/-- `Base64KeyCodec()`, on the texts that `btoa` and `atob` take. -/
def base64KeyCodec : KeyCodec where
  encode key := Foundation.Base64.btoa (latin1 key)
  decode bkey := ((Foundation.Base64.atob bkey).getD []).map fun b => Char.ofNat b.toNat

section

variable {b : Bucket} {k : Text}

theorem ValidToken.not_wildcard {t : Text} (h : ValidToken t) : ¬ (t = ['>'] ∨ t = ['*']) := by
  rintro (rfl | rfl)
  · have hc := (h '>' (List.mem_singleton.2 rfl)).1
    revert hc
    decide
  · have hc := (h '*' (List.mem_singleton.2 rfl)).1
    revert hc
    decide

theorem not_mem_mapToken (hcodec : b.codec.Inverts k) {t : Text} (ht : t ∈ tokens k) :
    '.' ∉ Bucket.mapToken b.codec.encode t := by
  intro hdot
  unfold Bucket.mapToken at hdot
  split at hdot
  · rename_i hwild
    rcases hwild with rfl | rfl
    · revert hdot
      decide
    · revert hdot
      decide
  · exact ((hcodec t ht).1 '.' hdot).2 rfl

/-- Token by token. -/
theorem tokens_encodeKey (hcodec : b.codec.Inverts k) :
    tokens (b.encodeKey k) = (tokens k).map (Bucket.mapToken b.codec.encode) := by
  apply List.splitOn_intercalate
  · intro t ht
    obtain ⟨t', ht', rfl⟩ := List.mem_map.1 ht
    exact not_mem_mapToken hcodec ht'
  · intro hnil
    exact List.splitOn_ne_nil '.' k (List.map_eq_nil_iff.1 hnil)

theorem mapToken_mapToken (hcodec : b.codec.Inverts k) {t : Text} (ht : t ∈ tokens k) :
    Bucket.mapToken b.codec.decode (Bucket.mapToken b.codec.encode t) = t := by
  by_cases hwild : t = ['>'] ∨ t = ['*']
  · have hencode : Bucket.mapToken b.codec.encode t = t := if_pos hwild
    rw [hencode]
    exact if_pos hwild
  · obtain ⟨hvalid, hdecode⟩ := hcodec t ht
    have hencode : Bucket.mapToken b.codec.encode t = b.codec.encode t := if_neg hwild
    rw [hencode]
    exact (if_neg hvalid.not_wildcard).trans hdecode

/-- **Keys are decoded to what was encoded.** -/
theorem decodeKey_encodeKey (hcodec : b.codec.Inverts k) : b.decodeKey (b.encodeKey k) = k := by
  unfold Bucket.decodeKey
  rw [tokens_encodeKey hcodec, List.map_map]
  have hid : (tokens k).map (Bucket.mapToken b.codec.decode ∘ Bucket.mapToken b.codec.encode) =
      tokens k := by
    apply (List.map_congr_left ?_).trans (List.map_id _)
    intro t ht
    exact mapToken_mapToken hcodec ht
  rw [hid, intercalate_tokens]

end

/-! ## Checks -/

section

variable {k : Text} {ok : Char → Bool}

theorem validate_eq_ok : validate ok k = .ok () ↔
    k.head? ≠ some '.' ∧ k.getLast? ≠ some '.' ∧ k ≠ [] ∧ ∀ c ∈ k, ok c = true := by
  unfold validate
  split
  · rename_i hbad
    constructor
    · intro h
      cases h
    · rintro ⟨hhead, hlast, hne, hall⟩
      rcases hbad with h | h | h | h
      · exact absurd h hhead
      · exact absurd h hlast
      · exact absurd h hne
      · exact absurd (List.all_eq_true.2 hall) h
  · rename_i hgood
    simp only [not_or, not_not] at hgood
    exact iff_of_true rfl ⟨hgood.1, hgood.2.1, hgood.2.2.1, List.all_eq_true.1 hgood.2.2.2⟩

/-- A valid key is a valid search key. -/
theorem validateSearchKey_of_validateKey (h : validateKey k = .ok ()) :
    validateSearchKey k = .ok () := by
  obtain ⟨hhead, hlast, hne, hall⟩ := validate_eq_ok.1 h
  apply validate_eq_ok.2
  refine ⟨hhead, hlast, hne, fun c hc => ?_⟩
  simp [isSearchChar, hall c hc]

/-- A valid key has no wildcards. -/
theorem literal_of_validateKey (h : validateKey k = .ok ()) : Literal k := by
  have hall := (validate_eq_ok.1 h).2.2.2
  constructor
  · intro hmem
    have hc := hall _ hmem
    revert hc
    decide
  · intro hmem
    have hc := hall _ hmem
    revert hc
    decide

theorem chunksHaveWildcards_of_literal {found : Bool} {chunks : List Text}
    (h : ∀ chunk ∈ chunks, chunk ≠ ['*'] ∧ chunk ≠ ['>']) :
    chunksHaveWildcards k found chunks = .ok found := by
  induction chunks with
  | nil => rfl
  | cons chunk chunks ih =>
      obtain ⟨hstar, hgt⟩ := h chunk (List.mem_cons_self ..)
      simp only [chunksHaveWildcards, if_neg hstar, if_neg hgt]
      exact ih fun c hc => h c (List.mem_cons_of_mem _ hc)

theorem hasWildcards_of_validateKey (h : validateKey k = .ok ()) : hasWildcards k = .ok false := by
  obtain ⟨hhead, hlast, -, -⟩ := validate_eq_ok.1 h
  unfold hasWildcards
  rw [if_neg (not_or.2 ⟨hhead, hlast⟩)]
  exact chunksHaveWildcards_of_literal fun c hc => (literal_of_validateKey h).of_mem_tokens hc

end

/-! ## Calls on a stream nothing else happens to -/

/-- The server stores a publication. -/
def store (route : Text → Text) (s : Stream) (p : Publication Body) (time : Nat) : Stream :=
  s.append { p with subject := route p.subject } time

namespace Bucket

/-- `get(k)`. -/
def get (b : Bucket) (s : Stream) (k : Text) : Except Text (Option KvEntry) := do
  let subject ← b.getRequest k
  return b.getResponse k (s.lastFor subject)

/-- `_deleteOrPurge(k, op, opts)`: with wildcards, `listed` are the keys that `keys(k)` yields. -/
def deleteOrPurge (b : Bucket) (k : Text) (op : Operation) (previousSeq : Option Nat)
    (listed : List Text) : Except Text (List (Publication Body)) := do
  if ← hasWildcards k then listed.mapM fun k => b.doDeleteOrPurge k op none
  else return [← b.doDeleteOrPurge k op previousSeq]

/-- The messages that a consumer with this filter delivers from the start. -/
def matching (s : Stream) (filter : Text) : List Msg :=
  s.msgs.filter fun m => subjectMatches filter m.subject

/-- Those of them that are the last of their subject. -/
def lastMatching (s : Stream) (filter : Text) : List Msg :=
  (matching s filter).filter fun m => s.lastFor m.subject = some m

/-- The entries of `history`. -/
def historyEntries (b : Bucket) (s : Stream) (filter : Text) : List KvEntry :=
  (matching s filter).map b.jmToEntry

/-- The initial entries of `watch`. -/
def watchEntries (b : Bucket) (s : Stream) (filter : Text) : List KvEntry :=
  (lastMatching s filter).map b.jmToEntry

/-- What `keys` yields. -/
def keyList (b : Bucket) (s : Stream) (filter : Text) : List Text :=
  ((lastMatching s filter).filter fun jm =>
      jm.body.operation ≠ some .DEL ∧ jm.body.operation ≠ some .PURGE).map fun jm =>
    b.decodeKey (jm.subject.drop b.prefixLen)

end Bucket

/-- The key behaves as itself in all calls, behind a `put` that left the stream `s`. -/
structure Transparent (b : Bucket) (route : Text → Text) (s : Stream) (k : Text)
    (data : List UInt8) : Prop where
  get : ∃ e, b.get s k = .ok (some e) ∧ e.key = k ∧ e.value = data
  /-- The key is a filter, and the entries and keys it lets through are its own. -/
  filter : ∃ f, b.filterFor k = .ok f ∧
    (∀ e ∈ b.historyEntries s f, e.key = k) ∧ (∃ e ∈ b.historyEntries s f, e.value = data) ∧
    (∃ e, b.watchEntries s f = [e] ∧ e.key = k ∧ e.value = data) ∧ b.keyList s f = [k]
  delete : ∀ op, op = .DEL ∨ op = .PURGE → ∀ listed time, ∃ p e,
    b.deleteOrPurge k op none listed = .ok [p] ∧ b.get (store route s p time) k = .ok (some e) ∧
      e.key = k ∧ e.operation = op

section

variable {b : Bucket} {route : Text → Text} {s : Stream} {k : Text} {data : List UInt8}
  {p : Publication Body} {m : Msg} {op : Operation}

theorem put_eq_ok {previousSeq : Option Nat} : b.put k data previousSeq = .ok p ↔
    validateKey (b.encodeKey k) = .ok () ∧
      p = ⟨b.subjectForKey (b.encodeKey k) true, ⟨data, none⟩, false, previousSeq⟩ := by
  cases hvalid : validateKey (b.encodeKey k) with
  | error e =>
      simp only [Bucket.put, hvalid]
      constructor
      · intro h
        cases h
      · rintro ⟨h, -⟩
        cases h
  | ok u =>
      simp only [Bucket.put, hvalid]
      constructor
      · intro h
        cases h
        exact ⟨trivial, rfl⟩
      · rintro ⟨-, rfl⟩
        exact rfl

theorem subjectForKey_eq (ek : Text) : b.subjectForKey ek false = b.subjectPrefix ++ '.' :: ek := by
  simp [Bucket.subjectForKey, b.subjectPrefix_ne]

/-- The rest of a subject is the encoded key. -/
theorem drop_subjectForKey (ek : Text) : (b.subjectForKey ek false).drop b.prefixLen = ek := by
  rw [subjectForKey_eq, Bucket.prefixLen]
  exact (congrArg _ (List.append_cons ..)).trans (List.drop_left' (by simp))

/-- What `get` makes of the last message of the key's subject. -/
theorem get_of_lastFor (hvalid : validateKey (b.encodeKey k) = .ok ())
    (hlast : s.lastFor (b.subjectForKey (b.encodeKey k) false) = some m)
    (hsubject : m.subject = b.subjectForKey (b.encodeKey k) false) :
    b.get s k = .ok (some (b.smToEntry m)) ∧ (b.smToEntry m).key = b.encodeKey k := by
  have hkey : (b.smToEntry m).key = b.encodeKey k := by
    show m.subject.drop b.prefixLen = _
    rw [hsubject, drop_subjectForKey]
  refine ⟨?_, hkey⟩
  simp only [Bucket.get, Bucket.getRequest, hvalid]
  show Except.ok (b.getResponse k (s.lastFor _)) = _
  rw [hlast]
  exact congrArg Except.ok (if_neg (not_not.2 hkey))

/-- `get` behind an edit of the key. -/
theorem get_store (hroute : ∀ ek, route (b.subjectForKey ek true) = b.subjectForKey ek false)
    (hvalid : validateKey (b.encodeKey k) = .ok ())
    (hsubject : p.subject = b.subjectForKey (b.encodeKey k) true) (time : Nat) :
    ∃ e, b.get (store route s p time) k = .ok (some e) ∧ e.key = b.encodeKey k ∧
      e.value = p.body.data ∧ e.operation = p.body.operation.getD .PUT := by
  have hstored : route p.subject = b.subjectForKey (b.encodeKey k) false := by
    rw [hsubject, hroute]
  have hlast : (store route s p time).lastFor (b.subjectForKey (b.encodeKey k) false) =
      some ⟨route p.subject, s.lastSeq + 1, time, p.body⟩ := by
    rw [← hstored]
    exact StreamState.lastFor_append
  obtain ⟨hget, hkey⟩ := get_of_lastFor hvalid hlast hstored
  exact ⟨_, hget, hkey, rfl, rfl⟩

/-- An accepted deletion. -/
theorem deleteOrPurge_eq (hvalid : validateKey k = .ok ()) (hfix : b.encodeKey k = k)
    (op : Operation) (listed : List Text) :
    b.deleteOrPurge k op none listed =
      .ok [⟨b.subjectForKey k true, ⟨[], some op⟩, op = .PURGE, none⟩] := by
  simp only [Bucket.deleteOrPurge, Bucket.doDeleteOrPurge, hasWildcards_of_validateKey hvalid, hfix,
    hvalid]
  rfl

theorem fullKeyName_eq (ek : Text) : b.fullKeyName ek = b.subjectForKey ek false :=
  (subjectForKey_eq ek).symm

theorem literal_subjectForKey {ek : Text} (h : Literal ek) :
    Literal (b.subjectForKey ek false) := by
  rw [subjectForKey_eq]
  have hliteral := b.subjectPrefix_literal
  constructor
  · simp [hliteral.1, h.1]
  · simp [hliteral.2, h.2]

/-- The last message of a subject is the only one that a filter for it lets through as a last
one. -/
theorem lastMatching_eq {filter : Text} (hliteral : Literal filter)
    (hlast : s.lastFor filter = some m) : Bucket.lastMatching s filter = [m] := by
  obtain ⟨hmem, hsubject⟩ := StreamState.lastFor_mem hlast
  have hnodup : s.msgs.Nodup := s.ordered.imp fun hlt heq => by
    rw [heq] at hlt
    exact Nat.lt_irrefl _ hlt
  have hfilter : Bucket.lastMatching s filter = s.msgs.filter fun m' => m' = m := by
    unfold Bucket.lastMatching Bucket.matching
    rw [List.filter_filter]
    apply List.filter_congr
    intro m' _
    rw [Bool.eq_iff_iff]
    simp only [Bool.and_eq_true, decide_eq_true_eq, subjectMatches_iff hliteral]
    constructor
    · rintro ⟨hlast', rfl⟩
      rw [hlast] at hlast'
      exact (Option.some.inj hlast').symm
    · rintro rfl
      exact ⟨hsubject ▸ hlast, hsubject.symm⟩
  rw [hfilter, List.filter_eq, List.count_eq_one_of_mem hnodup hmem]
  rfl

/-- The entry of a message of the key. -/
theorem key_jmToEntry (hcodec : b.codec.Inverts k)
    (hsubject : m.subject = b.subjectForKey (b.encodeKey k) false) : (b.jmToEntry m).key = k := by
  show b.decodeKey (m.subject.drop b.prefixLen) = k
  rw [hsubject, drop_subjectForKey, decodeKey_encodeKey hcodec]

/-- A key the codec leaves alone behaves as itself. -/
theorem transparent_of_fixed
    (hroute : ∀ ek, route (b.subjectForKey ek true) = b.subjectForKey ek false)
    (hcodec : b.codec.Inverts k) (hput : b.put k data none = .ok p) (hfix : b.encodeKey k = k)
    (time : Nat) : Transparent b route (store route s p time) k data := by
  obtain ⟨hvalid, rfl⟩ := put_eq_ok.1 hput
  have hk : validateKey k = .ok () := by rwa [hfix] at hvalid
  have hliteral := literal_subjectForKey (b := b) (literal_of_validateKey hk)
  let m : Msg := ⟨b.subjectForKey k false, s.lastSeq + 1, time, ⟨data, none⟩⟩
  -- the entry is the last of its subject
  have hlast : (store route s ⟨b.subjectForKey (b.encodeKey k) true, ⟨data, none⟩, false, none⟩
      time).lastFor (b.subjectForKey k false) = some m := by
    rw [hfix]
    have happend := @StreamState.lastFor_append _ s
      ⟨route (b.subjectForKey k true), ⟨data, none⟩, false, none⟩ time
    simp only [hroute] at happend
    simpa only [store, hroute] using happend
  have hkey : ∀ m' : Msg, m'.subject = b.subjectForKey k false → (b.jmToEntry m').key = k := by
    intro m' hsubject
    exact key_jmToEntry hcodec (hsubject.trans (by rw [hfix]))
  -- a key is no pattern, so that the filter selects just its entry
  have hone := lastMatching_eq hliteral hlast
  constructor
  · -- `get`
    obtain ⟨e, hget, hkey, hvalue, -⟩ := get_store (s := s)
      (p := ⟨b.subjectForKey (b.encodeKey k) true, ⟨data, none⟩, false, none⟩) hroute
      hvalid rfl time
    exact ⟨e, hget, hkey.trans hfix, hvalue⟩
  · -- `history`, `watch` and `keys`
    refine ⟨b.subjectForKey k false, ?_, ?_, ⟨b.jmToEntry m, ?_, rfl⟩,
      ⟨b.jmToEntry m, ?_, ?_, rfl⟩, ?_⟩
    · simp only [Bucket.filterFor, hfix, validateSearchKey_of_validateKey hk, fullKeyName_eq]
      rfl
    · intro e he
      obtain ⟨m', hm', rfl⟩ := List.mem_map.1 he
      exact hkey m' ((subjectMatches_iff hliteral).1 (List.mem_filter.1 hm').2).symm
    · have hm := hone ▸ List.mem_singleton.2 (rfl : m = m)
      exact List.mem_map.2 ⟨m, List.mem_of_mem_filter hm, rfl⟩
    · rw [Bucket.watchEntries, hone]
      rfl
    · exact hkey m rfl
    · rw [Bucket.keyList, hone]
      exact congrArg (fun key => [key]) (hkey m rfl)
  · -- `delete` and `purge`
    intro op hop listed time'
    obtain ⟨e, hget, hkey', -, hoperation⟩ := get_store
      (s := store route s ⟨b.subjectForKey (b.encodeKey k) true, ⟨data, none⟩, false, none⟩ time)
      (p := ⟨b.subjectForKey k true, ⟨[], some op⟩, op = .PURGE, none⟩) hroute hvalid (by rw [hfix])
      time'
    exact ⟨_, e, deleteOrPurge_eq hk hfix op listed, hget, hkey'.trans hfix, hoperation⟩

end

/-- **Where a key is transparent.** With a codec that decodes what it encoded, a key that `put`
accepts behaves as itself in all calls exactly if the codec leaves it alone: `get` reports the key
as it is stored, encoded. -/
theorem transparent_iff (b : Bucket) (route : Text → Text)
    (hroute : ∀ ek, route (b.subjectForKey ek true) = b.subjectForKey ek false) (s : Stream)
    (k : Text) (data : List UInt8) (time : Nat) (p : Publication Body) (hcodec : b.codec.Inverts k)
    (hput : b.put k data none = .ok p) :
    Transparent b route (store route s p time) k data ↔ b.encodeKey k = k := by
  constructor
  · intro h
    obtain ⟨hvalid, rfl⟩ := put_eq_ok.1 hput
    obtain ⟨e, hget, hkey, -⟩ := h.get
    obtain ⟨e', hget', hkey', -⟩ := get_store (s := s)
      (p := ⟨b.subjectForKey (b.encodeKey k) true, ⟨data, none⟩, false, none⟩) hroute
      hvalid rfl time
    have heq : e' = e := by
      have hsome := hget'.symm.trans hget
      injection hsome with hsome
      exact Option.some.inj hsome
    rw [← hkey', heq, hkey]
  · intro hfix
    exact transparent_of_fixed hroute hcodec hput hfix time

/-- The key `a.b` without a codec. -/
theorem transparent_iff_noop :
    (Bucket.plain noopCodec).put "a.b".toList [1] none =
        .ok ⟨"$KV.b.a.b".toList, ⟨[1], none⟩, false, none⟩ ∧
      (Transparent (Bucket.plain noopCodec) id
          (store id (.empty 1 Nat.one_pos) ⟨"$KV.b.a.b".toList, ⟨[1], none⟩, false, none⟩ 0)
          "a.b".toList [1] ↔
        (Bucket.plain noopCodec).encodeKey "a.b".toList = "a.b".toList) :=
  ⟨by decide +kernel,
    transparent_iff (Bucket.plain noopCodec) id (fun _ => rfl)
    (.empty 1 Nat.one_pos) "a.b".toList [1] 0
      ⟨"$KV.b.a.b".toList, ⟨[1], none⟩, false, none⟩ (by decide +kernel) (by decide +kernel)⟩

/-- With the codec `Base64KeyCodec` the key `a` is stored as `YQ==`, and `get` reports it so. -/
theorem not_transparent :
    ¬ ∀ (b : Bucket) (route : Text → Text) (s : Stream) (k : Text) (data : List UInt8) (time : Nat)
        (p : Publication Body),
      (∀ ek, route (b.subjectForKey ek true) = b.subjectForKey ek false) → b.codec.Inverts k →
      b.put k data none = .ok p → Transparent b route (store route s p time) k data := by
  intro h
  have htransparent := h (Bucket.plain base64KeyCodec) id (.empty 1 Nat.one_pos) "a".toList [1] 0
    ⟨"$KV.b.YQ==".toList, ⟨[1], none⟩, false, none⟩ (fun _ => rfl) (by decide +kernel)
    (by decide +kernel)
  obtain ⟨e, hget, hkey, -⟩ := htransparent.get
  have hget' : (Bucket.plain base64KeyCodec).get
      (store id (.empty 1 Nat.one_pos) ⟨"$KV.b.YQ==".toList, ⟨[1], none⟩, false, none⟩ 0)
      "a".toList =
        .ok (some ⟨"YQ==".toList, [1], 0, 1, .PUT⟩) := by
    decide +kernel
  rw [hget'] at hget
  injection hget with hsome
  rw [← Option.some.inj hsome] at hkey
  revert hkey
  decide +kernel

end NatsClient.Kv
