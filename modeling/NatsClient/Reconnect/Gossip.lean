import NatsClient.Reconnect.HostPort
import NatsClient.Reconnect.Servers

/-!
# Servers that the cluster reports

What `update` makes of the pool, for any list of reported urls. The servers of the pool go by their
listen addresses, and the reported ones by their urls as they are spelled.

* `update_eq`: the pool and the changes behind an update;
* `refreshed_iff`: they are what was reported just if each url is spelled as its listen address. One
  that is not has its server taken for a new one, beside or instead of the one that is there.
-/

set_option autoImplicit false

namespace NatsClient.Reconnect

open NatsClient.Foundation NatsClient.Wire

/-- `hostPort(u).listen`; what is said here of a text that `hostPort` throws on matters to no result
about spellings of addresses (`Spelled`). -/
def Platform.listen (platform : Platform) (u : String) : String :=
  match platform.hostPort u.toList with
  | some v => String.ofList v.listen
  | none => ""

/-- A spelling of a host name or an address, with or without a port. -/
def Platform.Spelled (platform : Platform) (u : String) : Prop :=
  ∃ v, platform.hostPort u.toList = some v ∧ v.port ≤ 65535

theorem Platform.Standard.listen_listen {platform : Platform} (hplatform : platform.Standard)
    {u : String} (hu : platform.Spelled u) :
    platform.listen (platform.listen u) = platform.listen u := by
  obtain ⟨v, hv, hport⟩ := hu
  obtain ⟨v', hv', hlisten⟩ := hplatform.hostPort_listen hv hport
  have hu : platform.listen u = String.ofList v.listen := by rw [Platform.listen, hv]
  rw [hu, Platform.listen, String.toList_ofList, hv']
  exact congrArg String.ofList hlisten

namespace Servers

/-- The listen addresses of the pool. -/
def listens (s : Servers) : List String := s.servers.map fun i => (s.impl i).listen

/-- A server is configured, or the current one, or reported. -/
def stays (hostPort : String → String) (urls : List String) (s : Servers) (i : Nat) : Bool :=
  (s.impl i).gossiped = false || (s.impl i).listen = (s.impl s.currentServer).listen ||
    (s.impl i).listen ∈ urls.map hostPort

/-- What an update is to do: the servers that stay are kept in their order and as they are, there is
one new gossiped server for each address that was not there, no address twice, and the changes are
the differences. -/
structure Refreshed (hostPort : String → String) (urls : List String) (s s' : Servers)
    (changes : ServersChanged) : Prop where
  pool : ∃ fresh, s'.servers = s.servers.filter (s.stays hostPort urls) ++ fresh ∧
    (∀ i ∈ fresh, s.made ≤ i ∧ (s'.impl i).gossiped = true) ∧
    ∀ u, u ∈ fresh.map (fun i => (s'.impl i).listen) ↔ u ∈ urls.map hostPort ∧ u ∉ s.listens
  impl : ∀ i ∈ s.servers, s'.impl i = s.impl i
  distinct : s'.listens.Nodup
  added : changes.added.Nodup ∧ ∀ u, u ∈ changes.added ↔ u ∈ s'.listens ∧ u ∉ s.listens
  deleted : changes.deleted.Nodup ∧ ∀ u, u ∈ changes.deleted ↔ u ∈ s.listens ∧ u ∉ s'.listens

/-- A pool without duplicate listen addresses, whose servers were made under spellings of
addresses. -/
structure Listed (platform : Platform) (s : Servers) : Prop where
  made : s.Made
  current : s.currentServer < s.made
  spelled : ∀ i ∈ s.servers, ∃ u, platform.Spelled u ∧ (s.impl i).listen = platform.listen u
  distinct : s.listens.Nodup

section

variable {hostPort : String → String} {s s' : Servers} {urls : List String}

/-- **The reported urls** are the keys, each with a server at its listen address. -/
theorem keys_discover (hostPort : String → String) (s : Servers) (urls : List String) :
    (∀ u, u ∈ (s.discover hostPort urls).2.keys ↔ u ∈ urls) ∧
      ∀ u i, (s.discover hostPort urls).2.get u = some i →
        ((s.discover hostPort urls).1.impl i).listen = hostPort u := by
  -- behind any urls that were reported before
  suffices h : ∀ (front : List String) (found : Servers × OrderedMap String Nat), Grows s found.1 →
      Discovered s found.1 found.2 → (∀ u, u ∈ found.2.keys ↔ u ∈ front) →
      (∀ u i, found.2.get u = some i → (found.1.impl i).listen = hostPort u) →
        (∀ u, u ∈ (urls.foldl (report hostPort) found).2.keys ↔ u ∈ front ++ urls) ∧
          ∀ u i, (urls.foldl (report hostPort) found).2.get u = some i →
            ((urls.foldl (report hostPort) found).1.impl i).listen = hostPort u by
    refine h [] (s, .empty) ⟨rfl, rfl, rfl, Nat.le_refl _, fun _ _ => rfl⟩ ⟨?_, ?_, ?_⟩
      (fun u => Iff.rfl) ?_
    · intro u i hget
      cases hget
    · intro u i hget
      cases hget
    · intro u u' i hget
      cases hget
    · intro u i hget
      cases hget
  induction urls with
  | nil =>
      intro front found _ _ hkeys hlisten
      rw [List.append_nil]
      exact ⟨hkeys, hlisten⟩
  | cons hp urls ih =>
      intro front found hgrows hfound hkeys hlisten
      obtain ⟨hgrows', hfound'⟩ := hfound.report hgrows hostPort hp
      have hnext := ih (front ++ [hp]) (report hostPort found hp) hgrows' hfound' ?_ ?_
      · rw [List.append_assoc] at hnext
        exact hnext
      · intro u
        show u ∈ (found.2.set hp found.1.made).keys ↔ _
        rw [OrderedMap.mem_keys_set, hkeys, List.mem_append, List.mem_singleton]
      · intro u i hget
        have hset : (found.2.set hp found.1.made).get u = some i := hget
        rw [OrderedMap.get_set] at hset
        show (Function.update found.1.impl found.1.made (.new hostPort hp true) i).listen = _
        split at hset
        · next heq =>
            cases hset
            rw [Function.update_self, heq]
            rfl
        · rw [Function.update_of_ne (hfound.fresh u i hset).2.ne]
          exact hlisten u i hset

/-- The loop removes the addresses of the pool from what was reported. -/
theorem sweep_discovered (s : Servers) (pool : List Nat) (index : Nat)
    (discovered : OrderedMap String Nat) :
    (s.sweep pool index discovered).2 = discovered.deleteAll
      (pool.map fun i => (s.impl i).listen) := by
  induction pool generalizing index discovered with
  | nil => rfl
  | cons i rest ih => exact ih (index + 1) (discovered.delete (s.impl i).listen)

/-- A server leaves the ones behind it in the pool as they were: their addresses are others. -/
theorem isUnreported_delete {i j : Nat} {rest : List Nat}
    (hnot : (s.impl i).listen ∉ rest.map fun j => (s.impl j).listen)
    (discovered : OrderedMap String Nat) (hj : j ∈ rest) :
    s.isUnreported (discovered.delete (s.impl i).listen) j = s.isUnreported discovered j := by
  have hne : (s.impl j).listen ≠ (s.impl i).listen := fun heq => hnot (List.mem_map.2 ⟨j, hj, heq⟩)
  rw [isUnreported, OrderedMap.get_delete, if_neg hne, isUnreported]

/-- Without duplicates, the loop looks at each server as if it was the first. -/
theorem survivors_eq {pool : List Nat} (hnodup : (pool.map fun i => (s.impl i).listen).Nodup)
    (discovered : OrderedMap String Nat) :
    s.survivors pool discovered = pool.filter fun i => !s.isUnreported discovered i := by
  induction pool generalizing discovered with
  | nil => rfl
  | cons i rest ih =>
      rw [List.map_cons, List.nodup_cons] at hnodup
      have hrest : (rest.filter fun j => !s.isUnreported (discovered.delete (s.impl i).listen) j) =
          rest.filter fun j => !s.isUnreported discovered j := by
        apply List.filter_congr
        intro j hj
        rw [isUnreported_delete hnodup.1 discovered hj]
      rw [survivors, ih hnodup.2, hrest, List.filter_cons]
      cases s.isUnreported discovered i <;> rfl

theorem removed_eq {pool : List Nat} (hnodup : (pool.map fun i => (s.impl i).listen).Nodup)
    (front : List Nat) (discovered : OrderedMap String Nat) :
    ((s.sweep pool front.length discovered).1.filterMap fun index => (front ++ pool)[index]?) =
      pool.filter (s.isUnreported discovered) := by
  induction pool generalizing front discovered with
  | nil => rfl
  | cons i rest ih =>
      rw [List.map_cons, List.nodup_cons] at hnodup
      have hrest : rest.filter (s.isUnreported (discovered.delete (s.impl i).listen)) =
          rest.filter (s.isUnreported discovered) :=
        List.filter_congr fun j hj => isUnreported_delete hnodup.1 discovered hj
      have hnext := ih hnodup.2 (front ++ [i]) (discovered.delete (s.impl i).listen)
      rw [List.length_append, List.length_singleton, List.append_assoc, List.singleton_append,
        hrest] at hnext
      rw [sweep, List.filter_cons]
      split
      · rw [List.filterMap_cons, List.getElem?_append_right (Nat.le_refl _), Nat.sub_self, hnext]
        rfl
      · exact hnext

/-- What an update leaves, with the new servers under their urls: it compares the urls as they are
spelled. -/
structure Updated (hostPort : String → String) (urls : List String) (s s' : Servers)
    (changes : ServersChanged) (fresh : OrderedMap String Nat) : Prop where
  servers : s'.servers = s.servers.filter (s.stays id urls) ++ fresh.values
  impl : ∀ i < s.made, s'.impl i = s.impl i
  listen : ∀ u i, fresh.get u = some i → s.made ≤ i ∧ (s'.impl i).gossiped = true ∧
    (s'.impl i).listen = hostPort u
  keys : ∀ u, u ∈ fresh.keys ↔ u ∈ urls ∧ u ∉ s.listens
  added : changes.added = fresh.keys
  deleted : changes.deleted =
    ((s.servers.filter fun i => !s.stays id urls i).map fun i => (s.impl i).listen).reverse

/-- **What `update` does** to a pool without duplicates. -/
theorem update_eq (hmade : s.Made) (hcurrent : s.currentServer < s.made) (hnodup : s.listens.Nodup)
    (hostPort : String → String) (urls : List String) :
    ∃ fresh, Updated hostPort urls s (s.update hostPort urls).1
      (s.update hostPort urls).2 fresh := by
  obtain ⟨hgrows, hfound⟩ := s.grows_discover hostPort urls
  obtain ⟨hkeys, hlisten⟩ := keys_discover hostPort s urls
  generalize hs₁ : (s.discover hostPort urls).1 = s₁ at hgrows hfound hlisten
  generalize hd : (s.discover hostPort urls).2 = discovered at hfound hkeys hlisten
  have himpl : ∀ i ∈ s.servers, s₁.impl i = s.impl i := fun i hi => hgrows.impl i (hmade i hi)
  have hlistens : (s.servers.map fun i => (s₁.impl i).listen) = s.listens :=
    List.map_congr_left fun i hi => by rw [himpl i hi]
  -- the test of the loop, in terms of the urls
  have htest : ∀ i ∈ s.servers, s₁.isUnreported discovered i = !s.stays id urls i := by
    intro i hi
    have hget : (discovered.get (s.impl i).listen).isNone = !decide ((s.impl i).listen ∈ urls) := by
      rw [← Bool.not_inj_iff, Bool.not_not, Option.not_isNone, Bool.eq_iff_iff,
        decide_eq_true_eq, ← hkeys, OrderedMap.mem_keys, Option.isSome_iff_exists]
    rw [isUnreported, himpl i hi, hgrows.currentServer, hgrows.impl _ hcurrent, hget, stays,
      List.map_id]
    cases (s.impl i).gossiped <;>
      simp [bne, eq_comm, Bool.beq_eq_decide_eq]
  have hnodup₁ : (s₁.servers.map fun i => (s₁.impl i).listen).Nodup := by
    rw [hgrows.servers, hlistens]
    exact hnodup
  have hswept : (s₁.sweep s₁.servers 0 discovered).2 = discovered.deleteAll s.listens := by
    rw [sweep_discovered, hgrows.servers, hlistens]
  have hkept : (s₁.sweep s₁.servers 0 discovered).1.reverse.foldl List.eraseIdx s₁.servers =
      s.servers.filter (s.stays id urls) := by
    have hsplice := s₁.eraseIdx_sweep [] s₁.servers discovered
    rw [List.nil_append, List.nil_append, List.length_nil, survivors_eq hnodup₁,
      hgrows.servers] at hsplice
    rw [hgrows.servers, hsplice]
    apply List.filter_congr
    intro i hi
    rw [htest i hi, Bool.not_not]
  have hremoved : (s₁.sweep s₁.servers 0 discovered).1.filterMap (s₁.servers[·]?) =
      s.servers.filter fun i => !s.stays id urls i := by
    have hsplice := removed_eq hnodup₁ [] discovered
    rw [List.nil_append, List.length_nil] at hsplice
    rw [hsplice, hgrows.servers]
    exact List.filter_congr fun i hi => htest i hi
  have hpool : s.update hostPort urls =
      ({ s₁ with
        servers := s.servers.filter (s.stays id urls) ++ (discovered.deleteAll s.listens).values },
        ⟨(discovered.deleteAll s.listens).keys,
          ((s.servers.filter fun i => !s.stays id urls i).map fun i =>
            (s₁.impl i).listen).reverse⟩) := by
    rw [← hswept, ← hkept, ← hremoved, ← hs₁, ← hd, ← List.map_reverse, ← List.filterMap_reverse]
    rfl
  rw [hpool]
  have hfresh : ∀ u i, (discovered.deleteAll s.listens).get u = some i →
      discovered.get u = some i := by
    intro u i hget
    rw [OrderedMap.get_deleteAll] at hget
    split at hget
    · cases hget
    · exact hget
  refine ⟨discovered.deleteAll s.listens, rfl, hgrows.impl, fun u i hget => ?_,
    fun u => ?_, rfl, ?_⟩
  · have hold := hfresh u i hget
    exact ⟨(hfound.fresh u i hold).1, (hfound.gossiped u i hold).1, hlisten u i hold⟩
  · rw [OrderedMap.keys_deleteAll, List.mem_filter, hkeys, decide_eq_true_eq]
  · refine congrArg List.reverse (List.map_congr_left fun i hi => ?_)
    rw [himpl i (List.mem_filter.1 hi).1]

section

variable {changes : ServersChanged} {fresh : OrderedMap String Nat}

theorem Updated.fresh_listens (hupdated : Updated hostPort urls s s' changes fresh) :
    (fresh.values.map fun i => (s'.impl i).listen) = fresh.keys.map hostPort := by
  rw [OrderedMap.values, OrderedMap.keys, List.map_map, List.map_map]
  apply List.map_congr_left
  intro e he
  exact (hupdated.listen e.1 e.2 (OrderedMap.mem_entries.1 he)).2.2

/-- The addresses of the pool behind an update: those of the servers that are kept, and the new
ones. -/
theorem Updated.listens (hupdated : Updated hostPort urls s s' changes fresh) (hmade : s.Made) :
    s'.listens = ((s.servers.filter (s.stays id urls)).map fun i => (s.impl i).listen) ++
      fresh.keys.map hostPort := by
  rw [Servers.listens, hupdated.servers, List.map_append, hupdated.fresh_listens]
  congr 1
  apply List.map_congr_left
  intro i hi
  rw [hupdated.impl i (hmade i (List.mem_filter.1 hi).1)]

/-- An update does what it is to do where the urls are spelled as listen addresses. -/
theorem Updated.refreshed (hupdated : Updated hostPort urls s s' changes fresh) (hmade : s.Made)
    (hdistinct : s.listens.Nodup) (hsame : ∀ u ∈ urls, hostPort u = u) :
    Refreshed hostPort urls s s' changes := by
  have hurls : urls.map hostPort = urls.map id := List.map_congr_left hsame
  have hstays : s.stays hostPort urls = s.stays id urls := by
    funext i
    rw [stays, hurls, stays]
  have hkeys : fresh.keys.map hostPort = fresh.keys := by
    refine (List.map_congr_left fun u hu => ?_).trans (List.map_id _)
    exact hsame u ((hupdated.keys u).1 hu).1
  have hlistens := hupdated.listens hmade
  rw [hkeys] at hlistens
  have hkept : ∀ u, u ∈ ((s.servers.filter (s.stays id urls)).map fun i => (s.impl i).listen) →
      u ∈ s.listens :=
    fun u hu => (List.filter_sublist.map _).subset hu
  have hnodup : s'.listens.Nodup := by
    rw [hlistens, List.nodup_append]
    refine ⟨hdistinct.sublist (List.filter_sublist.map _), fresh.nodup, ?_⟩
    rintro u hu _ hu' rfl
    exact ((hupdated.keys u).1 hu').2 (hkept u hu)
  refine ⟨⟨fresh.values, ?_, fun i hi => ?_, fun u => ?_⟩, fun i hi => hupdated.impl i (hmade i hi),
    hnodup, ⟨?_, fun u => ?_⟩, ?_, fun u => ?_⟩
  · rw [hstays]
    exact hupdated.servers
  · obtain ⟨u, hget⟩ := OrderedMap.mem_values.1 hi
    have hnew := hupdated.listen u i hget
    exact ⟨hnew.1, hnew.2.1⟩
  · rw [hupdated.fresh_listens, hkeys, hurls, List.map_id]
    exact hupdated.keys u
  · rw [hupdated.added]
    exact fresh.nodup
  · rw [hupdated.added, hlistens, List.mem_append]
    constructor
    · exact fun hu => ⟨.inr hu, ((hupdated.keys u).1 hu).2⟩
    · rintro ⟨hu | hu, hnot⟩
      · exact absurd (hkept u hu) hnot
      · exact hu
  · rw [hupdated.deleted, List.nodup_reverse]
    exact hdistinct.sublist (List.filter_sublist.map _)
  · -- no address is both deleted and kept: each is the address of one server
    rw [hupdated.deleted, List.mem_reverse, hlistens, List.mem_append, not_or]
    constructor
    · intro hu
      obtain ⟨i, hi, rfl⟩ := List.mem_map.1 hu
      obtain ⟨hi, hgone⟩ := List.mem_filter.1 hi
      have hmem : (s.impl i).listen ∈ s.listens := List.mem_map_of_mem hi
      refine ⟨hmem, fun hstay => ?_, fun hnew => ((hupdated.keys _).1 hnew).2 hmem⟩
      obtain ⟨j, hj, heq⟩ := List.mem_map.1 hstay
      obtain ⟨hj, hkeep⟩ := List.mem_filter.1 hj
      obtain rfl : j = i := List.inj_on_of_nodup_map hdistinct hj hi heq
      rw [hkeep] at hgone
      cases hgone
    · rintro ⟨hu, hnot, -⟩
      obtain ⟨i, hi, rfl⟩ := List.mem_map.1 hu
      refine List.mem_map.2 ⟨i, List.mem_filter.2 ⟨hi, ?_⟩, rfl⟩
      rw [Bool.not_eq_true']
      by_contra hstay
      rw [Bool.not_eq_false] at hstay
      exact hnot (List.mem_map.2 ⟨i, List.mem_filter.2 ⟨hi, hstay⟩, rfl⟩)

/-- The urls are spelled as listen addresses where an update does what it is to do: the others are
reported as added under a spelling that no server has. -/
theorem Updated.spelled (hupdated : Updated hostPort urls s s' changes fresh) (hmade : s.Made)
    (hagain : ∀ u ∈ urls, hostPort (hostPort u) = hostPort u)
    (hpool : ∀ u ∈ s.listens, hostPort u = u) (hrefreshed : Refreshed hostPort urls s s' changes) :
    ∀ u ∈ urls, hostPort u = u := by
  intro u hu
  rcases Classical.em (u ∈ s.listens) with hold | hnew
  · exact hpool u hold
  · have hkey : u ∈ fresh.keys := (hupdated.keys u).2 ⟨hu, hnew⟩
    have hlisten := ((hrefreshed.added.2 u).1 (hupdated.added ▸ hkey)).1
    rw [hupdated.listens hmade, List.mem_append] at hlisten
    rcases hlisten with hkept | hfresh
    · exact absurd ((List.filter_sublist.map _).subset hkept) hnew
    · obtain ⟨u', hu', rfl⟩ := List.mem_map.1 hfresh
      exact hagain u' ((hupdated.keys u').1 hu').1

end

/-- **An update does what it is to do exactly if each url is spelled as its listen address.** -/
theorem refreshed_iff (platform : Platform) (hplatform : platform.Standard) (s : Servers)
    (hs : s.Listed platform) (urls : List String) (hurls : ∀ u ∈ urls, platform.Spelled u) :
    Refreshed platform.listen urls s (s.update platform.listen urls).1
      (s.update platform.listen urls).2 ↔ ∀ u ∈ urls, platform.listen u = u := by
  obtain ⟨fresh, hupdated⟩ := update_eq hs.made hs.current hs.distinct platform.listen urls
  refine ⟨hupdated.spelled hs.made (fun u hu => hplatform.listen_listen (hurls u hu)) ?_,
    hupdated.refreshed hs.made hs.distinct⟩
  intro u hu
  obtain ⟨i, hi, rfl⟩ := List.mem_map.1 hu
  obtain ⟨u, hu, heq⟩ := hs.spelled i hi
  rw [heq]
  exact hplatform.listen_listen hu

/-- A pool of one configured server. -/
theorem listed_new : (new Platform.plain.listen ["h:4222"]).Listed .plain := by
  have hspelled : Platform.plain.Spelled "h:4222" := ⟨_, rfl, by decide +kernel⟩
  refine ⟨?_, Nat.one_pos, ?_, by decide +kernel⟩
  · intro i hi
    rw [List.mem_singleton.1 hi]
    exact Nat.one_pos
  · intro i hi
    rw [List.mem_singleton.1 hi]
    exact ⟨_, hspelled, rfl⟩

/-- A server that is reported under its listen address. -/
theorem refreshed_iff_same :
    Refreshed Platform.plain.listen ["j:4222"] (new Platform.plain.listen ["h:4222"])
      ((new Platform.plain.listen ["h:4222"]).update Platform.plain.listen ["j:4222"]).1
      ((new Platform.plain.listen ["h:4222"]).update Platform.plain.listen ["j:4222"]).2 := by
  have hspelled : ∀ u ∈ ["j:4222"], Platform.plain.Spelled u :=
    List.forall_mem_singleton.2 ⟨_, rfl, by decide +kernel⟩
  exact (refreshed_iff .plain Platform.plain_standard _ listed_new ["j:4222"] hspelled).2
    (List.forall_mem_singleton.2 (by decide +kernel))

/-- The server of the pool is reported without its port, and is in the pool twice. -/
theorem not_refreshed :
    ¬ ∀ (platform : Platform) (s : Servers) (urls : List String), platform.Standard →
      s.Listed platform → (∀ u ∈ urls, platform.Spelled u) →
        Refreshed platform.listen urls s (s.update platform.listen urls).1
        (s.update platform.listen urls).2 := by
  intro hall
  have hspelled : ∀ u ∈ ["h"], Platform.plain.Spelled u :=
    List.forall_mem_singleton.2 ⟨_, rfl, by decide +kernel⟩
  have hdistinct := (hall .plain _ ["h"] Platform.plain_standard listed_new hspelled).distinct
  revert hdistinct
  decide +kernel

end

end Servers

end NatsClient.Reconnect
