import NatsClient.Foundation.OrderedMap
import Mathlib.Logic.Function.Basic
import Mathlib.Order.Nat

/-!
# The pool of servers

Model of `ServerImpl` and `Servers` (`servers.ts`). The client holds on to a server that left the
pool, so the servers are objects with numbers: `impl` has all that were ever made, and the pool is
the list of the numbers in it. `hostPort` stands for the `listen` that the function of that name
reads in a url.

* `selectServer_cases`: a selection keeps the servers of the pool and makes one the current one;
* `removeServer_of_mem`: a server of the pool is removed and no other;
* `updates_update`: what a cluster update leaves in the pool.
-/

set_option autoImplicit false

namespace NatsClient.Reconnect

open NatsClient.Foundation

/-- The fields of `ServerImpl` that the dial loop reads. -/
structure ServerImpl where
  listen : String
  gossiped : Bool
  didConnect : Bool
  reconnects : Nat
  lastConnect : Int
deriving DecidableEq, Repr

def ServerImpl.new (hostPort : String → String) (u : String) (gossiped : Bool) : ServerImpl :=
  ⟨hostPort u, gossiped, false, 0, 0⟩

/-- `srv.lastConnect = Date.now()`. -/
def ServerImpl.dialedAt (s : ServerImpl) (now : Int) : ServerImpl := { s with lastConnect := now }

/-- `srv.reconnects++`. -/
def ServerImpl.failedOnce (s : ServerImpl) : ServerImpl := { s with reconnects := s.reconnects + 1 }

/-- `server.didConnect = true`, `server.reconnects = 0`. -/
def ServerImpl.connected (s : ServerImpl) : ServerImpl :=
  { s with didConnect := true, reconnects := 0 }

/-- The fields of `Servers`. The objects made so far are those numbered below `made`. -/
structure Servers where
  firstSelect : Bool
  servers : List Nat
  currentServer : Nat
  impl : Nat → ServerImpl
  made : Nat

/-- What `update` reports. -/
structure ServersChanged where
  added : List String
  deleted : List String
deriving DecidableEq, Repr

/-- `${DEFAULT_HOST}:${defaultPort()}`. -/
def defaultServer : String := "127.0.0.1:4222"

/-- `a.indexOf(x)`. -/
def indexOf (a : List Nat) (x : Nat) : Int := if x ∈ a then a.idxOf x else -1

/-- `a.splice(index, 1)`: a negative index counts from the end. -/
def splice (a : List Nat) (index : Int) : List Nat :=
  a.eraseIdx (if index < 0 then index + a.length else index).toNat

namespace Servers

/-- The servers for `listens`, in the order in which the constructor, or its shuffle, leaves
them. -/
def new (hostPort : String → String) (listens : List String) : Servers :=
  let hps := if listens.isEmpty then [defaultServer] else listens
  ⟨true, List.range hps.length, 0, fun i => .new hostPort (hps.getD i "") false, hps.length⟩

def clear (s : Servers) : Servers := { s with servers := [] }

def selectServer (s : Servers) : Option Nat × Servers :=
  -- the first selection leaves the order alone
  if s.firstSelect then (some s.currentServer, { s with firstSelect := false })
  else
    match s.servers with
    | [] => (none, s)
    | t :: rest => (some t, { s with servers := rest ++ [t], currentServer := t })

def removeServer (s : Servers) (server : Nat) : Servers :=
  { s with servers := splice s.servers (indexOf s.servers server) }

def removeCurrentServer (s : Servers) : Servers := s.removeServer s.currentServer

/-- An assignment to the fields of a server. -/
def modify (s : Servers) (i : Nat) (f : ServerImpl → ServerImpl) : Servers :=
  { s with impl := Function.update s.impl i (f (s.impl i)) }

/-- One reported url: a new server under it. -/
def report (hostPort : String → String) (found : Servers × OrderedMap String Nat) (hp : String) :
    Servers × OrderedMap String Nat :=
  ({ found.1 with
      impl := Function.update found.1.impl found.1.made (.new hostPort hp true)
      made := found.1.made + 1 },
    found.2.set hp found.1.made)

/-- `discovered` of `update`: the reported urls with new servers. -/
def discover (hostPort : String → String) (s : Servers) (urls : List String) :
    Servers × OrderedMap String Nat :=
  urls.foldl (report hostPort) (s, .empty)

/-- The test of `update` for a server that is no longer reported. -/
def isUnreported (s : Servers) (discovered : OrderedMap String Nat) (i : Nat) : Bool :=
  (s.impl i).gossiped && (s.impl s.currentServer).listen != (s.impl i).listen &&
    (discovered.get (s.impl i).listen).isNone

/-- The loop of `update` over the pool, from an index on: `toDelete`, and what is left of
`discovered`. -/
def sweep (s : Servers) : List Nat → Nat → OrderedMap String Nat → List Nat × OrderedMap String Nat
  | [], _, discovered => ([], discovered)
  | i :: rest, index, discovered =>
      let swept := s.sweep rest (index + 1) (discovered.delete (s.impl i).listen)
      (if s.isUnreported discovered i then index :: swept.1 else swept.1, swept.2)

/-- `update`. -/
def update (hostPort : String → String) (s : Servers) (urls : List String) :
    Servers × ServersChanged :=
  let (s, discovered) := s.discover hostPort urls
  let (toDelete, discovered) := s.sweep s.servers 0 discovered
  let removed := toDelete.reverse.filterMap (s.servers[·]?)
  let kept := toDelete.reverse.foldl List.eraseIdx s.servers
  ({ s with servers := kept ++ discovered.values },
    ⟨discovered.keys, removed.map fun i => (s.impl i).listen⟩)

section

variable {s s' : Servers} {r : Option Nat} {i j : Nat}

/-- The selection of a server: the first one leaves the order alone, the others take the head of the
pool to its end. -/
structure Selected (s s' : Servers) (srv : Nat) : Prop where
  currentServer : s'.currentServer = srv
  firstSelect : s'.firstSelect = false
  impl : s'.impl = s.impl
  made : s'.made = s.made
  perm : s'.servers.Perm s.servers
  mem : s.firstSelect = true ∧ srv = s.currentServer ∨ s.firstSelect = false ∧ srv ∈ s.servers

/-- **What `selectServer` does.** -/
theorem selectServer_cases (h : s.selectServer = (r, s')) :
    (r = none ∧ s' = s ∧ s.firstSelect = false ∧ s.servers = []) ∨
      ∃ srv, r = some srv ∧ Selected s s' srv := by
  unfold selectServer at h
  cases hfirst : s.firstSelect with
  | true =>
      rw [hfirst, if_pos rfl] at h
      cases h
      exact .inr ⟨_, rfl, rfl, rfl, rfl, rfl, .refl _, .inl ⟨hfirst, rfl⟩⟩
  | false =>
      rw [hfirst, if_neg Bool.false_ne_true] at h
      cases hpool : s.servers with
      | nil =>
          rw [hpool] at h
          cases h
          exact .inl ⟨rfl, rfl, rfl, rfl⟩
      | cons t rest =>
          rw [hpool] at h
          cases h
          refine .inr ⟨t, rfl, ⟨rfl, rfl, rfl, rfl, ?_, .inr ⟨hfirst, ?_⟩⟩⟩
          · rw [hpool]
            exact List.perm_append_singleton t rest
          · rw [hpool]
            exact List.mem_cons_self

/-- **The removal of a server of the pool** removes that server. -/
theorem removeServer_of_mem (h : i ∈ s.servers) :
    s.removeServer i = { s with servers := s.servers.erase i } := by
  have hindex : splice s.servers (indexOf s.servers i) = s.servers.erase i := by
    rw [indexOf, if_pos h, splice, if_neg (Int.not_lt.2 (Int.natCast_nonneg _)), Int.toNat_natCast]
    exact (List.erase_eq_eraseIdx_of_idxOf rfl).symm
  rw [removeServer, hindex]

/-- The removal of a server that is not in the pool removes the last one. -/
theorem removeServer_of_not_mem (h : i ∉ s.servers) :
    s.removeServer i = { s with servers := s.servers.dropLast } := by
  have hindex : splice s.servers (indexOf s.servers i) = s.servers.dropLast := by
    rw [indexOf, if_neg h, splice, if_pos (by decide)]
    have hlast : ((-1 : Int) + (s.servers.length : Int)).toNat = s.servers.length - 1 := by omega
    rw [hlast, List.eraseIdx_length_sub_one]
  rw [removeServer, hindex]

@[simp] theorem modify_servers (s : Servers) (i : Nat) (f : ServerImpl → ServerImpl) :
    (s.modify i f).servers = s.servers := rfl

@[simp] theorem modify_currentServer (s : Servers) (i : Nat) (f : ServerImpl → ServerImpl) :
    (s.modify i f).currentServer = s.currentServer := rfl

@[simp] theorem modify_firstSelect (s : Servers) (i : Nat) (f : ServerImpl → ServerImpl) :
    (s.modify i f).firstSelect = s.firstSelect := rfl

@[simp] theorem modify_made (s : Servers) (i : Nat) (f : ServerImpl → ServerImpl) :
    (s.modify i f).made = s.made := rfl

theorem modify_impl (s : Servers) (i j : Nat) (f : ServerImpl → ServerImpl) :
    (s.modify i f).impl j = if j = i then f (s.impl i) else s.impl j := by
  exact Function.update_apply s.impl i _ j

/-- A field that the assignment leaves alone. -/
theorem modify_field {α : Type} (field : ServerImpl → α) (f : ServerImpl → ServerImpl)
    (hf : ∀ x, field (f x) = field x) (s : Servers) (i j : Nat) :
    field ((s.modify i f).impl j) = field (s.impl j) := by
  rw [modify_impl]
  split
  case isTrue hj => rw [hf, hj]
  case isFalse => rfl

end

/-! ## Cluster updates -/

/-- The objects of a pool were made. -/
def Made (s : Servers) : Prop := ∀ i ∈ s.servers, i < s.made

/-- What making servers leaves of a pool: `made` grows, and the objects made before, the pool and
the current server stay. -/
structure Grows (s s' : Servers) : Prop where
  firstSelect : s'.firstSelect = s.firstSelect
  servers : s'.servers = s.servers
  currentServer : s'.currentServer = s.currentServer
  made : s.made ≤ s'.made
  impl : ∀ i < s.made, s'.impl i = s.impl i

/-- The servers under the reported urls: made since `s`, gossiped, and each under one url. -/
structure Discovered (s s' : Servers) (discovered : OrderedMap String Nat) : Prop where
  fresh : ∀ u i, discovered.get u = some i → s.made ≤ i ∧ i < s'.made
  gossiped : ∀ u i, discovered.get u = some i →
    (s'.impl i).gossiped = true ∧ (s'.impl i).reconnects = 0 ∧ (s'.impl i).lastConnect = 0
  inj : ∀ u u' i, discovered.get u = some i → discovered.get u' = some i → u = u'

theorem Discovered.report {s : Servers} {found : Servers × OrderedMap String Nat}
    (hfound : Discovered s found.1 found.2) (hgrows : Grows s found.1)
    (hostPort : String → String) (hp : String) :
    Grows s (report hostPort found hp).1 ∧
      Discovered s (report hostPort found hp).1 (report hostPort found hp).2 := by
  have himpl : ∀ i, i ≠ found.1.made →
      (Servers.report hostPort found hp).1.impl i = found.1.impl i :=
    fun i hi => Function.update_of_ne hi _ _
  have hnew : (Servers.report hostPort found hp).1.impl found.1.made = .new hostPort hp true :=
    Function.update_self _ _ _
  have hmade : (Servers.report hostPort found hp).1.made = found.1.made + 1 := rfl
  have hother : ∀ u i, found.2.get u = some i → i ≠ found.1.made := fun u i hget =>
    (hfound.fresh u i hget).2.ne
  -- a reported url has the new server, or the one it had
  have hget : ∀ u i, (Servers.report hostPort found hp).2.get u = some i →
      u = hp ∧ i = found.1.made ∨ u ≠ hp ∧ found.2.get u = some i := by
    intro u i hget
    have hset := OrderedMap.get_set found.2 hp u found.1.made
    rw [show (Servers.report hostPort found hp).2 = found.2.set hp found.1.made from rfl,
      hset] at hget
    split at hget
    case isTrue hu =>
      cases hget
      exact .inl ⟨hu, rfl⟩
    case isFalse hu => exact .inr ⟨hu, hget⟩
  constructor
  · refine ⟨hgrows.firstSelect, hgrows.servers, hgrows.currentServer, ?_, fun i hi => ?_⟩
    · exact hgrows.made.trans (Nat.le_succ _)
    · rw [himpl i (hi.trans_le hgrows.made).ne, hgrows.impl i hi]
  · constructor
    · intro u i hi
      rw [hmade]
      rcases hget u i hi with ⟨-, rfl⟩ | ⟨-, hold⟩
      · exact ⟨hgrows.made, Nat.lt_succ_self _⟩
      · have hfresh := hfound.fresh u i hold
        exact ⟨hfresh.1, hfresh.2.trans (Nat.lt_succ_self _)⟩
    · intro u i hi
      rcases hget u i hi with ⟨-, rfl⟩ | ⟨-, hold⟩
      · rw [hnew]
        exact ⟨rfl, rfl, rfl⟩
      · rw [himpl i (hother u i hold)]
        exact hfound.gossiped u i hold
    · intro u u' i hi hi'
      rcases hget u i hi with ⟨rfl, rfl⟩ | ⟨-, hold⟩
      · rcases hget u' _ hi' with ⟨rfl, -⟩ | ⟨-, hold'⟩
        · rfl
        · exact absurd rfl (hother u' _ hold')
      · rcases hget u' i hi' with ⟨-, rfl⟩ | ⟨-, hold'⟩
        · exact absurd rfl (hother u _ hold)
        · exact hfound.inj u u' i hold hold'

theorem grows_discover (hostPort : String → String) (s : Servers) (urls : List String) :
    Grows s (s.discover hostPort urls).1 ∧
      Discovered s (s.discover hostPort urls).1 (s.discover hostPort urls).2 := by
  -- over any list of urls, from any pool grown out of `s`
  suffices h : ∀ found : Servers × OrderedMap String Nat, Grows s found.1 →
      Discovered s found.1 found.2 →
        Grows s (urls.foldl (report hostPort) found).1 ∧
          Discovered s (urls.foldl (report hostPort) found).1
            (urls.foldl (report hostPort) found).2 by
    refine h (s, .empty) ⟨rfl, rfl, rfl, le_rfl, fun _ _ => rfl⟩ ⟨?_, ?_, ?_⟩
    · intro u i hget
      cases hget
    · intro u i hget
      cases hget
    · intro u u' i hget
      cases hget
  induction urls with
  | nil => exact fun found hgrows hfound => ⟨hgrows, hfound⟩
  | cons hp urls ih =>
      intro found hgrows hfound
      obtain ⟨hgrows', hfound'⟩ := hfound.report hgrows hostPort hp
      exact ih _ hgrows' hfound'

/-- The servers that the loop of `update` leaves in the pool. -/
def survivors (s : Servers) : List Nat → OrderedMap String Nat → List Nat
  | [], _ => []
  | i :: rest, discovered =>
      let kept := s.survivors rest (discovered.delete (s.impl i).listen)
      if s.isUnreported discovered i then kept else i :: kept

/-- Splicing the indices of `toDelete`, last first, leaves the survivors. -/
theorem eraseIdx_sweep (s : Servers) (front pool : List Nat) (discovered : OrderedMap String Nat) :
    (s.sweep pool front.length discovered).1.reverse.foldl List.eraseIdx (front ++ pool) =
      front ++ s.survivors pool discovered := by
  induction pool generalizing front discovered with
  | nil => rfl
  | cons i rest ih =>
      have hrest := ih (front ++ [i]) (discovered.delete (s.impl i).listen)
      rw [List.length_append, List.length_singleton, List.append_assoc, List.singleton_append,
        List.append_assoc, List.singleton_append] at hrest
      rw [sweep, survivors]
      split
      · rw [List.reverse_cons, List.foldl_append, hrest]
        show (front ++ i :: _).eraseIdx front.length = _
        rw [List.eraseIdx_append_of_length_le le_rfl, Nat.sub_self, List.eraseIdx_cons_zero]
      · exact hrest

theorem survivors_sublist (s : Servers) (pool : List Nat) (discovered : OrderedMap String Nat) :
    List.Sublist (s.survivors pool discovered) pool := by
  induction pool generalizing discovered with
  | nil => exact List.Sublist.refl []
  | cons i rest ih =>
      rw [survivors]
      split
      · exact (ih _).cons i
      · exact (ih _).cons_cons i

/-- A configured server survives, and so does the current one. -/
theorem mem_survivors {s : Servers} {i : Nat} {pool : List Nat}
    (hi : (s.impl i).gossiped = false ∨ i = s.currentServer) (hmem : i ∈ pool)
    (discovered : OrderedMap String Nat) : i ∈ s.survivors pool discovered := by
  induction pool generalizing discovered with
  | nil => cases hmem
  | cons j rest ih =>
      rw [survivors]
      rcases List.mem_cons.1 hmem with rfl | hmem
      · have hkept : s.isUnreported discovered i = false := by
          rcases hi with hi | rfl
          · simp [isUnreported, hi]
          · simp [isUnreported]
        rw [hkept, if_neg Bool.false_ne_true]
        exact List.mem_cons_self
      · split
        · exact ih hmem _
        · exact List.mem_cons_of_mem _ (ih hmem _)

theorem get_sweep (s : Servers) (pool : List Nat) (index : Nat)
    (discovered : OrderedMap String Nat) {u : String} {i : Nat}
    (h : (s.sweep pool index discovered).2.get u = some i) : discovered.get u = some i := by
  induction pool generalizing index discovered with
  | nil => exact h
  | cons j rest ih =>
      have hrest := ih _ _ h
      rw [OrderedMap.get_delete] at hrest
      split at hrest
      · cases hrest
      · exact hrest

/-- What a cluster update does to a pool. -/
structure Updates (s s' : Servers) : Prop where
  firstSelect : s'.firstSelect = s.firstSelect
  currentServer : s'.currentServer = s.currentServer
  made : s.made ≤ s'.made
  impl : ∀ i < s.made, s'.impl i = s.impl i
  kept : ∀ i ∈ s.servers, (s.impl i).gossiped = false ∨ i = s.currentServer → i ∈ s'.servers
  mem : ∀ i ∈ s'.servers, i ∈ s.servers ∨ s.made ≤ i ∧ i < s'.made ∧
    (s'.impl i).gossiped = true ∧ (s'.impl i).reconnects = 0 ∧ (s'.impl i).lastConnect = 0
  nodup : s.servers.Nodup → s'.servers.Nodup

/-- **What `update` does.** -/
theorem updates_update {s : Servers} (hmade : s.Made) (hostPort : String → String)
    (urls : List String) : Updates s (s.update hostPort urls).1 := by
  obtain ⟨hgrows, hfound⟩ := s.grows_discover hostPort urls
  generalize hs₁ : (s.discover hostPort urls).1 = s₁ at hgrows hfound
  generalize hd : (s.discover hostPort urls).2 = discovered at hfound
  have hrest : ∀ u i, (s₁.sweep s₁.servers 0 discovered).2.get u = some i →
      discovered.get u = some i := fun u i => s₁.get_sweep _ _ _
  have hpool : (s.update hostPort urls).1 = { s₁ with
      servers := s₁.survivors s.servers discovered ++
        (s₁.sweep s₁.servers 0 discovered).2.values } := by
    have hkept := s₁.eraseIdx_sweep [] s₁.servers discovered
    rw [List.nil_append, List.nil_append, List.length_nil] at hkept
    rw [← hgrows.servers, ← hkept, ← hs₁, ← hd]
    rfl
  rw [hpool]
  refine ⟨hgrows.firstSelect, hgrows.currentServer, hgrows.made, hgrows.impl, ?_, ?_, ?_⟩
  · intro i hi hstays
    apply List.mem_append_left
    apply mem_survivors _ hi
    rwa [hgrows.impl i (hmade i hi), hgrows.currentServer]
  · intro i hi
    rcases List.mem_append.1 hi with hi | hi
    · exact .inl ((s₁.survivors_sublist _ _).subset hi)
    · obtain ⟨u, hget⟩ := OrderedMap.mem_values.1 hi
      have hnew := hfound.fresh u i (hrest u i hget)
      exact .inr ⟨hnew.1, hnew.2, hfound.gossiped u i (hrest u i hget)⟩
  · intro hnodup
    refine List.nodup_append.2 ⟨hnodup.sublist (s₁.survivors_sublist _ _), ?_, ?_⟩
    · apply OrderedMap.nodup_values
      intro u u' i hget hget'
      exact hfound.inj u u' i (hrest u i hget) (hrest u' i hget')
    · rintro i hi _ hj rfl
      obtain ⟨u, hget⟩ := OrderedMap.mem_values.1 hj
      have hold := hmade i ((s₁.survivors_sublist _ _).subset hi)
      have hnew := (hfound.fresh u i (hrest u i hget)).1
      omega

end Servers

end NatsClient.Reconnect
