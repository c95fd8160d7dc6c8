import NatsClient.Foundation.OrderedMap
import NatsClient.Foundation.Run
import NatsClient.Version.SemVer

/-!
# Features of a server

Model of `Features` (`semver.ts`): the table of the features with the version that each requires,
which is written anew whenever the version of the server or the list of disabled features changes.

`Current` says what the table holds: an entry for every feature that is not disabled, which is
supported if the server has the version it requires. Every call keeps it (`current_step`), so that a
feature that is supported in one state is supported in every other with a version that is not
smaller, unless it is disabled there (`supports_mono`).
-/

set_option autoImplicit false

namespace NatsClient.Version

open NatsClient.Foundation NatsClient.Reconnect

/-- `Feature`. -/
inductive Feature where
  | jsKv
  | jsObjectstore
  | jsPullMaxBytes
  | jsNewConsumerCreateApi
  | jsAllowDirect
  | jsMultipleConsumerFilter
  | jsSimplification
  | jsStreamConsumerMetadata
  | jsConsumerFilterSubjects
  | jsStreamFirstSeq
  | jsStreamSubjectTransform
  | jsStreamSourceSubjectTransform
  | jsStreamCompression
  | jsDefaultConsumerLimits
  | jsBatchDirectGet
deriving DecidableEq, Repr

/-- `FeatureVersion`. -/
structure FeatureVersion where
  ok : Bool
  min : String
deriving DecidableEq, Repr

/-- A version, or its text. -/
inductive VersionLike where
  | semVer (v : SemVer)
  | text (s : Units)

/-- A text is parsed. -/
def VersionLike.parse : VersionLike → Except Units SemVer
  | .semVer v => .ok v
  | .text s => parseSemVer s

/-- The features in the order in which `update` sets them, with the versions they require. -/
def requirements : List (Feature × String) :=
  [(.jsKv, "2.6.2"),
    (.jsObjectstore, "2.6.3"),
    (.jsPullMaxBytes, "2.8.3"),
    (.jsNewConsumerCreateApi, "2.9.0"),
    (.jsAllowDirect, "2.9.0"),
    (.jsMultipleConsumerFilter, "2.10.0"),
    (.jsSimplification, "2.9.4"),
    (.jsStreamConsumerMetadata, "2.10.0"),
    (.jsConsumerFilterSubjects, "2.10.0"),
    (.jsStreamFirstSeq, "2.10.0"),
    (.jsStreamSubjectTransform, "2.10.0"),
    (.jsStreamSourceSubjectTransform, "2.10.0"),
    (.jsStreamCompression, "2.10.0"),
    (.jsDefaultConsumerLimits, "2.10.0"),
    (.jsBatchDirectGet, "2.11.0")]

/-- `Features`. -/
structure Features where
  server : SemVer
  features : OrderedMap Feature FeatureVersion
  disabled : List Feature

namespace Features

/-- `set`. -/
def set (x : Features) (f : Feature) (requires : String) : Except Units Features :=
  match parseSemVer (codeUnits requires) with
  | .ok v => .ok { x with features := x.features.set f ⟨0 ≤ compare x.server v, requires⟩ }
  | .error e => .error e

/-- `isDisabled`. -/
def isDisabled (x : Features) (f : Feature) : Bool := x.disabled.contains f

/-- `update`. -/
def update (x : Features) (v : VersionLike) : Except Units Features :=
  match v.parse with
  | .ok v =>
      match requirements.foldlM (fun x e => x.set e.1 e.2) { x with server := v } with
      | .ok x => .ok { x with features := x.features.deleteAll x.disabled }
      | .error e => .error e
  | .error e => .error e

/-- The constructor. -/
def new (v : SemVer) : Except Units Features := update ⟨v, .empty, []⟩ (.semVer v)

/-- `resetDisabled`. -/
def resetDisabled (x : Features) : Except Units Features :=
  ({ x with disabled := [] } : Features).update (.semVer x.server)

/-- `disable`. -/
def disable (x : Features) (f : Feature) : Except Units Features :=
  ({ x with disabled := x.disabled ++ [f] } : Features).update (.semVer x.server)

/-- `get`. -/
def get (x : Features) (f : Feature) : FeatureVersion := (x.features.get f).getD ⟨false, "unknown"⟩

/-- `supports`. -/
def supports (x : Features) (f : Feature) : Bool := (x.get f).ok

/-- `require`. -/
def require (x : Features) (v : VersionLike) : Except Units Bool :=
  match v.parse with
  | .ok v => .ok (0 ≤ compare x.server v)
  | .error e => .error e

/-- What changes the table. -/
inductive Call where
  | update (v : VersionLike)
  | disable (f : Feature)
  | resetDisabled

def call (x : Features) : Call → Except Units Features
  | .update v => x.update v
  | .disable f => x.disable f
  | .resetDisabled => x.resetDisabled

/-- A call. Where it throws, it is the text of a version that throws, before anything is assigned
(`call_eq_error`). -/
def step (x : Features) (c : Call) : Option Features :=
  match x.call c with
  | .ok x' => some x'
  | .error _ => some x

/-- The states that calls lead to. -/
def Reached (x : Features) : Prop := ∃ v x₀, new v = .ok x₀ ∧ Reachable step x₀ x

/-! ## What the table holds -/

/-- The version that a text from the table denotes. -/
def version (requires : String) : SemVer :=
  match parseSemVer (codeUnits requires) with
  | .ok v => v
  | .error _ => ⟨.finite 0, .finite 0, .finite 0⟩

/-- The version that a feature requires. -/
def minimum (f : Feature) : String := (requirements.lookup f).getD ""

/-- The entry of a feature. -/
def entry (server : SemVer) (requires : String) : FeatureVersion :=
  ⟨0 ≤ compare server (version requires), requires⟩

/-- **The table holds what the version of the server and the disabled features say.** -/
def Current (x : Features) : Prop :=
  ∀ f, x.features.get f = if x.isDisabled f then none else some (entry x.server (minimum f))

/-- Every version in the table can be parsed. -/
theorem parse_requirements :
    ∀ e ∈ requirements, parseSemVer (codeUnits e.2) = .ok (version e.2) := by
  decide +kernel

theorem nodup_requirements : (requirements.map Prod.fst).Nodup := by
  decide

section

variable {x y : Features} {f : Feature} {v : VersionLike} {w : SemVer} {e : Units}

theorem isDisabled_iff : x.isDisabled f = true ↔ f ∈ x.disabled := List.contains_iff_mem

/-- `set` writes the entry. -/
theorem set_eq_ok {requires : String}
    (h : parseSemVer (codeUnits requires) = .ok (version requires)) :
    x.set f requires = .ok { x with features := x.features.set f (entry x.server requires) } := by
  rw [set, h]
  rfl

/-- **All entries are written.** -/
theorem foldlM_set {entries : List (Feature × String)}
    (h : ∀ e ∈ entries, parseSemVer (codeUnits e.2) = .ok (version e.2)) (x : Features) :
    entries.foldlM (fun x e => x.set e.1 e.2) x =
      .ok { x with
        features := (entries.map fun e => (e.1, entry x.server e.2)).foldl
          (fun m e => m.set e.1 e.2) x.features } := by
  induction entries generalizing x with
  | nil => rfl
  | cons e entries ih =>
      obtain ⟨he, hentries⟩ := List.forall_mem_cons.1 h
      rw [List.foldlM_cons, set_eq_ok he]
      exact ih hentries _

/-- Every feature is in the table. -/
theorem lookup_entries (server : SemVer) (f : Feature) :
    (requirements.map fun e => (e.1, entry server e.2)).lookup f = some
      (entry server (minimum f)) := by
  cases f <;> rfl

/-- The state behind an update: all entries are written, and those of the disabled features are
removed. -/
def written (x : Features) (server : SemVer) : Features where
  server := server
  features := ((requirements.map fun e => (e.1, entry server e.2)).foldl (fun m e => m.set e.1 e.2)
    x.features).deleteAll x.disabled
  disabled := x.disabled

/-- **What `update` does** with a version. -/
theorem update_eq_ok (h : v.parse = .ok w) : x.update v = .ok (x.written w) := by
  have hwritten := foldlM_set parse_requirements { x with server := w }
  rw [update, h]
  dsimp only
  rw [hwritten]
  simp only [written]

theorem get_written (x : Features) (w : SemVer) (f : Feature) :
    (x.written w).features.get f = if f ∈ x.disabled then none else some (entry w (minimum f)) := by
  have hnodup : ((requirements.map fun e => (e.1, entry w e.2)).map Prod.fst).Nodup := by
    rw [List.map_map]
    exact nodup_requirements
  simp only [written, OrderedMap.get_deleteAll]
  rw [OrderedMap.get_foldl_set _ hnodup, lookup_entries, Option.some_or]

theorem current_written (x : Features) (w : SemVer) : Current (x.written w) := by
  intro f
  have hdisabled : (x.written w).isDisabled f = x.isDisabled f := rfl
  rw [get_written, hdisabled]
  by_cases hf : f ∈ x.disabled
  · rw [if_pos hf, if_pos (isDisabled_iff.2 hf)]
  · rw [if_neg hf, if_neg (mt isDisabled_iff.1 hf)]
    rfl

/-- **What a call does**: one that does not throw writes the table anew, and what throws is the text
of a version. -/
theorem call_cases (x : Features) (c : Call) :
    (∃ x' w, x.call c = .ok (written x' w)) ∨
      ∃ s e, c = .update (.text s) ∧ parseSemVer s = .error e ∧ x.call c = .error e := by
  cases c with
  | update v =>
      cases h : v.parse with
      | ok w => exact Or.inl ⟨x, w, update_eq_ok h⟩
      | error e =>
          cases v with
          | semVer w => cases h
          | text s =>
              refine Or.inr ⟨s, e, rfl, h, ?_⟩
              show update x (.text s) = _
              rw [update, h]
  | disable f =>
      refine Or.inl ⟨{ x with disabled := x.disabled ++ [f] }, x.server, ?_⟩
      show x.disable f = _
      rw [disable, update_eq_ok rfl]
  | resetDisabled =>
      refine Or.inl ⟨{ x with disabled := [] }, x.server, ?_⟩
      show x.resetDisabled = _
      rw [resetDisabled, update_eq_ok rfl]

/-- **Every call keeps the table as it should be.** -/
theorem current_step {x x' : Features} {c : Call} (hcurrent : Current x) (h : x.step c = some x') :
    Current x' := by
  rw [step] at h
  rcases call_cases x c with ⟨x₁, w, hx₁⟩ | ⟨s, e, -, -, he⟩
  · rw [hx₁] at h
    cases h
    exact current_written x₁ w
  · rw [he] at h
    cases h
    exact hcurrent

theorem Reached.current (h : Reached x) : Current x := by
  obtain ⟨w, x₀, hnew, hreachable⟩ := h
  rw [new, update_eq_ok rfl] at hnew
  cases hnew
  exact invariant_reachable (fun _ _ _ => current_step) (current_written _ w) hreachable

/-- **What is supported**: the features that are not disabled and whose version the server has. -/
theorem Current.supports_iff (h : Current x) :
    x.supports f = true ↔ x.isDisabled f = false ∧ version (minimum f) ≤ x.server := by
  rw [supports, get, h f]
  cases hf : x.isDisabled f with
  | true => simp
  | false => simp [entry, compare_nonneg]

/-- **A feature that is supported is supported by every later version**, unless it is disabled. -/
theorem supports_mono (hx : Current x) (hy : Current y) (hle : compare x.server y.server ≤ 0)
    (hf : y.isDisabled f = false) (h : x.supports f = true) : y.supports f = true := by
  have hle' : x.server ≤ y.server := by
    rw [← not_lt, ← compare_gt]
    omega
  obtain ⟨-, hmin⟩ := hx.supports_iff.1 h
  exact hy.supports_iff.2 ⟨hf, hmin.trans hle'⟩

/-- What is supported is what `require` tells of the version in the table. -/
theorem Current.supports_iff_require (h : Current x) :
    x.supports f = true ↔ x.isDisabled f = false ∧
      x.require (.text (codeUnits (minimum f))) = .ok true := by
  have hmem : (f, minimum f) ∈ requirements := by
    cases f <;> decide
  have hparse := parse_requirements _ hmem
  rw [h.supports_iff, require, VersionLike.parse, hparse, ← compare_nonneg]
  simp

end

end Features

/-- **Versions and what they unlock.** A text is read as the leftmost three runs of digits with full
stops between them if and only if it is faithful; `compare` is the lexicographic order of the three
numbers; and a feature that is supported at one version is supported at every later one, unless it
is disabled, whatever calls have led there. -/
theorem version_gates (s : Units) (a b : SemVer) (x y : Features) (f : Feature) :
    (Exact s ↔ Faithful s) ∧
      ((compare a b < 0 ↔ a.triple < b.triple) ∧ (compare a b = 0 ↔ a = b) ∧
        (0 < compare a b ↔ b.triple < a.triple)) ∧
      (x.Reached → y.Reached → compare x.server y.server ≤ 0 → y.isDisabled f = false →
        x.supports f = true → y.supports f = true) := by
  rw [SemVer.triple_lt_triple, SemVer.triple_lt_triple]
  refine ⟨exact_iff, ⟨compare_lt, compare_eq, compare_gt⟩, ?_⟩
  intro hx hy hle hf hsupports
  exact Features.supports_mono hx.current hy.current hle hf hsupports

/-- A client of a server 2.10.0, and the same client behind an update to 2.11.0. -/
theorem version_gates_updated :
    ∃ x y : Features, x.Reached ∧ y.Reached ∧ compare x.server y.server < 0 ∧
      x.supports .jsStreamCompression = true ∧ y.supports .jsStreamCompression = true := by
  let v := Features.version "2.10.0"
  let w := Features.version "2.11.0"
  let x := Features.written ⟨v, .empty, []⟩ v
  have hx : x.Reached := ⟨v, x, Features.update_eq_ok rfl, [], rfl⟩
  have hy : (x.written w).Reached := by
    refine ⟨v, x, Features.update_eq_ok rfl, [.update (.semVer w)], ?_⟩
    have hupdate : x.update (.semVer w) = .ok (x.written w) := Features.update_eq_ok rfl
    simp only [run, Features.step, Features.call, hupdate]
  have hlt : compare x.server (x.written w).server < 0 := by decide +kernel
  have hsupports : x.supports .jsStreamCompression = true := by decide +kernel
  exact ⟨x, x.written w, hx, hy, hlt, hsupports,
    (version_gates (codeUnits "2.10.0") x.server (x.written w).server x (x.written w)
      .jsStreamCompression).2.2 hx hy hlt.le rfl hsupports⟩

/-- Any two characters are read as full stops: a text without full stops has a version, and another
version is read in front of the one that is there. -/
theorem version_gates_any_character :
    ¬ Exact (codeUnits "1a2b3") ∧ ¬ Exact (codeUnits "1 2.3.4") := by
  constructor
  · intro hexact
    have hread : parseSemVer (codeUnits "1a2b3") = .ok ⟨.ofNat 1, .ofNat 2, .ofNat 3⟩ := rfl
    obtain ⟨pre, a, b, c, hleftmost, -⟩ := (hexact _).1 hread
    obtain ⟨rest, hs, htriple⟩ := hleftmost.here
    obtain ⟨tail, rfl, -⟩ := htriple.text
    have hdot : dot ∉ codeUnits "1a2b3" := by decide
    exact hdot (by rw [hs]; simp)
  · intro hexact
    have hread : parseSemVer (codeUnits "1 2.3.4") = .ok ⟨.ofNat 1, .ofNat 2, .ofNat 3⟩ := rfl
    obtain ⟨pre, a, b, c, hleftmost, heq⟩ := (hexact _).1 hread
    have hfound : Pattern.search dotted (codeUnits "1 2.3.4") =
        some (codeUnits "1 ", [codeUnits "2", [dot], codeUnits "3", [dot], codeUnits "4"]) := rfl
    have hfirst := Pattern.search_eq_some.1 hfound
    have hsame := (hfirst.unique (first_dotted.2 ⟨a, b, c, rfl, hleftmost⟩)).2
    rw [← (List.cons.inj hsame).1] at heq
    have hmajor : Number.ofNat 1 ≠ parseInt (codeUnits "2") := by decide +kernel
    exact hmajor (SemVer.mk.inj heq).1

end NatsClient.Version
