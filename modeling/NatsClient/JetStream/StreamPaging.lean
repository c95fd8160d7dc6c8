import NatsClient.Foundation.Loop
import NatsClient.Foundation.OrderedMap
import NatsClient.JetStream.Lister
import NatsClient.JetStream.Names

/-!
# Stream information in pages

Model of `StreamAPIImpl.info` (`jsmstream_api.ts`). The server cuts the subjects that pass the
filter into windows: a reply has those at the offset of the request, at most `limit` of them, and
the number of all (`Serves`). Where the first reply has fewer than all, `info` asks for the windows
at `limit`, `2 * limit` and so on, and puts the replies together.

The first request goes out with the options of the caller, and the further ones write their offset
into these. So what comes back is complete only where the options have no offset, or nothing passes
the filter; options that went through a paged call have one (`offset_of_paged`). The other condition
is that no reply of several has a subject `__proto__`, which `Object.assign` does not copy
(`complete_iff`).
-/

set_option autoImplicit false

namespace NatsClient.JetStream

open NatsClient.Foundation

/-- `Partial<StreamInfoRequestOptions>`. -/
structure StreamInfoRequestOptions where
  deletedDetails : Option Bool
  subjectsFilter : Option String
  offset : Option Nat
deriving DecidableEq, Repr

/-- `StreamInfo` with its paging fields, which are `0` where the reply has none, and
`state.subjects`. -/
structure PagedStreamInfo extends Listing.StreamInfo where
  total : Nat
  offset : Nat
  limit : Nat
  subjects : Option (OrderedMap String Nat)

/-- The subjects of a reply with their counts. -/
def PagedStreamInfo.entries (r : PagedStreamInfo) : List (String × Nat) :=
  match r.subjects with
  | some subjects => subjects.entries
  | none => []

/-- How a call of `info` ends: its result, the options of the caller behind it, and the replies it
got. -/
structure InfoCall where
  result : Except String PagedStreamInfo
  data : Option StreamInfoRequestOptions
  replies : List PagedStreamInfo

/-- What a request for the information is answered with. -/
abbrev InfoServer := Option StreamInfoRequestOptions → Except String PagedStreamInfo

/-- The `TypeError` of `Object.getOwnPropertyNames(undefined)`. -/
def noObject : String := "Cannot convert undefined or null to object"

/-- The loop over the further pages: `total`, `have`, `i`, `paged` and `infos`. -/
structure PageLoop where
  total : Nat
  seen : Nat
  i : Nat
  paged : StreamInfoRequestOptions
  infos : List PagedStreamInfo

namespace StreamAPIImpl

/-- A turn of the loop. It ends with the error it throws, if it does. -/
def turn (serve : InfoServer) (limit : Nat) (s : PageLoop) :
    PageLoop ⊕ (Option String × PageLoop) :=
  if s.seen < s.total then
    let i := s.i + 1
    let paged := { s.paged with offset := some (limit * i) }
    match serve (some paged) with
    | .error e => .inr (some e, { s with i, paged })
    | .ok r =>
        let s := { s with total := r.total, i, paged, infos := s.infos ++ [r] }
        match r.subjects with
        | none => .inr (some noObject, s)
        | some subjects =>
            let s := { s with seen := s.seen + subjects.size }
            -- a page that is not full is the last one
            if subjects.size < limit then .inr (none, s) else .inl s
  else .inr (none, s)

/-- The property of `Object.prototype` with a setter. What `JSON.parse` makes has it like any
other. -/
def proto : String := "__proto__"

/-- `subjects = Object.assign(subjects, si.state.subjects)`, for a reply that has some. To assign a
number to `__proto__` does nothing. -/
def collect (subjects : OrderedMap String Nat) (r : PagedStreamInfo) : OrderedMap String Nat :=
  match r.subjects with
  | some m => subjects.assign (m.delete proto)
  | none => subjects

/-- The last reply, with the subjects of all of them. -/
def merged (si : PagedStreamInfo) (infos : List PagedStreamInfo) : PagedStreamInfo :=
  { infos.getLast?.getD si with
    offset := 0
    total := 0
    limit := 0
    subjects := some (infos.foldl collect .empty) }

/-- `_fixInfo(si)`. -/
def fixInfo (si : PagedStreamInfo) : PagedStreamInfo :=
  { si with toStreamInfo := Listing.fixInfo si.toStreamInfo }

/-- `have` in front of the loop. -/
def counted (si : PagedStreamInfo) : Nat :=
  match si.subjects with
  | some subjects => subjects.size
  | none => 1

/-- What `info` makes of the end of the loop. -/
def ended (si : PagedStreamInfo) (data : Option StreamInfoRequestOptions) :
    Option String × PageLoop → InfoCall
  | (some e, s) => ⟨.error e, data.map fun _ => s.paged, s.infos⟩
  | (none, s) => ⟨.ok (fixInfo (merged si s.infos)), data.map fun _ => s.paged, s.infos⟩

/-- `info(name, data)`. -/
def info (serve : InfoServer) (fuel : Nat) (name : String)
    (data : Option StreamInfoRequestOptions) : Option InfoCall :=
  match validateStreamName name with
  | .error e => some ⟨.error e, data, []⟩
  | .ok () =>
      match serve data with
      | .error e => some ⟨.error e, data, []⟩
      | .ok si =>
          if si.total ≠ 0 ∧ counted si < si.total then
            (loop (turn serve si.limit) fuel
              ⟨si.total, counted si, 0, data.getD ⟨none, none, none⟩, [si]⟩).map (ended si data)
          else some ⟨.ok (fixInfo si), data, [si]⟩

end StreamAPIImpl

/-! ## What the server sends -/

/-- The server has these subjects under a filter, and sends at most `limit` of them at a time. -/
structure Serves (serve : InfoServer) (filter : String) (subjects : OrderedMap String Nat)
    (limit : Nat) : Prop where
  pos : 1 ≤ limit
  reply : ∀ opts : StreamInfoRequestOptions, opts.subjectsFilter = some filter →
    ∃ r, serve (some opts) = .ok r ∧
    r.entries = (subjects.entries.drop (opts.offset.getD 0)).take limit ∧
      r.total = subjects.size ∧ (subjects.size ≠ 0 → r.limit = limit)

/-- All subjects with their counts are there, and nothing else; a result of more than one page does
not say so. -/
structure Complete (subjects : OrderedMap String Nat) (r : InfoCall) : Prop where
  result : ∃ si, r.result = .ok si ∧ (∀ s, (si.subjects.getD .empty).get s = subjects.get s) ∧
    (1 < r.replies.length → si.offset = 0 ∧ si.total = 0 ∧ si.limit = 0)

namespace StreamAPIImpl

variable {serve : InfoServer} {filter name : String} {subjects : OrderedMap String Nat}
    {limit : Nat}

/-- The subjects of the window at an offset. -/
def window (subjects : OrderedMap String Nat) (limit o : Nat) : List (String × Nat) :=
  (subjects.entries.drop o).take limit

/-- **A turn** asks for the next window. It goes on behind a full page, and ends behind one that is
not. -/
theorem turn_cases (h : Serves serve filter subjects limit) {s : PageLoop}
    (hfilter : s.paged.subjectsFilter = some filter) :
    (s.total ≤ s.seen ∧ turn serve limit s = .inr (none, s)) ∨
      s.seen < s.total ∧ ∃ r s', r.entries = window subjects limit (limit * (s.i + 1)) ∧
        s'.paged = { s.paged with offset := some (limit * (s.i + 1)) } ∧ s'.total = subjects.size ∧
        s'.i = s.i + 1 ∧ s'.infos = s.infos ++ [r] ∧
        (r.entries = [] ∧ (∃ e, turn serve limit s = .inr (some e, s')) ∨
          s'.seen = s.seen + r.entries.length ∧
            (r.entries.length < limit ∧ turn serve limit s = .inr (none, s') ∨
              limit ≤ r.entries.length ∧ turn serve limit s = .inl s')) := by
  rw [turn]
  by_cases hseen : s.seen < s.total
  · rw [if_pos hseen]
    obtain ⟨r, hserve, hentries, htotal, -⟩ :=
      h.reply { s.paged with offset := some (limit * (s.i + 1)) } hfilter
    simp only [hserve]
    refine .inr ⟨hseen, r, ?_⟩
    cases hsubjects : r.subjects with
    | none =>
        have hnil : r.entries = [] := by rw [PagedStreamInfo.entries, hsubjects]
        exact ⟨{ s with
          total := r.total
          i := s.i + 1
          paged := { s.paged with offset := some (limit * (s.i + 1)) }
          infos := s.infos ++ [r] }, hentries, rfl, htotal, rfl, rfl, .inl ⟨hnil, noObject, rfl⟩⟩
    | some m =>
        have hsize : r.entries.length = m.size := by rw [PagedStreamInfo.entries, hsubjects]; rfl
        refine ⟨{
          total := r.total
          seen := s.seen + m.size
          i := s.i + 1
          paged := { s.paged with offset := some (limit * (s.i + 1)) }
          infos := s.infos ++ [r] }, hentries, rfl, htotal, rfl, rfl, .inr ⟨by rw [hsize], ?_⟩⟩
        rw [hsize]
        by_cases hshort : m.size < limit
        · exact .inl ⟨hshort, if_pos hshort⟩
        · exact .inr ⟨Nat.le_of_not_lt hshort, if_neg hshort⟩
  · rw [if_neg hseen]
    exact .inl ⟨Nat.le_of_not_lt hseen, rfl⟩

/-- A turn that goes on had a full window. -/
theorem turn_inl (h : Serves serve filter subjects limit) {s s' : PageLoop}
    (hfilter : s.paged.subjectsFilter = some filter) (hturn : turn serve limit s = .inl s') :
    s.seen < s.total ∧ ∃ r, r.entries = window subjects limit (limit * (s.i + 1)) ∧
      s'.paged = { s.paged with offset := some (limit * (s.i + 1)) } ∧ s'.total = subjects.size ∧
      s'.i = s.i + 1 ∧ s'.infos = s.infos ++ [r] ∧ s'.seen = s.seen + r.entries.length ∧
      limit ≤ r.entries.length := by
  rcases turn_cases h hfilter with ⟨-, heq⟩ | ⟨hseen, r, s₁, hr, hpaged, htotal, hi, hinfos, hcase⟩
  · rw [heq] at hturn
    cases hturn
  · rcases hcase with ⟨-, e, heq⟩ | ⟨hnow, ⟨-, heq⟩ | ⟨hlimit, heq⟩⟩
    · rw [heq] at hturn
      cases hturn
    · rw [heq] at hturn
      cases hturn
    · rw [heq] at hturn
      cases hturn
      exact ⟨hseen, r, hr, hpaged, htotal, hi, hinfos, hnow, hlimit⟩

/-- A turn that ends had all it was told of, an empty window, or one that is not full. -/
theorem turn_inr (h : Serves serve filter subjects limit) {s : PageLoop}
    {out : Option String × PageLoop} (hfilter : s.paged.subjectsFilter = some filter)
    (hturn : turn serve limit s = .inr out) :
    (s.total ≤ s.seen ∧ out = (none, s)) ∨
      s.seen < s.total ∧ ∃ r, r.entries = window subjects limit (limit * (s.i + 1)) ∧
        out.2.paged = { s.paged with offset := some (limit * (s.i + 1)) } ∧
        out.2.infos = s.infos ++ [r] ∧
        (r.entries = [] ∧ out.1 ≠ none ∨ out.1 = none ∧ r.entries.length < limit) := by
  rcases turn_cases h hfilter with ⟨hdone, heq⟩ | ⟨hseen, r, s₁, hr, hpaged, -, -, hinfos, hcase⟩
  · rw [heq] at hturn
    cases hturn
    exact .inl ⟨hdone, rfl⟩
  · rcases hcase with ⟨hnil, e, heq⟩ | ⟨-, ⟨hshort, heq⟩ | ⟨-, heq⟩⟩
    · rw [heq] at hturn
      cases hturn
      exact .inr ⟨hseen, r, hr, hpaged, hinfos, .inl ⟨hnil, Option.some_ne_none e⟩⟩
    · rw [heq] at hturn
      cases hturn
      exact .inr ⟨hseen, r, hr, hpaged, hinfos, .inr ⟨rfl, hshort⟩⟩
    · rw [heq] at hturn
      cases hturn

/-! ## What is collected -/

theorem entries_getD (r : PagedStreamInfo) : (r.subjects.getD .empty).entries = r.entries := by
  rw [PagedStreamInfo.entries]
  cases r.subjects with
  | none => rfl
  | some m => rfl

theorem mem_collect {m : OrderedMap String Nat} {r : PagedStreamInfo}
    (hm : ∀ e ∈ m.entries, e ∈ subjects.entries) (hr : ∀ e ∈ r.entries, e ∈ subjects.entries)
    {e : String × Nat} :
    e ∈ (collect m r).entries ↔ e ∈ m.entries ∨ e ∈ r.entries ∧ e.1 ≠ proto := by
  rw [collect]
  rw [PagedStreamInfo.entries] at hr ⊢
  cases hsubjects : r.subjects with
  | none => exact (or_iff_left fun h => absurd h.1 List.not_mem_nil).symm
  | some m' =>
      rw [hsubjects] at hr
      have hdelete : ∀ e, e ∈ (m'.delete proto).entries ↔ e ∈ m'.entries ∧ e.1 ≠ proto := by
        intro e
        rw [OrderedMap.delete, List.mem_filter, decide_eq_true_eq]
      rw [OrderedMap.mem_entries_assign hm fun e he => hr e ((hdelete e).1 he).1, hdelete]

/-- **What is collected** of replies that have parts of the subjects. -/
theorem mem_foldl_collect {infos : List PagedStreamInfo} {m : OrderedMap String Nat}
    (hm : ∀ e ∈ m.entries, e ∈ subjects.entries)
    (hinfos : ∀ r ∈ infos, ∀ e ∈ r.entries, e ∈ subjects.entries) {e : String × Nat} :
    e ∈ (infos.foldl collect m).entries ↔
      e ∈ m.entries ∨ (∃ r ∈ infos, e ∈ r.entries) ∧ e.1 ≠ proto := by
  induction infos generalizing m with
  | nil =>
      refine (or_iff_left ?_).symm
      rintro ⟨⟨r, hr, -⟩, -⟩
      cases hr
  | cons r infos ih =>
      have hr := hinfos r List.mem_cons_self
      have hcollect : ∀ e ∈ (collect m r).entries, e ∈ subjects.entries := by
        intro e he
        rcases (mem_collect hm hr).1 he with he | ⟨he, -⟩
        · exact hm e he
        · exact hr e he
      rw [List.foldl_cons, ih hcollect fun r' hr' => hinfos r' (List.mem_cons_of_mem _ hr'),
        mem_collect hm hr, or_assoc, ← or_and_right]
      simp only [List.mem_cons, exists_eq_or_imp]

theorem get_eq_of_mem_iff {m : OrderedMap String Nat}
    (h : ∀ e, e ∈ m.entries ↔ e ∈ subjects.entries) (s : String) : m.get s = subjects.get s :=
  OrderedMap.get_congr fun v => h (s, v)

/-- Without a subject nothing is complete. -/
theorem mem_of_get_eq {m : OrderedMap String Nat} (h : ∀ s, m.get s = subjects.get s) {s : String}
    (hs : s ∈ subjects.keys) : ∃ v, (s, v) ∈ m.entries := by
  obtain ⟨v, hv⟩ := OrderedMap.mem_keys.1 hs
  exact ⟨v, OrderedMap.mem_entries.2 ((h s).trans hv)⟩

/-- Without the first subject nothing is complete. -/
theorem not_get_eq {m : OrderedMap String Nat} (hsize : subjects.size ≠ 0)
    (h : ∀ e ∈ m.entries, e ∈ subjects.entries.drop 1) : ¬ ∀ s, m.get s = subjects.get s := by
  intro hall
  have hnodup := subjects.nodup
  rw [OrderedMap.size] at hsize
  rcases hentries : subjects.entries with _ | ⟨⟨k, v⟩, rest⟩
  · rw [hentries] at hsize
    exact hsize rfl
  · have hget : subjects.get k = some v := by
      apply OrderedMap.mem_entries.1
      rw [hentries]
      exact List.mem_cons_self
    have hin := h (k, v) (OrderedMap.mem_entries.2 ((hall k).trans hget))
    rw [hentries] at hin hnodup
    rw [List.map_cons, List.nodup_cons] at hnodup
    have hkey : k ∈ rest.map Prod.fst := List.mem_map_of_mem (f := Prod.fst) hin
    exact hnodup.1 hkey

/-! ## The loop -/

/-- What every turn of the loop keeps. -/
structure Paging (filter : String) (subjects : OrderedMap String Nat) (s : PageLoop) : Prop where
  filter : s.paged.subjectsFilter = some filter
  total : s.total = subjects.size

/-- The windows so far are full, and the first of them is at `0`. -/
structure Full (subjects : OrderedMap String Nat) (limit : Nat) (s : PageLoop) : Prop where
  seen : s.seen = limit * (s.i + 1)
  le : s.seen ≤ subjects.size
  parts : ∀ r ∈ s.infos, ∀ e ∈ r.entries, e ∈ subjects.entries
  all : ∀ e ∈ subjects.entries.take s.seen, ∃ r ∈ s.infos, e ∈ r.entries

theorem mem_window {o : Nat} {e : String × Nat} (he : e ∈ window subjects limit o) :
    e ∈ subjects.entries.drop o :=
  List.mem_of_mem_take he

theorem paging_turn (h : Serves serve filter subjects limit) {s s' : PageLoop}
    (hs : Paging filter subjects s) (hturn : turn serve limit s = .inl s') :
    Paging filter subjects s' ∧ subjects.size - s'.seen < subjects.size - s.seen := by
  have hpos := h.pos
  obtain ⟨hseen, r, -, hpaged, htotal, -, -, hnow, hlimit⟩ := turn_inl h hs.filter hturn
  rw [hs.total] at hseen
  exact ⟨⟨by rw [hpaged]; exact hs.filter, htotal⟩, by omega⟩

/-- The next window behind full ones. -/
theorem all_append {s : PageLoop} (hs : Full subjects limit s) {r : PagedStreamInfo}
    (hr : r.entries = window subjects limit (limit * (s.i + 1))) :
    (∀ r' ∈ s.infos ++ [r], ∀ e ∈ r'.entries, e ∈ subjects.entries) ∧
      ∀ e ∈ subjects.entries.take (s.seen + r.entries.length), ∃ r' ∈ s.infos ++ [r],
      e ∈ r'.entries := by
  rw [← hs.seen] at hr
  constructor
  · intro r' hr' e he
    rcases List.mem_append.1 hr' with hr' | hr'
    · exact hs.parts r' hr' e he
    · rw [List.mem_singleton.1 hr', hr] at he
      exact List.mem_of_mem_drop (mem_window he)
  · intro e he
    rw [List.take_add, List.mem_append] at he
    rcases he with he | he
    · obtain ⟨r', hr', hin⟩ := hs.all e he
      exact ⟨r', List.mem_append_left _ hr', hin⟩
    · refine ⟨r, List.mem_append_right _ (List.mem_singleton.2 rfl), ?_⟩
      have hle : r.entries.length ≤ limit := by
        rw [hr]
        exact List.length_take_le ..
      rw [hr]
      exact List.take_subset_take_left _ hle he

theorem length_window (o : Nat) :
    (window subjects limit o).length = min limit (subjects.size - o) := by
  rw [window, List.length_take, List.length_drop, OrderedMap.size]

theorem full_turn (h : Serves serve filter subjects limit) {s s' : PageLoop}
    (hs : Paging filter subjects s) (hfull : Full subjects limit s)
    (hturn : turn serve limit s = .inl s') : Full subjects limit s' := by
  obtain ⟨-, r, hr, -, -, hi, hinfos, hnow, hlimit⟩ := turn_inl h hs.filter hturn
  obtain ⟨hparts, hall⟩ := all_append hfull hr
  have hlength : r.entries.length = limit ∧ s.seen + limit ≤ subjects.size := by
    have hlen := congrArg List.length hr
    rw [length_window, ← hfull.seen] at hlen
    have hle := hfull.le
    have hpos := h.pos
    omega
  constructor
  · rw [hnow, hi, hfull.seen, hlength.1]
    rfl
  · rw [hnow, hlength.1]
    exact hlength.2
  · rw [hinfos]
    exact hparts
  · rw [hnow, hinfos]
    exact hall

/-- The loop ends with all subjects. -/
theorem full_ends (h : Serves serve filter subjects limit) {s : PageLoop}
    {out : Option String × PageLoop} (hs : Paging filter subjects s) (hfull : Full subjects limit s)
    (hturn : turn serve limit s = .inr out) :
    out.1 = none ∧ (∀ r ∈ out.2.infos, ∀ e ∈ r.entries, e ∈ subjects.entries) ∧
      ∀ e ∈ subjects.entries, ∃ r ∈ out.2.infos, e ∈ r.entries := by
  have hpos := h.pos
  have hle := hfull.le
  rcases turn_inr h hs.filter hturn with ⟨hdone, rfl⟩ | ⟨hseen, r, hr, -, hinfos, hcase⟩
  · refine ⟨rfl, hfull.parts, fun e he => hfull.all e ?_⟩
    rw [hs.total] at hdone
    rw [List.take_of_length_le hdone]
    exact he
  · rw [hs.total] at hseen
    have hlen := congrArg List.length hr
    rw [length_window, ← hfull.seen] at hlen
    rcases hcase with ⟨hnil, -⟩ | ⟨hnone, hshort⟩
    · -- a window in front of the end is not empty
      rw [hnil] at hlen
      have hzero : 0 = min limit (subjects.size - s.seen) := hlen
      omega
    · obtain ⟨hparts, hall⟩ := all_append hfull hr
      rw [hinfos]
      refine ⟨hnone, hparts, fun e he => hall e ?_⟩
      have hend : subjects.entries.length ≤ s.seen + r.entries.length := by
        rw [OrderedMap.size] at hlen hle hseen
        omega
      rw [List.take_of_length_le hend]
      exact he

/-- No window of the loop has the first subject, so if the replies leave it out, those that follow
do too. -/
theorem behind_append (h : Serves serve filter subjects limit) {d : Nat} (hd : d ≤ 1) {s : PageLoop}
    (hbehind : ∀ r ∈ s.infos, ∀ e ∈ r.entries, e ∈ subjects.entries.drop d) {r : PagedStreamInfo}
    (hr : r.entries = window subjects limit (limit * (s.i + 1))) :
    ∀ r' ∈ s.infos ++ [r], ∀ e ∈ r'.entries, e ∈ subjects.entries.drop d := by
  intro r' hr' e he
  rcases List.mem_append.1 hr' with hr' | hr'
  · exact hbehind r' hr' e he
  · rw [List.mem_singleton.1 hr', hr] at he
    have hoff : d ≤ limit * (s.i + 1) := hd.trans (Nat.mul_pos h.pos (Nat.succ_pos _))
    exact List.drop_subset_drop_left _ hoff (mem_window he)

theorem behind_turn (h : Serves serve filter subjects limit) {d : Nat} (hd : d ≤ 1)
    {s s' : PageLoop} (hs : Paging filter subjects s)
    (hbehind : ∀ r ∈ s.infos, ∀ e ∈ r.entries, e ∈ subjects.entries.drop d)
    (hturn : turn serve limit s = .inl s') :
    ∀ r ∈ s'.infos, ∀ e ∈ r.entries, e ∈ subjects.entries.drop d := by
  obtain ⟨-, r, hr, -, -, -, hinfos, -, -⟩ := turn_inl h hs.filter hturn
  rw [hinfos]
  exact behind_append h hd hbehind hr

theorem behind_ends (h : Serves serve filter subjects limit) {d : Nat} (hd : d ≤ 1) {s : PageLoop}
    {out : Option String × PageLoop} (hs : Paging filter subjects s)
    (hbehind : ∀ r ∈ s.infos, ∀ e ∈ r.entries, e ∈ subjects.entries.drop d)
    (hturn : turn serve limit s = .inr out) :
    ∀ r ∈ out.2.infos, ∀ e ∈ r.entries, e ∈ subjects.entries.drop d := by
  rcases turn_inr h hs.filter hturn with ⟨-, rfl⟩ | ⟨-, r, hr, -, hinfos, -⟩
  · exact hbehind
  · rw [hinfos]
    exact behind_append h hd hbehind hr

/-- All replies are subjects of the server, and leave the first one out if the first reply does. -/
theorem behind_ended (h : Serves serve filter subjects limit) {d : Nat} (hd : d ≤ 1) {s : PageLoop}
    (hs : Paging filter subjects s)
    (hfirst : ∀ r ∈ s.infos, ∀ e ∈ r.entries, e ∈ subjects.entries.drop d) {fuel : Nat}
    {out : Option String × PageLoop} (hout : loop (turn serve limit) fuel s = some out) :
    ∀ r ∈ out.2.infos, ∀ e ∈ r.entries, e ∈ subjects.entries.drop d :=
  loop_induction
    (I := fun s => Paging filter subjects s ∧
      ∀ r ∈ s.infos, ∀ e ∈ r.entries, e ∈ subjects.entries.drop d)
    (P := fun out => ∀ r ∈ out.2.infos, ∀ e ∈ r.entries, e ∈ subjects.entries.drop d)
    (fun _ _ hs hturn => ⟨(paging_turn h hs.1 hturn).1, behind_turn h hd hs.1 hs.2 hturn⟩)
    (fun _ _ hs hturn => behind_ends h hd hs.1 hs.2 hturn)
    ⟨hs, hfirst⟩ hout

/-- From the first subject on, all pages but the last are full, so that they have all subjects. -/
theorem full_ended (h : Serves serve filter subjects limit) {s : PageLoop}
    (hs : Paging filter subjects s) (hfirst : Full subjects limit s) {fuel : Nat}
    {out : Option String × PageLoop} (hout : loop (turn serve limit) fuel s = some out) :
    out.1 = none ∧ (∀ r ∈ out.2.infos, ∀ e ∈ r.entries, e ∈ subjects.entries) ∧
      ∀ e ∈ subjects.entries, ∃ r ∈ out.2.infos, e ∈ r.entries :=
  loop_induction
    (I := fun s => Paging filter subjects s ∧ Full subjects limit s)
    (P := fun out => out.1 = none ∧ (∀ r ∈ out.2.infos, ∀ e ∈ r.entries, e ∈ subjects.entries) ∧
      ∀ e ∈ subjects.entries, ∃ r ∈ out.2.infos, e ∈ r.entries)
    (fun _ _ hs hturn => ⟨(paging_turn h hs.1 hturn).1, full_turn h hs.1 hs.2 hturn⟩)
    (fun _ _ hs hturn => full_ends h hs.1 hs.2 hturn)
    ⟨hs, hfirst⟩ hout

/-! ## What `info` returns -/

variable {opts : StreamInfoRequestOptions} {si : PagedStreamInfo}

theorem counted_eq (h : si.entries ≠ []) : counted si = si.entries.length := by
  rw [counted]
  rw [PagedStreamInfo.entries] at h ⊢
  cases hsubjects : si.subjects with
  | none =>
      rw [hsubjects] at h
      exact absurd rfl h
  | some m => rfl

/-- What a first window at `0` counts. -/
theorem counted_first (h : Serves serve filter subjects limit)
    (hentries : si.entries = window subjects limit 0) (hsize : subjects.size ≠ 0) :
    counted si = min limit subjects.size := by
  have hpos := h.pos
  have hlen := congrArg List.length hentries
  rw [length_window] at hlen
  have hne : si.entries ≠ [] := by
    intro hnil
    rw [hnil] at hlen
    have hzero : 0 = min limit (subjects.size - 0) := hlen
    omega
  rw [counted_eq hne]
  omega

/-- A first window at `0` that does not have all of the subjects is full. -/
theorem full_first (h : Serves serve filter subjects limit)
    (hentries : si.entries = window subjects limit 0) (hseen : counted si < subjects.size) :
    Full subjects limit ⟨subjects.size, counted si, 0, opts, [si]⟩ := by
  have hcount := counted_first h hentries (by omega)
  have hparts : ∀ r ∈ [si], ∀ e ∈ r.entries, e ∈ subjects.entries := by
    intro r hr e he
    rw [List.mem_singleton.1 hr, hentries] at he
    exact List.mem_of_mem_take he
  refine ⟨?_, Nat.le_of_lt hseen, hparts, fun e he => ⟨si, List.mem_singleton.2 rfl, ?_⟩⟩
  · show counted si = limit * 1
    omega
  · rw [hentries, window, List.drop_zero]
    have hle : counted si ≤ limit := by omega
    exact List.take_subset_take_left _ hle he

/-- The replies of a first window behind `0`, and of those that follow it. -/
theorem late_first {o : Nat} (ho : o ≠ 0) (hentries : si.entries = window subjects limit o) :
    ∀ e ∈ si.entries, e ∈ subjects.entries.drop 1 := by
  intro e he
  rw [hentries] at he
  exact List.drop_subset_drop_left _ (Nat.one_le_iff_ne_zero.2 ho) (mem_window he)

/-- The subjects of a merged result. -/
theorem mem_merged {infos : List PagedStreamInfo}
    (hparts : ∀ r ∈ infos, ∀ e ∈ r.entries, e ∈ subjects.entries)
    {e : String × Nat} :
    e ∈ (((fixInfo (merged si infos)).subjects).getD .empty).entries ↔
      (∃ r ∈ infos, e ∈ r.entries) ∧ e.1 ≠ proto := by
  show e ∈ (infos.foldl collect .empty).entries ↔ _
  rw [mem_foldl_collect (fun _ he => absurd he List.not_mem_nil) hparts]
  exact or_iff_right List.not_mem_nil

/-- Where the loop ends without an error, its result lacks the first subject if the options have an
offset, and the subject `__proto__` if there is one. -/
theorem complete_ended (h : Serves serve filter subjects limit) (hsize : subjects.size ≠ 0)
    (hfilter : opts.subjectsFilter = some filter)
    (hentries : si.entries = window subjects limit (opts.offset.getD 0))
    (hseen : counted si < subjects.size) {fuel : Nat} {out : Option String × PageLoop}
    (hout : loop (turn serve limit) fuel ⟨subjects.size, counted si, 0, opts, [si]⟩ = some out) :
    Complete subjects (ended si (some opts) out) ↔
      opts.offset.getD 0 = 0 ∧ proto ∉ subjects.keys := by
  have hpaging : Paging filter subjects ⟨subjects.size, counted si, 0, opts, [si]⟩ := ⟨hfilter, rfl⟩
  obtain ⟨error, s⟩ := out
  constructor
  · rintro ⟨si', hresult, hget, -⟩
    cases error with
    | some e => cases hresult
    | none =>
        cases hresult
        constructor
        · -- with an offset, the first subject is on no page
          by_contra hoff
          have hlate := behind_ended h (Nat.le_refl 1) hpaging
            (fun r hr => List.mem_singleton.1 hr ▸ late_first hoff hentries) hout
          apply not_get_eq hsize _ hget
          intro e he
          have hparts : ∀ r ∈ s.infos, ∀ e ∈ r.entries, e ∈ subjects.entries :=
            fun r hr e he => List.mem_of_mem_drop (hlate r hr e he)
          obtain ⟨⟨r, hr, hmem⟩, -⟩ := (mem_merged hparts).1 he
          exact hlate r hr e hmem
        · -- `__proto__` is on a page, and does not get into the result
          intro hproto
          obtain ⟨v, hv⟩ := mem_of_get_eq hget hproto
          have hparts := behind_ended h (Nat.zero_le 1) hpaging
            (fun r hr e he => List.mem_of_mem_drop (mem_window (o := opts.offset.getD 0)
              (by rwa [← hentries, ← List.mem_singleton.1 hr]))) hout
          exact ((mem_merged hparts).1 hv).2 rfl
  · rintro ⟨hoff, hproto⟩
    rw [hoff] at hentries
    obtain ⟨hnone, hparts, hall⟩ := full_ended h hpaging (full_first h hentries hseen) hout
    cases hnone
    refine ⟨_, rfl, get_eq_of_mem_iff fun e => ?_, fun _ => ⟨rfl, rfl, rfl⟩⟩
    rw [mem_merged hparts]
    constructor
    · rintro ⟨⟨r, hr, he⟩, -⟩
      exact hparts r hr e he
    · intro he
      refine ⟨hall e he, ?_⟩
      rintro hkey
      exact hproto (hkey ▸ List.mem_map_of_mem he)

/-- A single reply is complete if the options have no offset, or there are no subjects. -/
theorem complete_single (h : Serves serve filter subjects limit)
    (hentries : si.entries = window subjects limit (opts.offset.getD 0))
    (hpaged : ¬ (subjects.size ≠ 0 ∧ counted si < subjects.size)) :
    Complete subjects ⟨.ok (fixInfo si), some opts, [si]⟩ ↔ opts.offset.getD 0 = 0 ∨
      subjects.size = 0 := by
  have hsubjects : ((fixInfo si).subjects.getD .empty).entries = si.entries := entries_getD si
  constructor
  · rintro ⟨si', hresult, hget, -⟩
    cases hresult
    by_contra hnot
    obtain ⟨hoff, hsize⟩ := not_or.1 hnot
    apply not_get_eq hsize _ hget
    rw [hsubjects]
    exact late_first hoff hentries
  · intro hcond
    refine ⟨_, rfl, get_eq_of_mem_iff fun e => ?_, fun hmore => absurd hmore (Nat.lt_irrefl 1)⟩
    rw [hsubjects]
    have hall : si.entries = subjects.entries := by
      by_cases hsize : subjects.size = 0
      · have hnil : subjects.entries = [] := List.length_eq_zero_iff.1 hsize
        rw [hentries, window, hnil, List.drop_nil, List.take_nil]
      · rw [hcond.resolve_right hsize] at hentries
        have hcount := counted_first h hentries hsize
        have hle : subjects.entries.length ≤ limit := by
          rw [OrderedMap.size] at *
          omega
        rw [hentries, window, List.drop_zero, List.take_of_length_le hle]
    rw [hall]

/-- **A paged call** leaves an offset in the options of the caller. -/
theorem offset_of_paged (h : Serves serve filter subjects limit)
    (hfilter : opts.subjectsFilter = some filter) (hseen : counted si < subjects.size) {fuel : Nat}
    {out : Option String × PageLoop}
    (hout : loop (turn serve limit) fuel ⟨subjects.size, counted si, 0, opts, [si]⟩ = some out) :
    ∃ opts', (ended si (some opts) out).data = some opts' ∧ opts'.subjectsFilter = some filter ∧
      opts'.offset.getD 0 ≠ 0 := by
  have hoff : ∀ i, limit * (i + 1) ≠ 0 := fun i => Nat.ne_of_gt (Nat.mul_pos h.pos (Nat.succ_pos i))
  have hend := loop_induction
    (I := fun s => Paging filter subjects s ∧ (s.seen < s.total ∨ s.paged.offset.getD 0 ≠ 0))
    (P := fun out => out.2.paged.subjectsFilter = some filter ∧ out.2.paged.offset.getD 0 ≠ 0)
    (fun s s' hs hturn => by
      obtain ⟨-, r, -, hpaged, -⟩ := turn_inl h hs.1.filter hturn
      refine ⟨(paging_turn h hs.1 hturn).1, .inr ?_⟩
      rw [hpaged]
      exact hoff s.i)
    (fun s out hs hturn => by
      rcases turn_inr h hs.1.filter hturn with ⟨hdone, rfl⟩ | ⟨-, r, -, hpaged, -⟩
      · exact ⟨hs.1.filter, hs.2.resolve_left (Nat.not_lt.2 hdone)⟩
      · rw [hpaged]
        exact ⟨hs.1.filter, hoff s.i⟩)
    ⟨⟨hfilter, rfl⟩, .inl hseen⟩ hout
  obtain ⟨error, s⟩ := out
  cases error with
  | some e => exact ⟨s.paged, rfl, hend⟩
  | none => exact ⟨s.paged, rfl, hend⟩

/-! ## A server -/

/-- A server with these subjects. -/
def served (subjects : OrderedMap String Nat) (limit : Nat) : InfoServer := fun data =>
  let o := (data.bind (·.offset)).getD 0
  .ok {
    name := "S"
    sealed := none
    deny_delete := none
    deny_purge := none
    allow_rollup_hdrs := none
    total := subjects.size
    offset := o
    limit
    subjects := some ⟨window subjects limit o,
      subjects.nodup.sublist (((List.take_sublist ..).trans (List.drop_sublist ..)).map Prod.fst)⟩ }

theorem serves_served (filter : String) (subjects : OrderedMap String Nat) (hlimit : 1 ≤ limit) :
    Serves (served subjects limit) filter subjects limit where
  pos := hlimit
  reply := fun _ _ => ⟨_, rfl, rfl, rfl, fun _ => rfl⟩

/-- Two subjects. -/
def two : OrderedMap String Nat := ⟨[("a", 1), ("b", 1)], by decide⟩

/-- Two subjects, one of them `__proto__`. -/
def withProto : OrderedMap String Nat := ⟨[("a", 1), (proto, 1)], by decide⟩

/-- **What `info` returns** is complete exactly where there are no subjects, or the options have no
offset and no subject `__proto__` comes with one of several pages. -/
theorem complete_iff (h : Serves serve filter subjects limit)
    (hname : validateStreamName name = .ok ()) (opts : StreamInfoRequestOptions)
    (hfilter : opts.subjectsFilter = some filter) :
    ∃ r, (∀ fuel, subjects.size < fuel → info serve fuel name (some opts) = some r) ∧
      (Complete subjects r ↔ subjects.size = 0 ∨
        opts.offset.getD 0 = 0 ∧ (proto ∉ subjects.keys ∨ subjects.size ≤ limit)) := by
  obtain ⟨si, hserve, hentries, htotal, hlimit⟩ := h.reply opts hfilter
  have hinfo : ∀ fuel, info serve fuel name (some opts) =
      if subjects.size ≠ 0 ∧ counted si < subjects.size then
        (loop (turn serve si.limit) fuel ⟨subjects.size, counted si, 0, opts, [si]⟩).map
          (ended si (some opts))
      else some ⟨.ok (fixInfo si), some opts, [si]⟩ := by
    intro fuel
    rw [info, hname]
    simp only [hserve, htotal, Option.getD_some]
  by_cases hpaged : subjects.size ≠ 0 ∧ counted si < subjects.size
  · obtain ⟨hsize, hseen⟩ := hpaged
    rw [hlimit hsize] at hinfo
    have hpaging : Paging filter subjects ⟨subjects.size, counted si, 0, opts, [si]⟩ :=
      ⟨hfilter, rfl⟩
    obtain ⟨out, hout⟩ := loop_total (fun s : PageLoop => subjects.size - s.seen)
      (fun s s' hs => paging_turn h hs) hpaging
      (Nat.lt_succ_of_le (Nat.sub_le subjects.size (counted si)))
    refine ⟨ended si (some opts) out, fun fuel hfuel => ?_, ?_⟩
    · rw [hinfo, if_pos ⟨hsize, hseen⟩, loop_mono hout hfuel, Option.map_some]
    · rw [or_iff_right hsize, complete_ended h hsize hfilter hentries hseen hout]
      refine and_congr_right fun hoff => (or_iff_left ?_).symm
      -- a first page that is not all of them is full
      rw [hoff] at hentries
      have hcount := counted_first h hentries hsize
      omega
  · refine ⟨⟨.ok (fixInfo si), some opts, [si]⟩, fun fuel _ => by rw [hinfo, if_neg hpaged], ?_⟩
    rw [complete_single h hentries hpaged, or_comm]
    by_cases hsize : subjects.size = 0
    · exact iff_of_true (Or.inl hsize) (Or.inl hsize)
    · rw [or_iff_right hsize, or_iff_right hsize]
      refine (and_iff_left_of_imp fun hoff => Or.inr ?_).symm
      rw [hoff] at hentries
      have hcount := counted_first h hentries hsize
      omega

/-- The call that pages. -/
theorem complete_iff_two :
    ∃ r, (∀ fuel, two.size < fuel →
        info (served two 1) fuel "S" (some ⟨none, some ">", none⟩) = some r) ∧
      (Complete two r ↔ two.size = 0 ∨
        (none : Option Nat).getD 0 = 0 ∧ (proto ∉ two.keys ∨ two.size ≤ 1)) :=
  complete_iff (serves_served ">" two (Nat.le_refl 1)) (by decide) ⟨none, some ">", none⟩ rfl

/-- A subject that does not come back. -/
theorem not_complete_of_lost {subjects : OrderedMap String Nat} {offset : Option Nat}
    {s : String} {n : Nat} (hthere : subjects.get s = some n)
    (hlost : (info (served subjects 1) 3 "S" (some ⟨none, some ">", offset⟩)).map (fun r =>
      r.result.toOption.bind fun si => (si.subjects.getD .empty).get s) = some none)
    (hsize : subjects.size < 3) :
    ¬ ∃ r, (∀ fuel, subjects.size < fuel →
        info (served subjects 1) fuel "S" (some ⟨none, some ">", offset⟩) = some r) ∧
      Complete subjects r := by
  rintro ⟨r, hr, si, hresult, hget, -⟩
  rw [hr 3 hsize, Option.map_some, hresult, Option.some.injEq] at hlost
  rw [← hget] at hthere
  exact absurd (hlost.symm.trans hthere) (by rintro ⟨⟩)

/-- Options with a filter that go through two calls: the second one finds the offset of the first
one. And a subject `__proto__`, which no paged call returns. -/
theorem not_complete_reused :
    (Serves (served two 1) ">" two 1 ∧
      (info (served two 1) 3 "S" (some ⟨none, some ">", none⟩)).bind (·.data) =
        some ⟨none, some ">", some 1⟩ ∧
      ¬ ∃ r, (∀ fuel, two.size < fuel →
          info (served two 1) fuel "S" (some ⟨none, some ">", some 1⟩) = some r) ∧ Complete two r) ∧
    Serves (served withProto 1) ">" withProto 1 ∧
      ¬ ∃ r, (∀ fuel, withProto.size < fuel →
          info (served withProto 1) fuel "S" (some ⟨none, some ">", none⟩) = some r) ∧
        Complete withProto r := by
  refine ⟨⟨serves_served ">" two (Nat.le_refl 1), by decide, ?_⟩,
    serves_served ">" withProto (Nat.le_refl 1), ?_⟩
  · exact not_complete_of_lost (s := "a") (n := 1) (by decide) (by decide) (by decide)
  · exact not_complete_of_lost (s := proto) (n := 1) (by decide) (by decide) (by decide)

end StreamAPIImpl

end NatsClient.JetStream
