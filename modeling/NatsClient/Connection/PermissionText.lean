import NatsClient.Reconnect.Errors
import NatsClient.Wire.Headers

/-!
# The text of a permission error

Model of what `ProtocolHandler.toError` (`protocol.ts`) reads from the text of a permissions
violation: two regular expressions look for a word in quotes behind `Publish to` or
`Subscription to`, and behind `using queue`.

The server quotes the names it rejects. How it quotes is not the client's business, so the quoting
is a parameter; all that is known of it is that it escapes white space, blanks apart (`Escapes`).
The names are read as they are quoted (`context_rejection`).
-/

set_option autoImplicit false

namespace NatsClient.Connection

open NatsClient.Wire NatsClient.Reconnect

/-- `permissionContext.operation`. -/
inductive Operation where
  | publish
  | subscription
deriving DecidableEq, Repr

/-- `permissionContext`. -/
structure PermissionContext where
  operation : Operation
  subject : String
  queue : Option String
deriving DecidableEq, Repr

namespace PermissionText

/-! ## Regular expressions -/

/-- A text up to its last quote. -/
def beforeLastQuote : List Char → Option (List Char)
  | [] => none
  | c :: cs =>
      match beforeLastQuote cs with
      | some inner => some (c :: inner)
      | none => if c = '"' then some [] else none

/-- `(\S+)"` at the front of a text: the longest that matches is what stands in front of the last
quote that comes before white space. -/
def quoted (cs : List Char) : Option (List Char) :=
  (beforeLastQuote (cs.takeWhile fun c => !isSpace c)).filter (· ≠ [])

/-- The first position of a text where the expression matches. -/
def search {α : Type} (here : List Char → Option α) : List Char → Option α
  | [] => here []
  | c :: cs =>
      match here (c :: cs) with
      | some found => some found
      | none => search here cs

/-- A literal at the front of a text, and a word in quotes behind it. -/
def wordBehind (literal cs : List Char) : Option (List Char) :=
  if literal.isPrefixOf cs then quoted (cs.drop literal.length) else none

/-- `(Publish|Subscription) to "(\S+)"` at the front of a text. -/
def subjectHere (cs : List Char) : Option (Operation × List Char) :=
  match wordBehind "Publish to \"".toList cs with
  | some subject => some (.publish, subject)
  | none => (wordBehind "Subscription to \"".toList cs).map fun subject => (.subscription, subject)

/-- `using queue "(\S+)"` at the front of a text. -/
def queueHere (cs : List Char) : Option (List Char) := wordBehind "using queue \"".toList cs

/-- The `permissionContext` that `toError` gives its error. -/
def permissionContext (s : String) : Option PermissionContext :=
  match search subjectHere s.toList with
  | some (operation, subject) =>
      some ⟨operation, .ofList subject, (search queueHere s.toList).map String.ofList⟩
  | none => none

/-- `toError(s)`, with its context. -/
def toError (s : String) : NatsError × Option PermissionContext :=
  let err := Reconnect.toError s
  (err, if err.code.isPermissionError then permissionContext s else none)

/-! ## What the server says -/

/-- The end of a rejection: the queue, where there is one. -/
def rejectionTail (quote : List Char → List Char) (group : Option String) : List Char :=
  match group with
  | some queue => " using queue \"".toList ++ (quote queue.toList ++ "\"'".toList)
  | none => "'".toList

/-- The text for a SUB that is rejected: it names the subject, and the queue where there is one. -/
def rejection (quote : List Char → List Char) (subject : String) (group : Option String) : String :=
  .ofList ("'Permissions Violation for Subscription to \"".toList ++
    (quote subject.toList ++ '"' :: rejectionTail quote group))

/-- A name that can stand in a SUB. -/
structure Word (name : String) : Prop where
  ne : name ≠ ""
  blankless : ' ' ∉ name.toList

/-- What is known of the quoting: of all white space only a blank stands for itself. -/
def Escapes (quote : List Char → List Char) : Prop :=
  ∀ name, Word name → quote name.toList ≠ [] ∧ ∀ c ∈ quote name.toList, isSpace c = false

example :
    permissionContext "'Permissions Violation for Subscription to \"q\" using queue \"bad\"'" =
    some ⟨.subscription, "q", some "bad"⟩ := by
  decide +kernel

/-! ## What is read from a rejection -/

theorem beforeLastQuote_eq_none {cs : List Char} (h : '"' ∉ cs) : beforeLastQuote cs = none := by
  induction cs with
  | nil => rfl
  | cons c cs ih =>
      rw [beforeLastQuote, ih fun hmem => h (List.mem_cons_of_mem c hmem)]
      refine if_neg ?_
      rintro rfl
      exact h List.mem_cons_self

theorem beforeLastQuote_append {tail : List Char} (h : '"' ∉ tail) (word : List Char) :
    beforeLastQuote (word ++ '"' :: tail) = some word := by
  induction word with
  | nil =>
      rw [List.nil_append, beforeLastQuote, beforeLastQuote_eq_none h]
      rfl
  | cons c word ih => rw [List.cons_append, beforeLastQuote, ih]

/-- A word is read up to its quote. -/
theorem quoted_append {word rest : List Char} (hne : word ≠ [])
    (hword : ∀ c ∈ word, isSpace c = false) (hrest : '"' ∉ rest.takeWhile fun c => !isSpace c) :
    quoted (word ++ '"' :: rest) = some word := by
  have htake : (word ++ '"' :: rest).takeWhile (fun c => !isSpace c) =
      word ++ '"' :: rest.takeWhile fun c => !isSpace c := by
    rw [List.takeWhile_append_of_pos fun c hc => by rw [hword c hc]; rfl]
    rfl
  rw [quoted, htake, beforeLastQuote_append hrest]
  exact Option.filter_some_pos (decide_eq_true hne)

/-- There is no `using queue` within a word. -/
theorem queueHere_word {word : List Char} (hword : ∀ c ∈ word, isSpace c = false)
    (rest : List Char) : queueHere (word ++ '"' :: rest) = none := by
  apply if_neg
  intro hliteral
  obtain ⟨behind, hbehind⟩ := List.isPrefixOf_iff_prefix.1 hliteral
  have htake := congrArg (List.takeWhile fun c => !isSpace c) hbehind
  have hword' : ∀ c ∈ word, (!isSpace c) = true := by
    intro c hc
    rw [hword c hc]
    rfl
  rw [List.takeWhile_append_of_pos hword', List.takeWhile_cons_of_pos rfl] at htake
  have hmem : '"' ∈ List.takeWhile (fun c => !isSpace c) ("using queue \"".toList ++ behind) := by
    rw [htake]
    exact List.mem_append_right _ List.mem_cons_self
  have husing : List.takeWhile (fun c => !isSpace c) ("using queue \"".toList ++ behind) =
      "using".toList := rfl
  rw [husing] at hmem
  revert hmem
  decide

theorem search_queueHere_word {word : List Char} (hword : ∀ c ∈ word, isSpace c = false)
    (rest : List Char) : search queueHere (word ++ '"' :: rest) = search queueHere rest := by
  induction word with
  | nil =>
      rw [List.nil_append, search, ← List.nil_append ('"' :: rest),
        queueHere_word fun c hc => by cases hc]
  | cons c word ih =>
      have hhere := queueHere_word hword rest
      rw [List.cons_append] at hhere ⊢
      rw [search, hhere]
      exact ih fun c' hc' => hword c' (List.mem_cons_of_mem c hc')

/-- The words in front of the subject are passed over. -/
theorem search_subjectHere_front (cs : List Char) :
    search subjectHere ("'Permissions Violation for ".toList ++ cs) = search subjectHere cs := rfl

theorem search_queueHere_front (cs : List Char) :
    search queueHere ("'Permissions Violation for Subscription to \"".toList ++ cs) =
      search queueHere cs := rfl

theorem subjectHere_subscription (cs : List Char) :
    subjectHere ("Subscription to \"".toList ++ cs) =
      (quoted cs).map fun subject => (.subscription, subject) := rfl

theorem search_subject {word rest : List Char} (h : quoted rest = some word) :
    search subjectHere ("'Permissions Violation for Subscription to \"".toList ++ rest) =
      some (.subscription, word) := by
  have hfront : "'Permissions Violation for Subscription to \"".toList =
      "'Permissions Violation for ".toList ++ "Subscription to \"".toList := by decide +kernel
  have hhere := subjectHere_subscription rest
  rw [h] at hhere
  have hcons : "Subscription to \"".toList ++ rest = 'S' :: ("ubscription to \"".toList ++ rest) :=
    rfl
  rw [hfront, List.append_assoc, search_subjectHere_front]
  rw [hcons] at hhere ⊢
  rw [search, hhere]
  rfl

theorem queueHere_using (cs : List Char) :
    queueHere ("using queue \"".toList ++ cs) = quoted cs := rfl

theorem search_queue {word rest : List Char} (h : quoted rest = some word) :
    search queueHere (" using queue \"".toList ++ rest) = some word := by
  have hfront : search queueHere (" using queue \"".toList ++ rest) =
      search queueHere ("using queue \"".toList ++ rest) := rfl
  have hhere := queueHere_using rest
  rw [h] at hhere
  have hcons : "using queue \"".toList ++ rest = 'u' :: ("sing queue \"".toList ++ rest) := rfl
  rw [hfront]
  rw [hcons] at hhere ⊢
  rw [search, hhere]

section

variable {quote : List Char → List Char} {subject : String} {group : Option String}

theorem toList_rejection : (rejection quote subject group).toList =
    "'Permissions Violation for Subscription to \"".toList ++
      (quote subject.toList ++ '"' :: rejectionTail quote group) :=
  String.toList_ofList

/-- The text of a rejection is that of a permissions violation. -/
theorem isPermissionError_rejection :
    (toError (rejection quote subject group)).1.code = .PermissionsViolation := by
  have hlower : (rejection quote subject group).toLower.toList =
      (rejection quote subject group).toList.map Char.toLower := by
    show (String.map Char.toLower (rejection quote subject group)).toList = _
    exact String.toList_map
  have hfound : "permissions violation".toList <:+:
      (rejection quote subject group).toLower.toList := by
    rw [hlower, toList_rejection, List.map_append]
    refine List.IsInfix.trans ?_ (List.prefix_append ..).isInfix
    exact ⟨['\''], " for subscription to \"".toList, by decide +kernel⟩
  exact congrArg NatsError.code (if_pos (decide_eq_true hfound))

theorem permissionContext_eq {s : String} {operation : Operation} {word : List Char}
    (h : search subjectHere s.toList = some (operation, word)) :
    permissionContext s = some
      ⟨operation, .ofList word, (search queueHere s.toList).map .ofList⟩ := by
  rw [permissionContext, h]

/-- **What is read from a rejection**: the subject and the queue as they are quoted. -/
theorem context_rejection (hquote : Escapes quote) (hsubject : Word subject)
    (hgroup : ∀ queue, group = some queue → Word queue) :
    permissionContext (rejection quote subject group) = some ⟨.subscription,
      .ofList (quote subject.toList), group.map fun queue => .ofList (quote queue.toList)⟩ := by
  obtain ⟨hne, hword⟩ := hquote subject hsubject
  cases group with
  | none =>
      have hquoted : quoted (quote subject.toList ++ '"' :: "'".toList) = some
          (quote subject.toList) :=
        quoted_append hne hword (by decide)
      have hqueue : search queueHere (rejection quote subject none).toList = none := by
        rw [toList_rejection, search_queueHere_front, search_queueHere_word hword]
        rfl
      have hsearch : search subjectHere (rejection quote subject none).toList =
          some (.subscription, quote subject.toList) := by
        rw [toList_rejection]
        exact search_subject hquoted
      rw [permissionContext_eq hsearch, hqueue]
      rfl
  | some queue =>
      obtain ⟨hqueue, hqueueWord⟩ := hquote queue (hgroup queue rfl)
      have hquoted : quoted (quote queue.toList ++ '"' :: "'".toList) = some (quote queue.toList) :=
        quoted_append hqueue hqueueWord (by decide)
      have hquoted' : quoted (quote subject.toList ++ '"' :: (" using queue \"".toList ++
          (quote queue.toList ++ "\"'".toList))) = some (quote subject.toList) :=
        quoted_append hne hword (fun hmem => by cases hmem)
      have hqueue' : search queueHere (rejection quote subject (some queue)).toList =
          some (quote queue.toList) := by
        rw [toList_rejection, search_queueHere_front, search_queueHere_word hword]
        exact search_queue hquoted
      have hsearch : search subjectHere (rejection quote subject (some queue)).toList =
          some (.subscription, quote subject.toList) := by
        rw [toList_rejection]
        exact search_subject hquoted'
      rw [permissionContext_eq hsearch, hqueue']
      rfl

theorem context_toError (hquote : Escapes quote) (hsubject : Word subject)
    (hgroup : ∀ queue, group = some queue → Word queue) :
    (toError (rejection quote subject group)).2 = some ⟨.subscription,
      .ofList (quote subject.toList), group.map fun queue => .ofList (quote queue.toList)⟩ := by
  have hcode := @isPermissionError_rejection quote subject group
  have hpermission : (toError (rejection quote subject group)).1.code.isPermissionError = true := by
    rw [hcode]
    rfl
  exact (if_pos hpermission).trans (context_rejection hquote hsubject hgroup)

end

/-! ## A quoting -/

/-- The four hexadecimal digits of a code point. -/
def hexDigits (n : Nat) : List Char :=
  [n / 4096, n / 256, n / 16, n].map fun n => Nat.digitChar (n % 16)

/-- A quoting that escapes quotes, backslashes and white space. -/
def escape (cs : List Char) : List Char :=
  cs.flatMap fun c =>
    if c = '"' ∨ c = '\\' then ['\\', c]
    else if isSpace c then '\\' :: 'u' :: hexDigits c.toNat
    else [c]

theorem isSpace_digitChar (n : Nat) : isSpace (Nat.digitChar (n % 16)) = false := by
  have hall : ∀ k < 16, isSpace (Nat.digitChar k) = false := by decide
  exact hall (n % 16) (Nat.mod_lt n (by decide))

theorem escapes_escape : Escapes escape := by
  intro name hname
  have hne : name.toList ≠ [] := fun hnil => hname.ne (String.toList_eq_nil_iff.1 hnil)
  constructor
  · obtain ⟨c, cs, hcs⟩ := List.exists_cons_of_ne_nil hne
    rw [hcs, escape, List.flatMap_cons]
    apply List.append_ne_nil_of_left_ne_nil
    split
    · exact List.cons_ne_nil _ _
    · split <;> exact List.cons_ne_nil _ _
  · intro c hc
    obtain ⟨c', -, hc'⟩ := List.mem_flatMap.1 hc
    split at hc'
    · rename_i hquote
      rcases List.mem_cons.1 hc' with rfl | hc'
      · decide
      · rw [List.mem_singleton.1 hc']
        rcases hquote with rfl | rfl <;> decide
    · split at hc'
      · rcases List.mem_cons.1 hc' with rfl | hc'
        · decide
        · rcases List.mem_cons.1 hc' with rfl | hc'
          · decide
          · obtain ⟨n, -, rfl⟩ := List.mem_map.1 hc'
            exact isSpace_digitChar n
      · rename_i hspace
        rw [List.mem_singleton.1 hc']
        exact Bool.eq_false_iff.2 hspace

end PermissionText

end NatsClient.Connection
