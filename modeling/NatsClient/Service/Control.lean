import NatsClient.JetStream.StreamState

/-!
# Control subjects of a service

`controlSubject` (`service.ts`), on which a service answers and a `ServiceClient` asks, with the
names it takes (`validateName`, `jsutil.ts`). A service subscribes to nine of them: for each verb
one that all services have, one for its name and one for its name and id.

* `Question.subject_injective`: the verb, the name and the id can be read off the subject;
* `subjectMatches_control`: a subscription to a control subject gets what is sent to this subject
  only;
* `mem_questions`: the questions a service takes are those that are about it.
-/

set_option autoImplicit false

namespace NatsClient.Service

open NatsClient.JetStream

/-- `ServiceVerb`. -/
inductive ServiceVerb where
  | PING
  | STATS
  | INFO
deriving DecidableEq, Repr

/-- The verb in a subject. -/
def ServiceVerb.text : ServiceVerb → Text
  | .PING => "PING".toList
  | .STATS => "STATS".toList
  | .INFO => "INFO".toList

/-- `ServiceApiPrefix`. -/
def serviceApiPrefix : Text := "$SRV".toList

/-- `[-\w]`. -/
def isNameChar (c : Char) : Bool := c.isAlphanum || c = '_' || c = '-'

/-- `validName(name)`, for a name that is not empty. -/
def validName (name : Text) : String :=
  match name.find? fun c => !isNameChar c with
  | some c => "cannot contain '" ++ String.singleton c ++ "'"
  | none => ""

/-- `validateName(context, name)`. -/
def validateName (context : String) (name : Text) : Except String Unit :=
  if name = [] then .error (context ++ " name required")
  else
    match name.find? fun c => !isNameChar c with
    | some _ =>
        .error ("invalid " ++ context ++ " name - " ++ context ++ " name " ++ validName name)
    | none => .ok ()

/-- `ServiceImpl.controlSubject(verb, name, id, prefix)`. -/
def controlSubject (verb : ServiceVerb) (name id : Text) (pre : Option Text) : Except String Text :=
  let pre := pre.getD serviceApiPrefix
  if name = [] ∧ id = [] then .ok (pre ++ '.' :: verb.text)
  else
    match validateName "control subject name" name with
    | .error err => .error err
    | .ok () =>
        if id = [] then .ok (pre ++ '.' :: (verb.text ++ '.' :: name))
        else
          match validateName "control subject id" id with
          | .error err => .error err
          | .ok () => .ok (pre ++ '.' :: (verb.text ++ '.' :: (name ++ '.' :: id)))

/-- A name that passes. -/
structure ValidName where
  text : Text
  nonempty : text ≠ []
  chars : ∀ c ∈ text, isNameChar c = true

/-- What tells a service from others: `config.name` and `_id`. -/
structure Identity where
  name : ValidName
  id : ValidName

/-! ## Names -/

section

variable {c : Char} {name id subject : Text} {verb verb' : ServiceVerb}

theorem ne_of_isNameChar (h : isNameChar c = true) : c ≠ '.' ∧ c ≠ '*' ∧ c ≠ '>' := by
  refine ⟨?_, ?_, ?_⟩ <;>
  · rintro rfl
    exact absurd h (by decide)

theorem validateName_eq_ok_iff {context : String} :
    validateName context name = .ok () ↔ name ≠ [] ∧ ∀ c ∈ name, isNameChar c = true := by
  rw [validateName]
  by_cases hname : name = []
  · rw [if_pos hname]
    exact iff_of_false (by rintro ⟨⟩) fun h => h.1 hname
  · rw [if_neg hname]
    cases hfind : name.find? fun c => !isNameChar c with
    | none =>
        refine iff_of_true rfl ⟨hname, fun c hc => ?_⟩
        have hnot := List.find?_eq_none.1 hfind c hc
        simpa only [Bool.not_eq_true', Bool.not_eq_false] using hnot
    | some c =>
        refine iff_of_false (by rintro ⟨⟩) fun h => ?_
        have hgood := h.2 c (List.mem_of_find?_eq_some hfind)
        have hbad : (!isNameChar c) = true := List.find?_some (p := fun c => !isNameChar c) hfind
        rw [hgood] at hbad
        exact absurd hbad (by decide)

/-- A name, or nothing. -/
def Optional (name : Text) : Prop := ∀ c ∈ name, isNameChar c = true

theorem optional_nil : Optional [] := fun _ hc => absurd hc List.not_mem_nil

theorem Optional.dot (h : Optional name) : '.' ∉ name :=
  fun hdot => (ne_of_isNameChar (h _ hdot)).1 rfl

/-! ## Subjects -/

theorem tokens_cons {token : Text} (h : '.' ∉ token) (rest : Text) :
    tokens (token ++ '.' :: rest) = token :: tokens rest :=
  List.splitOn_append_cons_self_of_not_mem h rest

theorem tokens_of_dot {token : Text} (h : '.' ∉ token) : tokens token = [token] :=
  List.splitOn_eq_singleton h

theorem ServiceVerb.dot (verb : ServiceVerb) : '.' ∉ verb.text := by
  cases verb <;> decide

/-- The tokens of a control subject. -/
def controlTokens (verb : ServiceVerb) (name id : Text) : List Text :=
  serviceApiPrefix :: verb.text :: if name = [] then [] else if id = [] then [name] else [name, id]

/-- A question that can be asked: who gives an id gives a name. -/
structure Askable (name id : Text) : Prop where
  name_chars : Optional name
  id_chars : Optional id
  named : name = [] → id = []

/-- **When there is a control subject**, and which. -/
theorem controlSubject_eq_ok_iff :
    controlSubject verb name id none = .ok subject ↔
      Askable name id ∧ tokens subject = controlTokens verb name id := by
  have hpre : '.' ∉ serviceApiPrefix := by decide
  rw [controlSubject, Option.getD_none]
  by_cases hboth : name = [] ∧ id = []
  · obtain ⟨rfl, rfl⟩ := hboth
    -- a question to all services
    have htokens : tokens (serviceApiPrefix ++ '.' :: verb.text) = controlTokens verb [] [] := by
      rw [tokens_cons hpre, tokens_of_dot verb.dot]
      rfl
    rw [if_pos ⟨rfl, rfl⟩, Except.ok.injEq, ← htokens]
    exact ⟨fun h => ⟨⟨optional_nil, optional_nil, fun h => h⟩, congrArg tokens h.symm⟩,
      fun h => (tokens_injective h.2).symm⟩
  · rw [if_neg hboth]
    cases hname : validateName "control subject name" name with
    | error err =>
        refine iff_of_false (by rintro ⟨⟩) fun h => ?_
        -- an id without a name is refused, as its name is empty
        have hne : name ≠ [] := fun hnil => hboth ⟨hnil, h.1.named hnil⟩
        rw [validateName_eq_ok_iff.2 ⟨hne, h.1.name_chars⟩] at hname
        cases hname
    | ok u =>
        obtain ⟨hne, hchars⟩ := validateName_eq_ok_iff.1 hname
        by_cases hid : id = []
        · subst hid
          have htokens : tokens (serviceApiPrefix ++ '.' :: (verb.text ++ '.' :: name)) =
              controlTokens verb name [] := by
            rw [tokens_cons hpre, tokens_cons verb.dot, tokens_of_dot (Optional.dot hchars),
              controlTokens, if_neg hne, if_pos rfl]
          simp only [if_true, Except.ok.injEq, ← htokens]
          exact ⟨fun h => ⟨⟨hchars, optional_nil, fun h => absurd h hne⟩, congrArg tokens h.symm⟩,
            fun h => (tokens_injective h.2).symm⟩
        · simp only [if_neg hid]
          cases hvalid : validateName "control subject id" id with
          | error err =>
              refine iff_of_false (by rintro ⟨⟩) fun h => ?_
              rw [validateName_eq_ok_iff.2 ⟨hid, h.1.id_chars⟩] at hvalid
              cases hvalid
          | ok u =>
              obtain ⟨-, hids⟩ := validateName_eq_ok_iff.1 hvalid
              have htokens : tokens
                  (serviceApiPrefix ++ '.' :: (verb.text ++ '.' :: (name ++ '.' :: id))) =
                  controlTokens verb name id := by
                rw [tokens_cons hpre, tokens_cons verb.dot, tokens_cons (Optional.dot hchars),
                  tokens_of_dot (Optional.dot hids), controlTokens, if_neg hne, if_neg hid]
              simp only [Except.ok.injEq, ← htokens]
              exact ⟨fun h => ⟨⟨hchars, hids, fun h => absurd h hne⟩, congrArg tokens h.symm⟩,
                fun h => (tokens_injective h.2).symm⟩

theorem ServiceVerb.text_injective (h : verb.text = verb'.text) : verb = verb' := by
  revert h
  cases verb <;> cases verb' <;> decide

/-- **The verb, the name and the id** can be read off a control subject. -/
theorem controlTokens_injective {name' id' : Text} (hnamed : name = [] → id = [])
    (hnamed' : name' = [] → id' = [])
    (h : controlTokens verb name id = controlTokens verb' name' id') :
    verb = verb' ∧ name = name' ∧ id = id' := by
  obtain ⟨hverb, hscope⟩ := List.cons.inj (List.cons.inj h).2
  refine ⟨ServiceVerb.text_injective hverb, ?_⟩
  by_cases hname : name = [] <;> by_cases hname' : name' = []
  · rw [hname, hname', hnamed hname, hnamed' hname']
    exact ⟨rfl, rfl⟩
  · rw [if_pos hname, if_neg hname'] at hscope
    split at hscope <;> cases hscope
  · rw [if_neg hname, if_pos hname'] at hscope
    split at hscope <;> cases hscope
  · rw [if_neg hname, if_neg hname'] at hscope
    split at hscope <;> split at hscope <;> cases hscope
    · rename_i hid hid'
      exact ⟨rfl, hid.trans hid'.symm⟩
    · exact ⟨rfl, rfl⟩

/-- A token of its own that is no wildcard. -/
structure Plain (t : Text) : Prop where
  dot : '.' ∉ t
  star : t ≠ ['*']
  gt : t ≠ ['>']

theorem Optional.plain (h : Optional name) : Plain name where
  dot := h.dot
  star := by
    rintro rfl
    exact (ne_of_isNameChar (h '*' List.mem_cons_self)).2.1 rfl
  gt := by
    rintro rfl
    exact (ne_of_isNameChar (h '>' List.mem_cons_self)).2.2 rfl

theorem Askable.plain (h : Askable name id) (verb : ServiceVerb) :
    ∀ t ∈ controlTokens verb name id, Plain t := by
  intro t ht
  rw [controlTokens, List.mem_cons, List.mem_cons] at ht
  rcases ht with rfl | rfl | ht
  · exact ⟨by decide, by decide, by decide⟩
  · cases verb <;> exact ⟨by decide, by decide, by decide⟩
  · split at ht
    · cases ht
    · split at ht
      · rw [List.mem_singleton.1 ht]
        exact h.name_chars.plain
      · rw [List.mem_pair] at ht
        rcases ht with rfl | rfl
        · exact h.name_chars.plain
        · exact h.id_chars.plain

/-- A subscription to a control subject gets what is sent to this subject only. -/
theorem subjectMatches_control {t : Text} (h : controlSubject verb name id none = .ok subject) :
    subjectMatches subject t = true ↔ subject = t := by
  obtain ⟨hask, htokens⟩ := controlSubject_eq_ok_iff.1 h
  constructor
  · intro hmatch
    refine tokens_injective (eq_of_matchTokens (fun f hf => ?_) hmatch)
    rw [htokens] at hf
    exact ⟨(hask.plain verb f hf).star, (hask.plain verb f hf).gt⟩
  · rintro rfl
    exact matchTokens_self _

end

/-! ## The handlers of a service -/

/-- What a control subject is made of. -/
structure Question where
  verb : ServiceVerb
  name : Text
  id : Text
deriving DecidableEq, Repr

/-- `ServiceImpl.controlSubject`, as it is called by a service. -/
def Question.subject (q : Question) : Except String Text := controlSubject q.verb q.name q.id none

/-- The question is about the service. -/
def Question.About (q : Question) (i : Identity) : Prop :=
  (q.name = [] ∨ q.name = i.name.text) ∧ (q.id = [] ∨ q.id = i.id.text)

instance (q : Question) (i : Identity) : Decidable (q.About i) :=
  inferInstanceAs (Decidable (_ ∧ _))

/-- `addInternalHandler(verb, handler)`: the questions it takes. -/
def addInternalHandler (i : Identity) (verb : ServiceVerb) : List Question :=
  [⟨verb, [], []⟩, ⟨verb, i.name.text, []⟩, ⟨verb, i.name.text, i.id.text⟩]

/-- The questions a service takes, in the order of `start()`. -/
def questions (i : Identity) : List Question :=
  addInternalHandler i .PING ++ addInternalHandler i .STATS ++ addInternalHandler i .INFO

section

variable {i : Identity} {q q' : Question} {subject : Text}

theorem mem_questions : q ∈ questions i ↔ q.About i ∧ (q.name = [] → q.id = []) := by
  obtain ⟨verb, name, id⟩ := q
  have hname := i.name.nonempty
  have hid := i.id.nonempty
  have hverb : ⟨verb, name, id⟩ ∈ questions i ↔ ⟨verb, name, id⟩ ∈ addInternalHandler i verb := by
    cases verb <;> simp [questions, addInternalHandler]
  rw [hverb]
  simp only [addInternalHandler, List.mem_cons, List.not_mem_nil, or_false,
    Question.mk.injEq, true_and, Question.About]
  constructor
  · rintro (⟨rfl, rfl⟩ | ⟨rfl, rfl⟩ | ⟨rfl, rfl⟩)
    · exact ⟨⟨.inl rfl, .inl rfl⟩, fun h => h⟩
    · exact ⟨⟨.inr rfl, .inl rfl⟩, fun h => absurd h hname⟩
    · exact ⟨⟨.inr rfl, .inr rfl⟩, fun h => absurd h hname⟩
  · rintro ⟨⟨rfl | rfl, rfl | rfl⟩, hnamed⟩
    · exact .inl ⟨rfl, rfl⟩
    · exact absurd (hnamed rfl) hid
    · exact .inr (.inl ⟨rfl, rfl⟩)
    · exact .inr (.inr ⟨rfl, rfl⟩)

theorem nodup_questions (i : Identity) : (questions i).Nodup := by
  have hname := i.name.nonempty
  have hid := i.id.nonempty
  simp [questions, addInternalHandler, hname, hid, Ne.symm hname, Ne.symm hid]

theorem askable_of_mem (h : q ∈ questions i) : Askable q.name q.id := by
  obtain ⟨⟨hname, hid⟩, hnamed⟩ := mem_questions.1 h
  refine ⟨?_, ?_, hnamed⟩
  · rcases hname with hname | hname <;> rw [hname]
    · exact optional_nil
    · exact i.name.chars
  · rcases hid with hid | hid <;> rw [hid]
    · exact optional_nil
    · exact i.id.chars

/-- The handlers of a service have their subjects. -/
theorem exists_subject (h : q ∈ questions i) : ∃ subject, q.subject = .ok subject :=
  ⟨_, controlSubject_eq_ok_iff.2 ⟨askable_of_mem h,
    List.splitOn_intercalate '.' (fun t ht => ((askable_of_mem h).plain q.verb t ht).dot)
    (List.cons_ne_nil _ _)⟩⟩

/-- **The question** can be read off a control subject. -/
theorem Question.subject_injective (h : q.subject = .ok subject) (h' : q'.subject = .ok subject) :
    q = q' := by
  obtain ⟨hask, htokens⟩ := controlSubject_eq_ok_iff.1 h
  obtain ⟨hask', htokens'⟩ := controlSubject_eq_ok_iff.1 h'
  obtain ⟨hverb, hname, hid⟩ :=
    controlTokens_injective hask.named hask'.named (htokens.symm.trans htokens')
  cases q
  cases q'
  cases hverb
  cases hname
  cases hid
  rfl

end

end NatsClient.Service
