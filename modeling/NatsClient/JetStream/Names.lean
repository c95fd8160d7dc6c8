import Mathlib.Tactic.Common

/-!
# Names of streams and consumers

`minValidation` of `jsutil.ts`, which the calls that take the name of a stream or of a durable
consumer make first.
-/

set_option autoImplicit false

namespace NatsClient.JetStream

/-- The characters that no name contains, with their spelling in the error. -/
def bad : List (Char × String) :=
  [('.', "."), ('*', "*"), ('>', ">"), ('/', "/"), ('\\', "\\"), (' ', " "), ('\t', "\\t"),
    ('\n', "\\n"), ('\r', "\\r")]

/-- `minValidation(context, name)`. -/
def minValidation (context name : String) : Except String Unit :=
  if name = "" then .error (context ++ " name required")
  else
    match bad.find? fun v => name.toList.contains v.1 with
    | some v =>
        .error
          ("invalid " ++ context ++ " name - " ++ context ++ " name cannot contain '" ++ v.2 ++ "'")
    | none => .ok ()

/-- `validateDurableName(name)`. -/
def validateDurableName (name : String) : Except String Unit := minValidation "durable" name

/-- `validateStreamName(name)`. -/
def validateStreamName (name : String) : Except String Unit := minValidation "stream" name

/-- The names that pass. -/
theorem minValidation_eq_ok_iff {context name : String} :
    minValidation context name = .ok () ↔ name ≠ "" ∧ ∀ v ∈ bad, v.1 ∉ name.toList := by
  rw [minValidation]
  by_cases hname : name = ""
  · rw [if_pos hname]
    exact iff_of_false (by rintro ⟨⟩) fun h => h.1 hname
  · rw [if_neg hname]
    cases hfind : bad.find? fun v => name.toList.contains v.1 with
    | none =>
        refine iff_of_true rfl ⟨hname, fun v hv hin => ?_⟩
        exact List.find?_eq_none.1 hfind v hv (List.contains_iff_mem.2 hin)
    | some v =>
        have hin : name.toList.contains v.1 = true := by
          have h := List.find?_some hfind
          exact h
        refine iff_of_false (by rintro ⟨⟩) fun h => ?_
        exact h.2 v (List.mem_of_find?_eq_some hfind) (List.contains_iff_mem.1 hin)

end NatsClient.JetStream
