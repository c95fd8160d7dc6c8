import Mathlib.Data.List.Infix
import Mathlib.Tactic.Common

/-!
# The errors of a connection

Model of `NatsError` (`core.ts`) and of `ProtocolHandler.toError` (`protocol.ts`), which reads the
text of a `-ERR` into an error with a code.
-/

set_option autoImplicit false

namespace NatsClient.Reconnect

/-- The codes of `ErrorCode` that a dial, or a `-ERR`, gives an error. -/
inductive ErrorCode where
  | ConnectionRefused
  | AuthorizationViolation
  | AuthenticationExpired
  | ProtocolError
  | PermissionsViolation
  | AuthenticationTimeout
  | AccountExpired
deriving DecidableEq, Repr

namespace ErrorCode

def isAuthError (code : ErrorCode) : Bool :=
  code = AuthenticationExpired || code = AuthorizationViolation || code = AccountExpired

def isAuthTimeout (code : ErrorCode) : Bool := code = AuthenticationTimeout

def isPermissionError (code : ErrorCode) : Bool := code = PermissionsViolation

def isProtocolError (code : ErrorCode) : Bool := code = ProtocolError

theorem not_isPermissionError_of_isAuthError {code : ErrorCode} (h : code.isAuthError = true) :
    code.isPermissionError = false := by
  cases code with
  | AuthorizationViolation => rfl
  | AuthenticationExpired => rfl
  | AccountExpired => rfl
  | _ => cases h

end ErrorCode

/-- `NatsError`. -/
structure NatsError where
  message : String
  code : ErrorCode
deriving DecidableEq, Repr

/-- What a promise is rejected with: an error of the client's own, or one of the runtime. -/
inductive Reason where
  | nats (err : NatsError)
  | other (message : String)
deriving DecidableEq, Repr

/-- `NatsError.errorForCode(ErrorCode.ConnectionRefused)`. -/
def connectionRefused : NatsError := ⟨"CONNECTION_REFUSED", .ConnectionRefused⟩

/-- `t.indexOf(text) !== -1`. -/
def includes (t text : String) : Bool := decide (text.toList <:+: t.toList)

/-- `ProtocolHandler.toError`. The texts it looks for have no `k`, and end in no `i`, which is where
the lower case of a letter beyond ASCII begins with an ASCII letter (the Kelvin sign, and the dotted
`I`, which leaves a dot behind the `i`): to lower just the ASCII letters finds the same texts. -/
def toError (s : String) : NatsError :=
  let t := s.toLower
  if includes t "permissions violation" then ⟨s, .PermissionsViolation⟩
  else if includes t "authorization violation" then ⟨s, .AuthorizationViolation⟩
  else if includes t "user authentication expired" then ⟨s, .AuthenticationExpired⟩
  else if includes t "account authentication expired" then ⟨s, .AccountExpired⟩
  else if includes t "authentication timeout" then ⟨s, .AuthenticationTimeout⟩
  else ⟨s, .ProtocolError⟩

example : (toError "'Authorization Violation'").code = .AuthorizationViolation := by decide +kernel

end NatsClient.Reconnect
