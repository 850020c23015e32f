import SessionPool.Config.Fault
import SessionPool.Files
import SessionPool.Json.Fault

/-!
# Errors

What can go wrong in the library. Each error is a cause; its wording is one function of it.
-/

namespace SessionPool

/-- An error of the library. -/
inductive Error where
  /-- A session was used after it was closed. -/
  | sessionClosed (localId : UInt64)
  /-- No session is registered under an id. -/
  | sessionNotFound (localId : UInt64)
  /-- A configuration is unusable. -/
  | invalidConfig (fault : Config.Fault)
  /-- A file could not be read. -/
  | io (fault : Files.Fault)
  /-- A text is not the JSON that was wanted. -/
  | json (error : Json.Error)
  deriving DecidableEq, Repr

namespace Error

def message : Error → String
  | sessionClosed id => s!"Session {id} is closed"
  | sessionNotFound id => s!"Session not found: {id}"
  | invalidConfig fault => s!"Invalid configuration: {fault.message}"
  | io fault => s!"I/O error: {fault.message}"
  | json error => s!"JSON error: {error.message}"

/-- The text of what caused the error, if something outside the library did. -/
def cause? : Error → Option String
  | io fault => some fault.message
  | json error => some error.message
  | _ => none

def isSessionClosed : Error → Bool
  | sessionClosed _ => true
  | _ => false

/-- The session that the error is about. -/
def localId? : Error → Option UInt64
  | sessionClosed id => some id
  | sessionNotFound id => some id
  | _ => none

end Error

end SessionPool
