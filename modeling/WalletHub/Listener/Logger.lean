import WalletHub.Json.Events

/-!
# Logging of events

A logger writes one record for every event it is handed: failures as warnings, what happens all
the time for debugging, the rest as information. Its level says which events it asks for, which is
no matter of how loud they are.
-/
namespace WalletHub

namespace Notice

/-- Whether a notice comes so often that it drowns the others. -/
def isChatty : Notice → Bool
  | manager _ (.syncProgress ..) | manager _ (.blockUpdated _) => true
  | transfer _ (.confirmationsUpdated _) => true
  | _ => false

/-- Whether a notice reports that something went wrong. -/
def isFailure : Notice → Bool
  | manager _ (.syncEnded r) => !r.isSuccess
  | transfer _ (.changed _ (.failed _)) => true
  | _ => false

/-- Whether a notice is for debugging only. -/
def isDetail : Notice → Bool
  | wallet _ (.feeBasisUpdated _) => true
  | n => n.isChatty

end Notice

inductive LogLevel where
  /-- Failures only. -/
  | minimal
  /-- All but what happens all the time. -/
  | normal
  | verbose
  deriving DecidableEq, Repr

/-- Whether events of a kind are asked for at this level. -/
def LogLevel.wants (level : LogLevel) (n : Notice) : Bool :=
  match level with
  | .minimal => n.isFailure
  | .normal => !n.isChatty
  | .verbose => true

inductive Severity where
  | warning | information | debugging
  deriving DecidableEq, Repr

/-- How loud a notice is logged. -/
def Notice.severity (n : Notice) : Severity :=
  if n.isFailure then .warning else if n.isDetail then .debugging else .information

structure Logger where
  level : LogLevel
  /-- Whether the record is the event in JSON and not its summary. -/
  json : Bool
  deriving DecidableEq, Repr

structure LogRecord where
  severity : Severity
  eventType : String
  message : String
  deriving DecidableEq, Repr

namespace Logger

/-- The name every logger goes by. -/
def name : String := "TracingLoggingListener"

/-- A logger that leaves out what happens all the time and writes summaries. -/
def standard : Logger := ⟨.normal, false⟩

/-- The record of an event. -/
def record (l : Logger) (e : Event) : LogRecord :=
  ⟨e.notice.severity, e.typeName, if l.json then e.compactJson else e.summary⟩

end Logger
end WalletHub
