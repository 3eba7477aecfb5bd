import RefMonitor.Console

set_option autoImplicit false

namespace RefMonitor

inductive Level where
  | error
  | warn
  | info
  | debug
  | trace
  deriving DecidableEq, Inhabited

namespace Level

def name : Level → String
  | .error => "ERROR"
  | .warn => "WARN"
  | .info => "INFO"
  | .debug => "DEBUG"
  | .trace => "TRACE"

def rank : Level → Nat
  | .error => 0
  | .warn => 1
  | .info => 2
  | .debug => 3
  | .trace => 4

end Level

-- The least severe level that is kept, or none at all.
abbrev LogFilter := Option Level

def LogFilter.enabled (filter : LogFilter) (level : Level) : Bool :=
  match filter with
  | none => false
  | some least => level.rank ≤ least.rank

structure LogRecord where
  level : Level
  text : String
  deriving DecidableEq, Inhabited

namespace LogRecord

def line (r : LogRecord) : String :=
  let name := r.level.name
  name ++ String.ofList (List.replicate (5 - name.length) ' ') ++ " " ++ r.text ++ "\n"

def write (filter : LogFilter) (console : Console) (r : LogRecord) : Console :=
  if filter.enabled r.level then console.write r.line else console

def writeAll (filter : LogFilter) (console : Console) (records : List LogRecord) : Console :=
  console.write (String.join ((records.filter fun r => filter.enabled r.level).map line))

end LogRecord

def loggerTaken : String :=
  "attempted to set a logger after the logging system was already initialized"

end RefMonitor
