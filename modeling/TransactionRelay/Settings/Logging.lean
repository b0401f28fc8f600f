import TransactionRelay.LogFile.Path
import TransactionRelay.Settings.Environment

namespace TransactionRelay

inductive LogMode
  | stdout
  | file
  deriving DecidableEq, Repr

inductive LogLevel
  | error
  | warn
  | info
  | debug
  | trace
  deriving DecidableEq, Repr

def LogLevel.name : LogLevel → String
  | .error => "ERROR"
  | .warn => "WARN"
  | .info => "INFO"
  | .debug => "DEBUG"
  | .trace => "TRACE"

-- Levels are named in either case; what names none of them means the middle one.
def LogLevel.ofText (text : String) : LogLevel :=
  ([LogLevel.trace, .debug, .warn, .error].find?
    fun level => level.name.toList == text.toList.map Char.toUpper).getD .info

structure LogSettings where
  mode : LogMode := .stdout
  level : LogLevel := .info
  directory : String := "./logs"
  maxSize : Nat := 1073741824
  deriving DecidableEq, Repr

structure LogSizeFault where
  value : String
  deriving DecidableEq, Repr

def LogSizeFault.message (fault : LogSizeFault) : String :=
  "LOG_MAX_SIZE must be a valid u64 if set, got " ++ fault.value

namespace LogSettings

def modeOf (text : Option String) : LogMode :=
  if text.any fun mode => mode.toList.map Char.toLower == "file".toList then .file else .stdout

def sizeOf (text : Option String) : Except LogSizeFault Nat :=
  match text with
  | none => .ok 1073741824
  | some value =>
    match Text.strictBelow 10 Text.word64 value.toList with
    | .ok size => .ok size
    | .error _ => .error ⟨value⟩

def ofEnvironment (env : Environment) : Except LogSizeFault LogSettings :=
  (sizeOf (env.text? "LOG_MAX_SIZE")).map fun maxSize =>
    { mode := modeOf (env.text? "LOG_MODE")
      level := ((env.text? "LOG_LEVEL").map LogLevel.ofText).getD .info
      directory := (env.text? "LOG_DATA_DIR").getD "./logs"
      maxSize }

def basePath (s : LogSettings) : String :=
  String.ofList (Path.push s.directory.toList "relay-coordinator.log".toList)

end LogSettings
end TransactionRelay
