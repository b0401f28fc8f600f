import TransactionRelay.LogFile.Rolling
import TransactionRelay.Settings.Logging

namespace TransactionRelay.LogFile

inductive SetupFailure
  | size (fault : LogSizeFault)
  | directory (path : String)
  | open (path : String)
  | installed (mode : LogMode)
  deriving DecidableEq, Repr

def SetupFailure.message : SetupFailure → String
  | .size fault => fault.message
  | .directory path => "Failed to create log directory " ++ path
  | .open path => "Unable to open log file " ++ path
  | .installed .stdout => "Failed to initialize stdout logger"
  | .installed .file => "Failed to initialize file logger"

-- A process has one logger. Where one is installed already the last step fails, and what was made before
-- it stays.
def setupAgain (env : Environment) (date : String) (tree : Tree) : SetupFailure × Tree :=
  match LogSettings.ofEnvironment env with
  | .error fault => (.size fault, tree)
  | .ok settings =>
    match settings.mode with
    | .stdout => (.installed .stdout, tree)
    | .file =>
      match tree.makeDirectories settings.directory.toList with
      | (left, some _) => (.directory settings.directory, left)
      | (made, none) =>
        let path := made.nextPath settings.basePath.toList date.toList settings.maxSize
        match made.openFile path with
        | none => (.open (String.ofList path), made)
        | some opened => (.installed .file, opened)

end TransactionRelay.LogFile
