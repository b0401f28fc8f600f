import TransactionRelay.Failure
import TransactionRelay.Relay

namespace TransactionRelay

abbrev RelayDirectory := RelayRequest → Except SelectionFailure (List (List RelayRecord))

structure StaticDirectory where
  preferred : List String := []
  known : List RelayRecord := []
  deriving DecidableEq, Repr

namespace StaticDirectory

-- A relay that is preferred is not offered a second time as a known one.
def tiers (directory : StaticDirectory) : List (List RelayRecord) :=
  [directory.preferred.map RelayRecord.ofUrl,
    (directory.known.filter (·.active)).filter fun relay => !directory.preferred.contains relay.url]

def toDirectory (directory : StaticDirectory) : RelayDirectory := fun _ => .ok directory.tiers

end StaticDirectory
end TransactionRelay
