import TransactionRelay.Failure
import TransactionRelay.Settings.Environment

namespace TransactionRelay

structure ClientSettings where
  sliceSize : Nat := 3
  pingMillis : Nat := 10000
  deriving DecidableEq, Repr

namespace ClientSettings

def ofEnvironment (env : Environment) : ClientSettings where
  sliceSize := env.natOr "RELAY_SLICE_SIZE" 3 Text.word64
  pingMillis := env.natOr "PING_TIMEOUT_MS" 10000 Text.word64

def validate (s : ClientSettings) : Except SettingsFault Unit :=
  if s.sliceSize == 0 then .error (.sliceSize s.sliceSize)
  else if s.pingMillis == 0 then .error (.timeout s.pingMillis)
  else .ok ()

def pingTimeout (s : ClientSettings) : Nat × Nat := (s.pingMillis / 1000, s.pingMillis % 1000)

end ClientSettings
end TransactionRelay
