import TransactionRelay.Address
import TransactionRelay.Amount
import TransactionRelay.Failure
import TransactionRelay.Settings.Environment
import TransactionRelay.Url

namespace TransactionRelay

structure ServerSettings where
  url : String := "http://localhost"
  port : UInt16 := 8090
  hub : String := "0x0000000000000000000000000000000000000000"
  minBalance : Wei := 100000000000000000
  minStake : Wei := 5000000000000000
  pollMillis : Nat := 5000
  deriving DecidableEq, Repr

namespace ServerSettings

def ofEnvironment (env : Environment) : ServerSettings where
  url := (env.text? "RELAY_URL").getD "http://localhost"
  port := UInt16.ofNat (env.natOr "RELAY_PORT" 8090 Text.word16)
  hub := (env.text? "RELAY_HUB_ADDRESS").getD "0x0000000000000000000000000000000000000000"
  minBalance := env.readOr "MANAGER_MIN_BALANCE" 100000000000000000 fun text => (Wei.read text).toOption
  minStake := env.readOr "MANAGER_MIN_STAKE" 5000000000000000 fun text => (Wei.read text).toOption
  pollMillis := env.natOr "POLL_INTERVAL_MS" 5000 Text.word64

def validate (s : ServerSettings) : Except SettingsFault Unit :=
  if !Url.isWeb s.url then .error (.url s.url)
  else if !Address.wellFormed s.hub then .error (.address "relay_hub_address" s.hub)
  else if s.pollMillis == 0 then .error (.timeout s.pollMillis)
  else .ok ()

def registrationUrl (s : ServerSettings) : String := Url.advertised s.port s.url

end ServerSettings
end TransactionRelay
