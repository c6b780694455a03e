import Accounts.Backend.Error
import Accounts.Hasher.Error
import Accounts.Text.Quoted

/-!
# Failures of the settings
-/
namespace Accounts

inductive SettingsError where
  | unsupported (name value : String)
  | backend (e : BackendError)
  | hasher (e : HasherError)
  deriving DecidableEq, Repr

def SettingsError.message : SettingsError → String
  | .unsupported name value =>
    "Unsupported value " ++ String.ofList (Text.quote value.toList) ++ " for " ++ name
  | .backend e => "Storage error: " ++ e.message
  | .hasher e => "Hasher error: " ++ e.message

end Accounts
