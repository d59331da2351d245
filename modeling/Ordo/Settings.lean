import Ordo.Decimal.Numeral
import Ordo.Text.Lower

namespace Ordo

/-!
# Settings

What is set by the environment in which the program runs.

* `Environment` — variables with their values;
* `Settings`, `Settings.read` — the settings;
* `Connection`, `Connection.request` — the connection to the cache, which is made once.
-/

/-- Variables with their values. -/
abbrev Environment := List (String × String)

/-- The settings. -/
structure Settings where
  name : String
  environment : String
  host : String
  port : Int
  cacheUrl : Option String
  cacheKey : Option String
  diagrams : Bool
  deriving DecidableEq, Repr

/-- The settings in an environment.  The port has to be a whole number. -/
def Settings.read (env : Environment) : Except Decimal.NumeralError Settings := do
  let get (name default : String) : String := (env.lookup name).getD default
  let port ← Decimal.readWhole (get "APP_PORT" "8000")
  return {
    name := get "APP_NAME" "Analizador de Algoritmos"
    environment := get "APP_ENV" "development"
    host := get "APP_HOST" "0.0.0.0"
    port := port
    cacheUrl := env.lookup "SUPABASE_URL"
    cacheKey := env.lookup "SUPABASE_KEY"
    diagrams := Text.lower (get "ENABLE_DIAGRAMS" "false").toList == "true".toList }

/-- The connection to the cache: it is not tried for yet, or it was tried for, with or without
    success. -/
inductive Connection
  | untried
  | failed
  | connected
  deriving DecidableEq, Repr

namespace Connection

/-- What is said when the environment lacks what a connection needs. -/
def missing : String := "SUPABASE_URL y SUPABASE_KEY deben estar en .env"

/-- What is printed when the connection is made. -/
def greeting : String := "--> --> Conexión a Supabase establecida <-- <--\n"

/-- Whether a variable has a value that is not empty. -/
def isSet (env : Environment) (name : String) : Bool :=
  match env.lookup name with
  | some s => !s.isEmpty
  | none => false

/-- Asks for the connection.  Only the first time it is tried for; if that fails, the message
    is returned, and later there is a connection that leads nowhere.  With it comes what is
    printed. -/
def request (env : Environment) : Connection → Connection × Except String String
  | untried =>
      if isSet env "SUPABASE_URL" && isSet env "SUPABASE_KEY" then (connected, .ok greeting)
      else (failed, .error missing)
  | c => (c, .ok "")

end Connection

end Ordo
