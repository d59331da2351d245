namespace Ordo

/-!
# The application

Which endpoints the service has and where, and from where it may be asked.

* `Registration` — endpoints, and routers within routers;
* `Application`, `Application.standard` — the application.
-/

/-- How an endpoint is asked. -/
inductive Method
  | get | post
  deriving DecidableEq, Repr

/-- The name of a method. -/
def Method.name : Method → String
  | get => "get"
  | post => "post"

/-- An entry of a router: an endpoint, or another router with the path below which it stands
    and its tags. -/
inductive Registration
  | endpoint (method : Method) (path handler : String)
  | mount (entries : List Registration) (path : String) (tags : List String)

/-- Who may ask the service. -/
structure CrossOrigin where
  origins : List String
  credentials : Bool
  methods : List String
  headers : List String
  deriving DecidableEq, Repr

/-- An application: its title, who may ask it, and its endpoints. -/
structure Application where
  title : String
  crossOrigin : CrossOrigin
  entries : List Registration

/-- The endpoints of the analyzer. -/
def analyzerEntries : List Registration :=
  [.endpoint .post "/ast" "build_ast",
   .endpoint .post "/natural-to-pseudocode" "natural_to_pseudocode",
   .endpoint .get "/algorithms" "get_all_algorithms"]

/-- All endpoints. -/
def serviceEntries : List Registration :=
  [.mount analyzerEntries "/analyzer" ["analyzer"], .endpoint .get "/" "test_check"]

/-- The application. -/
def Application.standard : Application where
  title := "Analizador de Algoritmos (Base mínima)"
  crossOrigin := {
    origins := ["http://localhost:5173", "http://127.0.0.1:5173"]
    credentials := false
    methods := ["*"]
    headers := ["*"] }
  entries := [.mount serviceEntries "/api" []]

end Ordo
