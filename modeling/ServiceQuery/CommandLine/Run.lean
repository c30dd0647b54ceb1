import ServiceQuery.CommandLine.Arguments
import ServiceQuery.Config.File
import ServiceQuery.Json.Parser
import ServiceQuery.Json.Printer
import ServiceQuery.Model.File
import ServiceQuery.Wire.Request

/-!
# Running the command line

The command line reads up to three files. What it prints is a function of its arguments, of the
environment and of what the files hold.
-/

namespace ServiceQuery.CommandLine

/-- The names of configuration files that do not come from the arguments. -/
structure Environment where
  /-- The file that a variable names. -/
  configFile : Option String := none
  /-- The file in the user's configuration directory. -/
  userConfig : Option String := none

/-- What is found under the name of a file. -/
inductive FileEntry where
  | absent
  | text (content : String)
  /-- Something that cannot be read, and why. -/
  | unreadable (reason : String)

/-- What is printed, and the exit code. -/
structure Outcome where
  exit : Nat := 0
  output : String := ""
  errors : String := ""
  deriving DecidableEq

/-- The program and its version. -/
def versionText : String := "odataq 0.4.0\n"

/-- How the program is called. -/
def usageText : String :=
  "Usage: odataq [OPTIONS] <COMMAND>\n\n" ++
  "Commands:\n" ++
  "  compile      Compile a query tree into a request\n" ++
  "  show-config  Print the effective configuration\n\n" ++
  "Options:\n" ++
  "  --config <FILE>    Compiler configuration\n" ++
  "  --format <FORMAT>  Output format: text or json\n" ++
  "  --model <FILE>     TOML service model\n" ++
  "  --query <FILE>     JSON-encoded query expression\n" ++
  "  --base-uri <URI>   Override the configured service root\n"

/-- The outcome when nothing is to be done. -/
def Stop.outcome : Stop → Outcome
  | .version => { output := versionText }
  | .help => { output := usageText }
  | .usage problem => { exit := 2, errors := "error: " ++ problem ++ "\n\n" ++ usageText }

/-- The configuration file to look for. -/
def configPath (environment : Environment) (arguments : Arguments) : Option String :=
  arguments.config <|> environment.userConfig

/-- The names of the files that are read. -/
def paths (environment : Environment) (arguments : Arguments) : List String :=
  (configPath environment arguments).toList ++
    match arguments.command with
    | .compile model query _ => [model, query]
    | .showConfig => []

section

variable (files : String → FileEntry)

/-- The configuration file, if it is there. -/
def existingConfig (environment : Environment) (arguments : Arguments) : Option String :=
  (configPath environment arguments).filter fun path =>
    match files path with
    | .absent => false
    | _ => true

/-- The content of a file that has to be there. -/
def contentOf (kind path : String) : Except String String :=
  match files path with
  | .text content => .ok content
  | .absent =>
    .error ("failed to read " ++ kind ++ " " ++ path ++ ": No such file or directory (os error 2)")
  | .unreadable reason => .error ("failed to read " ++ kind ++ " " ++ path ++ ": " ++ reason)

/-- The configuration, which is the default one if there is no file. -/
def loadConfig (environment : Environment) (arguments : Arguments) : Except String Config :=
  match existingConfig files environment arguments with
  | none => .ok {}
  | some path => do
    let content ← contentOf files "config" path
    match Config.ofToml content with
    | .ok config => pure config
    | .error .malformed => throw ("failed to parse config " ++ path)
    | .error error => throw error.message

/-- The model of a file. -/
def loadModel (path : String) : Except String Model := do
  let content ← contentOf files "model" path
  match Model.ofToml content with
  | .ok model => pure model
  | .error .malformed => throw "failed to parse model"
  | .error error => throw error.message

/-- The query of a file. -/
def loadQuery (path : String) : Except String Expr := do
  let content ← contentOf files "query" path
  match Json.parse content with
  | .error position =>
    throw ("invalid JSON at line " ++ toString position.line ++ " column " ++
      toString position.column)
  | .ok json =>
    match Expr.ofJson? json with
    | some expr => pure expr
    | none =>
      let position := Json.Position.after content.toList
      throw ("invalid query at line " ++ toString position.line ++ " column " ++
        toString position.column)

/-- The lines for the parameters of a request. -/
def parameterLines (kind : String) (parameters : List (String × Value)) : String :=
  String.join (parameters.map fun (name, value) =>
    "  " ++ kind ++ " " ++ name ++ "=" ++ value.text ++ "\n")

/-- A request as lines of text. -/
def requestText (request : Request) : String :=
  request.method.text ++ " " ++ request.uri ++ "\n" ++
  "  version=" ++ request.version.text ++ "\n" ++
  "  element_type=" ++ request.elementType.text ++ "\n" ++
  (match request.singleResult with
    | some single => "  single_result=" ++ Config.boolText single ++ "\n"
    | none => "") ++
  (match request.projector with
    | some projector => "  projector=" ++ projector.toExpr.text ++ "\n"
    | none => "") ++
  parameterLines "uri_parameter" request.uriParameters ++
  parameterLines "body_parameter" request.bodyParameters

/-- What `compile` prints. -/
def compileOutput (config : Config) (format : Format) (model query : String)
    (baseUri : Option String) : Except String String := do
  let config := { config with baseUri := baseUri.getD config.baseUri }
  let model ← loadModel files model
  let expr ← loadQuery files query
  let compiler : Compiler := ⟨config, model.metadata⟩
  match compiler.compile expr with
  | .error error => throw error.withCode
  | .ok request =>
    match format with
    | .json => pure (request.toJson.pretty ++ "\n")
    | .text => pure (requestText request)

/-- What `show-config` prints. -/
def configOutput (config : Config) (format : Format) (source : Option String) : String :=
  match format, source with
  | .json, _ => config.toJson.pretty ++ "\n"
  | .text, some path => "# loaded from " ++ path ++ "\n" ++ config.toToml
  | .text, none => "# defaults\n" ++ config.toToml

/-- What the command prints. -/
def output (environment : Environment) (arguments : Arguments) : Except String String := do
  let config ← loadConfig files environment arguments
  match arguments.command with
  | .compile model query baseUri => compileOutput files config arguments.format model query baseUri
  | .showConfig =>
    pure (configOutput config arguments.format (existingConfig files environment arguments))

/-- The outcome of a command. -/
def execute (environment : Environment) (arguments : Arguments) : Outcome :=
  match output files environment arguments with
  | .ok text => { output := text }
  | .error message => { exit := 1, errors := "error: " ++ message ++ "\n" }

/-- The outcome of given arguments. -/
def run (environment : Environment) (arguments : List String) : Outcome :=
  match Arguments.parse environment.configFile arguments with
  | .ok arguments => execute files environment arguments
  | .error stop => stop.outcome

end

end ServiceQuery.CommandLine
