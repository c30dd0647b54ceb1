import ServiceQuery.Text.Search

/-!
# Arguments of the command line

Options stand before or after the command; those after it win. An option is given once at each of
the two places, its value follows it or an equals sign.
-/

namespace ServiceQuery.CommandLine

/-- The form of the output. -/
inductive Format where
  | text
  | json
  deriving DecidableEq

/-- The form with the given name. -/
def Format.ofText? : String → Option Format
  | "text" => some text
  | "json" => some json
  | _ => none

/-- What is to be done. -/
inductive Command where
  /-- Compile the query in a file against the model in a file. -/
  | compile (model query : String) (baseUri : Option String)
  /-- Print the configuration. -/
  | showConfig
  deriving DecidableEq

/-- The arguments of the command line. -/
structure Arguments where
  config : Option String
  format : Format
  command : Command
  deriving DecidableEq

/-- Why nothing is to be done. -/
inductive Stop where
  /-- The arguments do not fit. -/
  | usage (problem : String)
  | help
  | version
  deriving DecidableEq

/-- The places where options stand. -/
inductive Level where
  /-- Before the command. -/
  | top
  /-- After `compile`. -/
  | compile
  /-- After `show-config`. -/
  | showConfig
  deriving DecidableEq

/-- The options with a value. -/
inductive OptionName where
  | config
  | format
  | model
  | query
  | baseUri
  deriving DecidableEq

/-- The option with the given name, if it can stand at the given place. -/
def OptionName.ofText? (level : Level) : String → Option OptionName
  | "config" => some config
  | "format" => some format
  | "model" => if level = .compile then some model else none
  | "query" => if level = .compile then some query else none
  | "base-uri" => if level = .compile then some baseUri else none
  | _ => none

/-- The place after a command. -/
def Level.ofCommand? : String → Option Level
  | "compile" => some compile
  | "show-config" => some showConfig
  | _ => none

/-- The options given at one place. -/
structure Options where
  config : Option String := none
  format : Option Format := none
  model : Option String := none
  query : Option String := none
  baseUri : Option String := none

namespace Options

/-- A value for an option that has none yet. -/
def once {α : Type} (current : Option α) (value : Option α) : Except Stop (Option α) :=
  match current, value with
  | none, some value => .ok (some value)
  | some _, _ => .error (.usage "an option is repeated")
  | none, none => .error (.usage "an option has an invalid value")

/-- The name of a file, which is not empty. -/
def fileName? (text : String) : Option String := if text.isEmpty then none else some text

/-- The options with one more value. -/
def set (options : Options) (name : OptionName) (value : String) : Except Stop Options :=
  match name with
  | .config => do
    let config ← once options.config (fileName? value)
    pure { options with config := config }
  | .format => do
    let format ← once options.format (Format.ofText? value)
    pure { options with format := format }
  | .model => do
    let model ← once options.model (fileName? value)
    pure { options with model := model }
  | .query => do
    let query ← once options.query (fileName? value)
    pure { options with query := query }
  | .baseUri => do
    let baseUri ← once options.baseUri (some value)
    pure { options with baseUri := baseUri }

end Options

/-- One argument. -/
inductive Token where
  /-- Two hyphens, after which there are no options. -/
  | finish
  /-- An option with two hyphens, and the value after its equals sign. -/
  | long (name : String) (value : Option String)
  /-- An option with one hyphen. -/
  | short (name : Char)
  | word (text : String)

/-- The kind of an argument. A single hyphen is a word. -/
def Token.ofText (text : String) : Token :=
  match text.toList with
  | ['-', '-'] => finish
  | '-' :: '-' :: rest =>
    match Text.splitOnce (· == '=') rest with
    | some (name, value) => long (String.ofList name) (some (String.ofList value))
    | none => long (String.ofList rest) none
  | '-' :: name :: _ => short name
  | _ => word text

/-- Whether an argument can be the value of the option before it. -/
def Token.isValue : Token → Bool
  | word _ => true
  | _ => false

/-- An option that stops the reading. -/
def stopOf? (level : Level) : Token → Option Stop
  | .long "help" none | .short 'h' => some .help
  | .long "version" none | .short 'V' => if level = .top then some .version else none
  | _ => none

/-- Reads the options at one place, up to the end or to a command. -/
def readOptions (level : Level) : Options → List String →
    Except Stop (Options × Option (Level × List String))
  | options, [] => .ok (options, none)
  | options, argument :: rest =>
    match stopOf? level (Token.ofText argument) with
    | some stop => .error stop
    | none =>
      match Token.ofText argument with
      | .finish =>
        if rest.isEmpty then .ok (options, none) else .error (.usage "there is an extra argument")
      | .short _ => .error (.usage "an option is unknown")
      | .word text =>
        match level, Level.ofCommand? text with
        | .top, some command => .ok (options, some (command, rest))
        | _, _ => .error (.usage "there is an extra argument")
      | .long name value =>
        match OptionName.ofText? level name, value, rest with
        | none, _, _ => .error (.usage "an option is unknown")
        | some name, some value, rest => do
          let options ← options.set name value
          readOptions level options rest
        | some name, none, value :: rest =>
          if (Token.ofText value).isValue then do
            let options ← options.set name value
            readOptions level options rest
          else .error (.usage "an option has no value")
        | some _, none, [] => .error (.usage "an option has no value")

/-- The value that an option has to have. -/
def required (name : String) : Option String → Except Stop String
  | some value => .ok value
  | none => .error (.usage ("the option --" ++ name ++ " is missing"))

/-- The configuration file: the option after the command, the one before it, or the environment,
which is looked at unless both options are there and may not be empty then. -/
def configFile (top inner : Options) (environment : Option String) :
    Except Stop (Option String) :=
  match inner.config, top.config, environment with
  | some file, some _, _ => .ok (some file)
  | _, _, some "" => .error (.usage "the configuration file has no name")
  | some file, none, _ | none, some file, _ => .ok (some file)
  | none, none, environment => .ok environment

/-- Reads the arguments, given the configuration file that the environment names. -/
def Arguments.parse (environment : Option String) (arguments : List String) :
    Except Stop Arguments := do
  let (top, command) ← readOptions .top {} arguments
  match command with
  | none => throw (.usage "there is no command")
  | some (level, rest) => do
    let (inner, _) ← readOptions level {} rest
    let config ← configFile top inner environment
    let format := (inner.format <|> top.format).getD .text
    if level = .compile then
      let model ← required "model" inner.model
      let query ← required "query" inner.query
      pure ⟨config, format, .compile model query inner.baseUri⟩
    else pure ⟨config, format, .showConfig⟩

end ServiceQuery.CommandLine
