import Jarsmith.Request

/-!
# Invocations

What a user asks for on a command line: a project, how careful to be with its caches, and a command.

* `Invocation.parse` reads a command line;
* `Invocation.run` gives the text of the answer, and what became of the world.
-/

namespace Jarsmith

/-- What a user wants done. -/
inductive Command where
  /-- Lists all versions, or gives the latest one of a kind. -/
  | versions (latest : Option VersionKind)
  | resolve (request : ResolveRequest)
  /-- Checks the descriptor in a file and gives the name of its version. -/
  | inject (descriptor : String)

/-- What a user asks for. -/
structure Invocation where
  /-- The directory of the project. -/
  project : String
  /-- Whether everything is made anew. -/
  refresh : Bool
  /-- Whether nothing may be fetched. -/
  offline : Bool
  command : Command

-- ---------------------------------------------------------------------------
-- Command lines
-- ---------------------------------------------------------------------------

/-- The parts of a command line. -/
structure Arguments where
  /-- The options with their values, in their order. -/
  options : List (String × String)
  flags : List String
  words : List String

namespace Arguments

/-- The options that have no value. -/
def flagNames : List String := ["refresh", "offline", "official"]

/-- The options that have a value. -/
def optionNames : List String :=
  ["project", "latest", "version", "platform", "mappings", "tiny-namespaces", "access-widener",
    "descriptor"]

/-- Adds an option with its value. -/
def add (name value : String) (a : Arguments) : Except String Arguments :=
  if optionNames.contains name then .ok { a with options := a.options ++ [(name, value)] }
  else .error s!"unknown option --{name}"

/-- What an argument is. -/
inductive Kind where
  | word (text : String)
  | flag (name : String)
  /-- An option with its value behind `=`. -/
  | complete (name value : String)
  /-- An option whose value follows. -/
  | awaiting (name : String)

/-- Tells what an argument is. -/
def Kind.ofText (text : String) : Kind :=
  match Text.stripPrefix? "--" text with
  | none => word text
  | some name =>
    if flagNames.contains name then flag name
    else
      match Text.splitFirst? '=' name with
      | some (name, value) => complete name value
      | none => awaiting name

/-- Adds the arguments of a command line. -/
def read (a : Arguments) : List String → Except String Arguments
  | [] => .ok a
  | text :: more =>
    match Kind.ofText text, more with
    | .word text, more => read { a with words := a.words ++ [text] } more
    | .flag name, more => read { a with flags := a.flags ++ [name] } more
    | .complete name value, more => do read (← a.add name value) more
    | .awaiting name, value :: rest => do read (← a.add name value) rest
    | .awaiting name, [] => .error s!"no value for --{name}"
  termination_by arguments => arguments.length

/-- The values of an option. -/
def values (a : Arguments) (name : String) : List String :=
  a.options.filterMap fun (option, value) => if option = name then some value else none

/-- The value of an option; the last one counts. -/
def value? (a : Arguments) (name : String) : Option String := (a.values name).getLast?

/-- The kind of version of which the latest one is wanted. -/
def latest (a : Arguments) : Except String (Option VersionKind) :=
  match a.value? "latest" with
  | none => .ok none
  | some "release" => .ok (some .release)
  | some "snapshot" => .ok (some .snapshot)
  | some other => .error s!"unknown channel {other}"

/-- The path of a layer as seen from a directory. -/
def layerFrom (directory text : String) : String :=
  match Text.splitFirst? ':' text with
  | some (_, "") | none => text
  | some (format, path) => s!"{format}:{Path.join directory path}"

/-- The request of a command line; paths are seen from `directory`. -/
def request (a : Arguments) (directory : String) : Except String ResolveRequest := do
  let some version := a.value? "version" | throw "no value for --version"
  let platform ← (Platform.ofId ((a.value? "platform").getD "joined")).mapError (·.message)
  let paths (name : String) : List String := (a.values name).map (Path.join directory)
  pure ⟨version, platform, a.flags.contains "official",
    (a.values "mappings").map (layerFrom directory), a.value? "tiny-namespaces",
    paths "access-widener", paths "descriptor"⟩

end Arguments

namespace Invocation

/-- The command of a command line; paths are seen from `directory`. -/
def command? (a : Arguments) (directory : String) : Except String Command :=
  match a.words with
  | ["versions"] => .versions <$> a.latest
  | ["resolve"] => .resolve <$> a.request directory
  | ["inject", path] => .ok (.inject (Path.join directory path))
  | _ => .error "expected versions, resolve, or inject with a path"

/-- Reads a command line; paths are seen from `directory`. -/
def parse (directory : String) (arguments : List String) : Except String Invocation := do
  let a ← Arguments.read ⟨[], [], []⟩ arguments
  pure ⟨Path.join directory ((a.value? "project").getD "."), a.flags.contains "refresh",
    a.flags.contains "offline", ← command? a directory⟩

-- ---------------------------------------------------------------------------
-- Running
-- ---------------------------------------------------------------------------

/-- The paths outside the caches that an invocation reads. -/
def inputs (i : Invocation) : List String :=
  match i.command with
  | .versions _ => []
  | .resolve q =>
    let layers := q.mappings.filterMap fun text => (Text.splitFirst? ':' text).map (·.2)
    layers ++ q.wideners ++ q.descriptors
  | .inject path => [path]

/-- The settings of the project, as the command line changes them. -/
def settings (i : Invocation) (usual : WorkspaceSettings) : FileAction WorkspaceSettings := do
  let s ← WorkspaceSettings.load usual i.project
  pure { s with
    forceRefresh := s.forceRefresh || i.refresh
    resolveMode := if i.offline then .localOnly else s.resolveMode }

/-- The text that answers a command. -/
def answer (r : Resolver) : Command → ResolverAction String
  | .versions none => do
    pure ((JsonValue.array ((← r.listVersions).map (·.toJson))).render .indented 0)
  | .versions (some kind) => do
    match ← r.latestVersion kind with
    | some version => pure (version.toJson.render .indented 0)
    | none => throw (.other s!"No latest {kind.id} is known")
  | .resolve request => do pure ((← r.resolve request).toJson.render .indented 0)
  | .inject path => VersionRepository.inject path

/-- The text that answers an invocation, and what became of the world. -/
def run (i : Invocation) (s : WorkspaceSettings) (w : World) : Result String × World :=
  let (outcome, state) := (answer (.ofSettings s i.project) i.command).run.run (.ofWorld w)
  (outcome, state.versions.world)

end Invocation

end Jarsmith
