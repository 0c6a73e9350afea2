import ConsumerGroup.Settings.Reader
import ConsumerGroup.Text.Utf8

/-!
# Settings files

Loading settings from a file of a directory.  Only names that end in `.toml` are accepted; the file
must be there and hold a text.
-/

namespace ConsumerGroup

/-- Files and directories below a working directory, by their paths without a leading slash. -/
structure Directory where
  /-- the files with their content -/
  files : List (String × ByteArray) := []
  /-- the directories -/
  directories : List String := []

namespace Directory

/-- What a path can name. -/
inductive Node where
  /-- a file with its content -/
  | file (content : ByteArray)
  /-- a directory -/
  | directory

/-- What is at a path, given as its parts. -/
def node? (d : Directory) (parts : List String) : Option Node :=
  let path := "/".intercalate parts
  if parts.isEmpty then some .directory
  else
    match d.files.find? (·.1 == path) with
    | some (_, content) => some (.file content)
    | none =>
      let below (name : String) : Bool := (path ++ "/").toList.isPrefixOf name.toList
      if d.directories.contains path || d.directories.any below || d.files.any (below ·.1) then
        some .directory
      else none

/-- Goes down the parts of a path from the directory or file at `here`.  Two dots go up, up to the
working directory; above it nothing is found. -/
def walk (d : Directory) (here : List String) : List String → Except ReadFailure Node
  | [] =>
    match d.node? here with
    | some node => .ok node
    | none => .error .notFound
  | part :: parts =>
    match d.node? here with
    | none => .error .notFound
    | some (.file _) => .error .notADirectory
    | some .directory =>
      if part = "" || part = "." then walk d here parts
      else if part = ".." then
        if here.isEmpty then .error .notFound else walk d here.dropLast parts
      else walk d (here ++ [part]) parts

/-- The text of a file. -/
def read (d : Directory) (path : String) : Except ReadFailure String :=
  if path.toList.contains '\x00' then .error .invalidInput
  else if path.toList.head? = some '/' then .error .notFound
  else
    match d.walk [] (path.splitOn "/") with
    | .error failure => .error failure
    | .ok .directory => .error .isADirectory
    | .ok (.file content) =>
      match Text.decode? content with
      | some text => .ok text
      | none => .error .invalidData

end Directory

/-- The last part of a path that names something below its directory.  Slashes at the end and parts
of a single dot do not count; two dots name nothing. -/
def fileName? (path : String) : Option String :=
  match (path.splitOn "/").reverse.filter fun part => part ≠ "" && part ≠ "." with
  | name :: _ => if name = ".." then none else some name
  | [] => none

/-- What follows the last dot of a file name; nothing if the name has no dot after its start. -/
def extension? (path : String) : Option String :=
  (fileName? path).bind fun name =>
    match (name.splitOn ".").reverse with
    | last :: front => if front = [] || front = [""] then none else some last
    | [] => none

namespace Settings

/-- The one extension that settings files may have. -/
def fileExtension : String := "toml"

/-- The environment variable that names the settings file. -/
def pathVariable : String := "KAFKA_CONFIG_PATH"

/-- The settings of a file. -/
def load (d : Directory) (path : String) : Except ConfigError Settings :=
  if extension? path = some fileExtension then
    match d.read path with
    | .ok text => ofText text
    | .error failure => .error (.read path failure)
  else .error (.unsupportedFormat ((extension? path).getD ""))

/-- The settings of the file that the environment variable names. -/
def loadFromEnvironment (d : Directory) (value : Option String) : Except ConfigError Settings :=
  match value with
  | some path => load d path
  | none => .error (.missingEnv pathVariable)

end Settings

end ConsumerGroup
