import Lazydns.Config.Text

/-!
# Loading a configuration file

`load_from_file` reads a file, substitutes environment variables and replaces each include directive by the file it names, read in the same way. The set of visited files is passed on from the file to its includes, and nothing but the first file is looked up in it or added to it.

The recursion goes where the contents of the files send it, so the functions count how deep it goes: without a result, the includes are nested deeper than the count.
-/

namespace Lazydns

/-! ### Surroundings -/

/-- What the loader reads: files under their canonical paths, each path leading to one of them, and the environment variables. The texts are those of the system's errors. -/
structure FileSystem (File : Type) where
  canonicalize : String → Except String File
  contents : File → Except String String
  var : String → Option String

/-- The errors of the loader, each with what its text names. -/
inductive LoadError where
  | resolvePath (reason : String)
  | circularInclude (path : String)
  | readConfig (reason : String)
  | missingVar (name : String)
  | readIncluded (path reason : String)
  | yaml (e : Error)
  deriving DecidableEq, Repr

def LoadError.toError : LoadError → Error
  | .resolvePath reason => .config ("Failed to resolve path: " ++ reason)
  | .circularInclude path => .config ("Circular include detected: " ++ path)
  | .readConfig reason => .config ("Failed to read config file: " ++ reason)
  | .missingVar name => .config ("Environment variable " ++ name ++ " not found and no default provided")
  | .readIncluded path reason => .config ("Failed to read included file " ++ path ++ ": " ++ reason)
  | .yaml e => e

/-! ### The loader -/

variable {File C : Type}

/-- The loop of `substitute_env_vars`. -/
def substituteCaptures (var : String → Option String) : List EnvCapture → String → Except LoadError String
  | [], result => .ok result
  | cap :: caps, result =>
    match (var cap.varName).or cap.defaultValue with
    | none => .error (.missingVar cap.varName)
    | some value => substituteCaptures var caps (replace result cap.fullMatch value)

def substituteEnvVars (var : String → Option String) (content : String) : Except LoadError String :=
  substituteCaptures var (capturesIter matchEnv content) content

/-- Where an include directive leads. -/
def resolvePath (baseDir : Option String) (includePath : String) : String :=
  match baseDir with
  | some base => Path.join base includePath
  | none => includePath

/-- The loop of `process_includes`, with what an included file comes to. -/
def replaceIncludes (included : String → Option (Except LoadError String)) :
    List IncludeCapture → String → Option (Except LoadError String)
  | [], result => some (.ok result)
  | cap :: caps, result =>
    match included cap.includePath with
    | none => none
    | some (.error e) => some (.error e)
    | some (.ok contents) => replaceIncludes included caps (replace result cap.fullMatch contents)

namespace FileSystem

variable (fs : FileSystem File)

def readToString (path : String) : Except String String :=
  match fs.canonicalize path with
  | .error e => .error e
  | .ok file => fs.contents file

def processIncludes : Nat → String → Option String → List File → Option (Except LoadError String)
  | 0, _, _, _ => none
  | fuel + 1, content, baseDir, visited =>
    replaceIncludes (fun includePath =>
      let resolvedPath := resolvePath baseDir includePath
      match fs.readToString resolvedPath with
      | .error e => some (.error (.readIncluded resolvedPath e))
      | .ok contents =>
        match substituteEnvVars fs.var contents with
        | .error e => some (.error e)
        | .ok contents => processIncludes fuel contents (Path.parent resolvedPath) visited)
      (capturesIter matchInclude content) content

variable [DecidableEq File] (loadFromYaml : String → Except Error C)

def loadFromFileInternal (fuel : Nat) (path : String) (visited : List File) : Option (Except LoadError C) :=
  match fs.canonicalize path with
  | .error e => some (.error (.resolvePath e))
  | .ok canonicalPath =>
    if canonicalPath ∈ visited then some (.error (.circularInclude path))
    else
      match fs.readToString path with
      | .error e => some (.error (.readConfig e))
      | .ok contents =>
        match substituteEnvVars fs.var contents with
        | .error e => some (.error e)
        | .ok contents =>
          (fs.processIncludes fuel contents (Path.parent path) (canonicalPath :: visited)).map fun
            | .error e => .error e
            | .ok contents =>
              match loadFromYaml contents with
              | .error e => .error (.yaml e)
              | .ok config => .ok config

def loadFromFile (fuel : Nat) (path : String) : Option (Except LoadError C) :=
  fs.loadFromFileInternal loadFromYaml fuel path []

end FileSystem

end Lazydns
