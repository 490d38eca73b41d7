import JsonAdapters.Package.Config

/-!
# Builds

A build generates the files of the package in one directory into another one. It writes only files
whose contents change, and tells on which files its outcome depends.

## Main definitions

* `Build`, `Build.ofDirectories`, `Build.ofEnvironment`.
* `Build.run`: generate and write; `BuildReport`: what was done.
* `BuildFault`, `BuildFault.message`.
-/

namespace JsonAdapters

/-- Why a build fails. -/
inductive BuildFault
  | config (file : FilePath)
  | generation (fault : GenerationFault)
  | io (file : FilePath) (cause : FileError)
  | environment (name : String)

def BuildFault.message : BuildFault → String
  | config f => s!"invalid config '{f.text}'"
  | generation f => f.message
  | io f e => s!"i/o error on '{f.text}': {e.message}"
  | environment n => s!"environment variable {n} is not set"

/-- A build of a package. -/
structure Build where
  /-- Directory of the package. -/
  package : FilePath
  /-- Directory of the files that are written. -/
  out : FilePath
  options : Options
  /-- The file with the configuration, if there is one. -/
  configPath : Option FilePath
deriving DecidableEq, Repr

/-- What a build has done. -/
structure BuildReport where
  written : List FilePath
  unchanged : List FilePath
  warnings : List Warning
  /-- Directives for the tool that runs the build. -/
  directives : List String
deriving DecidableEq, Repr

def configName : String := "kson.toml"

/-- The configuration in the directory of a package; without a file, nothing is chosen. -/
def Config.load (tree : FileTree) (package : FilePath) : Except BuildFault Config :=
  let file := package.child configName
  match tree.readText file with
  | .ok text =>
    match Config.parse? text with
    | some c => .ok c
    | none => .error (.config file)
  | .error .notFound => .ok {}
  | .error e => .error (.io file e)

namespace Build

/-- The build of the package in one directory into another one. -/
def ofDirectories (tree : FileTree) (package out : FilePath) : Except BuildFault Build := do
  let config ← Config.load tree package
  let file := package.child configName
  return ⟨package, out, config.options, if tree.isFile file then some file else none⟩

/-- The build of the package that the environment names. -/
def ofEnvironment (tree : FileTree) (value? : String → Option String) :
    Except BuildFault Build :=
  match value? "CARGO_MANIFEST_DIR", value? "OUT_DIR" with
  | none, _ => .error (.environment "CARGO_MANIFEST_DIR")
  | _, none => .error (.environment "OUT_DIR")
  | some package, some out => ofDirectories tree ⟨package⟩ ⟨out⟩

def withGranularity (b : Build) (g : Granularity) : Build :=
  { b with options := { b.options with granularity := g } }

/-- The build with another root file, as seen from the directory of the package. -/
def withRoot (b : Build) (root : FilePath) : Build :=
  { b with options := { b.options with root := root } }

/-- The build with another module around all adapters. -/
def withModule (b : Build) (module : String) : Build :=
  { b with options := { b.options with module := module } }

/-! ## Running -/

def passOptions (b : Build) : Options := { b.options with root := b.package.join b.options.root }

def watch (file : String) : String := "cargo:rerun-if-changed=" ++ file

def directives (b : Build) (o : Output) : List String :=
  [watch "build.rs"] ++ b.configPath.toList.map (watch ·.text) ++ o.sources.map (watch ·.text) ++
    ["cargo:rustc-check-cfg=cfg(kson_aggregate)"] ++
    (if b.options.granularity = .aggregate then ["cargo:rustc-cfg=kson_aggregate"] else []) ++
    o.warnings.map fun w => "cargo:warning=" ++ w.message

/-- A step of a build, which may change files also when it fails. -/
abbrev Action := EStateM BuildFault FileTree

/-- Write a file, unless it has its contents already; whether it was written. -/
def writeFile (path : FilePath) (contents : String) : Action Bool := do
  let tree ← get
  if tree.holds path contents then return false
  match tree.writeText path contents with
  | .ok t => set t; return true
  | .error e => throw (.io path e)

/-- Write files into a directory: which were written, and which had their contents already. -/
def writeFiles (out : FilePath) : List OutputFile → Action (List FilePath × List FilePath)
  | [] => return ([], [])
  | f :: fs => do
    let path := out.child f.name
    let isNew ← writeFile path f.contents
    let (written, unchanged) ← writeFiles out fs
    return if isNew then (path :: written, unchanged) else (written, path :: unchanged)

def run (b : Build) : Action BuildReport := do
  match generateFrom (← get) b.passOptions with
  | .error e => throw (.generation e)
  | .ok o =>
    let (written, unchanged) ← writeFiles b.out o.files
    return ⟨written, unchanged, o.warnings, b.directives o⟩

end Build

end JsonAdapters
