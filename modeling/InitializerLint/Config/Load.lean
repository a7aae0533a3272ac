import InitializerLint.Config.Read
import InitializerLint.Files.Tree
import InitializerLint.Json.Reader
import InitializerLint.Log
import InitializerLint.Yaml.Reader

/-! Settings loaded from files: by path, or from the first directory that has some. -/
namespace InitializerLint

open Files (Tree joinPath fileExtension)

inductive Config.LoadError where
  | unreadable (e : Files.ReadError)
  | unknownFormat (extension : String)
  | json (e : Json.Error)
  | yaml (e : Yaml.Failure)

def Config.LoadError.message : Config.LoadError → String
  | .unreadable e => "IO error: " ++ e.message
  | .unknownFormat ext => "Invalid configuration: Unknown config file format: " ++ ext
  | .json e => "JSON parse error: " ++ e.message
  | .yaml e => "YAML parse error: " ++ e.message

namespace Config

/-- Read a text in the format that a file extension names. -/
def parse (extension text : String) : Except LoadError Config :=
  if extension = "yaml" || extension = "yml" then (Yaml.read Config.read text).mapError .yaml
  else if extension = "json" then (Json.read Config.read text).mapError .json
  else .error (.unknownFormat extension)

/-- A file is read before its name is looked at. -/
def load (files : Tree) (path : String) : Logged (Except LoadError Config) :=
  match files.readText path with
  | .error e => .silent (.error (.unreadable e))
  | .ok text =>
    match parse (fileExtension path) text with
    | .ok c => .after .debug ("loaded configuration from " ++ path) (.silent (.ok c))
    | .error e => .silent (.error e)

/-- Names of settings files, in the order in which they are looked for. -/
def fileNames : List String := [".staticinitrc.yaml", ".staticinitrc.yml", ".staticinitrc.json"]

def findIn (files : Tree) (dir : String) : Option String :=
  (fileNames.map (joinPath dir)).find? files.contains

/-- The first settings file in the first directory that has one, or the defaults. -/
def loadFirst (files : Tree) (dirs : List String) : Logged (Except LoadError Config) :=
  match dirs.findSome? (findIn files) with
  | some path => load files path
  | none => .silent (.ok {})

/-- Look in the directory one is at, whose own path has no detours, and then in a home
directory. -/
def loadDefault (files : Tree) (current home : String) : Logged (Except LoadError Config) :=
  loadFirst files [(Files.Place.ofPath current).path, home]

end Config
end InitializerLint
