import Headfirst.Text.Printable

namespace Headfirst.CommandLine

/-! What a command asks of its surroundings, and a directory of files that grants it. -/

inductive FileFault where
  | notFound
  | isDirectory
  | notDirectory
  | noPermission
  | nameTooLong
  | invalidPath
  | other (number : Nat) (text : String)
deriving DecidableEq, Repr

namespace FileFault

def numbered (number : Nat) (reason path : String) : String :=
  s!"[Errno {number}] {reason}: {Text.quoted path}"

def text (fault : FileFault) (path : String) : String :=
  match fault with
  | notFound => numbered 2 "No such file or directory" path
  | isDirectory => numbered 21 "Is a directory" path
  | notDirectory => numbered 20 "Not a directory" path
  | noPermission => numbered 13 "Permission denied" path
  | nameTooLong => numbered 36 "File name too long" path
  | invalidPath => "embedded null byte"
  | other number reason => numbered number reason path

end FileFault

inductive Source where
  | standardInput
  | file (path : String)
deriving DecidableEq, Repr

inductive Status where
  | success
  /-- The input or the settings have errors. -/
  | rejected
  /-- The command line is not understood, or the surroundings fail unexpectedly. -/
  | broken
deriving DecidableEq, Repr

def Status.code : Status → UInt8
  | success => 0
  | rejected => 1
  | broken => 2

structure Ending where
  status : Status
  stdout : String := ""
  stderr : String := ""
deriving DecidableEq, Repr

/-- A command as the requests it makes, one after another. -/
inductive Action where
  | finish (ending : Ending)
  | read (source : Source) (next : Except FileFault (List UInt8) → Action)
  | write (path content : String) (next : Option FileFault → Action)

structure Workspace where
  stdin : List UInt8 := []
  files : List (String × List UInt8) := []

/-- Where a path leads, seen from the directory that holds the files. -/
inductive Place where
  /-- This directory, or one that it lies in. -/
  | directory
  /-- A name in the directory, and whether a slash after it asks for a directory. -/
  | entry (name : String) (slash : Bool)
  /-- Something below a name in the directory. -/
  | below (name : String)
deriving DecidableEq, Repr

namespace Place

def maxPath : Nat := 4095

def maxName : Nat := 255

def ofNames (slash : Bool) : List String → Place
  | [] => directory
  | "." :: names => ofNames slash names
  | name :: names =>
      if (name :: names).all fun name => name = "." || name = ".." then directory
      else if names.isEmpty then entry name slash
      else below name

/-- Empty names between slashes are skipped.  Nothing is known of other directories. -/
def ofPath (path : String) : Except FileFault Place :=
  if path.contains '\x00' then .error .invalidPath
  else if maxPath < path.utf8ByteSize then .error .nameTooLong
  else
    match ofNames (path.endsWith "/") ((path.splitOn "/").filter (· ≠ "")) with
    | directory => if path = "" then .error .notFound else .ok directory
    | place => if path.startsWith "/" then .error .notFound else .ok place

end Place

namespace Workspace

def contents? (workspace : Workspace) (name : String) : Option (List UInt8) :=
  (workspace.files.find? (·.1 == name)).map (·.2)

def entry (workspace : Workspace) (name : String) : Except FileFault (List UInt8) :=
  if Place.maxName < name.utf8ByteSize then .error .nameTooLong
  else
    match workspace.contents? name with
    | some bytes => .ok bytes
    | none => .error .notFound

/-- Why nothing can be found below a name: no name is a directory. -/
def faultBelow (workspace : Workspace) (name : String) : FileFault :=
  match workspace.entry name with
  | .ok _ => .notDirectory
  | .error fault => fault

def readFile (workspace : Workspace) (path : String) : Except FileFault (List UInt8) :=
  match Place.ofPath path with
  | .error fault => .error fault
  | .ok .directory => .error .isDirectory
  | .ok (.below name) | .ok (.entry name true) => .error (workspace.faultBelow name)
  | .ok (.entry name false) => workspace.entry name

def put (workspace : Workspace) (name content : String) : Workspace :=
  let others := workspace.files.filter (·.1 != name)
  { workspace with files := others ++ [(name, content.toUTF8.toList)] }

def writeFile (workspace : Workspace) (path content : String) : Except FileFault Workspace :=
  match Place.ofPath path with
  | .error fault => .error fault
  | .ok .directory | .ok (.entry _ true) => .error .isDirectory
  | .ok (.below name) => .error (workspace.faultBelow name)
  | .ok (.entry name false) =>
      match workspace.entry name with
      | .error .nameTooLong => .error .nameTooLong
      | _ => .ok (workspace.put name content)

end Workspace

namespace Action

def run (workspace : Workspace) : Action → Ending × Workspace
  | finish ending => (ending, workspace)
  | read .standardInput next => run workspace (next (.ok workspace.stdin))
  | read (.file path) next => run workspace (next (workspace.readFile path))
  | write path content next =>
      match workspace.writeFile path content with
      | .ok workspace => run workspace (next none)
      | .error fault => run workspace (next (some fault))

end Action

end Headfirst.CommandLine
