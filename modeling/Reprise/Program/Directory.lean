import Reprise.Program.Path
import Reprise.Session.Config
import Reprise.Table.Sorted

/-!
A directory held as a value: files, folders and the tables of data directories under their places.
-/
set_option autoImplicit false

namespace Reprise

inductive Node where
  | file (bytes : Bytes)
  | folder
  | table (entries : SortedTable)

/-- Where something is: the names on the way from the directory. A place outside of it begins with
the steps upwards, or with the root. -/
abbrev Place : Type := List String

namespace Place

def above (here : Place) : Place :=
  match here.getLast? with
  | none | some ".." => here ++ [".."]
  | some "/" => here
  | some _ => here.dropLast

def text (here : Place) : String := String.intercalate "/" here

end Place

/-- Nodes by the texts of their places; the directory itself is not listed. -/
structure Directory where
  nodes : OrderedMap String Node

namespace Directory

def empty : Directory := ⟨OrderedMap.empty⟩

def node? (d : Directory) (here : Place) : Option Node := d.nodes.get? here.text

def put (d : Directory) (here : Place) (node : Node) : Directory :=
  ⟨d.nodes.insert here.text node⟩

/-- Whether there is a folder at the place. The directory, the root and what is above are folders. -/
def isFolder (d : Directory) (here : Place) : Bool :=
  match here.getLast?, d.node? here with
  | none, _ | some "..", _ | some "/", _ => true
  | _, some .folder => true
  | _, _ => false

def start (p : Path) : Place := if p.fromRoot then ["/"] else []

def isName (step : String) : Bool :=
  step != "." && step != ".." && step.utf8ByteSize ≤ Path.nameLimit

def enter (d : Directory) (here : Place) (step : String) : Option Place :=
  if step = "." then some here
  else if step = ".." then some here.above
  else if d.isFolder (here ++ [step]) then some (here ++ [step])
  else none

def follow (d : Directory) : Place → List String → Option Place := List.foldlM d.enter

/-- Follows steps and makes the folders still missing. What has been made before an obstacle stays. -/
def followMaking (d : Directory) (here : Place) : List String → Option Place × Directory
  | [] => (some here, d)
  | step :: rest =>
    match d.enter here step with
    | some next => followMaking d next rest
    | none =>
      let next := here ++ [step]
      if isName step && (d.node? next).isNone then followMaking (d.put next .folder) next rest
      else (none, d)

/-- Makes the folder of a path and those on the way to it, and tells whether it is there now. A dot at
the end asks for a folder that is there already. -/
def makeFolders (d : Directory) (path : String) : Bool × Directory :=
  match Path.ofString? path with
  | none => (false, d)
  | some p =>
    let steps := p.withoutDots
    if steps.length = p.steps.length then
      let (place, d) := d.followMaking (start p) steps
      (place.isSome, d)
    else
      let (_, d) := d.followMaking (start p) steps.dropLast
      ((d.follow (start p) steps).isSome, d)

def filePlace? (d : Directory) (path : String) : Option Place := do
  let p ← Path.ofString? path
  let name ← p.steps.getLast?
  if p.closed || !isName name then none
  return (← d.follow (start p) p.steps.dropLast) ++ [name]

def writeFile (d : Directory) (path : String) (bytes : Bytes) : Option Directory := do
  let place ← d.filePlace? path
  if d.isFolder place then none else some (d.put place (.file bytes))

def readText (d : Directory) (path : String) : Option String := do
  match d.node? (← d.filePlace? path) with
  | some (.file bytes) => String.fromUTF8? ⟨bytes.toArray⟩
  | _ => none

def tableName : String := "grulia.redb"

/-- Opens the table of a data directory; both are made if they are missing. An empty file becomes a
table, any other node in its place is none. -/
def openTable (d : Directory) (dir : String) : Except StoreFault SortedTable × Directory :=
  match d.makeFolders dir with
  | (false, d) => (.error (.io "not a directory"), d)
  | (true, d) =>
    let path := Path.join dir tableName
    match d.filePlace? path with
    | none => (.error (.transaction ("no place for a table: " ++ path)), d)
    | some place =>
      match d.node? place with
      | some (.table entries) => (.ok entries, d)
      | none | some (.file []) => (.ok .empty, d.put place (.table .empty))
      | some _ => (.error (.transaction ("not a table: " ++ path)), d)

def saveTable (d : Directory) (dir : String) (entries : SortedTable) : Directory :=
  match d.filePlace? (Path.join dir tableName) with
  | some place => d.put place (.table entries)
  | none => d

end Directory

namespace Config

def ofFile (path : String) (text : Option String) : Except SessionFault Config :=
  match text with
  | none => .error (.configRead path)
  | some text =>
    match parse? text with
    | none => .error (.configParse path "not a configuration")
    | some c => .ok c

def save (c : Config) (path : String) (d : Directory) : Except SessionFault Unit × Directory :=
  match c.toToml? with
  | none => (.error (.configParse path "a number is out of range"), d)
  | some text =>
    let folder := (Path.parent? path).getD ""
    match d.makeFolders folder with
    | (false, d) => (.error (.configWrite folder), d)
    | (true, d) =>
      match d.writeFile path text.toUTF8.toList with
      | none => (.error (.configWrite path), d)
      | some d => (.ok (), d)

end Config

end Reprise
