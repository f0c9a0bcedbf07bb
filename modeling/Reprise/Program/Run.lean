import Reprise.Program.Arguments
import Reprise.Program.Directory
import Reprise.Json.Normal
import Reprise.Json.Print
import Reprise.Session.Resolve
import Reprise.Tally.Json

/-!
The program behind the command line: what it reads, prints and keeps. A run ends with status 0, with 1
after a failure and with 2 after arguments that ask for nothing.
-/
set_option autoImplicit false

namespace Reprise

namespace Program

structure Host (m : Type → Type) where
  readText : String → m (Option String)
  openTable : String → m (Except StoreFault SortedTable)
  saveTable : String → SortedTable → m Unit
  print : String → m Unit

variable {m : Type → Type} [Monad m]

def loadConfig (host : Host m) (i : Invocation) : m (Except SessionFault Config) := do
  match i.config with
  | some path => return Config.ofFile path (← host.readText path)
  | none => return .ok {}

def effective (i : Invocation) (c : Config) : Config :=
  { c with dataDir := i.dataDir.or c.dataDir }

def readExprs (host : Host m) (path : String) : m (Option (List Expr)) := do
  match ← host.readText path with
  | none => return none
  | some text =>
    match Json.decodeText (Json.asList (Expr.decode .text)) text with
    | .ok exprs => return some exprs
    | .error _ => return none

def openSession (host : Host m) (c : Config) : m (Except SessionFault (Session SortedTable)) := do
  match c.validate, c.dataDir with
  | .error f, _ => return .error f
  | .ok (), none => return Session.start c none
  | .ok (), some dir =>
    match ← host.openTable dir with
    | .error f => return .error (.dataDir dir f)
    | .ok table => return Session.start c (some table)

def closeSession (host : Host m) (s : Session SortedTable) : m FlushReport := do
  let (report, s) := s.persist
  match s.config.dataDir, s.table with
  | some dir, some table => host.saveTable dir table
  | _, _ => pure ()
  return report

def tellResolutions (host : Host m) :
    List (Expr × Except Fault Resolution) → m (Option (List Resolution))
  | [] => return some []
  | (_, .error _) :: _ => return none
  | (e, .ok r) :: rest => do
    host.print (e.canonical ++ "\n  " ++ r.verdict.text ++ " via " ++ r.source.text
      ++ " (sat-delta " ++ r.satDelta.text ++ ")\n")
    return (← tellResolutions host rest).map (r :: ·)

def allResolutions : List (Except Fault Resolution) → Option (List Resolution)
  | [] => some []
  | .error _ :: _ => none
  | .ok r :: rest => (allResolutions rest).map (r :: ·)

def resolutionsJson (rs : List Resolution) (tally : Tally) (report : FlushReport) : Json :=
  .object
    [("resolutions", .array (rs.map Resolution.toJson)), ("stats", tally.toJson),
      ("flush", .object [("written", .nat report.written), ("dropped", .nat report.dropped)])]

/-- After a failed query nothing is kept. -/
def runResolve (host : Host m) (c : Config) (file : String) (json : Bool) : m Nat := do
  let some exprs ← readExprs host file | return 1
  let .ok s ← openSession host c | return 1
  let (results, s, _) := s.resolveAll (Solver.bounded c.budget) exprs ()
  if json then
    let some rs := allResolutions results | return 1
    let report ← closeSession host s
    host.print ((resolutionsJson rs s.tally report).normal.pretty ++ "\n")
  else
    let some _ ← tellResolutions host (exprs.zip results) | return 1
    let report ← closeSession host s
    host.print ("\n" ++ s.tally.report ++ "Persisted " ++ toString report.written ++ " entries ("
      ++ toString report.dropped ++ " dropped)\n")
  return 0

def tellDeltas (host : Host m) : List Expr → Session SortedTable → m Nat
  | [], _ => return 0
  | e :: rest, s =>
    match s.satDelta e with
    | (.error _, _) => return 1
    | (.ok delta, s) => do
      host.print (delta.text ++ "\t" ++ e.canonical ++ "\n")
      tellDeltas host rest s

def runDelta (host : Host m) (c : Config) (file : String) : m Nat := do
  let some exprs ← readExprs host file | return 1
  let .ok s ← openSession host c | return 1
  tellDeltas host exprs s

def runInfo (host : Host m) (c : Config) : m Nat := do
  let .ok s ← openSession host c | return 1
  host.print s.info.text
  return 0

def runConfig (host : Host m) (c : Config) : m Nat := do
  let some text := c.toToml? | return 1
  host.print text
  return 0

def runInvocation (host : Host m) (i : Invocation) : m Nat := do
  let .ok loaded ← loadConfig host i | return 1
  let c := effective i loaded
  match i.command with
  | .resolve file _ json => runResolve host c file json
  | .delta file => runDelta host c file
  | .info => runInfo host c
  | .config => runConfig host c

def run (host : Host m) (args : List String) : m Nat := do
  match parse args with
  | .run i => runInvocation host i
  | .tell text =>
    host.print text
    return 0
  | .misuse => return 2

structure RunState where
  directory : Directory
  output : String

def inDirectory : Host (StateM RunState) where
  readText path := do return (← get).directory.readText path
  openTable dir := do
    let w ← get
    let (opened, directory) := w.directory.openTable dir
    set { w with directory := directory }
    return opened
  saveTable dir table := modify fun w => { w with directory := w.directory.saveTable dir table }
  print text := modify fun w => { w with output := w.output ++ text }

def runIn (d : Directory) (args : List String) : Nat × String × Directory :=
  let (status, w) := (run inDirectory args).run ⟨d, ""⟩
  (status, w.output, w.directory)

/-- Whether a run is cut off by a lookup that cannot reserve its room. -/
def cutOff (host : Host m) (args : List String) : m Bool := do
  let .run i := parse args | return false
  let .resolve file _ _ := i.command | return false
  let .ok loaded ← loadConfig host i | return false
  let some exprs ← readExprs host file | return false
  let .ok s ← openSession host (effective i loaded) | return false
  return s.overreaches exprs

/-- A run as it ends. Where it is cut off, with status 101, it has told and kept nothing. -/
def endIn (d : Directory) (args : List String) : Nat × String × Directory :=
  match (cutOff inDirectory args).run ⟨d, ""⟩ with
  | (true, w) => (101, w.output, w.directory)
  | (false, _) => runIn d args

end Program

end Reprise
