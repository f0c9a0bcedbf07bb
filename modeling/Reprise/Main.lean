import Reprise.Program.Run

/-!
The program on a real file system. The table of a data directory is one file: the number of entries,
then the keys and values.
-/
set_option autoImplicit false

namespace Reprise

namespace Program

def tableFile (dir : String) : String :=
  if dir.isEmpty then Directory.tableName else dir ++ "/" ++ Directory.tableName

def putEntry (entry : String × Bytes) (rest : Bytes) : Bytes :=
  Wire.putText entry.1 (Wire.putList List.cons entry.2 rest)

def getByte : Wire.Reader UInt8
  | [] => none
  | b :: rest => some (b, rest)

def getEntry : Wire.Reader (String × Bytes) := fun bytes => do
  let (key, bytes) ← Wire.getText bytes
  let (value, bytes) ← Wire.getList getByte bytes
  some ((key, value), bytes)

def writeTable (dir : String) (table : SortedTable) : IO Unit :=
  IO.FS.writeBinFile (tableFile dir) ⟨(Wire.putList putEntry table.entries.entries []).toArray⟩

def readTable (dir : String) : IO (Except StoreFault SortedTable) := do
  let bytes ← IO.FS.readBinFile (tableFile dir)
  if bytes.isEmpty then return .ok .empty
  match Wire.getList getEntry bytes.toList with
  | some (entries, []) => return .ok ⟨OrderedMap.ofList entries⟩
  | _ => return .error (.transaction "not a table of entries")

def openFile (dir : String) : IO (Except StoreFault SortedTable) := do
  try
    unless dir.isEmpty do IO.FS.createDirAll dir
    let handle ← IO.FS.Handle.mk (tableFile dir) .append
    handle.flush
    readTable dir
  catch e => return .error (.io (toString e))

def onDisk : Host IO where
  readText path := do
    try return some (← IO.FS.readFile path)
    catch _ => return none
  openTable := openFile
  saveTable := writeTable
  print := IO.print

end Program

end Reprise

def main (args : List String) : IO UInt32 := do
  if ← Reprise.Program.cutOff Reprise.Program.onDisk args then return 101
  return UInt32.ofNat (← Reprise.Program.run Reprise.Program.onDisk args)
