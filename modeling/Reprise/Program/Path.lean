/-!
Paths as they are written. Where a path leads depends on the folders that are there, so it is kept as
the steps between its slashes, to be followed one by one.
-/
set_option autoImplicit false

namespace Reprise

structure Path where
  /-- Whether it starts at the root, not in the folder one is in. -/
  fromRoot : Bool
  steps : List String
  /-- Whether it ends with a slash, as only the path of a folder may. -/
  closed : Bool
deriving DecidableEq

namespace Path

def lengthLimit : Nat := 4095

def nameLimit : Nat := 255

/-- What stands between the slashes, empty parts included. -/
def parts : List Char → List (List Char)
  | [] => [[]]
  | c :: cs =>
    match c, parts cs with
    | '/', rest => [] :: rest
    | c, part :: rest => (c :: part) :: rest
    | c, [] => [[c]]

/-- A path with a null character or with too many bytes leads nowhere. -/
def ofString? (s : String) : Option Path :=
  let cs := s.toList
  if cs.contains '\x00' || lengthLimit < s.utf8ByteSize then none
  else
    some
      { fromRoot := cs.head? == some '/'
        steps := ((parts cs).filter (! ·.isEmpty)).map String.ofList
        closed := cs.getLast? == some '/' }

/-- Takes empty parts and dots from the end, which stands first here. A dot at the start of a path is
a step like any other. -/
def trim : List (List Char) → List (List Char)
  | [] => []
  | [part] => if part.isEmpty then [] else [part]
  | part :: rest => if part.isEmpty || part == ['.'] then trim rest else part :: rest

/-- The path of the folder that the last step is taken in; the root has none, nor has no path. -/
def parent? (path : String) : Option String :=
  match trim (parts path.toList).reverse with
  | [] => none
  | _ :: rest =>
    match trim rest with
    | [] => some (if path.toList.head? = some '/' then "/" else "")
    | before => some (String.ofList (List.intercalate ['/'] before.reverse))

def join (folder name : String) : String :=
  match folder.toList.getLast? with
  | none | some '/' => folder ++ name
  | some _ => folder ++ "/" ++ name

def withoutDots (p : Path) : List String :=
  match p.steps with
  | "." :: rest => if p.fromRoot then trimmed p.steps else "." :: trimmed rest
  | steps => trimmed steps
where
  trimmed (steps : List String) : List String := (steps.reverse.dropWhile (· == ".")).reverse

end Path

end Reprise
