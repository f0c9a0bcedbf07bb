import Reprise.Expr.Canonical
import Reprise.Expr.Walk
import Reprise.Text.Occurs

/-!
Cores: sets of clauses that cannot hold together. A core knows its clauses by their canonical texts
and lists them in the order of the texts.
-/
set_option autoImplicit false

namespace Reprise

def KeyedByText (clauses : List (String × Expr)) : Prop :=
  ∀ entry ∈ clauses, entry.1 = entry.2.canonical

structure Core where
  byText : OrderedMap String Expr
  keyed : KeyedByText byText.entries

namespace Core

def empty : Core := ⟨OrderedMap.empty, fun _ h => nomatch h⟩

instance : Inhabited Core := ⟨empty⟩

instance : DecidableEq Core := fun a b =>
  decidable_of_iff (a.byText = b.byText) ⟨fun h => by cases a; cases b; cases h; rfl, fun h => h ▸ rfl⟩

def clauses (c : Core) : List Expr := c.byText.values

def texts (c : Core) : List String := c.byText.keys

def size (c : Core) : Nat := c.byText.size

def isEmpty (c : Core) : Bool := c.byText.isEmpty

/-- Adds a clause; one of the same text gives way. -/
def replace (c : Core) (clause : Expr) : Core :=
  ⟨c.byText.insert clause.canonical clause, fun entry h => by
    rcases mem_insertEntry h with rfl | h
    · rfl
    · exact c.keyed entry h⟩

def hasText (c : Core) (text : String) : Bool := (c.byText.get? text).isSome

def insert (c : Core) (clause : Expr) : Core :=
  if c.hasText clause.canonical then c else c.replace clause

/-- Of several clauses of one text the last is kept. -/
def ofList (clauses : List Expr) : Core := clauses.foldl replace empty

/-- Of several clauses of one text the first is kept. -/
def ofFirsts (clauses : List Expr) : Core := clauses.foldl insert empty

def text (c : Core) : String := "\x7b" ++ String.intercalate ", " c.texts ++ "\x7d"

def equals (a b : Core) : Bool := a.texts == b.texts

/-- Whether every clause stands in parentheses in the target's text and all variables of the clauses
are variables of the target, sort and bounds included: the text alone does not show over which
domains a core was found. An empty core is in nothing. -/
def isContainedIn (c : Core) (target : Expr) : Bool :=
  let text := target.canonical.toList
  !c.isEmpty
    && c.texts.all (fun t => Text.occursIn ("(" ++ t ++ ")").toList text)
    && (let known := target.varSet
        c.clauses.all fun clause => OrderedSet.isSubsetOf clause.varSet known)

end Core

end Reprise
