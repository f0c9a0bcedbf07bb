import Reprise.Program.Run
import Reprise.Proofs.Program.Directory
import Reprise.Proofs.Session.Answer

/-!
The parts of a run that resolves the queries of a file: the session is opened, all queries are resolved,
and only if none of them has failed the session is closed.
-/
set_option autoImplicit false

namespace Reprise

theorem Session.overreaches_eq_false {τ : Type} [Table τ] {s : Session τ}
    (room : s.config.candidates ≤ Cache.reservable) (es : List Expr) : s.overreaches es = false := by
  induction es generalizing s with
  | nil => rfl
  | cons e rest ih =>
    have later : (s.satDelta e).2.overreaches rest = false := ih room
    simp only [overreaches, decide_eq_false (Nat.not_lt.mpr room), later, Bool.false_and, Bool.or_self]

namespace Program

section Telling

theorem allResolutions_eq_none {results : List (Except Fault Resolution)} :
    allResolutions results = none ↔ ∃ f, .error f ∈ results := by
  induction results with
  | nil => simp [allResolutions]
  | cons r rest ih =>
    cases r with
    | error f => simp [allResolutions]
    | ok a => simp [allResolutions, ih]

theorem run_tellResolutions (pairs : List (Expr × Except Fault Resolution)) (w : RunState) :
    ∃ output, (tellResolutions inDirectory pairs).run w =
      (allResolutions (pairs.map Prod.snd), ⟨w.directory, output⟩) := by
  induction pairs generalizing w with
  | nil => exact ⟨w.output, rfl⟩
  | cons p rest ih =>
    obtain ⟨e, f | a⟩ := p
    · exact ⟨w.output, rfl⟩
    · let text := e.canonical ++ "\n  " ++ a.verdict.text ++ " via " ++ a.source.text
        ++ " (sat-delta " ++ a.satDelta.text ++ ")\n"
      obtain ⟨output, told⟩ := ih ⟨w.directory, w.output ++ text⟩
      have first : (tellResolutions inDirectory ((e, .ok a) :: rest)).run w =
          let later := (tellResolutions inDirectory rest).run ⟨w.directory, w.output ++ text⟩
          (later.1.map (a :: ·), later.2) := rfl
      rw [first, told]
      exact ⟨output, rfl⟩

theorem length_resolveAll {τ ω : Type} (ask : Oracle ω) (es : List Expr) (s : Session τ) (w : ω) :
    (s.resolveAll ask es w).1.length = es.length := by
  induction es generalizing s w with
  | nil => rfl
  | cons e rest ih => exact congrArg (· + 1) (ih _ _)

end Telling

section Opening

variable {c : Config} {dir : String}

theorem run_openSession (valid : c.validate = .ok ()) (persistent : c.dataDir = some dir)
    (w : RunState) : (openSession inDirectory c).run w =
      (match (w.directory.openTable dir).1 with
        | .error f => .error (.dataDir dir f)
        | .ok table => .ok (Session.opened c (some table)),
        ⟨(w.directory.openTable dir).2, w.output⟩) := by
  have start (table : SortedTable) :
      Session.start c (some table) = .ok (Session.opened c (some table)) :=
    Session.start_eq_ok.mpr ⟨valid, rfl⟩
  have opening : (inDirectory.openTable dir).run w =
      ((w.directory.openTable dir).1, ⟨(w.directory.openTable dir).2, w.output⟩) := rfl
  rw [openSession, valid, persistent]
  simp only [StateT.run_bind, opening, start]
  cases (w.directory.openTable dir).1 <;> rfl

theorem openSession_eq_ok {w w' : RunState} {s : Session SortedTable} (persistent : c.dataDir = some dir)
    (h : (openSession inDirectory c).run w = (.ok s, w')) : c.validate = .ok () ∧
      w'.output = w.output ∧ ∃ table place, s = Session.opened c (some table) ∧
        Directory.Opened w'.directory dir place table := by
  cases valid : c.validate with
  | error f =>
    rw [openSession, valid] at h
    cases h
  | ok _ =>
    rw [run_openSession valid persistent] at h
    cases opened : w.directory.openTable dir with
    | mk result d =>
      rw [opened] at h
      cases result with
      | error f => cases h
      | ok table =>
        cases h
        obtain ⟨place, there⟩ := Directory.opened_of_openTable opened
        exact ⟨rfl, rfl, table, place, rfl, there⟩

theorem openSession_of_opened (valid : c.validate = .ok ()) (persistent : c.dataDir = some dir)
    {d : Directory} {place : Place} {table : SortedTable} (opened : Directory.Opened d dir place table)
    (output : String) :
    (openSession inDirectory c).run ⟨d, output⟩ = (.ok (Session.opened c (some table)), ⟨d, output⟩) := by
  rw [run_openSession valid persistent, opened.openTable]

theorem run_closeSession {s : Session SortedTable} {table : SortedTable}
    (persistent : s.config.dataDir = some dir) (written : s.persist.2.table = some table)
    (config : s.persist.2.config = s.config) (w : RunState) : (closeSession inDirectory s).run w =
      (s.persist.1, ⟨w.directory.saveTable dir table, w.output⟩) := by
  rw [closeSession]
  simp only [config, persistent, written]
  rfl

end Opening

section Resolving

theorem run_bind {α β : Type} {first : StateM RunState α} {next : α → StateM RunState β}
    {w w' : RunState} {a : α} (h : first.run w = (a, w')) : (first >>= next).run w = (next a).run w' := by
  rw [StateT.run_bind, h]
  rfl

variable {c : Config} {file : String} {exprs : List Expr} {s s' : Session SortedTable}
  {w w' : RunState} {results : List (Except Fault Resolution)}

theorem map_snd_zip_resolveAll (resolved : s.resolveAll (Solver.bounded c.budget) exprs () =
    (results, s', ())) : (exprs.zip results).map Prod.snd = results := by
  have length := length_resolveAll (Solver.bounded c.budget) exprs s ()
  rw [resolved] at length
  exact List.map_snd_zip (Nat.le_of_eq length)

theorem run_readExprs {text : String} (found : w.directory.readText file = some text)
    (decoded : Json.decodeText (Json.asList (Expr.decode .text)) text = .ok exprs) :
    (readExprs inDirectory file).run w = (some exprs, w) := by
  have reading : (inDirectory.readText file).run w = (some text, w) := by
    rw [← found]
    rfl
  rw [readExprs, run_bind reading]
  dsimp only
  rw [decoded]
  rfl

theorem runResolve_failed (json : Bool) (read : (readExprs inDirectory file).run w = (some exprs, w))
    (opened : (openSession inDirectory c).run w = (.ok s, w'))
    (resolved : s.resolveAll (Solver.bounded c.budget) exprs () = (results, s', ()))
    (failed : allResolutions results = none) :
    ∃ output, (runResolve inDirectory c file json).run w = (1, ⟨w'.directory, output⟩) := by
  rw [runResolve, run_bind read]
  dsimp only
  rw [run_bind opened]
  dsimp only
  rw [resolved]
  cases json with
  | true =>
    refine ⟨w'.output, ?_⟩
    rw [if_pos rfl, failed]
    rfl
  | false =>
    obtain ⟨output, told⟩ := run_tellResolutions (exprs.zip results) w'
    rw [map_snd_zip_resolveAll resolved, failed] at told
    refine ⟨output, ?_⟩
    rw [if_neg (by decide), run_bind told]
    rfl

theorem runResolve_answered (json : Bool)
    (read : (readExprs inDirectory file).run w = (some exprs, w))
    (opened : (openSession inDirectory c).run w = (.ok s, w'))
    (resolved : s.resolveAll (Solver.bounded c.budget) exprs () = (results, s', ()))
    {rs : List Resolution} (answered : allResolutions results = some rs) {d : Directory}
    (closed : ∀ output, (closeSession inDirectory s').run ⟨w'.directory, output⟩ =
      (s'.persist.1, ⟨d, output⟩)) :
    ∃ output, (runResolve inDirectory c file json).run w = (0, ⟨d, output⟩) := by
  rw [runResolve, run_bind read]
  dsimp only
  rw [run_bind opened]
  dsimp only
  rw [resolved]
  cases json with
  | true =>
    rw [if_pos rfl, answered]
    dsimp only
    rw [run_bind (closed w'.output)]
    exact ⟨_, rfl⟩
  | false =>
    obtain ⟨output, told⟩ := run_tellResolutions (exprs.zip results) w'
    rw [map_snd_zip_resolveAll resolved, answered] at told
    rw [if_neg (by decide), run_bind told]
    dsimp only
    rw [run_bind (closed output)]
    exact ⟨_, rfl⟩

end Resolving

end Program

end Reprise
