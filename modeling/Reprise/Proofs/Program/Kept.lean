import Reprise.Proofs.Json.Decode
import Reprise.Proofs.Program.Resolve
import Reprise.Proofs.Session.Persisted

/-!
What a run keeps of its answers. The table is written when the session is closed, so a query that fails
costs the answers of all the others.
-/
set_option autoImplicit false

namespace Reprise

namespace Program

section Kept

variable {d d' : Directory} {args : List String} {c : Config} {dir : String} {exprs : List Expr}
  {s s' : Session SortedTable} {results : List (Except Fault Resolution)}

/-- A run that resolves the queries of a file one after the other, up to the session that it opens over
the table of its data directory. -/
structure Begins (d : Directory) (args : List String) (c : Config) (dir : String) (exprs : List Expr)
    (s : Session SortedTable) (d' : Directory) : Prop where
  requested : ∃ i file json, parse args = .run i ∧ i.command = .resolve file false json ∧
    (∃ loaded, (loadConfig inDirectory i).run ⟨d, ""⟩ = (.ok loaded, ⟨d, ""⟩) ∧
      effective i loaded = c) ∧ (readExprs inDirectory file).run ⟨d, ""⟩ = (some exprs, ⟨d, ""⟩)
  persistent : c.dataDir = some dir
  opened : (openSession inDirectory c).run ⟨d, ""⟩ = (.ok s, ⟨d', ""⟩)

theorem Begins.runIn_eq (h : Begins d args c dir exprs s d') : ∃ file json,
    (readExprs inDirectory file).run ⟨d, ""⟩ = (some exprs, ⟨d, ""⟩) ∧
      ∀ {status : Nat} {output : String} {after : Directory},
        (runResolve inDirectory c file json).run ⟨d, ""⟩ = (status, ⟨after, output⟩) →
          runIn d args = (status, output, after) := by
  obtain ⟨i, file, json, parsed, command, ⟨loaded, configured, same⟩, read⟩ := h.requested
  refine ⟨file, json, read, fun {status output after} resolved => ?_⟩
  have ran : (run inDirectory args).run ⟨d, ""⟩ = (status, ⟨after, output⟩) := by
    rw [run, parsed]
    dsimp only
    rw [runInvocation, run_bind configured]
    dsimp only
    rw [command, same]
    exact resolved
  rw [runIn, ran]

/-- Only a lookup that cannot reserve its room makes the end of a run another one. -/
theorem Begins.endIn_eq (h : Begins d args c dir exprs s d') :
    endIn d args = if s.overreaches exprs then (101, "", d') else runIn d args := by
  obtain ⟨i, file, json, parsed, command, ⟨loaded, configured, same⟩, read⟩ := h.requested
  have cut : (cutOff inDirectory args).run ⟨d, ""⟩ = (s.overreaches exprs, ⟨d', ""⟩) := by
    simp only [cutOff, parsed, command, run_bind configured, run_bind read, same, run_bind h.opened]
    rfl
  rw [endIn, cut]
  cases s.overreaches exprs <;> rfl

theorem Begins.endIn_eq_runIn (h : Begins d args c dir exprs s d')
    (room : c.candidates ≤ Cache.reservable) : endIn d args = runIn d args := by
  obtain ⟨-, -, table, place, rfl, -⟩ := openSession_eq_ok h.persistent h.opened
  have never : (Session.opened c (some table)).overreaches exprs = false :=
    Session.overreaches_eq_false room exprs
  rw [h.endIn_eq, never]
  rfl

theorem Begins.continued (h : Begins d args c dir exprs s d')
    (resolved : s.resolveAll (Solver.bounded c.budget) exprs () = (results, s', ())) :
    Session.Continued s false s' := by
  obtain ⟨-, -, table, place, rfl, -⟩ := openSession_eq_ok h.persistent h.opened
  have started : Session.Continues (Session.opened c (some table)) false (Session.opened c (some table)) :=
    .begin
  have ended := started.resolveAll (Solver.bounded c.budget) exprs ()
  rw [resolved] at ended
  exact ended.continued (Session.built_opened c (some table))

theorem Begins.answered (h : Begins d args c dir exprs s d')
    (resolved : s.resolveAll (Solver.bounded c.budget) exprs () = (results, s', ()))
    (all : allResolutions results ≠ none) : ∃ place table, s'.persist.2.table = some table ∧
      Directory.Opened (runIn d args).2.2 dir place table ∧ (runIn d args).1 = 0 := by
  obtain ⟨file, json, read, ran⟩ := h.runIn_eq
  have continued := h.continued resolved
  obtain ⟨-, -, t, place, rfl, there⟩ := openSession_eq_ok h.persistent h.opened
  have config : s'.config = c := continued.config
  obtain ⟨t', written, unchanged⟩ := Session.exists_persist continued.table
  obtain ⟨rs, answered⟩ := Option.ne_none_iff_exists'.mp all
  have closed (output : String) : (closeSession inDirectory s').run ⟨d', output⟩ =
      (s'.persist.1, ⟨d'.saveTable dir t', output⟩) :=
    run_closeSession (config.symm ▸ h.persistent) written unchanged _
  obtain ⟨output, finished⟩ := runResolve_answered json read h.opened resolved answered closed
  rw [ran finished]
  exact ⟨place, t', written, there.save t', rfl⟩

theorem Begins.failed (h : Begins d args c dir exprs s d')
    (resolved : s.resolveAll (Solver.bounded c.budget) exprs () = (results, s', ()))
    (some_failed : allResolutions results = none) : ∃ place table, s = Session.opened c (some table) ∧
      Directory.Opened (runIn d args).2.2 dir place table ∧ (runIn d args).1 = 1 := by
  obtain ⟨file, json, read, ran⟩ := h.runIn_eq
  obtain ⟨-, -, t, place, same, there⟩ := openSession_eq_ok h.persistent h.opened
  obtain ⟨output, finished⟩ := runResolve_failed json read h.opened resolved some_failed
  rw [ran finished]
  exact ⟨place, t, same, there, rfl⟩

def Next (c : Config) (d : Directory) (next : Session SortedTable) : Prop :=
  (openSession inDirectory c).run ⟨d, ""⟩ = (.ok next, ⟨d, ""⟩)

/-- If no query fails, whatever is in memory at the end of a run is there at the next start. One query
that fails, and none of the answers of the run is: what is there is what the run started with. -/
theorem run_keeps_unless_failed (h : Begins d args c dir exprs s d')
    (resolved : s.resolveAll (Solver.bounded c.budget) exprs () = (results, s', ())) :
    ∃ next, Next c (runIn d args).2.2 next ∧
      ((∃ f, .error f ∈ results) →
        (runIn d args).1 = 1 ∧ next.models = s.models ∧ next.cores = s.cores) ∧
      ((∀ f, .error f ∉ results) → (runIn d args).1 = 0 ∧ (s'.persist.1.dropped = 0 →
        s'.models.entries.length ≤ 1 <<< 64 → s'.cores.entries.length ≤ 1 <<< 64 →
          s'.models.entries.Sublist next.models.entries ∧
            s'.cores.entries.Sublist next.cores.entries)) := by
  have valid := (openSession_eq_ok h.persistent h.opened).1
  cases all : allResolutions results with
  | none =>
    obtain ⟨place, table, same, there, status⟩ := h.failed resolved all
    have some_failed := allResolutions_eq_none.mp all
    refine ⟨s, same ▸ openSession_of_opened valid h.persistent there "", fun _ => ⟨status, rfl, rfl⟩, ?_⟩
    exact fun none_failed => absurd some_failed (not_exists.mpr none_failed)
  | some rs =>
    obtain ⟨place, table, written, there, status⟩ := h.answered resolved (by simp [all])
    have none_failed : ¬ ∃ f, .error f ∈ results := fun some_failed => by
      rw [allResolutions_eq_none.mpr some_failed] at all
      cases all
    refine ⟨_, openSession_of_opened valid h.persistent there "", fun some_failed =>
      absurd some_failed none_failed, fun _ => ⟨status, fun kept small small' => ?_⟩⟩
    have continued := h.continued resolved
    obtain ⟨-, -, t, _, rfl, -⟩ := openSession_eq_ok h.persistent h.opened
    have config : s'.config = c := continued.config
    have plain : Cache.PlainName s'.config.storeName := config.symm ▸ Session.plainName_of_validate valid
    obtain ⟨t', written', models, cores⟩ :=
      Session.persist_keeps continued.table trivial plain small small' kept
    rw [written] at written'
    cases written'
    rw [config] at models cores
    exact ⟨models, cores⟩

section Samples

def width : Variable := ⟨"width", .int, 0, 10⟩

def widthIsFive : Expr := .binary .eq (.var width) (.int 5)

def queriesJson (exprs : List Expr) : Json := .array (exprs.map Expr.toJson)

def withQueries (exprs : List Expr) : Directory :=
  Directory.empty.put ["q.json"] (.file (queriesJson exprs).render.toUTF8.toList)

def resolveQueries : List String := ["--data-dir", "db", "resolve", "--file", "q.json"]

def inDb : Config := { dataDir := some "db" }

def fresh : Session SortedTable := Session.opened inDb (some .empty)

theorem models_fresh : fresh.models.entries = [] :=
  List.eq_nil_of_length_eq_zero (by decide +kernel)

def withTable (exprs : List Expr) : Directory :=
  ((withQueries exprs).put ["db"] .folder).put ["db", "grulia.redb"] (.table .empty)

theorem readText_withQueries (exprs : List Expr) :
    (withQueries exprs).readText "q.json" = some (queriesJson exprs).render := by
  have placed : (withQueries exprs).filePlace? "q.json" = some ["q.json"] := rfl
  have there : (withQueries exprs).node? ["q.json"] =
      some (.file (queriesJson exprs).render.toUTF8.toList) := Directory.node?_put_self _ _ _
  simp only [Directory.readText, placed, Option.bind_eq_bind, Option.bind_some, there]
  exact Wire.fromUTF8?_toUTF8 _

theorem begins_withQueries {exprs : List Expr} (whole : exprs.all Expr.isWhole = true)
    (deep : (queriesJson exprs).depth < 128) :
    Begins (withQueries exprs) resolveQueries inDb "db" exprs fresh (withTable exprs) where
  requested := by
    have exact_json : (queriesJson exprs).Exact :=
      Json.exactItems_map fun e mem => Expr.exact_toJson (List.all_eq_true.mp whole e mem)
    have decoded : (queriesJson exprs).asList (Expr.decode .text) = .ok exprs :=
      Json.decodeItems_map fun e mem => Expr.decode_toJson .text (List.all_eq_true.mp whole e mem)
    exact ⟨⟨some "db", none, .resolve "q.json" false false⟩, "q.json", false, by decide +kernel, rfl,
      ⟨{}, rfl, rfl⟩,
      run_readExprs (readText_withQueries exprs) (Json.decodeText_render exact_json deep decoded)⟩
  persistent := rfl
  opened := by
    have created : (withQueries exprs).openTable "db" = (.ok .empty, withTable exprs) := rfl
    rw [run_openSession rfl rfl, created]
    rfl

def answered : List Expr := [widthIsFive]

/-- The second query has no truth value, so it fails. -/
def failing : List Expr := [widthIsFive, .var width]

theorem begins_answered :
    Begins (withQueries answered) resolveQueries inDb "db" answered fresh (withTable answered) :=
  begins_withQueries (by decide) (by decide +kernel)

theorem begins_failing :
    Begins (withQueries failing) resolveQueries inDb "db" failing fresh (withTable failing) :=
  begins_withQueries (by decide) (by decide +kernel)

/-- The model of the first query is there at the next start, unless the second query fails. -/
theorem run_of_answered_and_failing :
    (∃ next, Next inDb (runIn (withQueries answered) resolveQueries).2.2 next ∧
      next.models.entries ≠ []) ∧
    ∃ next, Next inDb (runIn (withQueries failing) resolveQueries).2.2 next ∧
      (runIn (withQueries failing) resolveQueries).1 = 1 ∧ next.models.entries = [] := by
  constructor
  · let ended := fresh.resolveAll (Solver.bounded inDb.budget) answered ()
    have resolved : fresh.resolveAll (Solver.bounded inDb.budget) answered () =
        (ended.1, ended.2.1, ()) := rfl
    obtain ⟨next, start, -, kept⟩ := run_keeps_unless_failed begins_answered resolved
    have all : (allResolutions ended.1).isSome = true := by decide +kernel
    have none_failed : ∀ f, .error f ∉ ended.1 := fun f mem => by
      rw [allResolutions_eq_none.mpr ⟨f, mem⟩] at all
      cases all
    obtain ⟨models, -⟩ := (kept none_failed).2 (by decide +kernel) (by decide +kernel) (by decide +kernel)
    refine ⟨next, start, fun empty => ?_⟩
    rw [empty] at models
    have one : ended.2.1.models.entries.length = 1 := by decide +kernel
    rw [List.sublist_nil.mp models] at one
    cases one
  · let ended := fresh.resolveAll (Solver.bounded inDb.budget) failing ()
    have resolved : fresh.resolveAll (Solver.bounded inDb.budget) failing () =
        (ended.1, ended.2.1, ()) := rfl
    obtain ⟨next, start, lost, -⟩ := run_keeps_unless_failed begins_failing resolved
    have some_failed : (allResolutions ended.1).isNone = true := by decide +kernel
    obtain ⟨status, models, -⟩ := lost (allResolutions_eq_none.mp (Option.isNone_iff_eq_none.mp some_failed))
    exact ⟨next, start, status, by rw [models, models_fresh]⟩

/-- The model that the first query was answered with is gone at the next start. -/
theorem run_loses_answers :
    ¬ ∀ (d d' : Directory) (args : List String) (c : Config) (dir : String) (exprs : List Expr)
      (s s' : Session SortedTable) (results : List (Except Fault Resolution)),
      Begins d args c dir exprs s d' →
      s.resolveAll (Solver.bounded c.budget) exprs () = (results, s', ()) →
      s'.persist.1.dropped = 0 → s'.models.entries.length ≤ 1 <<< 64 →
      s'.cores.entries.length ≤ 1 <<< 64 →
        ∃ next, Next c (runIn d args).2.2 next ∧ s'.models.entries.Sublist next.models.entries ∧
          s'.cores.entries.Sublist next.cores.entries := by
  intro claim
  let ended := fresh.resolveAll (Solver.bounded inDb.budget) failing ()
  have resolved : fresh.resolveAll (Solver.bounded inDb.budget) failing () =
      (ended.1, ended.2.1, ()) := rfl
  have some_failed : (allResolutions ended.1).isNone = true := by decide +kernel
  obtain ⟨next, start, models, -⟩ := claim _ _ _ _ _ _ _ _ _ begins_failing resolved
    (by decide +kernel) (by decide +kernel) (by decide +kernel)
  obtain ⟨place, table, same, there, -⟩ :=
    begins_failing.failed resolved (Option.isNone_iff_eq_none.mp some_failed)
  have reopened := openSession_of_opened (c := inDb) rfl rfl there ""
  rw [← same] at reopened
  have unchanged : fresh = next := by
    have both := reopened.symm.trans start
    exact Except.ok.inj (Prod.mk.inj both).1
  have one : ended.2.1.models.entries.length = 1 := by decide +kernel
  rw [← unchanged, models_fresh] at models
  rw [List.sublist_nil.mp models] at one
  cases one

end Samples

end Kept

end Program

end Reprise
