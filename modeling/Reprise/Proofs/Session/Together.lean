import Mathlib.Logic.Function.Basic
import Reprise.Proofs.Cache.Apart
import Reprise.Proofs.Session.Distances
import Reprise.Proofs.Session.Reached

/-!
Sessions of different names over one table. Whatever they do in turn, each sees, answers and keeps
what it would alone, and finds in the table what it has written itself.
-/
set_option autoImplicit false

namespace Reprise

open LawfulTable (held)
open ReliableTable (Sound)

namespace Session

section Moved

variable {τ ω : Type}

def withTable (s : Session τ) (table : Option τ) : Session τ := { s with table := table }

def moved {ρ : Type} (table : Option τ) (run : ρ × Session τ × ω) : ρ × Session τ × ω :=
  (run.1, run.2.1.withTable table, run.2.2)

variable {ask : Oracle ω} {e : Expr} {delta : SatDelta} {w : ω} {table : Option τ}

theorem byOracle_withTable (s : Session τ) :
    byOracle ask e delta (s.withTable table) w = moved table (byOracle ask e delta s w) := by
  rw [byOracle, byOracle]
  simp only
  split <;> rfl

theorem byCore_withTable (s : Session τ) :
    byCore ask e delta (s.withTable table) w = moved table (byCore ask e delta s w) := by
  simp only [byCore, withTable]
  cases Lookup.findCore s.cores delta.value e s.config.candidates s.tally with
  | mk found tally =>
    cases found with
    | some c => rfl
    | none => exact byOracle_withTable (bump { s with tally := tally } .unsatCacheMisses)

theorem byModel_withTable (s : Session τ) :
    byModel ask e delta (s.withTable table) w = moved table (byModel ask e delta s w) := by
  simp only [byModel, withTable]
  cases Lookup.findModel s.models delta.value e e.vars.length s.config.candidates s.tally with
  | mk found tally =>
    cases found with
    | error f => rfl
    | ok found =>
      cases found with
      | some m => rfl
      | none => exact byCore_withTable (bump { s with tally := tally } .satCacheMisses)

theorem satDelta_withTable (s : Session τ) :
    (s.withTable table).satDelta e = ((s.satDelta e).1, (s.satDelta e).2.withTable table) := rfl

theorem answer_withTable (s : Session τ) :
    answer ask e (s.withTable table) w = moved table (answer ask e s w) := by
  rw [answer, answer, satDelta_withTable]
  cases s.satDelta e with
  | mk result s' =>
    cases result with
    | error f => rfl
    | ok delta =>
      simp only
      split
      · rfl
      · rfl
      · exact byModel_withTable s'

theorem resolve_withTable (s : Session τ) :
    resolve ask e (s.withTable table) w = moved table (resolve ask e s w) := by
  have answered : answer ask e ((s.bump .invocations).withTable table) w =
      moved table (answer ask e (s.bump .invocations) w) := answer_withTable _
  rw [resolve, resolve]
  simp only [withTable, bump] at answered ⊢
  rw [answered]
  simp only [moved]
  split <;> rfl

end Moved

section Acts

variable {τ ω : Type}

inductive Act where
  /-- A session is started, in place of the one before. -/
  | build
  | resolve (e : Expr)
  | measure (e : Expr)
  | clear
  | persist

inductive Seen where
  | refused (fault : SessionFault)
  | loaded (models : List (Entry Model)) (cores : List (Entry Core))
  | answered (result : Except Fault Resolution)
  | measured (result : Except ExprFault SatDelta)
  | cleared
  | flushed (report : FlushReport)
  /-- No session has been started. -/
  | idle

/-- The place of one session and its oracle. Between its acts the session is without the table, with
which others may go on. -/
structure Seat (τ ω : Type) where
  session : Option (Session τ)
  oracle : ω

/-- The session that has the place was started with this configuration. -/
def Seat.Fits (config : Config) (seat : Seat τ ω) : Prop :=
  ∀ s, seat.session = some s → s.config = config

theorem fits_some {s : Session τ} (table : Option τ) (w : ω) :
    Seat.Fits s.config ⟨some (s.withTable table), w⟩ := by
  rintro _ ⟨⟩
  rfl

def leave (table : τ) (s : Session τ) (w : ω) : τ × Seat τ ω :=
  (s.table.getD table, ⟨some (s.withTable none), w⟩)

/-- One act of a session over the table as it is now. -/
def act [Table τ] (config : Config) (ask : Oracle ω) (a : Act) (table : τ) (seat : Seat τ ω) :
    Seen × τ × Seat τ ω :=
  match a, seat.session with
  | .build, _ =>
    match start config (some table) with
    | .error f => (.refused f, table, seat)
    | .ok s => (.loaded s.models.entries s.cores.entries, leave table s seat.oracle)
  | _, none => (.idle, table, seat)
  | .resolve e, some s =>
    match resolve ask e (s.withTable (some table)) seat.oracle with
    | (result, s, w) => (.answered result, leave table s w)
  | .measure e, some s =>
    match (s.withTable (some table)).satDelta e with
    | (result, s) => (.measured result, leave table s seat.oracle)
  | .clear, some s => (.cleared, leave table (s.withTable (some table)).clear seat.oracle)
  | .persist, some s =>
    match (s.withTable (some table)).persist with
    | (report, s) => (.flushed report, leave table s seat.oracle)

/-- A session that has the table to itself. -/
def alone [Table τ] (config : Config) (ask : Oracle ω) :
    List Act → τ → Seat τ ω → List Seen × τ × Seat τ ω
  | [], table, seat => ([], table, seat)
  | a :: rest, table, seat =>
    let (seen, table, seat) := act config ask a table seat
    let (later, table, seat) := alone config ask rest table seat
    (seen :: later, table, seat)

variable {ι : Type} [DecidableEq ι]

/-- Sessions that take turns over one table. -/
def together [Table τ] (config : ι → Config) (ask : ι → Oracle ω) :
    List (ι × Act) → τ → (ι → Seat τ ω) → List (ι × Seen) × τ × (ι → Seat τ ω)
  | [], table, seats => ([], table, seats)
  | (i, a) :: rest, table, seats =>
    let (seen, table, seat) := act (config i) (ask i) a table (seats i)
    let (later, table, seats) := together config ask rest table (Function.update seats i seat)
    ((i, seen) :: later, table, seats)

def partOf {ρ : Type} (i : ι) (l : List (ι × ρ)) : List ρ :=
  l.filterMap fun p => if p.1 = i then some p.2 else none

theorem partOf_cons_self {ρ : Type} (i : ι) (a : ρ) (l : List (ι × ρ)) :
    partOf i ((i, a) :: l) = a :: partOf i l := by
  simp [partOf]

theorem partOf_cons_of_ne {ρ : Type} {i j : ι} (apart : j ≠ i) (a : ρ) (l : List (ι × ρ)) :
    partOf i ((j, a) :: l) = partOf i l := by
  simp [partOf, apart]

end Acts

section Courses

variable {τ ω : Type} [Table τ]

def written (s : Session τ) (table : τ) : FlushReport × τ :=
  let models := s.models.flush s.config.storeName table
  let cores := s.cores.flush s.config.storeName models.2
  (models.1.add cores.1, cores.2)

theorem persist_withTable (s : Session τ) (table : τ) :
    (s.withTable (some table)).persist =
      ((written s table).1, s.withTable (some (written s table).2)) := rfl

/-- What an act does with the table: nothing, or it loads from it, or it writes to it. -/
inductive Course (config : Config) (run : τ → Seen × τ × Seat τ ω) : Prop
  | silent (seen : Seen) (seat : Seat τ ω) : seat.Fits config →
    (∀ table, run table = (seen, table, seat)) → Course config run
  | loads (w : ω) : (∀ table, run table =
      (.loaded (opened config (some table)).models.entries (opened config (some table)).cores.entries,
        table, ⟨some ((opened config (some table)).withTable none), w⟩)) → Course config run
  | writes (s : Session τ) (w : ω) : s.config = config → (∀ table, run table =
      (.flushed (written s table).1, (written s table).2, ⟨some (s.withTable none), w⟩)) →
    Course config run

theorem course_build {config : Config} {seat : Seat τ ω} (fits : seat.Fits config) (ask : Oracle ω) :
    Course config fun table => act config ask .build table seat := by
  cases valid : config.validate with
  | error f => exact .silent (.refused f) seat fits fun table => by simp [act, start, valid]
  | ok _ => exact .loads seat.oracle fun table => by simp [act, start, valid, leave, opened, warmLoad]

theorem course_act {config : Config} {seat : Seat τ ω} (fits : seat.Fits config) (ask : Oracle ω)
    (a : Act) : Course config fun table => act config ask a table seat := by
  obtain ⟨session, w⟩ := seat
  cases session with
  | none =>
    cases a with
    | build => exact course_build fits ask
    | _ => exact .silent .idle ⟨none, w⟩ fits fun table => rfl
  | some s =>
    obtain rfl := fits s rfl
    cases a with
    | build => exact course_build fits ask
    | resolve e =>
      have left : Leaves ask e w (s.satDelta e).2 (resolve ask e s w).2.1 := resolve_leaves
      have kept : (resolve ask e s w).2.1.config = s.config := left.config
      refine .silent (.answered (resolve ask e s w).1)
        ⟨some ((resolve ask e s w).2.1.withTable none), (resolve ask e s w).2.2⟩
        (kept ▸ fits_some none _) fun table => ?_
      simp only [act, resolve_withTable]
      rfl
    | measure e =>
      exact .silent (.measured (s.satDelta e).1) ⟨some ((s.satDelta e).2.withTable none), w⟩
        (fits_some none w) fun table => rfl
    | clear => exact .silent .cleared ⟨some (s.clear.withTable none), w⟩ (fits_some none w) fun table => rfl
    | persist =>
      refine .writes s w rfl fun table => ?_
      simp only [act, persist_withTable]
      rfl

theorem fits_act {config : Config} {seat : Seat τ ω} (fits : seat.Fits config) (ask : Oracle ω)
    (a : Act) (t : τ) : (act config ask a t seat).2.2.Fits config := by
  cases course_act fits ask a with
  | silent seen seat fits done => exact (done t).symm ▸ fits
  | loads w done => exact (done t).symm ▸ fits_some none w
  | writes s w same done => exact (done t).symm ▸ same ▸ fits_some none w

theorem fits_update {ι : Type} [DecidableEq ι] {config : ι → Config} {seats : ι → Seat τ ω}
    (fits : ∀ j, (seats j).Fits (config j)) (ask : ι → Oracle ω) (a : Act) (i : ι) (t : τ) :
    ∀ j, (Function.update seats i (act (config i) (ask i) a t (seats i)).2.2 j).Fits (config j) := by
  intro j
  by_cases same : j = i
  · subst same
    rw [Function.update_self]
    exact fits_act (fits j) (ask j) a t
  · rw [Function.update_of_ne same]
    exact fits j

end Courses

section Steps

variable {τ ω : Type} [Table τ] [LawfulTable τ] [ReliableTable τ] {own : String → Prop}
  {t t' : FaultyTable τ} {config : Config} {seat : Seat (FaultyTable τ) ω}

structure Alike {ρ : Type} (own : String → Prop)
    (run run' : ρ × FaultyTable τ × Seat (FaultyTable τ) ω) : Prop where
  seen : run.1 = run'.1
  seat : run.2.2 = run'.2.2
  tables : AgreeOn own run.2.1 run'.2.1

theorem opened_withTable (h : AgreeOn (UnderName config.storeName) t t') :
    opened config (some t') = (opened config (some t)).withTable (some t') := by
  have models := h.load_eq (fun _ => Cache.underName_of_begins) (Cache.empty : Cache Model)
  have cores := h.load_eq (fun _ => Cache.underName_of_begins) (Cache.empty : Cache Core)
  simp only [opened, warmLoad, withTable, models, cores]

theorem written_alike {s : Session (FaultyTable τ)}
    (h : AgreeOn (UnderName s.config.storeName) t t') : (written s t).1 = (written s t').1 ∧
      AgreeOn (UnderName s.config.storeName) (written s t).2 (written s t').2 := by
  obtain ⟨models, between⟩ := h.flushFrom (Cache.underName_entryKey _) 0 s.models.entries
  obtain ⟨cores, after⟩ := between.flushFrom (Cache.underName_entryKey _) 0 s.cores.entries
  have reports : (written s t).1 = (written s t').1 := congrArg₂ FlushReport.add models cores
  exact ⟨reports, after⟩

theorem act_alike (ask : Oracle ω) (a : Act) (h : AgreeOn (UnderName config.storeName) t t')
    (fits : seat.Fits config) :
    Alike (UnderName config.storeName) (act config ask a t seat) (act config ask a t' seat) := by
  cases course_act fits ask a with
  | silent seen seat fits done =>
    rw [done, done]
    exact ⟨rfl, rfl, h⟩
  | loads w done =>
    rw [done, done, opened_withTable h]
    exact ⟨rfl, rfl, h⟩
  | writes s w same done =>
    subst same
    obtain ⟨reports, after⟩ := written_alike h
    rw [done, done]
    exact ⟨congrArg Seen.flushed reports, rfl, after⟩

theorem act_foreign (ask : Oracle ω) (a : Act) (h : AgreeOn own t t') (fits : seat.Fits config)
    (beyond : ∀ key, UnderName config.storeName key → ¬ own key) :
    AgreeOn own (act config ask a t seat).2.1 t' := by
  cases course_act fits ask a with
  | silent seen seat fits done =>
    rw [done]
    exact h
  | loads w done =>
    rw [done]
    exact h
  | writes s w same done =>
    subst same
    have models := h.flushFrom_foreign
      (fun n => beyond _ (Cache.underName_entryKey (α := Model) _ n)) 0 s.models.entries
    rw [done]
    exact models.flushFrom_foreign (fun n => beyond _ (Cache.underName_entryKey _ n)) 0
      s.cores.entries

end Steps

section Runs

variable {ι τ ω : Type} [DecidableEq ι] [Table τ] [LawfulTable τ] [ReliableTable τ]
  {config : ι → Config} {ask : ι → Oracle ω}

/-- A run of one among others and a run of its own acts, over tables that agree under its name. -/
theorem together_alike {i : ι}
    (beyond : ∀ j, j ≠ i → ∀ key, UnderName (config j).storeName key →
      ¬ UnderName (config i).storeName key)
    (history : List (ι × Act)) {t t' : FaultyTable τ} {seats : ι → Seat (FaultyTable τ) ω}
    (h : AgreeOn (UnderName (config i).storeName) t t') (fits : ∀ j, (seats j).Fits (config j)) :
    let run := together config ask history t seats
    Alike (UnderName (config i).storeName) (partOf i run.1, run.2.1, run.2.2 i)
      (alone (config i) (ask i) (partOf i history) t' (seats i)) := by
  induction history generalizing t t' seats with
  | nil => exact ⟨rfl, rfl, h⟩
  | cons step rest ih =>
    obtain ⟨j, a⟩ := step
    have fits_later := fits_update fits ask a j t
    -- an own act goes on in both runs, the act of another only in the shared one
    by_cases same : j = i
    · subst same
      have now := act_alike (ask j) a h (fits j)
      have later := ih now.tables fits_later
      rw [Function.update_self] at later
      rw [partOf_cons_self, together, alone]
      simp only [partOf_cons_self, ← now.seat]
      exact ⟨congrArg₂ List.cons now.seen later.seen, later.seat, later.tables⟩
    · have unnoticed := act_foreign (ask j) a h (fits j) (beyond j same)
      have later := ih unnoticed fits_later
      rw [Function.update_of_ne (Ne.symm same)] at later
      rw [partOf_cons_of_ne same, together]
      simp only [partOf_cons_of_ne same]
      exact later

/-- Sessions of different names over one table keep apart, whatever they do in turn: what each loads,
answers and reports, what it is left with and what the table holds under its name are as if it had the
table to itself. In one session the caches of models and of cores take no notice of each other. -/
theorem together_apart (valid : ∀ i, (config i).validate = .ok ())
    (distinct : ∀ i j, i ≠ j → (config i).storeName ≠ (config j).storeName) {t : FaultyTable τ}
    (sound : Sound t.table) (w : ι → ω) (history : List (ι × Act)) (i : ι) :
    let run := together config ask history t fun j => ⟨none, w j⟩
    let own := alone (config i) (ask i) (partOf i history) t ⟨none, w i⟩
    (partOf i run.1 = own.1 ∧ run.2.2 i = own.2.2 ∧
      ∀ key, UnderName (config i).storeName key → held run.2.1 key = held own.2.1 key) ∧
    Cache.Disregards Core Model τ (config i).storeName ∧
    Cache.Disregards Model Core τ (config i).storeName := by
  intro run own
  have plain := fun j => plainName_of_validate (valid j)
  have beyond : ∀ j, j ≠ i → ∀ key, UnderName (config j).storeName key →
      ¬ UnderName (config i).storeName key := fun j other key under under' =>
    distinct j i other (Cache.name_eq_of_underName (plain j) (plain i) under under')
  have fresh : ∀ j, Seat.Fits (config j) (⟨none, w j⟩ : Seat (FaultyTable τ) ω) := fun j => nofun
  have alike : Alike (UnderName (config i).storeName) (partOf i run.1, run.2.1, run.2.2 i) own :=
    together_alike beyond history (.refl sound) fresh
  exact ⟨⟨alike.seen, alike.seat, alike.tables.held⟩,
    Cache.disregards_of_kinds (plain i) (by decide), Cache.disregards_of_kinds (plain i) (by decide)⟩

/-- Two sessions, the name of one beginning with that of the other, write one model each under the same
number. -/
theorem apart_under_extended_name :
    let config : Bool → Config := fun i => { storeName := if i then "ab" else "a" }
    let ask : Bool → Oracle Unit := fun _ => Solver.bounded 1000
    let t : FaultyTable MemoryTable := ⟨.empty, .none⟩
    let history : List (Bool × Act) := [(false, .build), (true, .build),
      (false, .resolve (countBelow (.int 5))), (true, .resolve (countBelow (.int 7))), (true, .persist),
      (false, .persist), (false, .clear), (true, .build), (false, .build), (true, .persist)]
    let run := together config ask history t fun _ => ⟨none, ()⟩
    let own := alone (config false) (ask false) (partOf false history) t ⟨none, ()⟩
    (∀ i, (config i).validate = .ok ()) ∧
    (∀ i j, i ≠ j → (config i).storeName ≠ (config j).storeName) ∧ Sound t.table ∧
    (held run.2.1 (Cache.entryKey Model "a" 0)).isSome ∧
    (held run.2.1 (Cache.entryKey Model "ab" 0)).isSome ∧
    held own.2.1 (Cache.entryKey Model "ab" 0) = none ∧
    partOf false run.1 = own.1 ∧ run.2.2 false = own.2.2 ∧
    ∀ key, UnderName "a" key → held run.2.1 key = held own.2.1 key := by
  intro config ask t history run own
  have valid : ∀ i, (config i).validate = .ok () := by decide
  have distinct : ∀ i j, i ≠ j → (config i).storeName ≠ (config j).storeName := by decide
  have sound : Sound t.table := List.Pairwise.nil
  obtain ⟨⟨seen, seat, table⟩, -, -⟩ :=
    together_apart valid distinct sound (fun _ => ()) history false
  exact ⟨valid, distinct, sound, by decide +kernel, by decide +kernel, by decide +kernel, seen, seat, table⟩

end Runs

end Session

end Reprise
