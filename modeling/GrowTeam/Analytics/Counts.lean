/-
# Filling the analytics tables (`analytics/lib/counts.py`)

`process_count_stat` is a program of database statements, each a transaction of its own: the state
row announces an hour, a pull function and the aggregations insert its rows, the state row says that
it is done.  What the statements are depends on the state row and on those of the dependencies at
the start; runs exclude each other (`abort_unless_locked`).

What the pull functions read besides the count tables is the source data `δ`.  The foreign key of
`realm_id` makes the join with the realms keep every row.
-/
import GrowTeam.Crashes
import GrowTeam.History
import Mathlib.Data.Int.Notation
import Mathlib.Data.List.Dedup

namespace GrowTeam.Analytics

open Crashes

/-! Times are `datetime`s in UTC, in microseconds. -/

def hours : ℤ := 3600000000

def days : ℤ := 24 * hours

def floorToHour (dt : ℤ) : ℤ := dt - dt % hours

def floorToDay (dt : ℤ) : ℤ := dt - dt % days

def ceilingToHour (dt : ℤ) : ℤ :=
  if floorToHour dt = dt then dt else floorToHour dt + hours

def ceilingToDay (dt : ℤ) : ℤ := if floorToDay dt = dt then dt else floorToDay dt + days

/-! ## The tables -/

inductive Table where
  | userCount
  | streamCount
  | realmCount
  | installationCount
  | remoteRealmCount
  | remoteInstallationCount
  deriving DecidableEq

/-- What is counted: for a user, a channel or a server, in a realm. -/
structure Entry where
  bucket_id : Option ℕ
  realm_id : Option ℕ
  subgroup : Option String
  value : ℤ
  deriving DecidableEq

structure Row where
  property : String
  end_time : ℤ
  entry : Entry
  deriving DecidableEq

inductive FillState.State where
  | started
  | done

structure FillState where
  end_time : ℤ
  state : FillState.State

/-- The database. -/
structure Db (δ : Type) where
  data : δ
  counts : Table → List Row
  fill_state : String → Option FillState

/-! ## The statistics -/

variable {δ : Type}

inductive Frequency where
  | hour
  | day

/-- The classes of statistics, with their pull functions; that of a dependent statistic also reads
the rows of its dependencies at the end of the interval. -/
inductive Kind (δ : Type) where
  | sql (pull_function : δ → ℤ → ℤ → List Entry)
  | logging
  | dependent (pull_function : δ → ℤ → ℤ → (Table → List Row) → List Entry)
    (dependencies : List String)

/-- The tables that a statistic can have its own rows in: nothing logs into `InstallationCount`
(`do_increment_logging_stat`), and no query writes the remote tables. -/
def Kind.stores : Kind δ → Table → Bool
  | .logging, table => table ≠ .installationCount
  | _, table => table ≠ .remoteRealmCount && table ≠ .remoteInstallationCount

structure CountStat (δ : Type) where
  property : String
  kind : Kind δ
  frequency : Frequency
  interval : ℤ
  output_table : Table
  stored : kind.stores output_table = true

variable (stat : CountStat δ)

def CountStat.timeIncrement : ℤ :=
  match stat.frequency with
  | .hour => hours
  | .day => days

def CountStat.dependencies : List String :=
  match stat.kind with
  | .dependent _ dependencies => dependencies
  | _ => []

/-- `isinstance(stat, LoggingCountStat)`. -/
def CountStat.isLogging : Bool :=
  match stat.kind with
  | .logging => true
  | _ => false

/-- `data_collector.depends_on_realm()`. -/
def CountStat.dependsOnRealm : Bool :=
  stat.output_table = .userCount || stat.output_table = .streamCount

variable (db : Db δ)

def CountStat.lastSuccessfulFill : Option ℤ :=
  match db.fill_state stat.property with
  | none => none
  | some ⟨end_time, .done⟩ => some end_time
  | some ⟨end_time, .started⟩ => some (end_time - stat.timeIncrement)

/-! ## The statements -/

variable (table : Table) (property : String) (end_time : ℤ)

/-- The rows of a property at a time. -/
def Db.slice : List Row :=
  (db.counts table).filter fun r => r.property = property && r.end_time = end_time

def Db.setFillState (fill_state : FillState) : Db δ :=
  { db with fill_state := fun p => if p = property then some fill_state else db.fill_state p }

variable (entries : List Entry)

/-- `INSERT INTO table`. -/
def Db.insert : Db δ :=
  { db with
    counts := fun t =>
      if t = table then db.counts t ++ entries.map fun entry => ⟨property, end_time, entry⟩
      else db.counts t }

/-- `filter(property=..., end_time=...).delete()`. -/
def Db.delete : Db δ :=
  { db with
    counts := fun t =>
      if t = table then
        (db.counts t).filter fun r => !(r.property = property && r.end_time = end_time)
      else db.counts t }

/-- The rows of the dependencies at a time. -/
def Db.dependencyRows (dependencies : List String) (end_time : ℤ) (table : Table) : List Row :=
  (db.counts table).filter fun r => dependencies.contains r.property && r.end_time = end_time

/-- What `pull_function(property, start_time, end_time)` inserts. -/
def CountStat.pulled (start_time end_time : ℤ) : List Entry :=
  match stat.kind with
  | .sql pull_function => pull_function db.data start_time end_time
  | .logging => []
  | .dependent pull_function dependencies =>
    pull_function db.data start_time end_time (db.dependencyRows dependencies end_time)

/-- `sum(value)`. -/
def total : ℤ := entries.foldl (fun n e => n + e.value) 0

/-- `GROUP BY zerver_realm.id, subgroup`. -/
def byRealm : List Entry :=
  let entries := entries.filter fun e => e.realm_id.isSome
  (entries.map fun e => (e.realm_id, e.subgroup)).dedup.map fun k =>
    ⟨none, k.1, k.2, total (entries.filter fun e => (e.realm_id, e.subgroup) = k)⟩

/-- `GROUP BY subgroup`. -/
def bySubgroup : List Entry :=
  (entries.map (·.subgroup)).dedup.map fun subgroup =>
    ⟨none, none, subgroup, total (entries.filter fun e => e.subgroup = subgroup)⟩

inductive Statement (δ : Type) where
  | createFillState (property : String) (end_time : ℤ)
  | updateFillState (property : String) (end_time : ℤ) (state : FillState.State)
  | delete (table : Table) (property : String) (end_time : ℤ)
  | pull (stat : CountStat δ) (start_time end_time : ℤ)
  | aggregateRealm (stat : CountStat δ) (end_time : ℤ)
  | aggregateInstallation (stat : CountStat δ) (end_time : ℤ)

def exec : Statement δ → Db δ → Db δ
  | .createFillState property end_time, db => db.setFillState property ⟨end_time, .done⟩
  | .updateFillState property end_time state, db => db.setFillState property ⟨end_time, state⟩
  | .delete table property end_time, db => db.delete table property end_time
  | .pull stat start_time end_time, db =>
    db.insert stat.output_table stat.property end_time (stat.pulled db start_time end_time)
  | .aggregateRealm stat end_time, db =>
    db.insert .realmCount stat.property end_time
      (byRealm ((db.slice stat.output_table stat.property end_time).map (·.entry)))
  | .aggregateInstallation stat end_time, db =>
    db.insert .installationCount stat.property end_time
      (bySubgroup ((db.slice .realmCount stat.property end_time).map (·.entry)))

/-! ## A run -/

/-- The tables that `do_delete_counts_at_hour` deletes from. -/
def CountStat.deletedTables : List Table :=
  if stat.isLogging then
    .installationCount :: if stat.dependsOnRealm then [.realmCount] else []
  else [.userCount, .streamCount, .realmCount, .installationCount]

def doDeleteCountsAtHour : List (Statement δ) :=
  stat.deletedTables.map fun table => .delete table stat.property end_time

def doAggregateToSummaryTable : List (Statement δ) :=
  (if stat.dependsOnRealm then [.aggregateRealm stat end_time] else []) ++
    [.aggregateInstallation stat end_time]

def doFillCountStatAtHour : List (Statement δ) :=
  (if stat.isLogging then [] else [.pull stat (end_time - stat.interval) end_time]) ++
    doAggregateToSummaryTable stat end_time

/-- One round of the loop of `process_count_stat`. -/
def fillHour (currently_filled : ℤ) : List (Statement δ) :=
  .updateFillState stat.property currently_filled .started ::
    (doFillCountStatAtHour stat currently_filled ++
      [.updateFillState stat.property currently_filled .done])

/-- `while currently_filled <= fill_to_time`. -/
def fillLoop (stat : CountStat δ) (fill_to_time : ℤ) : ℕ → ℤ → List (Statement δ)
  | 0, _ => []
  | fuel + 1, currently_filled =>
    if currently_filled ≤ fill_to_time then
      fillHour stat currently_filled ++
        fillLoop stat fill_to_time fuel (currently_filled + stat.timeIncrement)
    else []

/-- `ALL_COUNT_STATS`: one statistic for each property, and each dependency is another one. -/
structure Registry (δ : Type) where
  stats : List (CountStat δ)
  unique : (stats.map (·.property)).Nodup
  declared : ∀ stat ∈ stats, ∀ dependency ∈ stat.dependencies,
    dependency ≠ stat.property ∧ ∃ other ∈ stats, other.property = dependency

def Registry.find? (reg : Registry δ) (property : String) : Option (CountStat δ) :=
  reg.stats.find? fun stat => stat.property = property

structure Site (δ : Type) where
  reg : Registry δ
  earliest_realm_creation : ℤ

variable (site : Site δ)

def Site.installationEpoch : ℤ := floorToDay site.earliest_realm_creation

/-- The undoing of what was started, and how far the statistic is filled then. -/
def resume (stat : CountStat δ) (db : Db δ) : List (Statement δ) × ℤ :=
  match db.fill_state stat.property with
  | none => ([.createFillState stat.property site.installationEpoch], site.installationEpoch)
  | some ⟨end_time, .started⟩ =>
    (doDeleteCountsAtHour stat end_time ++
      [.updateFillState stat.property (end_time - stat.timeIncrement) .done],
      end_time - stat.timeIncrement)
  | some ⟨end_time, .done⟩ => ([], end_time)

/-- `fill_to_time = min(fill_to_time, dependency_fill_time)` for the dependencies, unless one was
never run. -/
def limit (reg : Registry δ) (db : Db δ) : List String → ℤ → Option ℤ
  | [], fill_to_time => some fill_to_time
  | dependency :: dependencies, fill_to_time =>
    match (reg.find? dependency).bind fun stat => stat.lastSuccessfulFill db with
    | none => none
    | some dependency_fill_time =>
      limit reg db dependencies (min fill_to_time dependency_fill_time)

/-- The statements of `process_count_stat(stat, fill_to_time)`, unless it raises a `ValueError`. -/
def processCountStat (stat : CountStat δ) (fill_to_time : ℤ) (db : Db δ) :
    Option (List (Statement δ)) :=
  if floorToHour fill_to_time ≠ fill_to_time then none
  else
    let (undo, currently_filled) := resume site stat db
    match limit site.reg (execute exec undo db) stat.dependencies fill_to_time with
    | none => some undo
    | some fill_to_time =>
      some (undo ++ fillLoop stat fill_to_time (fill_to_time - currently_filled).toNat
        (currently_filled + stat.timeIncrement))

/-! ## The events -/

/-- The row that `ON CONFLICT` finds. -/
def sameBucket (e e' : Entry) : Bool :=
  e.subgroup = e'.subgroup &&
    match table with
    | .realmCount => e.realm_id = e'.realm_id
    | _ => e.bucket_id = e'.bucket_id

def CountStat.ceiling (event_time : ℤ) : ℤ :=
  match stat.frequency with
  | .day => ceilingToDay event_time
  | .hour => ceilingToHour event_time

/-- `do_increment_logging_stat`, with the increment as the value of the entry. -/
def doIncrementLoggingStat (entry : Entry) (event_time : ℤ) (db : Db δ) : Db δ :=
  let end_time := stat.ceiling event_time
  let conflicts (r : Row) : Bool :=
    r.property = stat.property && r.end_time = end_time &&
      sameBucket stat.output_table r.entry entry
  if entry.value = 0 then db
  else if (db.counts stat.output_table).any conflicts then
    { db with
      counts := fun t =>
        if t = stat.output_table then
          (db.counts t).map fun r =>
            if conflicts r then
              { r with entry := { r.entry with value := r.entry.value + entry.value } }
            else r
        else db.counts t }
  else db.insert stat.output_table stat.property end_time [entry]

inductive Input (δ : Type) where
  /-- `process_count_stat`, which may crash after some of its statements. -/
  | process (property : String) (fill_to_time : ℤ) (crash : Option ℕ)
  | increment (property : String) (entry : Entry) (event_time : ℤ)
  /-- The source data changes. -/
  | record (data : δ)

inductive Answer where
  | completed
  | crashed
  | raised
  | recorded
  deriving DecidableEq

def step : Input δ → Db δ → Answer × Db δ
  | .process property fill_to_time crash, db =>
    match (site.reg.find? property).bind fun stat =>
        processCountStat site stat fill_to_time db with
    | none => (.raised, db)
    | some program =>
      match crash with
      | none => (.completed, execute exec program db)
      | some k => (.crashed, execute exec (program.take k) db)
  | .increment property entry event_time, db =>
    match site.reg.find? property with
    | none => (.raised, db)
    | some stat =>
      if stat.isLogging then (.recorded, doIncrementLoggingStat stat entry event_time db)
      else (.raised, db)
  | .record data, db => (.recorded, { db with data })

/-- The database before any statistic was processed. -/
def start (data : δ) : Db δ := ⟨data, fun _ => [], fun _ => none⟩

end GrowTeam.Analytics
