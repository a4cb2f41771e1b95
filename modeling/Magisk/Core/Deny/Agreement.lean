import Magisk.Core.Deny.Memory

/-!
# Agreement of the denylist with its database table

A request changes the tables in memory under the lock and executes its
statement after it has released the lock, so that statements may be executed in
another order than the changes were made, and may fail.  If every statement
succeeds and none overtakes an earlier one that it conflicts with, the database
table agrees with the memory whenever no request is in flight.
-/

namespace Magisk.Core.Deny

open List Interleaving Deferred

variable {rows : List Row} {deletes : String → Bool} {head tail : String}

/-! ## The database -/

/-- The rows as a table. -/
def tableOf (rows : List Row) : Set Row :=
  { row | row ∈ rows }

/-- What executing a text does to the rows of the denylist table; `none` is an
error. -/
structure Sqlite where
  exec : String → List Row → Option (List Row)

def Statement.names : Statement → List String
  | .insert pkg proc => [pkg, proc]
  | .deletePackage pkg => [pkg]
  | .deleteProc pkg proc => [pkg, proc]

/-- The text of the statement fits its buffer, and no name ends a quotation. -/
structure Statement.Plain (statement : Statement) : Prop where
  fits : statement.text.utf8ByteSize < 4096
  unquoted : ∀ name ∈ statement.names, '\'' ∉ name.toList

/-- Statements that are plain and possible are executed as they say. -/
def Sqlite.Lawful (sqlite : Sqlite) : Prop :=
  ∀ {statement : Statement} {rows : List Row}, statement.Plain →
    statement.Possible (tableOf rows) →
      ∃ next, sqlite.exec statement.sql rows = some next ∧
        tableOf next = statement.apply (tableOf rows)

/-- Execute a statement, or fail to. -/
def Sqlite.run (sqlite : Sqlite) (succeeds : Bool) (rows : List Row) (statement : Statement) :
    List Row :=
  if succeeds then (sqlite.exec statement.sql rows).getD rows else rows

variable {sqlite : Sqlite}

theorem Sqlite.Lawful.tableOf_run (lawful : sqlite.Lawful) {statement : Statement}
    (plain : statement.Plain) (possible : statement.Possible (tableOf rows)) :
    tableOf (sqlite.run true rows statement) = statement.apply (tableOf rows) := by
  rcases lawful plain possible with ⟨next, executed, applied⟩
  rw [Sqlite.run, executed]
  exact applied

/-! ## Requests in two phases -/

/-- The requests that change the denylist. -/
inductive Edit where
  | add (pkg proc : String)
  | remove (pkg proc : String)
  deriving DecidableEq

def Edit.request (load : Load) (dir : DataDir) : Edit → Request
  | .add pkg proc => .addList pkg proc load dir
  | .remove pkg proc => .rmList pkg proc load dir

/-- The statement that a request may leave to be executed. -/
def Edit.statement : Edit → Statement
  | .add pkg proc => .insert pkg (procOr pkg proc)
  | .remove pkg proc => rmStatement pkg proc

/-- The memory, the database table and the statements of the requests in
flight, in the order of their critical sections. -/
structure Store where
  tables : DenyData := {}
  rows : List Row
  pending : List Statement := []

/-- A request runs its critical section, with what it finds on the way; or the
statement of some request is executed. -/
inductive Move where
  | enter (edit : Edit) (selects : Bool) (deletes : String → Bool) (loadDir dir : DataDir)
  | exec (position : Nat) (succeeds : Bool)

/-- The statements among the outcomes of a critical section. -/
def Outcome.statements : Outcome → List Statement
  | .exec statement => [statement]
  | _ => []

/-- Run a critical section. -/
def Store.enter (store : Store) (sqlite : Sqlite) (edit : Edit) (selects : Bool)
    (deletes : String → Bool) (loadDir dir : DataDir) : Store :=
  let load : Load := { rows := store.rows, succeeds := selects, dir := loadDir }
  let result := (program (edit.request load dir)).run store.tables
  { tables := result.2
    rows := result.1.1.foldl
      (fun rows pkg => sqlite.run (deletes pkg) rows (.deletePackage pkg)) store.rows
    pending := store.pending ++ result.1.2.statements }

/-- Any number of requests in flight. -/
def edits (sqlite : Sqlite) (rows : List Row) : System Store Move where
  initial := { rows }
  step store
    | .enter edit selects deletes loadDir dir =>
      some (store.enter sqlite edit selects deletes loadDir dir)
    | .exec position succeeds =>
      match store.pending[position]? with
      | none => none
      | some statement =>
        some { store with
          rows := sqlite.run succeeds store.rows statement
          pending := store.pending.eraseIdx position }

/-- The pairs in memory are the rows of the table, once the memory is loaded. -/
def Store.Agrees (store : Store) : Prop :=
  store.tables.pkgToProcs.isSome = true → store.tables.Held = tableOf store.rows

/-- Statements succeed and are plain, and none overtakes one that it conflicts
with. -/
def InSequence (store : Store) : Move → Prop
  | .enter edit _ deletes _ _ =>
    edit.statement.Plain ∧
      (store.tables.pkgToProcs.isSome = false → ∀ row ∈ store.rows,
        deletes row.1 = true ∧ (Statement.deletePackage row.1).Plain)
  | .exec position succeeds =>
    succeeds = true ∧ ∀ first ∈ store.pending.take position,
      ∀ statement, store.pending[position]? = some statement →
        first.conflicts statement = false

/-! ## One move -/

/-- What the pending statements will make of the table is what the memory
holds. -/
structure Store.Consistent (store : Store) : Prop where
  distinct : store.tables.Distinct
  unloaded : store.tables.pkgToProcs.isSome = false → store.pending = []
  plain : ∀ statement ∈ store.pending, statement.Plain
  feasible : operations.Feasible (tableOf store.rows) store.pending
  replay : store.tables.pkgToProcs.isSome = true →
    operations.replay (tableOf store.rows) store.pending = store.tables.Held

/-- A critical section, or a request that is turned away before it. -/
theorem edit_cases (edit : Edit) (load : Load) (dir : DataDir) {data : DenyData}
    (distinct : data.Distinct) :
    ((program (edit.request load dir)).run data = (([], .respond .INVALID_PKG), data)) ∨
      (((program (edit.request load dir)).run data).1.1 = ((ensureData load).run data).1.2 ∧
        Section (data.loaded load) ((program (edit.request load dir)).run data).2
          ((program (edit.request load dir)).run data).1.2 ∧
        ∀ statement, ((program (edit.request load dir)).run data).1.2 = .exec statement →
          statement = edit.statement ∧ ((ensureData load).run data).1.1 = true) := by
  cases edit with
  | add pkg proc =>
    rw [Edit.request, program, addList]
    split
    · exact .inr (section_addItem distinct)
    · exact .inl rfl
  | remove pkg proc => exact .inr (section_rmList distinct)

/-- The statements that a scan executes. -/
theorem tableOf_foldl_run (lawful : sqlite.Lawful) {removed : List String}
    (succeed : ∀ pkg ∈ removed, deletes pkg = true ∧ (Statement.deletePackage pkg).Plain)
    (rows : List Row) :
    tableOf (removed.foldl
        (fun rows pkg => sqlite.run (deletes pkg) rows (.deletePackage pkg)) rows) =
      { row | row ∈ rows ∧ row.1 ∉ removed } := by
  induction removed generalizing rows with
  | nil =>
    simp [tableOf]
  | cons pkg removed ih =>
    rcases succeed pkg mem_cons_self with ⟨deleted, plain⟩
    rw [foldl_cons, ih (fun other mem => succeed other (mem_cons_of_mem pkg mem))]
    have executed : tableOf (sqlite.run true rows (.deletePackage pkg)) =
        (Statement.deletePackage pkg).apply (tableOf rows) :=
      lawful.tableOf_run plain trivial
    rw [← deleted] at executed
    ext row
    have member : row ∈ sqlite.run (deletes pkg) rows (.deletePackage pkg) ↔
        row ∈ rows ∧ row.1 ≠ pkg := by
      change row ∈ tableOf _ ↔ _
      rw [executed]
      exact Iff.rfl
    simp only [Set.mem_ofPred_eq, member, mem_cons, not_or, and_assoc]

theorem Outcome.exec_or_not (outcome : Outcome) : (∃ statement, outcome = .exec statement) ∨
      (∀ statement, outcome ≠ .exec statement) ∧ outcome.statements = [] := by
  cases outcome with
  | exec statement => exact .inl ⟨statement, rfl⟩
  | respond response => exact .inr ⟨nofun, rfl⟩
  | target found => exact .inr ⟨nofun, rfl⟩

/-- A critical section on loaded tables appends its statement. -/
theorem Store.Consistent.append {before after : DenyData} {outcome : Outcome}
    {pending : List Statement} (distinct : after.Distinct) (there : before.pkgToProcs.isSome = true)
    (isSection : Section before after outcome)
    (plain : ∀ statement ∈ pending ++ outcome.statements, statement.Plain)
    (feasible : operations.Feasible (tableOf rows) pending)
    (replay : operations.replay (tableOf rows) pending = before.Held) :
    Store.Consistent { tables := after, rows, pending := pending ++ outcome.statements } := by
  have thereAfter := isSection.there.trans there
  have stillThere : after.pkgToProcs.isSome = false → pending ++ outcome.statements = [] :=
    fun gone => absurd (gone.symm.trans thereAfter) (by decide)
  rcases outcome.exec_or_not with ⟨statement, rfl⟩ | ⟨responds, nothing⟩
  · rcases isSection.executes statement rfl with ⟨possible, applied⟩
    refine ⟨distinct, stillThere, plain, ?_, ?_⟩
    · apply feasible.concat
      rw [replay]
      exact possible
    · intro _
      change operations.replay _ (pending ++ [statement]) = _
      rw [Operations.replay_concat, replay, applied]
      rfl
  · rw [nothing, append_nil] at plain stillThere ⊢
    refine ⟨distinct, stillThere, plain, feasible, ?_⟩
    exact fun _ => replay.trans (isSection.unchanged responds).symm

variable {store : Store}

/-- A critical section keeps the store consistent. -/
theorem Store.Consistent.enter (lawful : sqlite.Lawful) (consistent : store.Consistent)
    {edit : Edit} {selects : Bool} {loadDir dir : DataDir}
    (inSequence : InSequence store (.enter edit selects deletes loadDir dir)) :
    (store.enter sqlite edit selects deletes loadDir dir).Consistent := by
  have distinct := consistent.distinct
  rw [Store.enter]
  let load : Load := { rows := store.rows, succeeds := selects, dir := loadDir }
  have distinctAfter : ((program (edit.request load dir)).run store.tables).2.Distinct :=
    (closed_distinct.stable_program _).run distinct
  have deleted : ∀ pkg ∈ ((ensureData load).run store.tables).1.2,
      deletes pkg = true ∧ (Statement.deletePackage pkg).Plain := by
    intro pkg mem
    rcases mem_rows_of_removed mem with ⟨gone, row, rowMem, rfl⟩
    exact inSequence.2 gone row rowMem
  rcases edit_cases edit load dir distinct with invalid | ⟨removed, isSection, executes⟩
  · rw [invalid]
    change Store.Consistent { store with pending := store.pending ++ [] }
    rw [append_nil]
    exact consistent
  · have executed := tableOf_foldl_run lawful deleted store.rows
    have outcomes := (((program (edit.request load dir)).run store.tables).1.2).exec_or_not
    have plain : ∀ statement ∈ store.pending ++
        ((program (edit.request load dir)).run store.tables).1.2.statements, statement.Plain := by
      intro statement mem
      rcases mem_append.mp mem with before | new
      · exact consistent.plain statement before
      · rcases outcomes with ⟨last, outcome⟩ | ⟨_, nothing⟩
        · rw [outcome] at new
          rw [mem_singleton.mp new, (executes last outcome).1]
          exact inSequence.1
        · rw [nothing] at new
          cases new
    rw [removed]
    rcases ensureData_cases load store.tables with
      ⟨there, nothing⟩ | ⟨gone, _, _, there, held⟩ | ⟨gone, failed, stillGone⟩
    · have same : store.tables.loaded load = store.tables := by
        rw [DenyData.loaded, nothing]
      rw [same] at isSection
      rw [nothing]
      exact Store.Consistent.append distinctAfter there isSection plain consistent.feasible
        (consistent.replay there)
    · have nonePending := consistent.unloaded gone
      apply Store.Consistent.append distinctAfter there isSection plain
      · rw [nonePending]
        exact trivial
      · rw [nonePending]
        exact executed.trans held.symm
    · have nonePending := consistent.unloaded gone
      have goneAfter := isSection.there.trans stillGone
      have noStatement :
          ((program (edit.request load dir)).run store.tables).1.2.statements = [] := by
        rcases outcomes with ⟨last, outcome⟩ | ⟨_, nothing⟩
        · have succeeded := (executes last outcome).2
          rw [failed] at succeeded
          cases succeeded
        · exact nothing
      rw [failed, nonePending, noStatement]
      refine ⟨distinctAfter, fun _ => rfl, by simp, trivial, ?_⟩
      exact fun there => absurd (goneAfter.symm.trans there) (by decide)

/-- The execution of a statement keeps the store consistent. -/
theorem Store.Consistent.exec (lawful : sqlite.Lawful) (consistent : store.Consistent)
    {position : Nat} {succeeds : Bool} {statement : Statement}
    (found : store.pending[position]? = some statement)
    (inSequence : InSequence store (.exec position succeeds)) :
    Store.Consistent { store with
      rows := sqlite.run succeeds store.rows statement
      pending := store.pending.eraseIdx position } := by
  rcases inSequence with ⟨rfl, apart⟩
  rcases List.getElem?_eq_some_iff.mp found with ⟨inside, atPosition⟩
  have parts : store.pending =
      store.pending.take position ++ statement :: store.pending.drop (position + 1) := by
    rw [← atPosition, cons_getElem_drop_succ, take_append_drop]
  have erased : store.pending.eraseIdx position =
      store.pending.take position ++ store.pending.drop (position + 1) :=
    eraseIdx_eq_take_drop_succ store.pending position
  have feasible := consistent.feasible
  rw [parts] at feasible
  rcases feasible.ahead fun first mem =>
      independent_of_not_conflicts (apart first mem statement found) with
    ⟨possible, feasibleAfter, same⟩
  have plain := consistent.plain statement (mem_of_getElem? found)
  have executed := lawful.tableOf_run plain possible
  refine ⟨consistent.distinct, ?_, ?_, ?_, ?_⟩
  · intro gone
    rw [consistent.unloaded gone] at inside
    exact absurd inside (Nat.not_lt_zero position)
  · exact fun other mem => consistent.plain other (mem_of_mem_eraseIdx mem)
  · rw [executed, erased]
    exact feasibleAfter
  · intro there
    rw [executed, erased]
    refine same.trans ?_
    rw [← parts]
    exact consistent.replay there

/-! ## Every interleaving -/

/-- In a run in which statements are executed in sequence, the memory and the
table agree whenever no request is in flight. -/
theorem agrees_of_inSequence {sqlite : Sqlite} (lawful : sqlite.Lawful) (rows : List Row)
    (execution : Execution (edits sqlite rows)) (inSequence : execution.Meets InSequence)
    (time : Nat) (quiet : (execution.state time).pending = []) :
    (execution.state time).Agrees := by
  have initially : Store.Consistent (edits sqlite rows).initial :=
    ⟨⟨nodup_nil, nofun⟩, fun _ => rfl, nofun, trivial, nofun⟩
  have consistent : (execution.state time).Consistent := by
    refine Execution.invariant inSequence initially ?_ time
    intro store move next consistent allowed stepEq
    cases move with
    | enter edit selects deletes loadDir dir =>
      rw [← Option.some.inj stepEq]
      exact consistent.enter lawful allowed
    | exec position succeeds =>
      cases found : store.pending[position]? with
      | none =>
        simp only [edits, found] at stepEq
        cases stepEq
      | some statement =>
        simp only [edits, found, Option.some.injEq] at stepEq
        rw [← stepEq]
        exact consistent.exec lawful found allowed
  intro there
  have replay := consistent.replay there
  rw [quiet] at replay
  exact replay.symm

/-! ## A database that keeps to the texts -/

/-- The statement that a text writes down. -/
def readSql (sql : String) : Option Statement :=
  match Text.split '\'' sql with
  | [head, pkg, middle, proc, tail] =>
    if head = insertInto ∧ middle = ", " ∧ tail = ")" then some (.insert pkg proc)
    else if head = deleteFrom ∧ middle = andProcess ∧ tail = "" then some (.deleteProc pkg proc)
    else none
  | [head, pkg, tail] =>
    if head = deleteFrom ∧ tail = "" then some (.deletePackage pkg) else none
  | _ => none

theorem toList_quote (name : String) : (quote name).toList = '\'' :: (name.toList ++ ['\'']) := by
  rw [quote, String.toList_append, String.toList_append]
  rfl

theorem split_one_quoted {name : String} (freeHead : '\'' ∉ head.toList)
    (freeName : '\'' ∉ name.toList) (freeTail : '\'' ∉ tail.toList) :
    Text.split '\'' (head ++ quote name ++ tail) = [head, name, tail] := by
  apply Text.split_eq_of_intercalate
  · simp [toList_quote]
  · exact cons_ne_nil _ _
  · simp only [forall_mem_cons]
    exact ⟨freeHead, freeName, freeTail, nofun⟩

theorem split_two_quoted {first middle second : String} (freeHead : '\'' ∉ head.toList)
    (freeFirst : '\'' ∉ first.toList) (freeMiddle : '\'' ∉ middle.toList)
    (freeSecond : '\'' ∉ second.toList) (freeTail : '\'' ∉ tail.toList) :
    Text.split '\'' (head ++ quote first ++ middle ++ quote second ++ tail) =
      [head, first, middle, second, tail] := by
  apply Text.split_eq_of_intercalate
  · simp [toList_quote]
  · exact cons_ne_nil _ _
  · simp only [forall_mem_cons]
    exact ⟨freeHead, freeFirst, freeMiddle, freeSecond, freeTail, nofun⟩

/-- A plain statement is read back from its text. -/
theorem readSql_sql {statement : Statement} (plain : statement.Plain) :
    readSql statement.sql = some statement := by
  have whole : statement.sql = statement.text := if_pos plain.fits
  have free := plain.unquoted
  rw [whole, readSql]
  cases statement with
  | insert pkg proc =>
    have freePkg := free pkg mem_cons_self
    have freeProc := free proc (mem_cons_of_mem pkg (mem_singleton_self proc))
    rw [Statement.text, split_two_quoted (by decide) freePkg (by decide) freeProc (by decide)]
    exact if_pos ⟨rfl, rfl, rfl⟩
  | deletePackage pkg =>
    have freePkg := free pkg (mem_singleton_self pkg)
    have pieces : Text.split '\'' (deleteFrom ++ quote pkg ++ "") = [deleteFrom, pkg, ""] :=
      split_one_quoted (by decide) freePkg (by decide)
    rw [String.append_empty] at pieces
    rw [Statement.text, pieces]
    exact if_pos ⟨rfl, rfl⟩
  | deleteProc pkg proc =>
    have freePkg := free pkg mem_cons_self
    have freeProc := free proc (mem_cons_of_mem pkg (mem_singleton_self proc))
    have pieces : Text.split '\'' (deleteFrom ++ quote pkg ++ andProcess ++ quote proc ++ "") =
        [deleteFrom, pkg, andProcess, proc, ""] :=
      split_two_quoted (by decide) freePkg (by decide) freeProc (by decide)
    rw [String.append_empty] at pieces
    rw [Statement.text, pieces]
    have different : ¬ (deleteFrom = insertInto ∧ andProcess = ", " ∧ "" = ")") := by decide
    exact (if_neg different).trans (if_pos ⟨rfl, rfl, rfl⟩)

/-- Execute a statement on a table whose rows occur once. -/
def Statement.execute (rows : List Row) : Statement → Option (List Row)
  | .insert pkg proc => if (pkg, proc) ∈ rows then none else some (rows ++ [(pkg, proc)])
  | .deletePackage pkg => some (rows.filter fun row => row.1 ≠ pkg)
  | .deleteProc pkg proc => some (rows.filter fun row => row ≠ (pkg, proc))

/-- A database that reads statements back and executes them. -/
def reference : Sqlite where
  exec sql rows := (readSql sql).bind (Statement.execute rows)

theorem lawful_reference : reference.Lawful := by
  intro statement rows plain possible
  have read : reference.exec statement.sql rows = statement.execute rows := by
    change (readSql statement.sql).bind _ = _
    rw [readSql_sql plain]
    rfl
  rw [read]
  cases statement with
  | insert pkg proc =>
    refine ⟨rows ++ [(pkg, proc)], if_neg possible, ?_⟩
    ext row
    change row ∈ rows ++ [(pkg, proc)] ↔ row ∈ insert (pkg, proc) (tableOf rows)
    rw [mem_append, mem_singleton]
    exact or_comm
  | deletePackage pkg =>
    refine ⟨_, rfl, ?_⟩
    ext row
    change row ∈ List.filter _ rows ↔ row ∈ rows ∧ row.1 ≠ pkg
    rw [mem_filter, decide_eq_true_iff]
  | deleteProc pkg proc =>
    refine ⟨_, rfl, ?_⟩
    ext row
    change row ∈ List.filter _ rows ↔ row ∈ rows ∧ row ≠ (pkg, proc)
    rw [mem_filter, decide_eq_true_iff]

/-! ## Names in a statement -/

theorem utf8ByteSize_cutTo (room : Nat) (chars : List Char) :
    (String.ofList (cutTo room chars)).utf8ByteSize ≤ room := by
  induction chars generalizing room with
  | nil => exact Nat.zero_le room
  | cons c rest ih =>
    rw [cutTo]
    split
    · have short := ih (room - c.utf8Size)
      rw [String.utf8ByteSize_ofList] at short ⊢
      rw [String.utf8Len_cons]
      omega
    · exact Nat.zero_le room

theorem utf8ByteSize_lt_of_ssprintf {text : String} (whole : ssprintf text = text) :
    text.utf8ByteSize < 4096 := by
  by_contra long
  have short := utf8ByteSize_cutTo 4095 text.toList
  rw [ssprintf, if_neg long] at whole
  rw [whole] at short
  omega

/-- Only a plain statement is read back from its text. -/
theorem plain_of_readSql_sql {statement : Statement}
    (read : readSql statement.sql = some statement) : statement.Plain := by
  have joined : ['\''].intercalate ((Text.split '\'' statement.sql).map String.toList) =
      statement.sql.toList := by
    simp [Text.split, Function.comp_def, intercalate_splitOn]
  have free : ∀ piece ∈ Text.split '\'' statement.sql, '\'' ∉ piece.toList :=
    fun _ => Text.notMem_of_mem_split
  suffices whole : statement.sql = statement.text ∧
      ∀ name ∈ statement.names, name ∈ Text.split '\'' statement.sql from
    ⟨utf8ByteSize_lt_of_ssprintf whole.1, fun name mem => free name (whole.2 name mem)⟩
  rw [readSql] at read
  generalize Text.split '\'' statement.sql = pieces at read joined
  rw [← String.toList_inj, ← joined]
  split at read
  · split_ifs at read with isInsert isDelete
    · obtain ⟨rfl, rfl, rfl⟩ := isInsert
      cases read
      simp [Statement.text, Statement.names, toList_quote]
    · obtain ⟨rfl, rfl, rfl⟩ := isDelete
      cases read
      simp [Statement.text, Statement.names, toList_quote]
  · split_ifs at read with isDelete
    obtain ⟨rfl, rfl⟩ := isDelete
    cases read
    simp [Statement.text, Statement.names, toList_quote]
  · cases read

/-- The text that a request leaves to be executed is that of one statement with the names
it was sent, and is executed as such, exactly if it fits its buffer and no name ends a
quotation. -/
theorem readSql_executed_iff {data : DenyData} {edit : Edit} {load : Load} {dir : DataDir}
    {statement : Statement} (distinct : data.Distinct)
    (executed : ((program (edit.request load dir)).run data).1.2 = .exec statement) :
    (readSql statement.sql = some edit.statement ∧ ∀ rows, edit.statement.Possible (tableOf rows) →
        ∃ next, reference.exec statement.sql rows = some next ∧
          tableOf next = edit.statement.apply (tableOf rows)) ↔
      edit.statement.Plain := by
  have same : statement = edit.statement := by
    rcases edit_cases edit load dir distinct with refused | ⟨-, -, each⟩
    · rw [refused] at executed
      cases executed
    · exact (each statement executed).1
  subst same
  constructor
  · exact fun read => plain_of_readSql_sql read.1
  · exact fun plain => ⟨readSql_sql plain, fun rows possible => lawful_reference plain possible⟩

/-- Empty tables. -/
def noneListed : DenyData :=
  { pkgToProcs := some [], appIdToPkgs := some [] }

theorem readSql_executed_iff_bank :
    readSql (Statement.insert "org.bank" "org.bank").sql = some (.insert "org.bank" "org.bank") :=
  ((@readSql_executed_iff noneListed (.add "org.bank" "") ⟨[], true, ownedBy "" 0⟩
    (ownedBy "org.bank" 10061) _ ⟨nodup_nil, nofun⟩ (by decide +kernel)).mpr
    ⟨by decide +kernel, by decide +kernel⟩).1

/-- Behind the colon of an isolated process anything is accepted. -/
theorem readSql_executed_isolated :
    ((program (Edit.request ⟨[], true, ownedBy "" 0⟩ (ownedBy "" 0)
        (.add "isolated" "a:');DELETE FROM denylist--"))).run noneListed).1.2 =
      .exec (.insert "isolated" "a:');DELETE FROM denylist--") ∧
      (Statement.insert "isolated" "a:');DELETE FROM denylist--").sql =
        "INSERT INTO denylist (package_name, process) VALUES('isolated', 'a:');" ++
          "DELETE FROM denylist--')" ∧
      readSql (Statement.insert "isolated" "a:');DELETE FROM denylist--").sql = none := by
  decide +kernel

/-- One package is added while nothing else happens. -/
def addedQuietly : List Move :=
  [.enter (.add "org.bank" "") true (fun _ => true) (ownedBy "org.bank" 10061)
      (ownedBy "org.bank" 10061),
    .exec 0 true]

def quietExecution : Execution (edits reference []) :=
  Execution.ofLabels (edits reference []) addedQuietly (Option.some_get (by decide +kernel)).symm

theorem agrees_of_inSequence_quietly : (quietExecution.state 2).tables.pkgToProcs.isSome = true ∧
      (quietExecution.state 2).pending = [] ∧ (quietExecution.state 2).Agrees := by
  have quiet : (quietExecution.state 2).pending = [] := by decide +kernel
  refine ⟨by decide +kernel, quiet, ?_⟩
  refine agrees_of_inSequence lawful_reference [] quietExecution ?_ 2 quiet
  apply Execution.meets_ofLabels
  intro time
  match time with
  | ⟨0, _⟩ => exact ⟨⟨by decide +kernel, by decide +kernel⟩, fun _ => nofun⟩
  | ⟨1, _⟩ => exact ⟨rfl, nofun⟩

/-- A package is added and removed at once; the row is deleted before it is
inserted. -/
def removedTooEarly : List Move :=
  [.enter (.add "org.bank" "") true (fun _ => true) (ownedBy "org.bank" 10061)
      (ownedBy "org.bank" 10061),
    .enter (.remove "org.bank" "") true (fun _ => true) (ownedBy "org.bank" 10061)
      (ownedBy "org.bank" 10061),
    .exec 1 true, .exec 0 true]

def racingExecution : Execution (edits reference []) :=
  Execution.ofLabels (edits reference []) removedTooEarly (Option.some_get (by decide +kernel)).symm

/-- All statements succeed, and the table has a row that the memory has not. -/
theorem not_agrees_removedTooEarly :
    ¬ ∀ (rows : List Row) (execution : Execution (edits reference rows)) (time : Nat),
      (execution.state time).pending = [] → (execution.state time).Agrees := by
  intro always
  have quiet : (racingExecution.state 4).pending = [] := by decide +kernel
  have there : (racingExecution.state 4).tables.pkgToProcs.isSome = true := by decide +kernel
  have agrees := always [] racingExecution 4 quiet there
  have row : ("org.bank", "org.bank") ∈ tableOf (racingExecution.state 4).rows := by
    change ("org.bank", "org.bank") ∈ (racingExecution.state 4).rows
    decide +kernel
  rw [← agrees] at row
  rcases row with ⟨package, mem, _⟩
  have nothing : (racingExecution.state 4).tables.packages = [] := by decide +kernel
  cases mem

end Magisk.Core.Deny
