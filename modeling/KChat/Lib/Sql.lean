import Mathlib.Data.List.Forall2
import Mathlib.Logic.Function.Basic
import KChat.Lib.Bytes

/-!
# Scripts of SQL

Tables that are declared, copied, renamed and dropped. `ν` are the names of tables, `ι` those of
indexes.

* `Declaration`, `Table`: columns, and rows that they admit. `Db`: the tables and the indexes.
* `Statement.exec`, `execAll`: a statement, and a script.
* **`execAll_createTables`**: tables that exist are left alone.
* **`execAll_replaceTable`**: a table copied to a new declaration that admits as much.
-/

namespace Lib.Sql

/-! ## Rows -/

inductive Value
  | null
  | integer (value : ℤ)
  /-- With its digits as they are written. -/
  | real (digits : String)
  | text (value : String)
  | blob (bytes : Bytes)
  deriving DecidableEq, Repr

inductive Affinity
  | integer | text | blob
  deriving DecidableEq, Repr

/-- What a column makes of a value. Columns of integers are only ever given what another column of
integers has made of it, or an integer. -/
def Affinity.store : Affinity → Value → Value
  | .text, .integer value => .text (toString value)
  | .text, .real digits => .text digits
  | _, value => value

structure Column where
  name : String
  affinity : Affinity
  notNull : Bool
  /-- `CHECK (name IN (…))`. -/
  check : Option (List String)
  deriving DecidableEq, Repr

/-- A check that is null is passed. -/
def Column.checks (column : Column) : Value → Bool
  | .null => true
  | .text value => column.check.all fun texts => value ∈ texts
  | _ => column.check.isNone

def Column.admits (column : Column) (value : Value) : Bool :=
  (!column.notNull || value != .null) && column.checks value

structure Declaration where
  columns : List Column
  primaryKey : List String
  autoincrement : Bool
  deriving DecidableEq, Repr

namespace Declaration

def names (d : Declaration) : List String := d.columns.map (·.name)

/-- The value in a column. -/
def value (d : Declaration) (row : List Value) (name : String) : Option Value :=
  (d.names.zip row).lookup name

def key (d : Declaration) (row : List Value) : List (Option Value) :=
  d.primaryKey.map (d.value row)

/-- One value that is admitted for each column. -/
def Fits (d : Declaration) (row : List Value) : Prop :=
  List.Forall₂ (fun column value => column.admits value = true) d.columns row

/-- Rows with a null in the key are as good as distinct. -/
def Distinct (d : Declaration) (row row' : List Value) : Prop :=
  some .null ∈ d.key row ∨ d.key row ≠ d.key row'

def Admissible (d : Declaration) (rows : List (List Value)) : Prop :=
  (∀ row ∈ rows, d.Fits row) ∧ rows.Pairwise d.Distinct

instance (d : Declaration) (row : List Value) : Decidable (d.Fits row) :=
  inferInstanceAs (Decidable (List.Forall₂ _ _ _))

instance (d : Declaration) (row row' : List Value) : Decidable (d.Distinct row row') :=
  inferInstanceAs (Decidable (_ ∨ _))

instance (d : Declaration) (rows : List (List Value)) : Decidable (d.Admissible rows) :=
  inferInstanceAs (Decidable (_ ∧ _))

end Declaration

/-- **A table**: rows that its declaration admits, in the order of their row ids. -/
@[ext]
structure Table where
  declared : Declaration
  rows : List (List Value)
  admissible : declared.Admissible rows
  deriving DecidableEq

inductive SqlError
  | alreadyExists | noSuchTable | noSuchColumn | constraint | invalidColumnType
  deriving DecidableEq, Repr

namespace Table

def empty (declared : Declaration) : Table where
  declared := declared
  rows := []
  admissible := ⟨fun _ h => (nomatch h), .nil⟩

/-- All of the rows, or an error. -/
def insert (t : Table) (rows : List (List Value)) : Except SqlError Table :=
  if h : t.declared.Admissible (t.rows ++ rows) then .ok ⟨t.declared, t.rows ++ rows, h⟩
  else .error .constraint

end Table

/-! ## Scripts -/

variable {ν ι : Type}

structure Index (ν : Type) where
  table : ν
  columns : List String
  deriving DecidableEq

@[ext]
structure Db (ν ι : Type) where
  tables : ν → Option Table
  indexes : ι → Option (Index ν)

namespace Db

def empty : Db ν ι := ⟨fun _ => none, fun _ => none⟩

/-- The declaration of a table. -/
def declared (db : Db ν ι) (name : ν) : Option Declaration := (db.tables name).map (·.declared)

/-- The rows of a table, or none. -/
def rows (db : Db ν ι) (name : ν) : List (List Value) := ((db.tables name).map (·.rows)).getD []

variable [DecidableEq ν]

def set (db : Db ν ι) (name : ν) (t : Option Table) : Db ν ι :=
  { db with tables := Function.update db.tables name t }

variable {db : Db ν ι} {name other : ν} {t t' : Option Table}

@[simp] theorem set_tables_self : (db.set name t).tables name = t := Function.update_self ..

@[simp] theorem set_tables_of_ne (h : other ≠ name) :
    (db.set name t).tables other = db.tables other := Function.update_of_ne h ..

@[simp] theorem set_indexes : (db.set name t).indexes = db.indexes := rfl

@[simp] theorem set_set : (db.set name t).set name t' = db.set name t' :=
  congrArg (Db.mk · db.indexes) (Function.update_idem ..)

theorem set_tables : db.set name (db.tables name) = db :=
  congrArg (Db.mk · db.indexes) (Function.update_eq_self ..)

def setIndex [DecidableEq ι] (db : Db ν ι) (name : ι) (index : Index ν) : Db ν ι :=
  { db with indexes := Function.update db.indexes name (some index) }

/-- With those of the tables that there are not, without rows. -/
def withTables (db : Db ν ι) (declarations : List (ν × Declaration)) : Db ν ι :=
  { db with tables := fun name => (db.tables name).or ((declarations.lookup name).map .empty) }

variable {declarations : List (ν × Declaration)}

theorem withTables_declared : (db.withTables declarations).declared name =
    (db.declared name).or (declarations.lookup name) := by
  change ((db.tables name).or _).map _ = ((db.tables name).map _).or _
  cases db.tables name with
  | some t => rfl
  | none => cases declarations.lookup name <;> rfl

theorem withTables_rows : (db.withTables declarations).rows name = db.rows name := by
  change (((db.tables name).or _).map _).getD [] = ((db.tables name).map _).getD []
  cases db.tables name with
  | some t => rfl
  | none => cases declarations.lookup name <;> rfl

theorem withTables_tables_of_none (h : declarations.lookup name = none) :
    (db.withTables declarations).tables name = db.tables name := by
  change (db.tables name).or _ = db.tables name
  rw [h, Option.map_none, Option.or_none]

end Db

inductive Statement (ν ι : Type)
  | createTable (ifNotExists : Bool) (name : ν) (declared : Declaration)
  | dropTable (ifExists : Bool) (name : ν)
  | renameTable (name newName : ν)
  /-- `INSERT INTO target (columns) SELECT columns FROM source`. -/
  | insertSelect (target : ν) (columns : List String) (source : ν)
  | insertValues (target : ν) (values : List Value)
  | createIndex (ifNotExists : Bool) (name : ι) (table : ν) (columns : List String)

/-- The row that is inserted for a row of another table: a column that is not named is null. -/
def Declaration.copied (target source : Declaration) (columns : List String) (row : List Value) :
    List Value :=
  target.columns.map fun column => column.affinity.store
    (if column.name ∈ columns then (source.value row column.name).getD .null else .null)

variable [DecidableEq ν] [DecidableEq ι]

def Statement.exec : Statement ν ι → Db ν ι → Except SqlError (Db ν ι)
  | .createTable ifNotExists name declared, db =>
    match db.tables name with
    | none => .ok (db.set name (some (.empty declared)))
    | some _ => if ifNotExists then .ok db else .error .alreadyExists
  | .dropTable ifExists name, db =>
    match db.tables name with
    | none => if ifExists then .ok db else .error .noSuchTable
    | some _ => .ok { db.set name none with
        indexes := fun i => (db.indexes i).filter fun index => index.table ≠ name }
  | .renameTable name newName, db =>
    match db.tables name, db.tables newName with
    | none, _ => .error .noSuchTable
    | some _, some _ => .error .alreadyExists
    | some t, none => .ok { (db.set name none).set newName (some t) with
        indexes := fun i => (db.indexes i).map fun index =>
          if index.table = name then { index with table := newName } else index }
  | .insertSelect target columns source, db =>
    match db.tables target, db.tables source with
    | some t, some t' =>
      if columns ⊆ t.declared.names ∧ columns ⊆ t'.declared.names then do
        let t ← t.insert (t'.rows.map (t.declared.copied t'.declared columns))
        .ok (db.set target (some t))
      else .error .noSuchColumn
    | _, _ => .error .noSuchTable
  | .insertValues target values, db =>
    match db.tables target with
    | none => .error .noSuchTable
    | some t => do
      let t ← t.insert [List.zipWith (·.affinity.store ·) t.declared.columns values]
      .ok (db.set target (some t))
  | .createIndex ifNotExists name table columns, db =>
    match db.tables table, db.indexes name with
    | none, _ => .error .noSuchTable
    | some t, none =>
      if columns ⊆ t.declared.names then
        .ok (db.setIndex name ⟨table, columns⟩)
      else .error .noSuchColumn
    | some _, some _ => if ifNotExists then .ok db else .error .alreadyExists

/-- A script, up to its first error. -/
def execAll : List (Statement ν ι) → Db ν ι → Except SqlError (Db ν ι)
  | [], db => .ok db
  | statement :: statements, db => do
    let db ← statement.exec db
    execAll statements db

/-! ## What scripts do -/

variable {db : Db ν ι}

theorem execAll_append (statements statements' : List (Statement ν ι)) (db : Db ν ι) :
    execAll (statements ++ statements') db = (execAll statements db).bind (execAll statements') := by
  induction statements generalizing db with
  | nil => rfl
  | cons statement statements ih =>
    rw [List.cons_append, execAll, execAll]
    cases statement.exec db with
    | error e => rfl
    | ok db' => exact ih db'

/-- **Tables that exist already** are left alone, the others are made without rows. -/
theorem execAll_createTables (declarations : List (ν × Declaration)) (db : Db ν ι) :
    execAll (declarations.map fun d => .createTable true d.1 d.2) db =
      .ok (db.withTables declarations) := by
  induction declarations generalizing db with
  | nil =>
    have hsame : (fun name => (db.tables name).or none) = db.tables := by
      funext name
      exact Option.or_none
    rw [List.map_nil, execAll]
    exact congrArg (fun tables => Except.ok { db with tables := tables }) hsame.symm
  | cons d declarations ih =>
    have hexec : (Statement.createTable true d.1 d.2).exec db = .ok { db with
        tables := fun name => (db.tables name).or (if name = d.1 then some (.empty d.2) else none) } := by
      rw [Statement.exec]
      cases hd : db.tables d.1 with
      | none =>
        refine congrArg (fun tables => Except.ok { db with tables := tables }) ?_
        funext name
        by_cases hname : name = d.1
        · rw [hname, Function.update_self, hd, if_pos rfl, Option.none_or]
        · rw [Function.update_of_ne hname, if_neg hname, Option.or_none]
      | some t =>
        refine congrArg (fun tables => Except.ok { db with tables := tables }) ?_
        funext name
        by_cases hname : name = d.1
        · rw [hname, hd, Option.some_or]
        · rw [if_neg hname, Option.or_none]
    rw [List.map_cons, execAll, hexec]
    refine (ih _).trans (congrArg (fun tables => Except.ok { db with tables := tables }) ?_)
    funext name
    change ((db.tables name).or _).or _ = _
    rw [Option.or_assoc, List.lookup_cons]
    by_cases hname : name = d.1
    · rw [if_pos hname, beq_iff_eq.mpr hname, Option.some_or]
      rfl
    · rw [if_neg hname, beq_eq_false_iff_ne.mpr hname, Option.none_or]

/-- Without indexes of it a table is dropped and nothing else. -/
theorem exec_dropTable {name : ν} (h : ∀ i index, db.indexes i = some index → index.table ≠ name)
    {ifExists : Bool} (hexists : ifExists = true ∨ db.tables name ≠ none) :
    (Statement.dropTable ifExists name).exec db = .ok (db.set name none) := by
  rw [Statement.exec]
  cases hname : db.tables name with
  | none =>
    have hif : ifExists = true := hexists.resolve_right fun hsome => hsome hname
    have hset : db.set name none = db := by
      rw [← hname, Db.set_tables]
    rw [hset, hif]
    rfl
  | some t =>
    have hindexes : (fun i => (db.indexes i).filter fun index => index.table ≠ name) = db.indexes := by
      funext i
      cases hi : db.indexes i with
      | none => rfl
      | some index => exact Option.filter_some_pos (decide_eq_true (h i index hi))
    rw [hindexes]
    rfl

theorem exec_createIndex {name : ι} {table : ν} {columns : List String} {t : Table}
    {ifNotExists : Bool} (ht : db.tables table = some t) (hnone : db.indexes name = none)
    (hcolumns : columns ⊆ t.declared.names) :
    (Statement.createIndex ifNotExists name table columns).exec db =
      .ok (db.setIndex name ⟨table, columns⟩) := by
  rw [Statement.exec, ht, hnone]
  exact if_pos hcolumns

theorem exec_insertSelect {target source : ν} {columns : List String} {t t' u : Table}
    (ht : db.tables target = some t) (ht' : db.tables source = some t')
    (hcolumns : columns ⊆ t.declared.names) (hcolumns' : columns ⊆ t'.declared.names)
    (hinsert : t.insert (t'.rows.map (t.declared.copied t'.declared columns)) = .ok u) :
    (Statement.insertSelect target columns source).exec db = .ok (db.set target (some u)) := by
  rw [Statement.exec, ht, ht']
  refine (if_pos ⟨hcolumns, hcolumns'⟩).trans ?_
  rw [hinsert]
  rfl

theorem Table.insert_empty {declared : Declaration} {rows : List (List Value)}
    (h : declared.Admissible rows) :
    (Table.empty declared).insert rows = .ok ⟨declared, rows, h⟩ := dif_pos h

/-! ## Copying a table -/

/-- **Another declaration admits as much**, in columns of the same names. -/
structure Declaration.Accepts (d' d : Declaration) : Prop where
  names : d'.names = d.names
  nodup : d.names.Nodup
  primaryKey : d'.primaryKey = d.primaryKey
  columns : List.Forall₂ (fun column column' => ∀ value, column.admits value = true →
    column'.admits value = true ∧ column'.affinity.store value = value) d.columns d'.columns

theorem map_lookup_zip {names : List String} (hnodup : names.Nodup) {row : List Value}
    (hlength : names.length = row.length) :
    names.map ((names.zip row).lookup ·) = row.map some := by
  induction names generalizing row with
  | nil => rw [List.length_eq_zero_iff.mp hlength.symm]; rfl
  | cons name names ih =>
    cases row with
    | nil => cases hlength
    | cons value row =>
      obtain ⟨hname, hnames⟩ := List.nodup_cons.mp hnodup
      rw [List.map_cons, List.zip_cons_cons, List.lookup_cons, beq_self_eq_true, List.map_cons]
      congr 1
      rw [← ih hnames (Nat.succ_injective hlength)]
      apply List.map_congr_left
      intro other hother
      have hne : other ≠ name := fun h => hname (h ▸ hother)
      rw [List.lookup_cons, beq_eq_false_iff_ne.mpr hne]

/-- A row that one list of columns takes is taken by another that takes as much. -/
theorem forall₂_transfer {α β γ : Type} {P : α → γ → Prop} {Q : β → γ → Prop} {l : List α}
    {l' : List β} {row : List γ} (h : List.Forall₂ (fun a b => ∀ v, P a v → Q b v) l l')
    (hrow : List.Forall₂ P l row) : List.Forall₂ Q l' row := by
  induction h generalizing row with
  | nil => cases hrow; exact .nil
  | cons hab _ ih =>
    cases hrow with
    | cons hvalue hrow => exact .cons (hab _ hvalue) (ih hrow)

namespace Declaration.Accepts

variable {d d' : Declaration} {row : List Value}

theorem fits (h : d'.Accepts d) (hrow : d.Fits row) : d'.Fits row :=
  forall₂_transfer (h.columns.imp fun _ _ hcolumn value hvalue => (hcolumn value hvalue).1) hrow

theorem key (h : d'.Accepts d) (row : List Value) : d'.key row = d.key row := by
  unfold Declaration.key value
  rw [h.names, h.primaryKey]

theorem admissible (h : d'.Accepts d) {rows : List (List Value)} (hrows : d.Admissible rows) :
    d'.Admissible rows := by
  refine ⟨fun row hmem => h.fits (hrows.1 row hmem), hrows.2.imp fun hdistinct => ?_⟩
  unfold Distinct at hdistinct ⊢
  rw [h.key, h.key]
  exact hdistinct

/-- A row is copied as it is. -/
theorem copied (h : d'.Accepts d) (hrow : d.Fits row) : d'.copied d d.names row = row := by
  have hstored : List.Forall₂ (fun column value => column.affinity.store value = value)
      d'.columns row :=
    forall₂_transfer (h.columns.imp fun _ _ hcolumn value hvalue => (hcolumn value hvalue).2) hrow
  have htaken : List.Forall₂ (fun column value => d.value row column.name = some value)
      d'.columns row := by
    have hlength : d.names.length = row.length := (List.length_map _).trans hrow.length_eq
    have hvalues : d'.columns.map (fun column => d.value row column.name) = row.map some := calc
      _ = d'.names.map (d.value row) := List.map_map.symm
      _ = d.names.map (d.value row) := by rw [h.names]
      _ = row.map some := map_lookup_zip h.nodup hlength
    rwa [← List.forall₂_eq_eq_eq, List.forall₂_map_left_iff, List.forall₂_map_right_iff] at hvalues
  unfold Declaration.copied
  rw [← List.forall₂_eq_eq_eq, List.forall₂_map_left_iff]
  rw [List.forall₂_iff_zip] at hstored htaken ⊢
  refine ⟨hstored.1, fun {column value} hmem => ?_⟩
  have hname : column.name ∈ d.names := by
    rw [← h.names]
    exact List.mem_map_of_mem (List.of_mem_zip hmem).1
  rw [if_pos hname, htaken.2 hmem, Option.getD_some, hstored.2 hmem]

end Declaration.Accepts

/-- The table that a script replaces is what it was, with the new declaration. -/
theorem execAll_replaceTable {name newName : ν} {d' : Declaration} {t : Table}
    (ht : db.tables name = some t) (hnew : db.tables newName = none)
    (hindexes : ∀ i, db.indexes i = none) (haccepts : d'.Accepts t.declared) :
    ∃ db', execAll [.createTable false newName d', .insertSelect newName t.declared.names name,
        .dropTable false name, .renameTable newName name] db = .ok db' ∧
      db'.tables name = some ⟨d', t.rows, haccepts.admissible t.admissible⟩ ∧
      (∀ other, other ≠ name → db'.tables other = db.tables other) ∧
      db'.indexes = db.indexes := by
  have hne : name ≠ newName := by
    rintro rfl
    rw [ht] at hnew
    cases hnew
  have hcopied : t.rows.map (d'.copied t.declared t.declared.names) = t.rows := by
    calc
      _ = t.rows.map id := List.map_congr_left fun row hmem => haccepts.copied (t.admissible.1 row hmem)
      _ = t.rows := List.map_id _
  let copied : Table := ⟨d', t.rows, haccepts.admissible t.admissible⟩
  have hinsert : (Table.empty d').insert (t.rows.map (d'.copied t.declared t.declared.names)) =
      .ok copied := by
    rw [hcopied]
    exact Table.insert_empty _
  -- the new table, with the rows, and without the old one
  have hcreate : (Statement.createTable false newName d').exec db =
      .ok (db.set newName (some (.empty d'))) := by
    rw [Statement.exec, hnew]
  have hcopy : (Statement.insertSelect newName t.declared.names name).exec
      (db.set newName (some (.empty d'))) = .ok (db.set newName (some copied)) := by
    rw [exec_insertSelect Db.set_tables_self ((Db.set_tables_of_ne hne).trans ht) ?_
      (List.Subset.refl _) hinsert, Db.set_set]
    change t.declared.names ⊆ d'.names
    rw [haccepts.names]
    exact List.Subset.refl _
  have hdrop : (Statement.dropTable false name).exec (db.set newName (some copied)) =
      .ok ((db.set newName (some copied)).set name none) := by
    apply exec_dropTable
    · intro i index hi
      rw [Db.set_indexes, hindexes] at hi
      cases hi
    · right
      rw [Db.set_tables_of_ne hne, ht]
      exact Option.some_ne_none t
  rw [execAll, hcreate]
  change ∃ db', execAll [_, _, _] _ = _ ∧ _
  rw [execAll, hcopy]
  change ∃ db', execAll [_, _] _ = _ ∧ _
  rw [execAll, hdrop]
  change ∃ db', execAll [_] _ = _ ∧ _
  rw [execAll, Statement.exec, Db.set_tables_self, Db.set_tables_of_ne hne.symm, Db.set_tables_self]
  refine ⟨_, rfl, Db.set_tables_self, fun other hother => ?_, ?_⟩
  · by_cases hnewName : other = newName
    · rw [hnewName, Db.set_tables_of_ne hne.symm, Db.set_tables_self, hnew]
    · rw [Db.set_tables_of_ne hother, Db.set_tables_of_ne hnewName, Db.set_tables_of_ne hother,
        Db.set_tables_of_ne hnewName]
  · funext i
    simp [hindexes i]

end Lib.Sql
