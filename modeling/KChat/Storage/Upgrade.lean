import Mathlib.Tactic.IntervalCases
import KChat.Storage.SchemaVersions

/-!
# Migrations of the schema keep the rows

Every script may be run over the tables of a version it has already made: `Upgrades` says what it
keeps, `replayed` which version the tables are of afterwards.

* **`script_upgrades`**: one script over any later schema, up to the fifth version.
* `applyMissing_upgrades`: all that are missing.
* **`runMigrations_exact`**, **`not_every_history`**.
-/

namespace KChat.Storage

open Lib Lib.Sql

variable {db db' db'' : SqlDatabase} {k k' : ℕ}

/-! ## One script -/

/-- **The rows there were**, in the tables that the last version has, and the same histories. -/
structure Keeps (db db' : SqlDatabase) : Prop where
  rows : ∀ name, (schemaAt 6).declared name ≠ none → db'.rows name = db.rows name
  histories : ∀ name, IsHistory name → db'.tables name = db.tables name

/-- **The schema of version `k`** with the rows there were. -/
structure Upgrades (k : ℕ) (db db' : SqlDatabase) : Prop extends Keeps db db' where
  produced : Produced k db'

theorem Keeps.withTables {declarations : List (TableName × Declaration)}
    (hhistory : ∀ name, IsHistory name → declarations.lookup name = none) :
    Keeps db (db.withTables declarations) where
  rows _ _ := Db.withTables_rows
  histories name hname := Db.withTables_tables_of_none (hhistory name hname)

theorem createTables_upgrades {declarations : List (TableName × Declaration)}
    (hdeclared : ∀ name, ((schemaAt k).declared name).or (declarations.lookup name) =
      (schemaAt k').declared name)
    (hindexes : (schemaAt k').indexes = (schemaAt k).indexes)
    (hhistory : ∀ name, IsHistory name → declarations.lookup name = none) (h : Produced k db) :
    ∃ db', execAll (createTables declarations) db = .ok db' ∧ Upgrades k' db db' := by
  refine ⟨_, execAll_createTables declarations db, ⟨.withTables hhistory, fun name hname => ?_, ?_⟩⟩
  · rw [Db.withTables_declared, h.declared name hname, hdeclared]
  · rw [hindexes]
    exact h.indexes

/-- No version up to the fifth has an index. -/
theorem Produced.indexes_none (hk : k ≤ 5) (h : Produced k db) (i : IndexName) :
    db.indexes i = none := by
  rw [h.indexes]
  interval_cases k <;> rfl

/-- What may stand in the table of group data may stand there after the constraint is added. -/
theorem groupData_accepts {dataTypes : List String}
    (h : dataTypes ⊆ allDataTypes) :
    (groupDataDeclaration allDataTypes).Accepts
      (groupDataDeclaration dataTypes) where
  names := rfl
  nodup := by
    change ["provider_version", "group_id", "data_type", "group_data"].Nodup
    decide
  primaryKey := rfl
  columns := by
    refine .cons (fun value hvalue => ⟨hvalue, ?_⟩) (.cons (fun value hvalue => ⟨hvalue, ?_⟩)
      (.cons (fun value hvalue => ?_) (.cons (fun value hvalue => ⟨hvalue, ?_⟩) .nil)))
    · cases value <;> rfl
    · cases value <;> rfl
    · cases value with
      | null => cases hvalue
      | integer _ => cases hvalue
      | real _ => cases hvalue
      | blob _ => cases hvalue
      | text s =>
        refine ⟨?_, rfl⟩
        have hs : s ∈ dataTypes := by simpa [Column.admits, Column.checks] using hvalue
        simpa [Column.admits, Column.checks] using h hs
    · cases value <;> rfl

theorem constraintAddition_upgrades (hk : 1 ≤ k) (hk' : k ≤ 5) (h : Produced k db) :
    ∃ db', execAll constraintAddition db = .ok db' ∧ Upgrades (max 2 k) db db' := by
  obtain ⟨dataTypes, hdataTypes, hdeclared⟩ : ∃ dataTypes,
      dataTypes ⊆ allDataTypes ∧
        db.declared .groupData = some (groupDataDeclaration dataTypes) := by
    rw [h.declared .groupData (by decide)]
    rcases Nat.eq_or_lt_of_le hk with rfl | hk
    · exact ⟨initialDataTypes, List.subset_append_left _ _, rfl⟩
    · exact ⟨_, List.Subset.refl _, by interval_cases k <;> rfl⟩
  obtain ⟨t, ht, htdeclared⟩ := Option.map_eq_some_iff.mp hdeclared
  have hnew : db.tables .groupDataNew = none := by
    have hnone := h.declared .groupDataNew (by decide)
    have hschema : (schemaAt k).declared .groupDataNew = none := by
      interval_cases k <;> rfl
    rw [hschema] at hnone
    exact Option.map_eq_none_iff.mp hnone
  have haccepts := groupData_accepts hdataTypes
  rw [← htdeclared] at haccepts
  obtain ⟨db', hexec, hself, hothers, hindexes⟩ :=
    execAll_replaceTable ht hnew (h.indexes_none hk') haccepts
  have hnames : t.declared.names = ["provider_version", "group_id", "data_type", "group_data"] := by
    rw [htdeclared]
    rfl
  rw [hnames] at hexec
  refine ⟨db', hexec, ⟨fun name _ => ?_, fun name hname => ?_⟩, fun name hname => ?_, ?_⟩
  · by_cases hdata : name = .groupData
    · rw [hdata, Db.rows, Db.rows, hself, ht]
      rfl
    · rw [Db.rows, Db.rows, hothers name hdata]
  · refine hothers name ?_
    rcases hname with rfl | rfl <;> decide
  · by_cases hdata : name = .groupData
    · rw [hdata, Db.declared, hself]
      interval_cases k <;> rfl
    · have hsame : db'.declared name = db.declared name := by
        rw [Db.declared, Db.declared, hothers name hdata]
      rw [hsame, h.declared name hname]
      interval_cases k
      · cases name <;> first | rfl | exact absurd rfl hdata
      all_goals rfl
  · rw [hindexes, h.indexes]
    interval_cases k <;> rfl

theorem dropGroupEpochMeta_upgrades (hk : 4 ≤ k) (hk' : k ≤ 5) (h : Produced k db) :
    ∃ db', execAll dropGroupEpochMeta db = .ok db' ∧ Upgrades 5 db db' := by
  have hdrop : (Sql.Statement.dropTable true .groupEpochMeta).exec db =
      .ok (db.set .groupEpochMeta none) := by
    apply exec_dropTable
    · intro i index hi
      rw [h.indexes_none hk'] at hi
      cases hi
    · exact .inl rfl
  refine ⟨db.set .groupEpochMeta none, ?_, ⟨fun name hkept => ?_, fun name hname => ?_⟩,
    fun name hname => ?_, ?_⟩
  · rw [dropGroupEpochMeta, execAll, hdrop]
    rfl
  · have hmeta : name ≠ .groupEpochMeta := by
      rintro rfl
      exact hkept rfl
    rw [Db.rows, Db.set_tables_of_ne hmeta, Db.rows]
  · refine Db.set_tables_of_ne ?_
    rcases hname with rfl | rfl <;> decide
  · by_cases hmeta : name = .groupEpochMeta
    · rw [hmeta, Db.declared, Db.set_tables_self]
      rfl
    · rw [Db.declared, Db.set_tables_of_ne hmeta]
      refine (h.declared name hname).trans ?_
      interval_cases k
      · cases name <;> first | rfl | exact absurd rfl hmeta
      · rfl
  · rw [Db.set_indexes, h.indexes]
    interval_cases k <;> rfl

/-- The last script adds its table and the index of it. -/
theorem decryptedMessages_keeps (hk : k ≤ 5) (h : Produced k db) :
    ∃ db', execAll (createTables decryptedMessagesTables ++ createExpiresAtIndex) db = .ok db' ∧
      Keeps db db' ∧ (∀ name, ¬IsHistory name → db'.declared name =
        ((schemaAt k).declared name).or (decryptedMessagesTables.lookup name)) ∧
      db'.indexes = (schemaAt 6).indexes := by
  have hcreate := execAll_createTables decryptedMessagesTables db
  have hkeeps : Keeps db (db.withTables decryptedMessagesTables) := by
    apply Keeps.withTables
    intro name hname
    rcases hname with rfl | rfl <;> rfl
  have htable : (db.withTables decryptedMessagesTables).declared .decryptedApplicationMessages =
      decryptedMessagesTables.lookup .decryptedApplicationMessages := by
    rw [Db.withTables_declared, h.declared _ (by decide)]
    interval_cases k <;> rfl
  obtain ⟨t, ht, hdeclared⟩ := Option.map_eq_some_iff.mp htable
  have hcolumns : ["expires_at"] ⊆ t.declared.names := by
    rw [hdeclared]
    decide
  have hindex : (Sql.Statement.createIndex true .decryptedApplicationMessagesExpiresAt
      .decryptedApplicationMessages ["expires_at"]).exec (db.withTables decryptedMessagesTables) =
        .ok ((db.withTables decryptedMessagesTables).setIndex .decryptedApplicationMessagesExpiresAt
          ⟨.decryptedApplicationMessages, ["expires_at"]⟩) :=
    exec_createIndex ht (h.indexes_none hk _) hcolumns
  refine ⟨(db.withTables decryptedMessagesTables).setIndex .decryptedApplicationMessagesExpiresAt
    ⟨.decryptedApplicationMessages, ["expires_at"]⟩, ?_, ⟨hkeeps.rows, hkeeps.histories⟩,
    fun name hname => ?_, ?_⟩
  · rw [execAll_append, createTables, hcreate]
    change execAll createExpiresAtIndex _ = _
    rw [createExpiresAtIndex, execAll, hindex]
    rfl
  · change (db.withTables decryptedMessagesTables).declared name = _
    rw [Db.withTables_declared, h.declared name hname]
  · funext i
    cases i
    rfl

/-- **The version of the tables** after a script is run over those of version `k`: the table that
the fifth version dropped is made again by the third. -/
def replayed (version k : ℕ) : ℕ := if k = 5 ∧ version = 3 then 4 else max version k

/-- **Every script may be run again** over the tables of a later version. -/
theorem script_upgrades {i : ℕ} (hi : i ≤ k) (hk : k ≤ 5) (h : Produced k db) {migration : Migration}
    (hmigration : migrations[i]? = some migration) :
    ∃ db', execAll migration.script db = .ok db' ∧ Upgrades (replayed (i + 1) k) db db' := by
  have hi' : i ≤ 5 := hi.trans hk
  interval_cases i
  · cases hmigration
    refine createTables_upgrades (fun name => ?_) ?_ (fun name hname => ?_) h
    · interval_cases k <;> cases name <;> rfl
    · interval_cases k <;> rfl
    · rcases hname with rfl | rfl <;> rfl
  · cases hmigration
    have hmax : replayed 2 k = max 2 k := if_neg (by omega)
    rw [hmax]
    exact constraintAddition_upgrades hi hk h
  · cases hmigration
    refine createTables_upgrades (fun name => ?_) ?_ (fun name hname => ?_) h
    · interval_cases k <;> cases name <;> rfl
    · interval_cases k <;> rfl
    · rcases hname with rfl | rfl <;> rfl
  · cases hmigration
    refine createTables_upgrades (fun name => ?_) ?_ (fun name hname => ?_) h
    · interval_cases k <;> cases name <;> rfl
    · interval_cases k <;> rfl
    · rcases hname with rfl | rfl <;> rfl
  · cases hmigration
    have hfive : replayed 5 k = 5 := by
      interval_cases k <;> rfl
    rw [hfive]
    exact dropGroupEpochMeta_upgrades hi hk h
  · cases hmigration
    obtain rfl : k = 5 := Nat.le_antisymm hk hi
    obtain ⟨db', hexec, hkeeps, hdeclared, hindexes⟩ := decryptedMessages_keeps hk h
    refine ⟨db', hexec, hkeeps, fun name hname => ?_, hindexes⟩
    rw [hdeclared name hname]
    cases name <;> rfl

/-! ## The history of the runner -/

variable {checksum : ℕ → ℕ} (appliedOn : ℕ → String)

theorem orderedInsert_append {α : Type} {r : α → α → Prop} [DecidableRel r] {a last : α}
    (hlast : r a last) (l : List α) :
    (l ++ [last]).orderedInsert r a = l.orderedInsert r a ++ [last] := by
  induction l with
  | nil => rw [List.nil_append, List.orderedInsert_cons, if_pos hlast]; rfl
  | cons b l ih =>
    rw [List.cons_append, List.orderedInsert_cons, List.orderedInsert_cons, ih]
    split_ifs <;> rfl

theorem sortHistory_append {entries : List HistoryEntry} {last : HistoryEntry}
    (h : ∀ entry ∈ entries, entry.1 ≤ last.1) :
    sortHistory (entries ++ [last]) = sortHistory entries ++ [last] := by
  unfold sortHistory
  induction entries with
  | nil => rfl
  | cons entry entries ih =>
    have hrest := ih fun entry' hmem => h entry' (List.mem_cons_of_mem _ hmem)
    rw [List.cons_append, List.insertionSort_cons, hrest, List.insertionSort_cons]
    exact orderedInsert_append (r := fun entry entry' : HistoryEntry => entry.1 ≤ entry'.1)
      (h entry List.mem_cons_self) _

theorem mem_sortHistory {entries : List HistoryEntry} {entry : HistoryEntry} :
    entry ∈ sortHistory entries ↔ entry ∈ entries := List.mem_insertionSort _

theorem getInteger_eq_ok {value : Option Value} {z : ℤ} :
    getInteger value = .ok z ↔ value = some (.integer z) := by
  constructor
  · intro h
    cases value with
    | none => cases h
    | some value =>
      cases value <;> cases h
      rfl
  · rintro rfl
    rfl

theorem getText_eq_ok {value : Option Value} {s : String} :
    getText value = .ok s ↔ value = some (.text s) := by
  constructor
  · intro h
    cases value with
    | none => cases h
    | some value =>
      cases value <;> cases h
      rfl
  · rintro rfl
    rfl

theorem historyEntry_eq_ok {d : Declaration} {row : List Value} {entry : HistoryEntry} :
    historyEntry d row = .ok entry ↔ d.value row "version" = some (.integer entry.1) ∧
      d.value row "name" = some (.text entry.2.1) ∧
      d.value row "checksum" = some (.text entry.2.2) := by
  rw [← getInteger_eq_ok, ← getText_eq_ok, ← getText_eq_ok, historyEntry]
  constructor
  · intro h
    cases hversion : getInteger (d.value row "version") with
    | error e => rw [hversion] at h; cases h
    | ok version =>
      cases hname : getText (d.value row "name") with
      | error e => rw [hversion, hname] at h; cases h
      | ok name =>
        cases hchecksum : getText (d.value row "checksum") with
        | error e => rw [hversion, hname, hchecksum] at h; cases h
        | ok checksum =>
          rw [hversion, hname, hchecksum] at h
          cases h
          exact ⟨rfl, rfl, rfl⟩
  · rintro ⟨hversion, hname, hchecksum⟩
    rw [hversion, hname, hchecksum]
    rfl

theorem historyEntries_eq_ok {t : Sql.Table} {entries : List HistoryEntry} :
    historyEntries t = .ok entries ↔
      ∃ read, t.rows.mapM (historyEntry t.declared) = .ok read ∧ sortHistory read = entries := by
  unfold historyEntries
  cases t.rows.mapM (historyEntry t.declared) with
  | error e => exact ⟨fun h => (nomatch h), fun ⟨_, h, _⟩ => (nomatch h)⟩
  | ok read =>
    constructor
    · intro h
      exact ⟨read, rfl, Except.ok.inj h⟩
    · rintro ⟨read', h, rfl⟩
      cases h
      rfl

/-- Rows with different versions are distinct. -/
theorem historyDeclaration_distinct {row row' : List Value} {entry entry' : HistoryEntry}
    (h : historyEntry historyDeclaration row = .ok entry)
    (h' : historyEntry historyDeclaration row' = .ok entry') (hne : entry.1 ≠ entry'.1) :
    historyDeclaration.Distinct row row' := by
  right
  change [historyDeclaration.value row "version"] ≠ [historyDeclaration.value row' "version"]
  rw [(historyEntry_eq_ok.mp h).1, (historyEntry_eq_ok.mp h').1]
  simpa using hne

theorem version_of_getElem? {i : ℕ} {migration : Migration}
    (h : migrations[i]? = some migration) : migration.version = i + 1 := by
  have hi : i < 6 := (List.getElem?_eq_some_iff.mp h).1
  interval_cases i <;> cases h <;> rfl

theorem version_le_of_mem_take {i : ℕ} {migration : Migration}
    (h : migration ∈ migrations.take i) : migration.version ≤ i := by
  obtain ⟨n, hn, rfl⟩ := List.mem_take_iff_getElem.mp h
  have hversion := version_of_getElem? (List.getElem?_eq_getElem (lt_of_lt_of_le hn (by simp)))
  omega

/-- **The row of a migration** after those of the migrations before it. -/
theorem recorded_insert {i : ℕ} {migration : Migration} (hmigration : migrations[i]? = some migration)
    (h : Recorded checksum i db) :
    ∃ db', (Sql.Statement.insertValues .kchatMigrations [.integer migration.version,
        .text migration.name, .text (appliedOn migration.version),
        .text (toString (checksum migration.version))]).exec db = .ok db' ∧
      Recorded checksum (i + 1) db' ∧ ∃ history, db' = db.set .kchatMigrations (some history) := by
  obtain ⟨t, ht, hdeclared, hentries⟩ := h
  obtain ⟨declared, rows, hadmissible⟩ := t
  obtain rfl : declared = historyDeclaration := hdeclared
  let row : List Value := [.integer migration.version, .text migration.name,
    .text (appliedOn migration.version), .text (toString (checksum migration.version))]
  have hrow : historyEntry historyDeclaration row = .ok (migration.entry checksum) := rfl
  obtain ⟨read, hread, hsorted⟩ := historyEntries_eq_ok.mp hentries
  have hless : ∀ entry ∈ read, entry.1 < (migration.entry checksum).1 := by
    intro entry hmem
    rw [← mem_sortHistory, hsorted] at hmem
    obtain ⟨migration', htake, rfl⟩ := List.mem_map.mp hmem
    have hle := version_le_of_mem_take htake
    have hversion := version_of_getElem? hmigration
    change (migration'.version : ℤ) < migration.version
    omega
  have hinsert : historyDeclaration.Admissible (rows ++ [row]) := by
    constructor
    · intro row' hmem
      rcases List.mem_append.mp hmem with hmem | hmem
      · exact hadmissible.1 row' hmem
      · rw [List.mem_singleton.mp hmem]
        exact .cons rfl (.cons rfl (.cons rfl (.cons rfl .nil)))
    · refine List.pairwise_append.mpr ⟨hadmissible.2, List.pairwise_singleton _ _, ?_⟩
      intro row' hmem row'' hmem'
      rw [List.mem_singleton.mp hmem']
      obtain ⟨entry, hentry⟩ := ok_of_mapM hread hmem
      have hmem : entry ∈ read := (mem_of_mapM hread).mpr ⟨row', hmem, hentry⟩
      exact historyDeclaration_distinct hentry hrow (hless entry hmem).ne
  refine ⟨db.set .kchatMigrations (some ⟨historyDeclaration, rows ++ [row], hinsert⟩), ?_,
    ⟨_, Db.set_tables_self, rfl, historyEntries_eq_ok.mpr ⟨read ++ [migration.entry checksum], ?_, ?_⟩⟩,
    _, rfl⟩
  · rw [Sql.Statement.exec, ht]
    change (do let t ← Sql.Table.insert _ [row]; _ : Except SqlError SqlDatabase) = _
    rw [Sql.Table.insert, dif_pos hinsert]
    rfl
  · refine mapM_append_eq_ok hread ?_
    rw [List.mapM_cons, hrow]
    rfl
  · rw [sortHistory_append fun entry hmem => (hless entry hmem).le, hsorted, List.take_add_one,
      hmigration, List.map_append]
    rfl

/-! ## Several scripts -/

/-- **What a run keeps**: the rows of the tables that the last version has, and the old history. -/
structure Migrates (db db' : SqlDatabase) : Prop where
  rows : ∀ name, (schemaAt 6).declared name ≠ none → db'.rows name = db.rows name
  legacy : db'.tables .legacyMigrations = db.tables .legacyMigrations

namespace Migrates

theorem refl : Migrates db db := ⟨fun _ _ => rfl, rfl⟩

theorem trans (h : Migrates db db') (h' : Migrates db' db'') : Migrates db db'' where
  rows name hname := (h'.rows name hname).trans (h.rows name hname)
  legacy := h'.legacy.trans h.legacy

/-- The history of the runner is no table of the schema. -/
theorem setHistory (history : Option Sql.Table) : Migrates db (db.set .kchatMigrations history) where
  rows name hname := by
    have hne : name ≠ .kchatMigrations := by
      rintro rfl
      exact hname rfl
    rw [Db.rows, Db.set_tables_of_ne hne, Db.rows]
  legacy := Db.set_tables_of_ne (by decide)

end Migrates

theorem Keeps.migrates (h : Keeps db db') : Migrates db db' :=
  ⟨h.rows, h.histories _ (.inl rfl)⟩

theorem Produced.setHistory (h : Produced k db) (history : Option Sql.Table) :
    Produced k (db.set .kchatMigrations history) where
  declared name hname := by
    rw [Db.declared, Db.set_tables_of_ne fun hkchat => hname (.inr hkchat)]
    exact h.declared name hname
  indexes := h.indexes

theorem Recorded.keeps {j : ℕ} (h : Recorded checksum j db) (hkeeps : Keeps db db') :
    Recorded checksum j db' := by
  obtain ⟨history, hhistory, h⟩ := h
  exact ⟨history, (hkeeps.histories _ (.inr rfl)).trans hhistory, h⟩

/-- A migration that runs is recorded. -/
theorem applyMigration_eq_ok {i : ℕ} {migration : Migration}
    (hmigration : migrations[i]? = some migration) (hrecorded : Recorded checksum i db)
    (hexec : execAll migration.script db = .ok db') (hkeeps : Keeps db db') :
    ∃ history, applyMigration checksum appliedOn migration db =
        .ok (db'.set .kchatMigrations (some history)) ∧
      Recorded checksum (i + 1) (db'.set .kchatMigrations (some history)) := by
  obtain ⟨_, hinsert, hrecorded', history, rfl⟩ :=
    recorded_insert appliedOn hmigration (hrecorded.keeps hkeeps)
  refine ⟨history, ?_, hrecorded'⟩
  rw [applyMigration, execAll_append, hexec]
  change (execAll [_] db').mapError _ = _
  rw [execAll, hinsert]
  rfl

/-- **The migrations from some version on**, over tables that may be of a later one. -/
theorem applyMissing_upgrades {recorded : List ℤ} (n : ℕ) {i : ℕ} (hn : i + n = 6)
    (hmissing : ∀ migration ∈ migrations.drop i, (migration.version : ℤ) ∉ recorded)
    (hi : i ≤ k) (hk : k ≤ max 5 i) (h : Produced k db) (hrecorded : Recorded checksum i db) :
    ∃ db', applyMissing checksum appliedOn recorded (migrations.drop i) db = .ok db' ∧
      Produced 6 db' ∧ Recorded checksum 6 db' ∧ Migrates db db' := by
  induction n generalizing i k db with
  | zero =>
    obtain rfl : i = 6 := hn
    obtain rfl : k = 6 := Nat.le_antisymm hk hi
    exact ⟨db, rfl, h, hrecorded, .refl⟩
  | succ n ih =>
    have hlt : i < migrations.length := by
      change i < 6
      omega
    have hk' : k ≤ 5 := by omega
    rw [List.drop_eq_getElem_cons hlt] at hmissing ⊢
    have hmigration : migrations[i]? = some migrations[i] := List.getElem?_eq_getElem hlt
    obtain ⟨db₁, hexec, hupgrades⟩ := script_upgrades hi hk' h hmigration
    obtain ⟨history, happly, hrecorded'⟩ :=
      applyMigration_eq_ok appliedOn hmigration hrecorded hexec hupgrades.toKeeps
    have hreplayed : i + 1 ≤ replayed (i + 1) k ∧ replayed (i + 1) k ≤ max 5 (i + 1) := by
      unfold replayed
      split_ifs <;> omega
    obtain ⟨db', hrest, hproduced, hrecorded'', hmigrates⟩ := ih (by omega)
      (fun migration hmem => hmissing migration (List.mem_cons_of_mem _ hmem)) hreplayed.1
      hreplayed.2 (hupgrades.produced.setHistory (some history)) hrecorded'
    refine ⟨db', ?_, hproduced, hrecorded'', ?_⟩
    · rw [applyMissing, if_neg (hmissing _ List.mem_cons_self), happly]
      exact hrest
    · exact (hupgrades.toKeeps.migrates.trans (.setHistory _)).trans hmigrates

/-- The migrations that are recorded are left out. -/
theorem applyMissing_recorded {j : ℕ} (hj : j ≤ 6) (db : SqlDatabase) :
    applyMissing checksum appliedOn (((migrations.take j).map (·.entry checksum)).map (·.1))
        migrations db =
      applyMissing checksum appliedOn (((migrations.take j).map (·.entry checksum)).map (·.1))
        (migrations.drop j) db := by
  interval_cases j <;> rfl

theorem not_recorded {j : ℕ} {migration : Migration} (hmem : migration ∈ migrations.drop j) :
    (migration.version : ℤ) ∉ ((migrations.take j).map (·.entry checksum)).map (·.1) := by
  intro hrecorded
  obtain ⟨entry, hentry, hversion⟩ := List.mem_map.mp hrecorded
  obtain ⟨migration', htake, rfl⟩ := List.mem_map.mp hentry
  obtain ⟨n, hn, hget⟩ := List.mem_drop_iff_getElem.mp hmem
  have hle := version_le_of_mem_take htake
  have hlater : migration.version = j + n + 1 :=
    version_of_getElem? ((List.getElem?_eq_getElem _).trans (congrArg some hget))
  change (migration'.version : ℤ) = _ at hversion
  omega

/-! ## The runner -/

variable {run : SqlDatabase → Except MigrationError SqlDatabase}
  (hrun : Runner.Lawful checksum appliedOn run)

include hrun in
theorem run_upgrades {j : ℕ} (hj : j ≤ k) (hk : k ≤ 5) (h : Produced k db)
    (hrecorded : Recorded checksum j db) :
    ∃ db', run db = .ok db' ∧ Produced 6 db' ∧ Recorded checksum 6 db' ∧ Migrates db db' := by
  rw [hrun.applies hrecorded, applyMissing_recorded appliedOn (by omega)]
  exact applyMissing_upgrades appliedOn (6 - j) (by omega) (fun _ => not_recorded) hj (by omega) h
    hrecorded

include hrun in
/-- Without a history of its own the runner starts from the first version. -/
theorem run_upgrades_none (hk : k ≤ 5) (h : Produced k db)
    (hnone : db.tables .kchatMigrations = none) :
    ∃ db', run db = .ok db' ∧ Produced 6 db' ∧ Recorded checksum 6 db' ∧ Migrates db db' := by
  have hrecorded : Recorded checksum 0
      (db.set .kchatMigrations (some (.empty historyDeclaration))) :=
    ⟨_, Db.set_tables_self, rfl, rfl⟩
  rw [hrun.asserts hnone]
  obtain ⟨db', hok, hproduced, hrecorded', hmigrates⟩ :=
    run_upgrades appliedOn hrun (Nat.zero_le k) hk (h.setHistory _) hrecorded
  exact ⟨db', hok, hproduced, hrecorded', (Migrates.setHistory _).trans hmigrates⟩

/-! ## The old history -/

/-- **The old history is taken over**: there is no other, and it has the first five versions. -/
def IsTakenOver (checksum : ℕ → ℕ) (db : SqlDatabase) : Prop :=
  db.tables .kchatMigrations = none ∧ ∃ legacy, db.tables .legacyMigrations = some legacy ∧
    historyEntries legacy = .ok (expectedMigrations checksum)

/-- **The old history cannot be used**: there is no other, and it lacks a column or has something
else than numbers and texts in one. -/
def IsUnusable (checksum : ℕ → ℕ) (db : SqlDatabase) : Prop :=
  db.tables .kchatMigrations = none ∧ ∃ legacy, db.tables .legacyMigrations = some legacy ∧
    (¬["version", "name", "checksum"] ⊆ legacy.declared.names ∨
      (∃ e, historyEntries legacy = .error e) ∨
      historyEntries legacy = .ok (expectedMigrations checksum) ∧
        "applied_on" ∉ legacy.declared.names)

/-- The rows of the old history in the columns of the new one. -/
def copiedHistory (legacy : Sql.Table) : List (List Value) :=
  legacy.rows.map
    (historyDeclaration.copied legacy.declared ["version", "name", "applied_on", "checksum"])

theorem historyEntry_copied {d : Declaration} {row : List Value} {entry : HistoryEntry}
    (h : historyEntry d row = .ok entry) :
    historyEntry historyDeclaration (historyDeclaration.copied d
      ["version", "name", "applied_on", "checksum"] row) = .ok entry := by
  obtain ⟨hversion, hname, hchecksum⟩ := historyEntry_eq_ok.mp h
  apply historyEntry_eq_ok.mpr
  refine ⟨?_, ?_, ?_⟩
  · change some (Affinity.store .integer ((d.value row "version").getD .null)) = _
    rw [hversion]
    rfl
  · change some (Affinity.store .text ((d.value row "name").getD .null)) = _
    rw [hname]
    rfl
  · change some (Affinity.store .text ((d.value row "checksum").getD .null)) = _
    rw [hchecksum]
    rfl

theorem mapM_copiedHistory {d : Declaration} {rows : List (List Value)} {read : List HistoryEntry}
    (h : rows.mapM (historyEntry d) = .ok read) :
    (rows.map (historyDeclaration.copied d ["version", "name", "applied_on", "checksum"])).mapM
      (historyEntry historyDeclaration) = .ok read := by
  induction rows generalizing read with
  | nil => exact h
  | cons row rows ih =>
    obtain ⟨entry, read, hentry, hread, rfl⟩ := mapM_cons_eq_ok h
    rw [List.map_cons, List.mapM_cons, historyEntry_copied hentry, ih hread]
    rfl

/-- Rows with different versions are a history. -/
theorem historyDeclaration_admissible {rows : List (List Value)} {read : List HistoryEntry}
    (hfits : ∀ row ∈ rows, historyDeclaration.Fits row)
    (h : rows.mapM (historyEntry historyDeclaration) = .ok read)
    (hnodup : (read.map (·.1)).Nodup) : historyDeclaration.Admissible rows := by
  refine ⟨hfits, ?_⟩
  clear hfits
  induction rows generalizing read with
  | nil => exact .nil
  | cons row rows ih =>
    obtain ⟨entry, read, hentry, hread, rfl⟩ := mapM_cons_eq_ok h
    rw [List.map_cons, List.nodup_cons] at hnodup
    refine .cons (fun row' hmem => ?_) (ih hread hnodup.2)
    obtain ⟨entry', hentry'⟩ := ok_of_mapM hread hmem
    have hmem' : entry' ∈ read := (mem_of_mapM hread).mpr ⟨row', hmem, hentry'⟩
    apply historyDeclaration_distinct hentry hentry'
    intro hversion
    exact hnodup.1 (List.mem_map.mpr ⟨entry', hmem', hversion.symm⟩)

theorem copied_fits (d : Declaration) (row : List Value) :
    historyDeclaration.Fits (historyDeclaration.copied d
      ["version", "name", "applied_on", "checksum"] row) := by
  have hadmits : ∀ (name : String) (affinity : Affinity) (value : Value),
      (Column.mk name affinity false none).admits value = true := by
    intro name affinity value
    cases value <;> rfl
  exact .cons (hadmits _ _ _) (.cons (hadmits _ _ _) (.cons (hadmits _ _ _)
    (.cons (hadmits _ _ _) .nil)))

/-- **A history of the first five versions is copied**, and is one for the runner. -/
theorem copyHistory_spec {legacy : Sql.Table} (hnone : db.tables .kchatMigrations = none)
    (hlegacy : db.tables .legacyMigrations = some legacy)
    (hentries : historyEntries legacy = .ok (expectedMigrations checksum))
    (hnames : ["version", "name", "applied_on", "checksum"] ⊆ legacy.declared.names) :
    ∃ history, execAll [.createTable false .kchatMigrations historyDeclaration,
        .insertSelect .kchatMigrations ["version", "name", "applied_on", "checksum"]
          .legacyMigrations] db = .ok (db.set .kchatMigrations (some history)) ∧
      Recorded checksum 5 (db.set .kchatMigrations (some history)) ∧
      history.rows = copiedHistory legacy := by
  obtain ⟨read, hread, hsorted⟩ := historyEntries_eq_ok.mp hentries
  have hcopied := mapM_copiedHistory hread
  have hnodup : (read.map (·.1)).Nodup := by
    have hperm : (sortHistory read).Perm read := List.perm_insertionSort _ _
    rw [← (hperm.map (·.1)).nodup_iff, hsorted]
    change [(1 : ℤ), 2, 3, 4, 5].Nodup
    decide
  have hadmissible : historyDeclaration.Admissible (copiedHistory legacy) := by
    refine historyDeclaration_admissible (fun row hmem => ?_) hcopied hnodup
    obtain ⟨row', -, rfl⟩ := List.mem_map.mp hmem
    exact copied_fits _ _
  refine ⟨⟨historyDeclaration, copiedHistory legacy, hadmissible⟩, ?_, ⟨_, Db.set_tables_self, rfl,
    historyEntries_eq_ok.mpr ⟨read, hcopied, hsorted⟩⟩, rfl⟩
  have hcreate : (Sql.Statement.createTable false .kchatMigrations historyDeclaration).exec db =
      .ok (db.set .kchatMigrations (some (.empty historyDeclaration))) := by
    rw [Sql.Statement.exec, hnone]
  have hinsert : (Sql.Statement.insertSelect .kchatMigrations
      ["version", "name", "applied_on", "checksum"] .legacyMigrations).exec
        (db.set .kchatMigrations (some (.empty historyDeclaration))) =
          .ok ((db.set .kchatMigrations (some (.empty historyDeclaration))).set .kchatMigrations
            (some ⟨historyDeclaration, copiedHistory legacy, hadmissible⟩)) :=
    exec_insertSelect Db.set_tables_self ((Db.set_tables_of_ne (by decide)).trans hlegacy)
      (List.Subset.refl _) hnames (Table.insert_empty hadmissible)
  rw [execAll, hcreate]
  change execAll [_] _ = _
  rw [execAll, hinsert, Db.set_set]
  rfl

/-- An old history that is read, with all of the columns that are asked for first. -/
theorem bootstrap_of_entries {legacy : Sql.Table} {entries : List HistoryEntry}
    (hnone : db.tables .kchatMigrations = none) (hlegacy : db.tables .legacyMigrations = some legacy)
    (hnames : ["version", "name", "checksum"] ⊆ legacy.declared.names)
    (hentries : historyEntries legacy = .ok entries) :
    bootstrapLegacyKchatMigrationHistory checksum db =
      if entries = expectedMigrations checksum then
        migrationErr "failed to create KChat migration history table" (execAll
          [.createTable false .kchatMigrations historyDeclaration,
            .insertSelect .kchatMigrations ["version", "name", "applied_on", "checksum"]
              .legacyMigrations] db)
      else .ok db := by
  unfold bootstrapLegacyKchatMigrationHistory
  rw [hnone, hlegacy]
  change (do migrationErr _ (selects _ legacy); _ : Except MigrationError SqlDatabase) = _
  rw [selects, if_pos hnames, hentries]
  rfl

/-- One that cannot be used is an error. -/
theorem bootstrap_of_unusable (h : IsUnusable checksum db) :
    ∃ e, bootstrapLegacyKchatMigrationHistory checksum db = .error e := by
  obtain ⟨hnone, legacy, hlegacy, h⟩ := h
  by_cases hnames : ["version", "name", "checksum"] ⊆ legacy.declared.names
  · cases hentries : historyEntries legacy with
    | error e =>
      refine ⟨.connection "failed to collect legacy migration history" e, ?_⟩
      unfold bootstrapLegacyKchatMigrationHistory
      rw [hnone, hlegacy]
      change (do migrationErr _ (selects _ legacy); _ : Except MigrationError SqlDatabase) = _
      rw [selects, if_pos hnames, hentries]
      rfl
    | ok entries =>
      rw [hentries] at h
      obtain ⟨hexpected, happlied⟩ := (h.resolve_left (not_not.mpr hnames)).resolve_left
        fun ⟨_, he⟩ => (nomatch he)
      refine ⟨.connection "failed to create KChat migration history table" .noSuchColumn, ?_⟩
      rw [bootstrap_of_entries hnone hlegacy hnames hentries, if_pos (Except.ok.inj hexpected)]
      have hcreate : (Sql.Statement.createTable false .kchatMigrations historyDeclaration).exec
          db = .ok (db.set .kchatMigrations (some (.empty historyDeclaration))) := by
        rw [Sql.Statement.exec, hnone]
      rw [execAll, hcreate]
      change migrationErr _ (execAll [_] _) = _
      rw [execAll, Sql.Statement.exec, Db.set_tables_self, Db.set_tables_of_ne (by decide), hlegacy]
      change migrationErr _ ((if _ then _ else _ : Except SqlError SqlDatabase) >>= _) = _
      rw [if_neg fun hall => happlied (hall.2 (by decide))]
      rfl
  · refine ⟨.connection "failed to read legacy migration history" .noSuchColumn, ?_⟩
    unfold bootstrapLegacyKchatMigrationHistory
    rw [hnone, hlegacy]
    change (do migrationErr _ (selects _ legacy); _ : Except MigrationError SqlDatabase) = _
    rw [selects, if_neg hnames]
    rfl

/-- One that can be used and is taken over. -/
theorem bootstrap_of_takenOver (h : IsTakenOver checksum db) (husable : ¬IsUnusable checksum db) :
    ∃ legacy history, db.tables .legacyMigrations = some legacy ∧
      bootstrapLegacyKchatMigrationHistory checksum db =
        .ok (db.set .kchatMigrations (some history)) ∧
      Recorded checksum 5 (db.set .kchatMigrations (some history)) ∧
      history.rows = copiedHistory legacy := by
  obtain ⟨hnone, legacy, hlegacy, hentries⟩ := h
  have hnames : ["version", "name", "checksum"] ⊆ legacy.declared.names := by
    by_contra hnames
    exact husable ⟨hnone, legacy, hlegacy, .inl hnames⟩
  have happlied : "applied_on" ∈ legacy.declared.names := by
    by_contra happlied
    exact husable ⟨hnone, legacy, hlegacy, .inr (.inr ⟨hentries, happlied⟩)⟩
  have hall : ["version", "name", "applied_on", "checksum"] ⊆ legacy.declared.names := by
    intro name hname
    by_cases h : name = "applied_on"
    · rw [h]
      exact happlied
    · apply hnames
      simp only [List.mem_cons] at hname ⊢
      tauto
  obtain ⟨history, hexec, hrecorded, hrows⟩ := copyHistory_spec hnone hlegacy hentries hall
  refine ⟨legacy, history, hlegacy, ?_, hrecorded, hrows⟩
  rw [bootstrap_of_entries hnone hlegacy hnames hentries, if_pos rfl, hexec]
  rfl

/-- All others are left alone. -/
theorem bootstrap_of_other (h : ¬IsTakenOver checksum db) (husable : ¬IsUnusable checksum db) :
    bootstrapLegacyKchatMigrationHistory checksum db = .ok db := by
  cases hnone : db.tables .kchatMigrations with
  | some history =>
    rw [bootstrapLegacyKchatMigrationHistory, hnone]
    rfl
  | none =>
    cases hlegacy : db.tables .legacyMigrations with
    | none =>
      rw [bootstrapLegacyKchatMigrationHistory, hnone, hlegacy]
      rfl
    | some legacy =>
      have hnames : ["version", "name", "checksum"] ⊆ legacy.declared.names := by
        by_contra hnames
        exact husable ⟨hnone, legacy, hlegacy, .inl hnames⟩
      cases hentries : historyEntries legacy with
      | error e => exact absurd ⟨hnone, legacy, hlegacy, .inr (.inl ⟨e, hentries⟩)⟩ husable
      | ok entries =>
        rw [bootstrap_of_entries hnone hlegacy hnames hentries, if_neg]
        rintro rfl
        exact h ⟨hnone, legacy, hlegacy, hentries⟩

/-! ## Whole runs -/

include hrun in
/-- With the first five versions recorded only the last script is run. -/
theorem run_lastVersion (hk : k ≤ 5) (h : Produced k db) (hrecorded : Recorded checksum 5 db) :
    ∃ db', run db = .ok db' ∧ (Produced 6 db' ↔ k = 5) ∧
      Recorded checksum 6 db' ∧ Migrates db db' := by
  obtain ⟨db₁, hexec, hkeeps, hdeclared, hindexes⟩ := decryptedMessages_keeps hk h
  have hmigration : migrations[5]? = some ⟨6, "decrypted_application_messages",
      createTables decryptedMessagesTables ++ createExpiresAtIndex⟩ := rfl
  obtain ⟨history, happly, hrecorded'⟩ :=
    applyMigration_eq_ok appliedOn hmigration hrecorded hexec hkeeps
  refine ⟨_, ?_, ?_, hrecorded', hkeeps.migrates.trans (.setHistory _)⟩
  · rw [hrun.applies hrecorded, applyMissing_recorded appliedOn (by decide)]
    change applyMissing checksum appliedOn _ [_] db = _
    rw [applyMissing, if_neg (not_recorded (List.mem_singleton_self _)), happly]
    rfl
  have hdeclared' : ∀ name, ¬IsHistory name →
      (db₁.set .kchatMigrations (some history)).declared name =
        ((schemaAt k).declared name).or (decryptedMessagesTables.lookup name) := by
    intro name hname
    rw [← hdeclared name hname, Db.declared, Db.set_tables_of_ne fun h => hname (.inr h), Db.declared]
  constructor
  · intro hproduced
    by_contra hne
    -- a table is missing, or one is left
    have hstate := (hdeclared' .epochMigrationState (by decide)).symm.trans
      (hproduced.declared .epochMigrationState (by decide))
    have hmeta := (hdeclared' .groupEpochMeta (by decide)).symm.trans
      (hproduced.declared .groupEpochMeta (by decide))
    interval_cases k
    · cases hstate
    · cases hstate
    · cases hstate
    · cases hstate
    · cases hmeta
    · exact hne rfl
  · rintro rfl
    refine ⟨fun name hname => ?_, hindexes⟩
    rw [hdeclared' name hname]
    cases name <;> rfl

include hrun in
/-- **There is nothing left to do** once all versions are recorded. -/
theorem runMigrations_of_recorded (h : Recorded checksum 6 db) :
    SqliteStorageProvider.runMigrations checksum run db = .ok db := by
  have hbootstrap : bootstrapLegacyKchatMigrationHistory checksum db = .ok db := by
    obtain ⟨history, hhistory, -⟩ := h
    rw [bootstrapLegacyKchatMigrationHistory, hhistory]
    rfl
  rw [SqliteStorageProvider.runMigrations, hbootstrap]
  change run db = _
  rw [hrun.applies h, applyMissing_recorded appliedOn (by decide)]
  rfl

/-- **The migrations of the schema**, over any rows and any old history: they fail exactly if the
old history cannot be used. Otherwise the schema is the last one, unless an old history that is
taken over is not that of the tables; the rows of the tables that the last version has are what they
were, and so is the old history; it is copied exactly if it is taken over; and a second run changes
nothing. -/
theorem runMigrations_exact (checksum : ℕ → ℕ) (appliedOn : ℕ → String)
    (run : SqlDatabase → Except MigrationError SqlDatabase)
    (hrun : Runner.Lawful checksum appliedOn run) (hk : k ≤ 5) (h : Produced k db)
    (hhistory : db.tables .kchatMigrations = none ∨ ∃ j ≤ k, Recorded checksum j db) :
    (IsUnusable checksum db ↔
        ∃ e, SqliteStorageProvider.runMigrations checksum run db = .error e) ∧
      ∀ db', SqliteStorageProvider.runMigrations checksum run db = .ok db' →
        (Produced 6 db' ↔ (IsTakenOver checksum db → k = 5)) ∧
        (∀ name, (schemaAt 6).declared name ≠ none → db'.rows name = db.rows name) ∧
        db'.tables .legacyMigrations = db.tables .legacyMigrations ∧
        (IsTakenOver checksum db → ∃ legacy history, db.tables .legacyMigrations = some legacy ∧
          bootstrapLegacyKchatMigrationHistory checksum db =
            .ok (db.set .kchatMigrations (some history)) ∧
          history.rows = copiedHistory legacy) ∧
        (¬IsTakenOver checksum db → bootstrapLegacyKchatMigrationHistory checksum db = .ok db) ∧
        ∀ appliedOn' run', Runner.Lawful checksum appliedOn' run' →
          SqliteStorageProvider.runMigrations checksum run' db' = .ok db' := by
  have hboth : SqliteStorageProvider.runMigrations checksum run db =
      (bootstrapLegacyKchatMigrationHistory checksum db).bind run := rfl
  by_cases hunusable : IsUnusable checksum db
  · obtain ⟨e, he⟩ := bootstrap_of_unusable hunusable
    rw [hboth, he]
    exact ⟨⟨fun _ => ⟨e, rfl⟩, fun _ => hunusable⟩, fun db' h => (nomatch h)⟩
  by_cases htaken : IsTakenOver checksum db
  · obtain ⟨legacy, history, hlegacy, hbootstrap, hrecorded, hrows⟩ :=
      bootstrap_of_takenOver htaken hunusable
    obtain ⟨db', hok, hproduced, hrecorded', hmigrates⟩ :=
      run_lastVersion appliedOn hrun hk (h.setHistory (some history)) hrecorded
    have hmigrates' := (Migrates.setHistory (some history)).trans hmigrates
    rw [hboth, hbootstrap]
    refine ⟨⟨fun h => absurd h hunusable, fun ⟨e, he⟩ => ?_⟩, fun db'' hok' => ?_⟩
    · change run _ = _ at he
      rw [hok] at he
      cases he
    · change run _ = _ at hok'
      rw [hok] at hok'
      cases hok'
      refine ⟨?_, hmigrates'.rows, hmigrates'.legacy,
        fun _ => ⟨legacy, history, hlegacy, rfl, hrows⟩, fun h => absurd htaken h,
        fun _ _ hrun' => runMigrations_of_recorded _ hrun' hrecorded'⟩
      rw [hproduced]
      exact ⟨fun hfive _ => hfive, fun hfive => hfive htaken⟩
  · have hbootstrap := bootstrap_of_other htaken hunusable
    obtain ⟨db', hok, hproduced, hrecorded', hmigrates⟩ : ∃ db',
        run db = .ok db' ∧ Produced 6 db' ∧
          Recorded checksum 6 db' ∧ Migrates db db' := by
      rcases hhistory with hnone | ⟨j, hj, hrecorded⟩
      · exact run_upgrades_none appliedOn hrun hk h hnone
      · exact run_upgrades appliedOn hrun hj hk h hrecorded
    rw [hboth, hbootstrap]
    refine ⟨⟨fun h => absurd h hunusable, fun ⟨e, he⟩ => ?_⟩, fun db'' hok' => ?_⟩
    · change run _ = _ at he
      rw [hok] at he
      cases he
    · change run _ = _ at hok'
      rw [hok] at hok'
      cases hok'
      exact ⟨⟨fun _ h => absurd h htaken, fun _ => hproduced⟩, hmigrates.rows, hmigrates.legacy,
        fun h => absurd h htaken, fun _ => rfl,
        fun _ _ hrun' => runMigrations_of_recorded _ hrun' hrecorded'⟩

/-! ## Three databases -/

/-- A runner that is lawful. -/
def plainRunner (db : SqlDatabase) : Except MigrationError SqlDatabase := do
  let db ← migrationErr "error asserting migrations table"
    ((Sql.Statement.createTable true .kchatMigrations historyDeclaration).exec db)
  match db.tables .kchatMigrations with
  | none => .error (.connection "error getting applied migrations" .noSuchTable)
  | some history =>
    let entries ← migrationErr "error getting applied migrations" (historyEntries history)
    applyMissing (fun _ => 0) (fun _ => "") (entries.map (·.1)) migrations db

theorem plainRunner_lawful : Runner.Lawful (fun _ => 0) (fun _ => "") plainRunner where
  asserts := by
    intro db hnone
    have hassert : (Sql.Statement.createTable true .kchatMigrations historyDeclaration).exec db =
        .ok (db.set .kchatMigrations (some (.empty historyDeclaration))) := by
      rw [Sql.Statement.exec, hnone]
    rw [plainRunner, hassert, plainRunner, Sql.Statement.exec, Db.set_tables_self]
    rfl
  applies := by
    rintro db j ⟨history, hhistory, -, hentries⟩
    have hassert : (Sql.Statement.createTable true .kchatMigrations historyDeclaration).exec db =
        .ok db := by
      rw [Sql.Statement.exec, hhistory]
      rfl
    simp only [plainRunner, hassert, migrationErr, Except.mapError, bind, Except.bind, hhistory,
      hentries]

/-- The fifth version with a row of group data, and the history that an older release wrote. -/
def fifthVersion : SqlDatabase :=
  ((schemaAt 5).set .groupData (some
    { declared := groupDataDeclaration allDataTypes
      rows := [[.integer 1, .blob [1], .text "tree", .blob [7]]]
      admissible := by decide })).set .legacyMigrations (some
    { declared := historyDeclaration
      rows := (migrations.take 5).map fun migration => [.integer migration.version,
        .text migration.name, .text "2025-01-01T00:00:00Z", .text "0"]
      admissible := by decide +kernel })

theorem fifthVersion_produced : Produced 5 fifthVersion where
  declared name hname := by
    cases name
    case legacyMigrations => exact absurd (.inl rfl) hname
    all_goals rfl
  indexes := rfl

theorem runMigrations_fifthVersion : ∃ db',
    SqliteStorageProvider.runMigrations (fun _ => 0) plainRunner fifthVersion = .ok db' ∧
      Produced 6 db' ∧ db'.rows .groupData = [[.integer 1, .blob [1], .text "tree", .blob [7]]] := by
  obtain ⟨hunusable, hok⟩ := runMigrations_exact (fun _ => 0) (fun _ => "") plainRunner
    plainRunner_lawful (Nat.le_refl 5) fifthVersion_produced (.inl rfl)
  cases hrun : SqliteStorageProvider.runMigrations (fun _ => 0) plainRunner fifthVersion with
  | error e =>
    have hsome : (SqliteStorageProvider.runMigrations (fun _ => 0) plainRunner
        fifthVersion).toOption.isSome = true := by decide +kernel
    rw [hrun] at hsome
    cases hsome
  | ok db' =>
    obtain ⟨hproduced, hrows, -⟩ := hok db' hrun
    exact ⟨db', rfl, hproduced.mpr fun _ => rfl, hrows .groupData (by decide)⟩

/-- The migrations succeed and leave the schema of the last version. -/
def EndsWithLastVersion (db : SqlDatabase) : Prop :=
  ∃ db', SqliteStorageProvider.runMigrations (fun _ => 0) plainRunner db = .ok db' ∧ Produced 6 db'

/-- No tables but an old history, whose row has no name. -/
def namelessHistory : SqlDatabase :=
  Db.empty.set .legacyMigrations (some
    { declared := historyDeclaration
      rows := [[.integer 1, .null, .null, .null]]
      admissible := by decide })

/-- No tables but the old history of the fifth version. -/
def historyWithoutTables : SqlDatabase :=
  Db.empty.set .legacyMigrations (fifthVersion.tables .legacyMigrations)

/-- **Not every old history** ends with the last version: one that cannot be read is an error, and
one that is not that of the tables is believed. -/
theorem not_every_history :
    (Produced 0 namelessHistory ∧ ¬EndsWithLastVersion namelessHistory) ∧
      Produced 0 historyWithoutTables ∧ ¬EndsWithLastVersion historyWithoutTables := by
  refine ⟨⟨⟨fun name hname => ?_, rfl⟩, ?_⟩, ⟨fun name hname => ?_, rfl⟩, ?_⟩
  · cases name
    case legacyMigrations => exact absurd (.inl rfl) hname
    all_goals rfl
  · rintro ⟨db', hrun, -⟩
    have hnone : (SqliteStorageProvider.runMigrations (fun _ => 0) plainRunner
        namelessHistory).toOption.isNone = true := by decide +kernel
    rw [hrun] at hnone
    cases hnone
  · cases name
    case legacyMigrations => exact absurd (.inl rfl) hname
    all_goals rfl
  · rintro ⟨db', hrun, hproduced⟩
    have hmissing : (SqliteStorageProvider.runMigrations (fun _ => 0) plainRunner
        historyWithoutTables).toOption.bind (fun db => db.declared .groupData) = none := by
      decide +kernel
    rw [hrun] at hmissing
    have hdeclared := hproduced.declared .groupData (by decide)
    rw [show db'.declared .groupData = none from hmissing] at hdeclared
    cases hdeclared

end KChat.Storage
