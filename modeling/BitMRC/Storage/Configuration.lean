import BitMRC.Foundation.Statement
import Mathlib.Data.List.Induction

/-!
# Configuration: `class Configuration`, `class StorableConfiguration`

The fields of `system_config_t`, their setters and getters, and the statements that
store them.  The setter of the second stream writes the field of the fourth, and the
getter of the last startup's result returns its time.
-/

namespace BitMRC

open Foundation

/-- `system_config_t`, zeroed by the constructor. -/
structure Configuration where
  nodeId : UInt32 := 0
  workingMode : UInt32 := 0
  networkingFlags : UInt32 := 0
  streamId1 : UInt32 := 0
  streamId2 : UInt32 := 0
  streamId3 : UInt32 := 0
  streamId4 : UInt32 := 0
  lastStartupTimestamp : UInt32 := 0
  lastStartupResult : UInt32 := 0
  databaseVersion : UInt32 := 0
  deriving DecidableEq

namespace Configuration

/-! ## Setters and getters -/

def setNodeId (cfg : Configuration) (id : UInt32) : Configuration := { cfg with nodeId := id }

def setWorkingMode (cfg : Configuration) (mode : UInt32) : Configuration :=
  { cfg with workingMode := mode }

def setNetworkingFlags (cfg : Configuration) (flags : UInt32) : Configuration :=
  { cfg with networkingFlags := flags }

def setStreamId1 (cfg : Configuration) (stream : UInt32) : Configuration :=
  { cfg with streamId1 := stream }

/-- Writes the field of the fourth stream. -/
def setStreamId2 (cfg : Configuration) (stream : UInt32) : Configuration :=
  { cfg with streamId4 := stream }

def setStreamId3 (cfg : Configuration) (stream : UInt32) : Configuration :=
  { cfg with streamId3 := stream }

def setStreamId4 (cfg : Configuration) (stream : UInt32) : Configuration :=
  { cfg with streamId4 := stream }

def setLastStartupTime (cfg : Configuration) (time : UInt32) : Configuration :=
  { cfg with lastStartupTimestamp := time }

def setLastStartupResult (cfg : Configuration) (res : UInt32) : Configuration :=
  { cfg with lastStartupResult := res }

def setDatabaseVersion (cfg : Configuration) (v : UInt32) : Configuration :=
  { cfg with databaseVersion := v }

def getNodeId (cfg : Configuration) : UInt32 := cfg.nodeId

def getWorkingMode (cfg : Configuration) : UInt32 := cfg.workingMode

def getNetworkingFlags (cfg : Configuration) : UInt32 := cfg.networkingFlags

def getStreamId1 (cfg : Configuration) : UInt32 := cfg.streamId1

def getStreamId2 (cfg : Configuration) : UInt32 := cfg.streamId2

def getStreamId3 (cfg : Configuration) : UInt32 := cfg.streamId3

def getStreamId4 (cfg : Configuration) : UInt32 := cfg.streamId4

def getLastStartupTime (cfg : Configuration) : UInt32 := cfg.lastStartupTimestamp

/-- Returns the time. -/
def getLastStartupResult (cfg : Configuration) : UInt32 := cfg.lastStartupTimestamp

def getDatabaseVersion (cfg : Configuration) : UInt32 := cfg.databaseVersion

/-! ## Statements -/

/-- `get_update_query_mysql`. -/
def getUpdateQueryMysql (behind : UInt32) (cfg : Configuration) : List Char :=
  sprintf behind.toNat
    "call save_system_table (%u,%u,%u,%u,%u,%u,%u,%u,%u, \"DEFAULT_CONFIG\" );".toList
    ([cfg.getNodeId, cfg.getWorkingMode, cfg.getNetworkingFlags, cfg.getStreamId1,
      cfg.getStreamId2, cfg.getStreamId3, cfg.getStreamId4, cfg.getLastStartupResult,
      cfg.getDatabaseVersion].map UInt32.toNat)

/-- `get_update_query_sqlite3`; ten conversions and nine arguments. -/
def getUpdateQuerySqlite3 (behind : UInt32) (cfg : Configuration) : List Char :=
  sprintf behind.toNat
    ("insert into system ".toList ++
      ("(node_id, working_mode, networking_flags, stream_id1, stream_id2, stream_id3, ".toList ++
      ("stream_id4, last_startup_timestamp, last_startup_result, database_version,".toList ++
      ("config_name) ".toList ++
      "values (%u,%u,%u,%u,%u,%u,%u,%u,%u,%u,\"DEFAULT_CONFIG\");".toList))))
    ([cfg.getWorkingMode, cfg.getNetworkingFlags, cfg.getStreamId1, cfg.getStreamId2,
      cfg.getStreamId3, cfg.getStreamId4, cfg.getLastStartupTime, cfg.getLastStartupResult,
      cfg.getDatabaseVersion].map UInt32.toNat)

/-! ## Columns and parameters -/

/-- The ten settings. -/
inductive Setting where
  | nodeId
  | workingMode
  | networkingFlags
  | streamId1
  | streamId2
  | streamId3
  | streamId4
  | lastStartupTime
  | lastStartupResult
  | databaseVersion
  deriving DecidableEq

/-- The setter of a setting. -/
def set (cfg : Configuration) (value : UInt32) : Setting → Configuration
  | .nodeId => cfg.setNodeId value
  | .workingMode => cfg.setWorkingMode value
  | .networkingFlags => cfg.setNetworkingFlags value
  | .streamId1 => cfg.setStreamId1 value
  | .streamId2 => cfg.setStreamId2 value
  | .streamId3 => cfg.setStreamId3 value
  | .streamId4 => cfg.setStreamId4 value
  | .lastStartupTime => cfg.setLastStartupTime value
  | .lastStartupResult => cfg.setLastStartupResult value
  | .databaseVersion => cfg.setDatabaseVersion value

/-- The column of the table `system`. -/
def Setting.column : Setting → String
  | .nodeId => "node_id"
  | .workingMode => "working_mode"
  | .networkingFlags => "networking_flags"
  | .streamId1 => "stream_id1"
  | .streamId2 => "stream_id2"
  | .streamId3 => "stream_id3"
  | .streamId4 => "stream_id4"
  | .lastStartupTime => "last_startup_timestamp"
  | .lastStartupResult => "last_startup_result"
  | .databaseVersion => "database_version"

/-- The parameter of `save_system_table`, where there is one. -/
def Setting.parameter (setting : Setting) : String := setting.column ++ "_in"

/-- The parameters of `save_system_table` in their order. -/
def saveSystemTable : List String :=
  ["node_id_in", "working_mode_in", "networking_flags_in", "stream_id1_in", "stream_id2_in",
    "stream_id3_in", "stream_id4_in", "last_startup_result_in", "database_version_in",
    "config_name_in"]

/-- What an `insert` puts into a column. -/
def inserted (statement : List Char) (column : String) : Option (List Char) :=
  let (columns, rest) := parenthesised statement
  let (values, _) := parenthesised rest
  ((items columns).zip (items values)).lookup column.toList

/-- What a `call` passes to a parameter. -/
def passed (statement : List Char) (parameter : String) : Option (List Char) :=
  (saveSystemTable.zip (items (parenthesised statement).1)).lookup parameter

/-! ## What the statements hold -/

/-- The text of the list of values. -/
theorem sprintf_mysql (behind : Nat) (a b c d e f g h i : Nat) :
    sprintf behind
        "call save_system_table (%u,%u,%u,%u,%u,%u,%u,%u,%u, \"DEFAULT_CONFIG\" );".toList
        [a, b, c, d, e, f, g, h, i] =
      "call save_system_table ".toList ++ '(' ::
        ([','].intercalate ([a, b, c, d, e, f, g, h, i].map decimal ++
          [" \"DEFAULT_CONFIG\" ".toList]) ++ ')' :: ";".toList) := by
  simp [sprintf, List.intercalate]

/-- The tenth conversion takes what lies behind the arguments. -/
theorem sprintf_sqlite3 (behind : Nat) (a b c d e f g h i : Nat) :
    sprintf behind "values (%u,%u,%u,%u,%u,%u,%u,%u,%u,%u,\"DEFAULT_CONFIG\");".toList
        [a, b, c, d, e, f, g, h, i] =
      "values ".toList ++ '(' ::
        ([','].intercalate ([a, b, c, d, e, f, g, h, i, behind].map decimal ++
          ["\"DEFAULT_CONFIG\"".toList]) ++ ')' :: ";".toList) := by
  simp [sprintf, List.intercalate]

/-- The value that the statement has for a setting, in the order of the arguments. -/
def mysqlValue (cfg : Configuration) : Setting → UInt32
  | .nodeId => cfg.getNodeId
  | .workingMode => cfg.getWorkingMode
  | .networkingFlags => cfg.getNetworkingFlags
  | .streamId1 => cfg.getStreamId1
  | .streamId2 => cfg.getStreamId2
  | .streamId3 => cfg.getStreamId3
  | .streamId4 => cfg.getStreamId4
  | .lastStartupTime => cfg.getLastStartupTime
  | .lastStartupResult => cfg.getLastStartupResult
  | .databaseVersion => cfg.getDatabaseVersion

theorem passed_mysql (behind : UInt32) (cfg : Configuration) {setting : Setting}
    (parameter : setting ≠ .lastStartupTime) :
    passed (getUpdateQueryMysql behind cfg) setting.parameter =
      some (decimal (mysqlValue cfg setting).toNat) := by
  unfold passed getUpdateQueryMysql
  simp only [List.map_cons, List.map_nil]
  rw [sprintf_mysql, parenthesised_decimal (by decide) (by decide), items_decimal _ _ (by decide)]
  cases setting with
  | lastStartupTime => exact absurd rfl parameter
  | _ => rfl

/-- Every column gets the value of the next one, and the last one what lies behind. -/
def sqlite3Value (behind : UInt32) (cfg : Configuration) : Setting → UInt32
  | .nodeId => cfg.getWorkingMode
  | .workingMode => cfg.getNetworkingFlags
  | .networkingFlags => cfg.getStreamId1
  | .streamId1 => cfg.getStreamId2
  | .streamId2 => cfg.getStreamId3
  | .streamId3 => cfg.getStreamId4
  | .streamId4 => cfg.getLastStartupTime
  | .lastStartupTime => cfg.getLastStartupResult
  | .lastStartupResult => cfg.getDatabaseVersion
  | .databaseVersion => behind

/-- The columns of the statement. -/
def columnList : List (List Char) :=
  ["node_id", " working_mode", " networking_flags", " stream_id1", " stream_id2", " stream_id3",
    " stream_id4", " last_startup_timestamp", " last_startup_result", " database_version",
    "config_name"].map String.toList

theorem columnList_text (rest : List Char) :
    "(node_id, working_mode, networking_flags, stream_id1, stream_id2, stream_id3, ".toList ++
        ("stream_id4, last_startup_timestamp, last_startup_result, database_version,".toList ++
          ("config_name) ".toList ++ rest)) =
      '(' :: ([','].intercalate columnList ++ ')' :: (" ".toList ++ rest)) := by
  simp [columnList, List.intercalate]

theorem inserted_sqlite3 (behind : UInt32) (cfg : Configuration) (setting : Setting) :
    inserted (getUpdateQuerySqlite3 behind cfg) setting.column =
      some (decimal (sqlite3Value behind cfg setting).toNat) := by
  have columns : items ([','].intercalate columnList) = columnList.map trim :=
    items_intercalate (by decide) (by decide)
  have blank (rest : List Char) : ')' :: (" ".toList ++ ("values ".toList ++ rest)) =
      ") values ".toList ++ rest := rfl
  unfold inserted getUpdateQuerySqlite3
  simp only [List.map_cons, List.map_nil]
  rw [sprintf_text (by decide), sprintf_text (by decide), sprintf_text (by decide),
    sprintf_text (by decide), sprintf_sqlite3, columnList_text,
    parenthesised_eq (by decide) (by decide)]
  simp only
  rw [blank, parenthesised_decimal (by decide) (by decide)]
  simp only
  rw [columns, items_decimal _ _ (by decide)]
  cases setting <;> rfl

/-! ## Histories of setter calls -/

/-- The configuration after some calls. -/
def after (calls : List (Setting × UInt32)) : Configuration :=
  calls.foldl (fun cfg call => cfg.set call.2 call.1) {}

/-- The value of the last call of one of some setters, 0 without such a call. -/
def lastSet (setters : Setting → Bool) (calls : List (Setting × UInt32)) : UInt32 :=
  (((calls.filter fun call => setters call.1).getLast?).map Prod.snd).getD 0

theorem lastSet_append (setters : Setting → Bool) (calls : List (Setting × UInt32))
    (setting : Setting) (value : UInt32) :
    lastSet setters (calls ++ [(setting, value)]) =
      if setters setting then value else lastSet setters calls := by
  unfold lastSet
  rw [List.filter_append]
  cases written : setters setting with
  | true => simp [written]
  | false => simp [written]

/-- A field holds what its setters have written last. -/
theorem read_after (read : Configuration → UInt32) {setters : Setting → Bool}
    (starts : read {} = 0)
    (writes : ∀ cfg setting value,
      read (set cfg value setting) = if setters setting then value else read cfg)
    (calls : List (Setting × UInt32)) : read (after calls) = lastSet setters calls := by
  induction calls using List.reverseRecOn with
  | nil => exact starts
  | append_singleton calls call ih =>
      rw [after, List.foldl_append, lastSet_append, ← ih]
      exact writes (after calls) call.1 call.2

/-- The setters that write the field a getter reads. -/
def Setting.setters : Setting → Setting → Bool
  -- nothing writes the field of the second stream
  | .streamId2 => fun _ => false
  | .streamId4 => fun setting => setting = .streamId2 || setting = .streamId4
  | .lastStartupResult => fun setting => setting = .lastStartupTime
  | own => fun setting => setting = own

/-- What a getter returns, after any calls. -/
theorem mysqlValue_after (calls : List (Setting × UInt32)) (setting : Setting) :
    mysqlValue (after calls) setting = lastSet setting.setters calls := by
  refine read_after (fun cfg => mysqlValue cfg setting) ?_ ?_ calls
  · cases setting <;> rfl
  · intro cfg written value
    cases setting <;> cases written <;> rfl

/-- The statement for sqlite3 gives every column the last value set. -/
def Sqlite3Stores (behind : UInt32) (calls : List (Setting × UInt32)) : Prop :=
  ∀ setting : Setting, inserted (getUpdateQuerySqlite3 behind (after calls)) setting.column =
    some (decimal (lastSet (· = setting) calls).toNat)

/-- The statement for mysql passes the last values set to the parameters. -/
def MysqlPasses (behind : UInt32) (calls : List (Setting × UInt32)) : Prop :=
  ∀ setting : Setting, setting ≠ .lastStartupTime →
    passed (getUpdateQueryMysql behind (after calls)) setting.parameter =
      some (decimal (lastSet (· = setting) calls).toNat)

/-- No value was set to the second stream that the fourth does not have since, and the
result is the time. -/
structure Harmless (calls : List (Setting × UInt32)) : Prop where
  second : lastSet (· = .streamId2) calls = 0
  fourth : lastSet (fun setting => setting = .streamId2 || setting = .streamId4) calls =
    lastSet (· = .streamId4) calls
  result : lastSet (· = .lastStartupTime) calls = lastSet (· = .lastStartupResult) calls

theorem mysqlPasses_iff (behind : UInt32) (calls : List (Setting × UInt32)) :
    MysqlPasses behind calls ↔ Harmless calls := by
  have passes (setting : Setting) (parameter : setting ≠ .lastStartupTime) :
      passed (getUpdateQueryMysql behind (after calls)) setting.parameter =
          some (decimal (lastSet (· = setting) calls).toNat) ↔
        lastSet setting.setters calls = lastSet (· = setting) calls := by
    rw [passed_mysql behind _ parameter, mysqlValue_after]
    constructor
    · intro same
      exact UInt32.toNat_inj.mp (decimal_injective (Option.some.inj same))
    · intro same
      rw [same]
  have nothing : lastSet (fun _ => false) calls = 0 := by
    simp [lastSet]
  constructor
  · intro all
    have second := (passes .streamId2 (by decide)).mp (all .streamId2 (by decide))
    exact ⟨second.symm.trans nothing, (passes .streamId4 (by decide)).mp (all _ (by decide)),
      (passes .lastStartupResult (by decide)).mp (all _ (by decide))⟩
  · intro harmless setting parameter
    apply (passes setting parameter).mpr
    cases setting with
    | streamId2 => exact nothing.trans harmless.second.symm
    | streamId4 => exact harmless.fourth
    | lastStartupResult => exact harmless.result
    | _ => rfl

/-- Whatever was set, the statement for sqlite3 depends on what lies behind its
arguments; the one for mysql is right for harmless calls only. -/
theorem configuration_stored_iff (calls : List (Setting × UInt32)) :
    (¬ ∀ behind, Sqlite3Stores behind calls) ∧
      ∀ behind, MysqlPasses behind calls ↔ Harmless calls := by
  refine ⟨?_, fun behind => mysqlPasses_iff behind calls⟩
  intro stores
  have version := stores (lastSet (· = .databaseVersion) calls + 1) .databaseVersion
  rw [inserted_sqlite3] at version
  have same := UInt32.toNat_inj.mp (decimal_injective (Option.some.inj version))
  simp [sqlite3Value] at same

/-- One call is enough for each of the crossed fields, and for the shifted columns. -/
theorem not_configuration_stored :
    ¬ MysqlPasses 0 [(.streamId2, 1)] ∧ ¬ MysqlPasses 0 [(.lastStartupResult, 1)] ∧
      ∀ behind, ¬ Sqlite3Stores behind [(.nodeId, 1)] := by
  refine ⟨?_, ?_, ?_⟩
  · intro passes
    exact absurd ((mysqlPasses_iff 0 _).mp passes).second (by decide)
  · intro passes
    exact absurd ((mysqlPasses_iff 0 _).mp passes).result (by decide)
  · intro behind stores
    have node := stores .nodeId
    rw [inserted_sqlite3] at node
    have same : (after [(.nodeId, 1)]).getWorkingMode = lastSet (· = .nodeId) [(.nodeId, 1)] :=
      UInt32.toNat_inj.mp (decimal_injective (Option.some.inj node))
    exact absurd same (by decide)

end Configuration

end BitMRC
