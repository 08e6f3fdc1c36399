import Questline.Datum.Reading
import Questline.FileTree
import Questline.Toml.Reader

/-!
# Configuration

The settings of the host program, read from a TOML file. A setting that is left out has
its default.
-/

namespace Questline

structure Config where
  /-- The folder of the quest files. -/
  dataDir : String
  databaseUrl : String
  /-- How long an access to the database may take, in milliseconds. -/
  timeout : UInt64
  /-- How many notifications may wait for a listener. -/
  capacity : UInt64
  /-- Whether the quest files are watched for changes. -/
  hotReload : Bool
  deriving DecidableEq, Repr

/-- Why there is no configuration. -/
inductive ConfigError where
  | unreadable
  | malformed
  deriving DecidableEq, Repr

namespace Config

def standard : Config := ⟨"data/quests", "sqlite:quests.db?mode=rwc", 5000, 256, false⟩

instance : Inhabited Config := ⟨standard⟩

open Datum in
def read? (d : Datum) : Option Config := do
  let fs ← d.fields? ["data_dir", "database_url", "persistence_timeout_ms",
    "notification_capacity", "hot_reload"] 0 true
  let dataDir ← withDefault "data_dir" text? standard.dataDir fs
  let databaseUrl ← withDefault "database_url" text? standard.databaseUrl fs
  let timeout ← withDefault "persistence_timeout_ms" uint64? standard.timeout fs
  let capacity ← withDefault "notification_capacity" uint64? standard.capacity fs
  let hotReload ← withDefault "hot_reload" bool? standard.hotReload fs
  return ⟨dataDir, databaseUrl, timeout, capacity, hotReload⟩

/-- The configuration that a text holds. -/
def ofText? (text : String) : Option Config := (Toml.read? text).bind read?

/-- The configuration that a file holds. -/
def load (found : Option FileTree) : Except ConfigError Config :=
  match found.bind FileTree.text? with
  | none => .error .unreadable
  | some text =>
    match ofText? text with
    | some config => .ok config
    | none => .error .malformed

/-- The configuration that a file holds, or the standard one if there is no file. -/
def loadOrStandard (found : Option FileTree) : Except ConfigError Config :=
  if found.isNone then .ok standard else load found

end Config

end Questline
