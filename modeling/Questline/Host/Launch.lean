import Questline.Catalog.Loading
import Questline.Config
import Questline.Host.Database
import Questline.Host.Session

/-!
# Launching the host program

The program starts with a configuration, the catalog of its data folder and its
database. Without any one of them it does not start; nor does it if it is to watch a
folder that is not there.
-/

namespace Questline.Host

/-- The path of the configuration file, unless the environment names another. -/
def standardConfigPath : String := "quest_engine.toml"

/-- The engine to start with, given what lies at the data folder and the opened database. -/
def launch (config : Config) (data : Option FileTree) (database : Option DocumentRepository) :
    Option (Engine DocumentRepository) := do
  let catalog ← Catalog.load? data
  let repository ← database
  if config.hotReload && data.isNone then none
  else some (Engine.new catalog repository config.timeout.toNat)

end Questline.Host
