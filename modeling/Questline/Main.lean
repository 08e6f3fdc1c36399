import Questline.Host.Launch
import Std.Time

/-!
# The host program

Reads commands from the standard input, one a line, and writes replies and notifications
to the standard output. Settings come from the file that the environment variable
`QUEST_ENGINE_CONFIG` names.
-/

namespace Questline.Host

/-- What lies at a path of the file system; folders are read to the given depth. -/
def readTree : Nat → String → IO (Option FileTree)
  | 0, _ => return none
  | depth + 1, path => do
    try
      let root ← IO.FS.realPath path
      if ← root.isDir then
        let entries ← root.readDir
        let mut found : List (String × FileTree) := []
        for entry in entries do
          if let some tree ← readTree depth entry.path.toString then
            found := (entry.fileName, tree) :: found
        return some (.folder found)
      else return some (.file (← IO.FS.readBinFile root))
    catch _ => return none

/-- What lies at a path, without the insides of a folder. -/
def peek (path : String) : IO (Option FileTree) := readTree 1 path

/-- The present instant. -/
def clock : IO Instant := do
  let since := (← Std.Time.Timestamp.now).toDurationSinceUnixEpoch
  let seconds := since.second.val
  return (Instant.ofParts? (seconds / 86400) (seconds % 86400).toNat since.nano.val.toNat).getD
    Instant.epoch

/-- Answer the lines of the standard input until it ends. -/
partial def serve (address : DatabaseAddress) (e : Engine DocumentRepository) : IO Unit := do
  let line ← (← IO.getStdin).getLine
  if line.isEmpty then return
  let r := respond e (Circumstances.calm (← clock)) line
  let stored := r.engine.store.repository
  if !address.inMemory && !address.readOnly && stored != e.store.repository then
    IO.FS.writeFile address.path stored.toFileText
  let out ← IO.getStdout
  for reply in r.reply.toList ++ r.news.map Reply.notification do
    out.putStrLn (Json.write reply.toDatum)
  out.flush
  serve address r.engine

end Questline.Host

open Questline Questline.Host in
/-- Start the program and run it until its input ends. -/
def main : IO UInt32 := do
  let configPath := (← IO.getEnv "QUEST_ENGINE_CONFIG").getD standardConfigPath
  let some config := (Config.loadOrStandard (← peek configPath)).toOption | return 1
  let some address := DatabaseAddress.ofUrl? config.databaseUrl | return 1
  let folder ← peek address.folderPath
  let database := address.open? (← peek address.path) (folder.any (·.isFolder))
  let some e := launch config (← readTree 64 config.dataDir) database | return 1
  serve address e
  return 0
