import Std.Time.DateTime.Timestamp
import ScriptPlugins.Log.Filter
import ScriptPlugins.Log.Render
import ScriptPlugins.Program.Run

/-!
# Main — the program on the files of a machine

The files that a command may look at are read first.  The command then runs on what was read, and
what it changed is written back.
-/

namespace ScriptPlugins.Main

/-! ## 1. Reading files -/

/-- The text of a location. -/
def textOf (l : Location) : String := "/" ++ Text.joinWith "/" l

/-- Where a path leads from a directory, without looking at files. -/
def locationOf (here : Location) (p : Path) : Location :=
  p.steps.foldl
    (fun l c =>
      match c with
      | .root => []
      | .here => l
      | .up => l.dropLast
      | .name s => l ++ [s])
    here

/-- Reads what stands at a location and below it. -/
partial def readBelow (l : Location) (t : FileTree) : IO FileTree := do
  let place := System.mkFilePath [textOf l]
  if ← place.isDir then
    let entries ← place.readDir
    entries.foldlM (fun t e => readBelow (l ++ [e.fileName]) t) (t.put l .directory)
  else if ← place.pathExists then
    return t.put l (.file (← IO.FS.readBinFile place))
  else return t

/-- Reads what a path leads to, with the directories above it. -/
def readAt (p : Path) (t : FileTree) : IO FileTree := do
  let l := locationOf t.here p
  let mut t := t
  for n in List.range l.length do
    let above := l.take n
    if n ≠ 0 && (← (System.mkFilePath [textOf above]).isDir) then t := t.put above .directory
  readBelow l t

/-- The files in which a configuration may be found. -/
def configFiles (env : Environment) (t : FileTree) (named : Option String) : List Path :=
  (named.map Path.mk).toList ++ t.herePath.ancestors.map (·.join configFileName) ++
    (env.home?.map (·.join userConfig)).toList

/-- The options that all commands share. -/
def shared : CommandLine.Request → CommandLine.Shared
  | .compile r => r.shared
  | .apply r => r.shared
  | .cache r => r.shared

/-- The directories that a request works in. -/
def directories (c : Config) : CommandLine.Request → List Path
  | .compile r => [(r.settings c).buildDir, (r.settings c).scriptsDir]
  | .apply r => [(r.settings c).buildDir]
  | .cache r => [r.shared.build c]

/-- The files that a request may look at. -/
def readFor (env : Environment) (now : Instant) (r : CommandLine.Request) (here : Location) :
    IO FileTree := do
  let named := (shared r).config
  let t := FileTree.empty here
  let t ← (configFiles env t named).foldlM (fun t p => readAt p t) t
  let config := ((loadConfig env named).run.run (Program.start t now)).1.toOption.join
  (directories (config.getD .default) r).foldlM (fun t p => readAt p t) t

/-! ## 2. Writing files -/

/-- Writes a file so that no reader finds a part of it. -/
def writeWhole (l : Location) (bytes : ByteArray) : IO Unit := do
  let draft := textOf l ++ ".part"
  IO.FS.writeBinFile draft bytes
  IO.FS.rename draft (textOf l)

/-- Removes what is gone, the inner ones first, and writes what is new. -/
def writeBack (before after : FileTree) : IO Unit := do
  for (l, e) in before.entries.toList.reverse do
    match e, after.entries[l]? with
    | .file _, none | .file _, some .directory => IO.FS.removeFile (textOf l)
    | .directory, none | .directory, some (.file _) => IO.FS.removeDir (textOf l)
    | _, _ => pure ()
  for (l, e) in after.entries.toList do
    if before.entries[l]? ≠ some e then
      match e with
      | .directory => IO.FS.createDirAll (textOf l)
      | .file bytes => writeWhole l bytes

/-! ## 3. The program -/

/-- The variables that the program looks at. -/
def variableNames : List String :=
  ["HOME", "CI", "RUST_LOG", "PRESCRIPT_LOG_FORMAT", "PRESCRIPT_CONFIG", "PRESCRIPT_BUILD_DIR",
    "PRESCRIPT_SCRIPTS_DIR", "PRESCRIPT_EXTENSION", "PRESCRIPT_WORKERS",
    "PRESCRIPT_KNOWN_PLUGINS"]

def environment : IO Environment :=
  variableNames.filterMapM fun name => return (← IO.getEnv name).map (name, ·)

/-- The time by the clock of the machine. -/
def clock : IO Instant :=
  return .sinceEpoch (← Std.Time.Timestamp.now).toNanosecondsSinceUnixEpoch.toInt.toNat

/-- Tells the events that are to be shown, each with the time. -/
def tellLog (env : Environment) (now : Instant) (log : List Log.Event) : IO Unit := do
  let filter := (env.lookup "RUST_LOG").elim Log.Filter.default Log.Filter.ofText
  let format := Log.Format.choose (env.lookup "PRESCRIPT_LOG_FORMAT") (env.lookup "CI").isSome
  for e in log.filter filter.shows do
    IO.eprintln (if format = .json then e.render format else now.write ++ " " ++ e.render format)

/-- Tells what a command has to say, and answers its exit code. -/
def tellOutput (o : Program.Output) : IO UInt32 := do
  IO.print o.printed
  for line in o.notices ++ (o.failure.map Failure.report).getD [] do IO.eprintln line
  return o.code.toUInt32

/-- Tells why a command line is not carried out. -/
def tellRefusal (r : CommandLine.Refusal) : IO UInt32 := do
  match r with
  | .version => IO.print CommandLine.versionText
  | .help => IO.println "Usage: prescript <COMMAND>"
  | _ => IO.eprintln "Usage: prescript <COMMAND>"
  return r.code.toUInt32

end ScriptPlugins.Main

open ScriptPlugins ScriptPlugins.Main in
/-- Runs the program. -/
def main (words : List String) : IO UInt32 := do
  let env ← environment
  match CommandLine.read env words with
  | .error r => tellRefusal r
  | .ok request =>
    let now ← clock
    let here := locationOf [] ⟨(← IO.currentDir).toString⟩
    let before ← readFor env now request here
    let (outcome, world) := (Program.run env words).run (Program.start before now)
    writeBack before world.files
    tellLog env now world.log
    match outcome with
    | .refused r => tellRefusal r
    | .done o => tellOutput o
