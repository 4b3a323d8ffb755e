import ChangeReport.Program

/-! The program on a machine: it reads the files below the working directory and the
global configuration, runs, prints, and ends with its code. Hosts on the web are out of
its reach. -/
namespace ChangeReport.Main

def buildTarget : String := "x86_64-unknown-linux-gnu"

partial def readTree (path : String) : IO FileTree := do
  let place := (← IO.currentDir) / path
  if ← place.isDir then
    let entries ← place.readDir
    let trees ← entries.toList.mapM fun e => do return (e.fileName, ← readTree (FileTree.join path e.fileName))
    return .folder trees
  else return .file ((← IO.FS.readBinFile place).toList.map UInt8.toNat)

def environment : IO Environment :=
  (Config.variableNames ++ [CommandLine.repoVariable, CommandLine.numberVariable]).filterMapM fun name => do
    return (← IO.getEnv name).map fun value => (name, value)

/-- The tree from the root, as far as the program looks at it. -/
def files (directory : Option String) : IO Files := do
  let cwd := toString (← IO.currentDir)
  let global := directory.map Config.globalFile
  let found ← match global with
    | some path => do
        if ← ((← IO.currentDir) / path).pathExists then pure [(path, ← readTree path)] else pure []
    | none => pure []
  let root := ((cwd, ← readTree cwd) :: found).foldl
    (fun t f => FileTree.put f.2 ((Text.split '/' f.1).filter (· ≠ "")) t) (.folder [])
  return ⟨cwd, root⟩

/-- No request gets a response. -/
def noTransport : Web.Transport Unit := fun _ s => (none, s)

def start (words : List String) : IO UInt32 := do
  let env ← environment
  let directory := Config.directory? env
  let w : Surroundings Unit := ⟨← files directory, directory, env, buildTarget, false, noTransport⟩
  let (out, _) := Program.run w words ()
  (← IO.getStdout).putStr out.stdout
  (← IO.getStderr).putStr out.stderr
  return out.exitCode.toUInt32

end ChangeReport.Main

def main (words : List String) : IO UInt32 := ChangeReport.Main.start words
