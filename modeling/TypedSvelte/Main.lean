import TypedSvelte.Command.Run

/-!
# The command line

Reads the files, runs, writes what has changed and prints. A project is searched through the paths
on standard input, one a line; nothing is read from there when files are named.
-/
namespace TypedSvelte.Command

/-- The paths whose files a run can ask for, those listed for a search aside. -/
def Options.named (options : Options) (root : FilePath) : List FilePath :=
  Kit.Config.fileNames.map (root.join <| .ofText ·)
    ++ options.files.map root.join
    ++ (options.query?.map fun (_, query) => root.join query.file).toList

def readTree (paths : List FilePath) : IO Tree := do
  let mut tree := Tree.empty
  for path in paths do
    if let .ok text ← (IO.FS.readFile path.text).toBaseIO then
      tree := { tree with files := Tree.putFile (Location.ofPath path) text tree.files }
  return tree

def writeChanges (before after : Tree) : IO Unit := do
  for place in after.directories do
    IO.FS.createDirAll (Location.path place).text
  for (place, text) in after.changedSince before do
    IO.FS.writeFile (Location.path place).text text

def runHere (options : Options) : IO UInt32 := do
  if let some path := options.emitShims then
    IO.FS.writeFile path.text Component.helperDeclarations
  let here := FilePath.ofText (← IO.currentDir).toString
  let root := here.join options.root
  let searched := options.files.isEmpty && options.query?.isNone
  let listed ← if searched then (← IO.getStdin).lines else pure #[]
  let before ← readTree (listed.toList.map (here.join <| .ofText ·) ++ options.named root)
  let outcome := run here options before
  writeChanges before outcome.tree
  IO.print outcome.stdout
  IO.eprint outcome.stderr
  match outcome.result with
  | .ok summary => return if summary.failed = 0 then 0 else 1
  | .error (.failed error) =>
    IO.eprintln ("Error: " ++ error.message)
    return 1
  | .error .brokenOff => return 101

end TypedSvelte.Command

open TypedSvelte.Command in
def main (arguments : List String) : IO UInt32 := do
  match Request.ofArguments arguments with
  | .ok .help =>
    IO.print helpText
    return 0
  | .ok .version =>
    IO.print versionText
    return 0
  | .ok (.run options) => runHere options
  | .error error =>
    IO.eprintln ("error: " ++ error.message)
    return 2
