import XmlStream.Wrap.Command

/-! The command line of `xmlwrap`. It fetches the files that the arguments name,
runs the command on them, and stores what has changed. -/

namespace XmlStream.Wrap

def readFile? (path : String) : IO (Option ByteArray) := do
  try
    return some (← IO.FS.readBinFile path)
  catch _ => return none

/-- Whether there is a directory at a path. Only a directory can be opened with a
slash after its name. -/
def directoryExists (path : String) : IO Bool := do
  try
    let _ ← IO.FS.Handle.mk (path ++ "/") .read
    return true
  catch _ => return false

def fetchAlong (tree : FileTree) (path : String) : IO FileTree := do
  let names := pathNames path
  let mut tree := tree
  for count in [1:names.length + 1] do
    let beginning := "/".intercalate (names.take count)
    if ← directoryExists beginning then tree := tree.addDirectory beginning
    else if let some content ← readFile? beginning then tree := tree.add beginning content
  return tree

def fetchFiles (options : Options) : IO FileTree := do
  let tree ← options.files.foldlM fetchAlong {}
  if options.output = "-" then return tree else fetchAlong tree options.output

end XmlStream.Wrap

open XmlStream.Wrap in
def main (arguments : List String) : IO UInt32 := do
  let files ← match Request.ofArguments arguments with
    | .ok (.wrap options) => fetchFiles options
    | _ => pure {}
  let outcome := run arguments files
  (← IO.getStdout).write outcome.stdout
  (← IO.getStdout).flush
  IO.eprint outcome.stderr
  if let .ok (.wrap options) := Request.ofArguments arguments then
    if options.output ≠ "-" then
      if let some content := outcome.files.read? options.output then
        IO.FS.writeBinFile options.output content
  return UInt32.ofNat outcome.exitCode
