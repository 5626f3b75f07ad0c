import RowStore.CommandLine

/-! The program: it takes the files that its arguments name from the disk, runs the command on them,
and writes back what has changed. -/
namespace RowStore

/-- Copies what a path from the directory `here` leads through from the disk of the machine. -/
def takeFiles (here : Location) (p : Path) : IO Disk := do
  let components := p.fromRoot here
  let directory ← IO.currentDir
  let mut d : Disk := {}
  for count in List.range components.length do
    let names := components.take (count + 1)
    let place := directory / ("/" ++ "/".intercalate names)
    match names.foldlM Disk.child [] with
    | .error _ => return d
    | .ok l =>
        if ← place.isDir then d := d.setEntry l .directory
        else if ← place.pathExists then
          d := d.setFile l (({} : File).write 0 (← IO.FS.readBinFile place).data.toList)
  return d

/-- Writes the file of a path from the directory `here` to the disk of the machine, if it has
changed. -/
def giveBack (here : Location) (p : Path) (before after : Disk) : IO Unit := do
  match (after.seenFrom here).openFile p with
  | .error _ => return ()
  | .ok (l, _) =>
      let new := (after.file? l).map (·.contents)
      if let some bytes := new then
        if new ≠ (before.file? l).map (·.contents) then
          IO.FS.writeBinFile ((← IO.currentDir) / p.text) ⟨bytes.toArray⟩

end RowStore

open RowStore in
def main (arguments : List String) : IO UInt32 := do
  let directory : Path := ⟨(← IO.currentDir).toString⟩
  let here := directory.components
  let before ← match CommandLine.Invocation.parse arguments with
    | .ok i => takeFiles here i.file
    | .error _ => pure {}
  let (report, after) := CommandLine.run here arguments before
  if let .ok i := CommandLine.Invocation.parse arguments then
    giveBack here i.file before after
  IO.print report.output
  IO.eprint report.errors
  return UInt32.ofNat report.exitCode
