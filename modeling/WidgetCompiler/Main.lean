import WidgetCompiler.CommandLine

namespace WidgetCompiler.Main

partial def picture (files : FileTree) (text : String) : IO FileTree := do
  let place := (← IO.currentDir) / text
  let key := FileTree.names (Path.mk text).normalize
  if ← place.isDir then
    let mut files := (files.createDirectory ⟨text⟩).toOption.getD files
    for child in ← place.readDir do
      files ← picture files child.path.toString
    return files
  else if ← place.pathExists then
    let content ← try
        pure (Content.ofBytes (← IO.FS.readBinFile place).toList)
      catch _ => pure .sealed
    return files.put key (.file content)
  else
    return files

def settledPlaces (files : FileTree) : List String :=
  match Settings.discover files none with
  | .ok s =>
    let s := s.absolute files.base
    [s.sources.text, s.output.text]
  | .error _ => []

def bytesOf : Content → ByteArray
  | .text s => s.toUTF8
  | .bytes bs => ⟨bs.toArray⟩
  | .sealed => .empty

def placeText (key : List String) : String :=
  "/" ++ String.intercalate "/" key

def carryOver (before after : FileTree) : IO Unit := do
  for (key, e) in before.entries.reverse do
    if (after.get? key).isNone then
      match e with
      | .file _ => IO.FS.removeFile (placeText key)
      | .directory => IO.FS.removeDirAll (placeText key)
  for (key, e) in after.entries do
    if before.get? key != some e then
      match e with
      | .directory => IO.FS.createDirAll (placeText key)
      | .file content => IO.FS.writeBinFile (placeText key) (bytesOf content)

end WidgetCompiler.Main

open WidgetCompiler in
def main (words : List String) : IO UInt32 := do
  let base := (← IO.currentDir).toString
  let mut files : FileTree := ⟨⟨base⟩, []⟩
  for place in base :: words.filter (!CommandLine.isFlagWord ·) do
    files ← Main.picture files ((WidgetCompiler.Path.mk base).join ⟨place⟩).normalize.text
  for place in Main.settledPlaces files do
    files ← Main.picture files place
  let (outcome, after) := CommandLine.run words files
  Main.carryOver files after
  (← IO.getStdout).putStr outcome.output
  (← IO.getStderr).putStr outcome.errors
  return outcome.exitCode.toUInt32
