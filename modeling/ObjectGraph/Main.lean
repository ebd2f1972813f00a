import ObjectGraph.CommandLine

open ObjectGraph

namespace ObjectGraph.Main

/-- Reads a stream to its end. -/
partial def readAll (stream : IO.FS.Stream) (before : ByteArray) : IO ByteArray := do
  let chunk ← stream.read 65536
  if chunk.isEmpty then return before else readAll stream (before ++ chunk)

end ObjectGraph.Main

def main (args : List String) : IO UInt32 := do
  let stdin ← IO.getStdin
  let wanted := CommandLine.readsInput args && !(← stdin.isTty)
  let input ← if wanted then Main.readAll stdin ByteArray.empty else pure ByteArray.empty
  match CommandLine.run args input with
  | .printed text =>
    (← IO.getStdout).putStr text
    return 0
  | .failed error =>
    (← IO.getStderr).putStrLn error.message
    return 1
  | .misused => return 2
