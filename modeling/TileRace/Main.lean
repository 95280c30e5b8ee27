import TileRace.Launch
import TileRace.Text.Quoted

namespace TileRace.Launch

def usage : String :=
  "Usage: server [OPTIONS]\n\nOptions:\n" ++ String.join (choices.map fun c =>
    let short := (c.short.map fun s => String.ofList ['-', s, ',', ' ']).getD "    "
    "  " ++ short ++ "--" ++ c.long ++ " <VALUE>\n")

def readError : IO.Error → Dictionary.ReadError
  | .noFileOrDirectory .. => .notFound
  | .inappropriateType _ 21 _ => .isDirectory
  | .inappropriateType .. => .notDirectory
  | .invalidArgument .. => .nameTooLong
  | e => .failed (toString e)

def readFile (path : String) : IO (Except Dictionary.ReadError ByteArray) := do
  try return .ok (← IO.FS.readBinFile path)
  catch e => return .error (readError e)

def main (args : List String) : IO UInt32 := do
  match options args with
  | .error .usage => IO.eprint usage; return 2
  | .error .help => IO.print usage; return 0
  | .ok o => match prepare o (← readFile o.words) with
    | .error text => IO.eprintln ("Error: " ++ Text.quoted text); return 1
    | .ok words =>
      IO.println s!"Loaded {words.size} words from {o.words}"
      IO.println s!"Ready for ws://{o.address}/?name=<player>"
      return 0

end TileRace.Launch

def main (args : List String) : IO UInt32 := TileRace.Launch.main args
