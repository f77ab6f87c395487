import UtmTiles.CommandLine.Run

/-!
# The program

Gives `CommandLine.run` the files, the input and the variables of a process, and writes what it
leaves: texts to the output and log entries to the error output.
-/

namespace UtmTiles
namespace Program

def contentOf (bytes : ByteArray) : FileContent :=
  match String.fromUTF8? bytes with
  | some s => .text s
  | none => .notText

def reasonOf : IO.Error → String
  | .inappropriateType _ code details => s!"{details} (os error {code})"
  | .permissionDenied _ code details => s!"{details} (os error {code})"
  | e => toString e

/-- What is read from an open file, up to its end. -/
def readAll (h : IO.FS.Handle) : IO FileContent := do
  try
    return contentOf (← h.readBinToEnd)
  catch e => return .unreadable (reasonOf e)

def readFile (path : String) : IO FileContent := do
  match ← (IO.FS.Handle.mk path .read).toBaseIO with
  | .ok h => readAll h
  | .error _ => return .absent

/-- What is read from the input, up to its end. -/
partial def readInput : IO FileContent := do
  let stdin ← IO.getStdin
  let rec go (bytes : ByteArray) : IO ByteArray := do
    let more ← stdin.read 65536
    if more.isEmpty then return bytes else go (bytes ++ more)
  return contentOf (← go .empty)

def environment : IO Template.Variables := do
  match ← readFile "/proc/self/environ" with
  | .text text =>
    return (text.splitOn "\x00").filterMap fun entry =>
      match entry.splitOn "=" with
      | name :: value@(_ :: _) => some (name, "=".intercalate value)
      | _ => none
  | _ => return []

/-- Runs the program on the arguments. The exit code is the result. -/
def run (args : List String) : IO UInt32 := do
  let surroundings : CommandLine.Surroundings IO := ⟨← environment, readFile, readInput⟩
  let outcome ← CommandLine.run surroundings args
  for entry in outcome.log do
    IO.eprintln entry.line
  IO.print outcome.output
  return outcome.exit.toUInt32

end Program
end UtmTiles

def main (args : List String) : IO UInt32 := UtmTiles.Program.run args
