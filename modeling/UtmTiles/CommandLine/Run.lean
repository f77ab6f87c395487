import UtmTiles.CommandLine.Commands
import UtmTiles.CommandLine.Filter
import UtmTiles.CommandLine.Variables
import UtmTiles.Service.Cover
import UtmTiles.Service.Points
import UtmTiles.Service.Source

/-!
# Running a command

A command has its text put out only if it comes to its end. Otherwise the fault stands in the log, and
the exit code is 1. Arguments that make no sense, and requests for help, have the exit code 0. An
overflow is no fault for the log: it ends the program where it happens, with the exit code 101.
-/

namespace UtmTiles
namespace CommandLine

/-- What a command can read. -/
structure Surroundings (m : Type → Type) where
  environment : Template.Variables
  file : (path : String) → m FileContent
  /-- The program's input, up to its end. -/
  input : m FileContent

/-- What a run of the program leaves. -/
structure Outcome where
  exit : Nat
  output : String
  /-- The log entries that are shown. -/
  log : List Log.Entry
  deriving DecidableEq, Repr

/-- Why a command fails. -/
inductive Fault where
  /-- The value of an option for the configuration makes no sense. -/
  | setting (option value : String)
  /-- The value of another option makes no sense. -/
  | argument (option value : String)
  | missing (option : String)
  | configuration (fault : ConfigFault)
  | service (fault : ServiceFault)
  deriving Repr

def Fault.message : Fault → String
  | setting option value => s!"Invalid value for '{option}': {value}"
  | argument option value => s!"Error parsing '{option}' value '{value}'"
  | missing option => s!"Missing '{option}'"
  | configuration fault => "Error reading configuration - " ++ fault.message
  | service fault => fault.message

/-! ### Values of options -/

/-- A whole number below a bound, with an optional plus sign. -/
def readNat? (bound : Nat) (text : String) : Option Nat :=
  let digits := match text.toList with
    | '+' :: cs => cs
    | cs => cs
  let n := Decimal.ofDigits digits
  if Decimal.areDigits digits && n < bound then some n else none

def readBool? (text : String) : Option Bool :=
  if text = "true" then some true else if text = "false" then some false else none

namespace Values

variable {α : Type}

/-- The value of an option, if it is there. -/
def get? (vs : Values) (option : String) (read : String → Option α)
    (fault : String → String → Fault) : Except Fault (Option α) :=
  match vs.lookup option with
  | none => .ok none
  | some text =>
    match read text with
    | some a => .ok (some a)
    | none => .error (fault option text)

/-- The value of an option that may be left out. -/
def optional (vs : Values) (option : String) (read : String → Option α) :
    Except Fault (Option α) := vs.get? option read .argument

/-- The value of an option that must be there. -/
def required (vs : Values) (option : String) (read : String → Option α) : Except Fault α := do
  match ← vs.optional option read with
  | some a => return a
  | none => .error (.missing option)

def isOn (vs : Values) (switch : String) : Bool := (vs.lookup switch).isSome

/-- A configuration, changed by the options for it. -/
def adjust (vs : Values) (c : Config) : Except Fault Config := do
  let resolution ← vs.get? "resolution" Decimal.read? .setting
  let tilesize ← vs.get? "tilesize" (readNat? UInt32.size) .setting
  let pad ← vs.get? "pad" (readNat? UInt32.size) .setting
  let maxTiles ← vs.get? "max-tiles" (readNat? UInt64.size) .setting
  return {
    grid := {
      resolution := resolution.getD c.grid.resolution
      tilesize := tilesize.getD c.grid.tilesize
      pad := pad.getD c.grid.pad }
    tiling := {
      shape := c.tiling.shape
      keysOnly := c.tiling.keysOnly || vs.isOn "keys-only"
      maxTiles := maxTiles <|> c.tiling.maxTiles } }

end Values

/-! ### Jobs -/

/-- What keeps a command from coming to its end. -/
inductive Obstacle where
  | fault (fault : Fault)
  /-- A sum had too many bits. -/
  | overflow
  deriving Repr

/-- Work that reads its surroundings, keeps a log and may come to an obstacle. -/
abbrev Job (m : Type → Type) := ExceptT Obstacle (StateT (List Log.Entry) m)

section
variable {m : Type → Type} [Monad m]

instance : MonadLift (Except Fault) (Job m) where
  monadLift answer := ExceptT.mk (pure (answer.mapError .fault))

def note (entries : List Log.Entry) : Job m Unit := modify (· ++ entries)

/-- Goes on with an answer, or fails for its fault. -/
def orFail {ε α : Type} (answer : Except ε α) (fault : ε → Fault) : Job m α :=
  liftM (answer.mapError fault)

/-- Goes on with a result, fails for its error, or ends with its overflow. -/
def orEnd {ε α : Type} (result : Result ε α) (fault : ε → Fault) : Job m α :=
  match result with
  | .ok a => pure a
  | .error e => throw (.fault (fault e))
  | .overflow => throw .overflow

/-- The configuration in the file that the options name, or else the usual one, with the changes that
the options ask for. -/
def configuration (w : Surroundings m) (vs : Values) : Job m Config := do
  let config ← match vs.lookup "config" with
    | some path => do
      note [⟨.info, .arguments, s!"Reading configuration from '{path}'"⟩]
      let content ← w.file path
      orFail (Config.ofFile w.environment path content) .configuration
    | none => pure Config.usual
  vs.adjust config

/-- The service that the options describe. -/
def service (w : Surroundings m) (vs : Values) : Job m Service := do
  let config ← configuration w vs
  orFail (Service.ofConfig config) .service

def shapeFrom (w : Surroundings m) (source : ShapeSource) : Job m Shape := do
  let content ← match source with
    | .inline text => pure (.text text)
    | .input => w.input
    | .file path => do
      note [⟨.info, .shapeSource, s!"Reading shape from {path}"⟩]
      w.file path
  orFail (source.shape content) .service

def unlines (lines : List String) : String := String.join (lines.map (· ++ "\n"))

/-- A configuration: the one that the options describe, or a template without such options. -/
def genconfig (w : Surroundings m) (vs : Values) : Job m String := do
  if ["config", "resolution", "tilesize", "pad"].any fun option => (vs.lookup option).isSome then
    let s ← service w vs
    return s.configText ++ "\n"
  else return Config.template ++ "\n"

/-- The record of the tile that holds a position. -/
def tile (w : Surroundings m) (vs : Values) : Job m String := do
  let s ← service w vs
  let lon ← vs.required "lon" Decimal.read?
  let lat ← vs.required "lat" Decimal.read?
  let record ← orFail (s.recordAt ⟨lon, lat⟩) .service
  return record.toJson.pretty ++ "\n"

/-- The record of the tile that a key names. -/
def key (vs : Values) : Job m String := do
  let key ← vs.required "key" some
  let record ← orFail (Service.recordOf key) .service
  return record.toJson.pretty ++ "\n"

def subtile (vs : Values) : Job m String := do
  let key ← vs.required "key" some
  let ratio ← vs.required "subdivide" (readNat? UInt32.size)
  let resolution ← vs.optional "resolution" Decimal.read?
  let pad ← vs.optional "pad" (readNat? UInt32.size)
  let subtiles ← orFail (Service.subtilesOf key ratio resolution pad) .service
  let line := fun (t : Tile Float) => if vs.isOn "keys-only" then t.toText else t.record.line
  return unlines (subtiles.toList.map line)

def cover (w : Surroundings m) (vs : Values) : Job m String := do
  let s ← service w vs
  let source ← orFail (s.shapeSource (vs.lookup "shape")) .service
  let shape ← shapeFrom w source
  let nodes ← vs.optional "nodes" (readNat? UInt8.size)
  let nodeno ← vs.optional "nodeno" (readNat? UInt8.size)
  let _ ← vs.optional "progress" readBool?
  let run ← orEnd (s.cover shape nodes nodeno) .service
  note run.log
  return unlines run.lines

/-- The records of the tiles that hold some positions. -/
def drilldown (w : Surroundings m) (vs : Values) : Job m String := do
  let s ← service w vs
  let text ← vs.required "points" some
  let points ← orFail (Points.read text) fun fault => .service (.points fault)
  let _ ← vs.optional "progress" readBool?
  let records ← orFail (s.recordsAt points) .service
  return (Json.array (records.map Record.toJson)).pretty ++ "\n"

def Task.job (t : Task) (w : Surroundings m) (vs : Values) : Job m String :=
  match t with
  | .genconfig => CommandLine.genconfig w vs
  | .tile => CommandLine.tile w vs
  | .key => CommandLine.key vs
  | .subtile => CommandLine.subtile vs
  | .cover => CommandLine.cover w vs
  | .drilldown => CommandLine.drilldown w vs

/-- The filter for the log: by the option for it, or else by a variable, or else by the usual level. -/
def logFilter (env : Template.Variables) (vs : Values) : Filter :=
  .read ((vs.lookup "loglevel" <|> env.lookup "RUST_LOG").getD "info")

/-- The name of the file with more variables. -/
def variablesFile : String := ".env"

/-- The surroundings with the variables that a file adds. -/
def withVariables (w : Surroundings m) : m (Surroundings m) := do
  match ← w.file variablesFile with
  | .text text => return { w with environment := Variables.addFile w.environment text }
  | _ => return w

def run (w : Surroundings m) (args : List String) : m Outcome := do
  match request args with
  | .text text => return ⟨0, text, []⟩
  | .task t vs =>
    let w ← withVariables w
    let (result, log) ← ((t.job w vs).run).run []
    let shown := fun (entries : List Log.Entry) => entries.filter (logFilter w.environment vs).shows
    match result with
    | .ok output => return ⟨0, output, shown log⟩
    | .error .overflow => return ⟨101, "", shown log⟩
    | .error (.fault fault) => return ⟨1, "", shown (log ++ [⟨.error, .program, fault.message⟩])⟩

end

end CommandLine
end UtmTiles
