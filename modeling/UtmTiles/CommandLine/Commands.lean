import UtmTiles.CommandLine.Arguments

/-!
# The commands

The commands of the program with their options, and the texts about them.
-/

namespace UtmTiles
namespace CommandLine

/-- What the program can be asked for. -/
inductive Task where
  | genconfig | tile | key | subtile | cover | drilldown
  deriving DecidableEq, Repr

def Opt.optional (name value about : String) : Opt := ⟨name, none, some value, false, about⟩

def Opt.required (name value about : String) : Opt := ⟨name, none, some value, true, about⟩

def Opt.switch (name about : String) : Opt := ⟨name, none, none, false, about⟩

/-- The option for the level of the log. -/
def loglevelOption : Opt :=
  .optional "loglevel" "error|warn|info|debug|trace" "Log level (Default: info)"

/-- The options for the configuration of a grid. -/
def gridOptions : List Opt := [
  ⟨"config", some 'c', some "FILE", false, "Load from custom config file"⟩,
  loglevelOption,
  .optional "resolution" "METERS" "Pixel size in meters",
  .optional "tilesize" "PIXELS" "Tile width and height in pixels",
  .optional "pad" "PIXELS" "Overlap pixels on each side"]

def keyOption : Opt := .required "key" "KEY" "Tile key tilesize:pad:resolution:zone:ti:tj"

/-- The switch for keys in place of records. -/
def keysOnlyOption : Opt := .switch "keys-only" "Output tile keys only"

def progressOption : Opt := .optional "progress" "true|false" "Show progress bar"

namespace Task

def all : List Task := [genconfig, tile, key, subtile, cover, drilldown]

def command : Task → Command
  | genconfig => ⟨"genconfig", "Generate configuration template", gridOptions, false⟩
  | tile => {
      name := "tile"
      about := "Tile containing a position"
      options := gridOptions ++ [
        .required "lon" "LON" "Longitude",
        .required "lat" "LAT" "Latitude"]
      hyphenValues := true }
  | key => ⟨"key", "Tile of a tile key", [loglevelOption, keyOption], true⟩
  | subtile => {
      name := "subtile"
      about := "Subdivide a tile"
      options := [
        loglevelOption,
        keyOption,
        .required "subdivide" "N" "Number of subtiles per side",
        .optional "resolution" "METERS" "Pixel size of the subtiles",
        .optional "pad" "PIXELS" "Overlap pixels of the subtiles",
        keysOnlyOption]
      hyphenValues := true }
  | cover => {
      name := "cover"
      about := "Tiles covering a shape, as JSON lines"
      options := gridOptions ++ [
        .optional "shape" "FILE" "GeoJSON area of interest (- for stdin)",
        keysOnlyOption,
        .optional "max-tiles" "NUM" "Stop after this number of tiles",
        .optional "nodes" "NUM" "Number of tiling nodes",
        .optional "nodeno" "NUM" "Number of this nodes (0 <= n < nodes)",
        progressOption]
      hyphenValues := true }
  | drilldown => {
      name := "drilldown"
      about := "Tiles containing a list of positions"
      options := gridOptions ++ [
        .required "points" "x1,y1,x2,y2,.." "Drilldown points",
        progressOption]
      hyphenValues := true }

def ofName? (name : String) : Option Task := all.find? (·.command.name == name)

end Task

/-! ### Texts -/

def programName : String := "utm_tiler"

def version : String := "0.1.0"

def about : String := "UTM tile grid: tile keys, subdivision and shape coverage"

/-- The program itself, seen as a command. -/
def program : Command := ⟨"", about, [], false⟩

namespace Opt

def spelling (o : Opt) : String :=
  let short := match o.short with
    | some c => "-" ++ c.toString ++ ", "
    | none => "    "
  let value := match o.value with
    | some value => " <" ++ value ++ ">"
    | none => ""
  short ++ "--" ++ o.name ++ value

def helpLine (o : Opt) : String := "    " ++ o.spelling ++ "    " ++ o.about ++ "\n"

end Opt

namespace Command

/-- The name of a command behind the program's name. -/
def title (c : Command) : String :=
  if c.name.isEmpty then programName else programName ++ " " ++ c.name

def usage (c : Command) : String :=
  "USAGE:\n    " ++ c.title ++ (if c.name.isEmpty then " [SUBCOMMAND]\n" else " [FLAGS] [OPTIONS]\n")

def help (c : Command) : String :=
  let commands :=
    if c.name.isEmpty then
      "\nSUBCOMMANDS:\n" ++ String.join (Task.all.map fun t =>
        "    " ++ t.command.name ++ "    " ++ t.command.about ++ "\n")
    else ""
  c.title ++ "\n" ++ c.about ++ "\n\n" ++ c.usage ++
    "\nFLAGS:\n    -h, --help    Prints help information\n" ++
    "    -V, --version    Prints version information\n" ++
    String.join ((c.options.filter fun o => o.value.isNone).map Opt.helpLine) ++
    "\nOPTIONS:\n" ++
    String.join ((c.options.filter fun o => o.value.isSome).map Opt.helpLine) ++ commands

/-- The version as a command tells it; commands have none of their own. -/
def versionText (c : Command) : String :=
  if c.name.isEmpty then programName ++ " " ++ version ++ "\n"
  else programName ++ "-" ++ c.name ++ " \n"

/-- The text about arguments that make no sense. -/
def faultText (c : Command) (fault : UsageFault) : String :=
  "error: " ++ fault.message ++ "\n\n" ++ c.usage ++ "\nFor more information try --help\n"

/-- What is put out if arguments are not read to their end. -/
def stopText (c : Command) : Stop → String
  | .help => c.help ++ "\n"
  | .version => c.versionText ++ "\n"
  | .fault fault => c.faultText fault

end Command

/-! ### Requests -/

/-- What the arguments of the program ask for. -/
inductive Request where
  | task (task : Task) (values : Values)
  /-- No work is done, and a text is put out. -/
  | text (s : String)
  deriving DecidableEq, Repr

/-- The help on a command of a command. -/
def helpOn (names : List String) : String :=
  match names with
  | [] => program.stopText .help
  | [name] =>
    match Task.ofName? name with
    | some t => t.command.stopText .help
    | none =>
      if name = "help" then program.stopText .help
      else program.stopText (.fault (.unknownCommand name))
  | name :: other :: _ =>
    let unknown := if (Task.ofName? name).isSome ∨ name = "help" then other else name
    program.stopText (.fault (.unknownCommand unknown))

/-- Reads the arguments of the program. -/
def request (args : List String) : Request :=
  match args with
  | "help" :: names => .text (helpOn names)
  | args =>
    match args.head?.bind Task.ofName? with
    | some t =>
      match t.command.parse args.tail with
      | .ok values => .task t values
      | .error reason => .text (t.command.stopText reason)
    | none =>
      match program.parse args with
      | .ok _ => .text (program.stopText .help)
      | .error reason => .text (program.stopText reason)

end CommandLine
end UtmTiles
