import ItemLexicon.CommandLine.Arguments

namespace ItemLexicon.CommandLine

def versionText : String := "item-aliases 0.1.0\n"

def lines (ls : List String) : String := String.join (ls.map (· ++ "\n"))

def about : Topic → String
  | .resolve => "Resolve a name such as \"3 oak boats\" or \"every sword of sharpness 5\""
  | .name => "Find the alias name of an item"
  | .info => "Show information about the loaded aliases"
  | .help => "Print this message or the help of the given subcommand(s)"

def platformLines : List String :=
  ["  -p, --platform <PLATFORM>  Platform table (JSON) with materials and enchantments [default:",
    "                             platform.json]"]

def sourceLine : String :=
  "  -a, --aliases <ALIASES>    Alias sources: .sk files, directories or ZIP archives"

def missingLine : String :=
  "      --missing              Also name materials that no alias covers"

def helpLine : String := "  -h, --help                 Print help"

def commonLines : List String := platformLines ++ [sourceLine, missingLine, helpLine]

def overview : String :=
  lines (["Resolve Minecraft item names with alias files", "",
    "Usage: item-aliases [OPTIONS] <COMMAND>", "", "Commands:", "  resolve  " ++ about .resolve,
    "  name     " ++ about .name, "  info     " ++ about .info, "  help     " ++ about .help, "",
    "Options:"] ++ commonLines ++ ["  -V, --version              Print version"])

def helpText : Option Topic → String
  | none => overview
  | some .resolve =>
    lines ([about .resolve, "", "Usage: item-aliases resolve [OPTIONS] <NAME>", "", "Arguments:",
      "  <NAME>  Name to resolve", "", "Options:"] ++ commonLines)
  | some .name =>
    lines ([about .name, "", "Usage: item-aliases name [OPTIONS] <MATERIAL>", "", "Arguments:",
      "  <MATERIAL>  Material id (e.g., \"minecraft:oak_boat\" or \"oak_boat\")", "", "Options:"]
      ++ platformLines ++ ["  -t, --tags <TAGS>          Item tags as JSON", sourceLine,
        "  -d, --damage <DAMAGE>      Damage value [default: 0]", missingLine, helpLine])
  | some .info =>
    lines ([about .info, "", "Usage: item-aliases info [OPTIONS]", "", "Options:"] ++ commonLines)
  | some .help =>
    lines [about .help, "", "Usage: item-aliases help [COMMAND]...", "", "Arguments:",
      "  [COMMAND]...  Print help for the subcommand(s)"]

end ItemLexicon.CommandLine
