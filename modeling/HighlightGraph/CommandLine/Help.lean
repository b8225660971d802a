/-!
# Help

What the command prints about itself: its options, what each is for, and two calls to begin with.
-/

namespace HighlightGraph.CommandLine

def helpLines : List String :=
  ["usage: dotmap [-h] --in INPUT_PATH --fmt \x7bcss,dot,json,svg\x7d",
    "              [--out OUTPUT_PATH] [--prune] [--no-missing] [-v]",
    "",
    "Compile a JSON graph document to Graphviz DOT, the highlight stylesheet, SVG, " ++
      "or a registry dump.",
    "",
    "options:",
    "  -h, --help            show this help message and exit",
    "  --in INPUT_PATH       Path to the graph JSON file",
    "  --fmt \x7bcss,dot,json,svg\x7d",
    "                        Output format",
    "  --out OUTPUT_PATH     Optional path to write the output; defaults to stdout",
    "  --prune               Drop nodes without any edge",
    "  --no-missing          Do not add placeholder nodes for edge endpoints that",
    "                        were never declared",
    "  -v, --verbose         Enable debug logging",
    "",
    "Examples:",
    "  # DOT to stdout",
    "  dotmap --in services.json --fmt dot",
    "",
    "  # Interactive SVG, only connected nodes",
    "  dotmap --in services.json --fmt svg --prune --out services.svg",
    "        "]

def helpText : String := "\n".intercalate helpLines ++ "\n"

end HighlightGraph.CommandLine
