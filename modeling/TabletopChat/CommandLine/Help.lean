import TabletopChat.Text.Basic

/-!
# CommandLine/Help — what the program says about itself

- `help` : the options of the program and what they are for
-/

namespace TabletopChat

namespace CommandLine

def usage : List String := [
  "usage: chatmacro [-h] [-m MESSAGE] [-o OUTPUT] [--config FILE]",
  "                 [--tooltips | --no-tooltips] [--legacy-math]",
  "                 [--engine \x7bd20,standalone\x7d] [--seed N] [--store FILE]",
  "                 [--library FILE] [--actor FILE] [--check] [--debug] [-v]",
  "                 [input]"]

def explanations : List String := [
  "",
  "Expand prompts, rolls and references in a chat message",
  "",
  "positional arguments:",
  "  input                 Message file, or - for stdin (default: stdin)",
  "",
  "options:",
  "  -h, --help            show this help message and exit",
  "  -m MESSAGE, --message MESSAGE",
  "                        Message text given on the command line",
  "  -o OUTPUT, --output OUTPUT",
  "                        Output file (default: stdout)",
  "  --config FILE         Config file (default: auto-discover chatmacro.toml)",
  "  --tooltips, --no-tooltips",
  "                        Wrap top-level roll results in hover spans",
  "  --legacy-math         Also evaluate <<...>> inline math",
  "  --engine \x7bd20,standalone\x7d",
  "                        Dice engine (default: d20)",
  "  --seed N              Seed the dice",
  "  --store FILE          JSON file remembering prompt selections",
  "  --library FILE        JSON list of stored macros",
  "  --actor FILE          JSON object of actor data",
  "  --check               Only check roll delimiters",
  "  --debug               Dump the roll tree to stderr",
  "  -v, --verbose         Log each evaluation step"]

def help : Text := (usage ++ explanations).flatMap fun line => line.toList ++ ['\n']

end CommandLine

end TabletopChat
