import Scrawl.Cli.Options
/-!
# Scrawl.Cli.Guide — texts for the reader

The reference of the description language, an example of it, and the usage of each command.
-/

namespace Scrawl.Cli

/-- The text of lines that all end with a line feed. -/
def linesText (lines : List String) : String := String.join (lines.map (· ++ "\n"))

/-- The reference of the description language. -/
def grammarGuide : String := linesText [
  "# sketchgraph description grammar",
  "",
  "A description is one `digraph` block of statements separated by `;`",
  "(the `;` after the last statement is optional).",
  "",
  "```",
  "digraph [name] \x7b",
  "  A [label=\"Write queries\"];    // node with a label",
  "  B;                            // node labelled with its id",
  "  A -> B;                       // edge",
  "  B -> C -> A;                  // chain: one edge per hop",
  "  rankdir=LR;                   // TB (default), BT, LR, RL",
  "  graph [nodesep=40, ranksep=60];",
  "  node [label=\"todo\"];          // default label for nodes declared later",
  "\x7d",
  "```",
  "",
  "- Ids: a letter, `_` or any non-ASCII character (emoji included) followed by",
  "  letters, digits, `_`, `.` or non-ASCII characters; numbers; or double-quoted",
  "  strings.",
  "- `nodesep` and `ranksep` are finite, non-negative pixel distances.",
  "- Strings accept `\\\"`, `\\\\` and `\\n` (line break inside a label).",
  "- Comments: `// ...`, `# ...`, `/* ... */`.",
  "- Nodes used by an edge but never declared are created with their id as label.",
  "- Edge attributes (`A -> B [color=red]`) are accepted and ignored.",
  "- Undirected graphs (`graph`, `--`) and subgraphs are rejected."]

/-- An example of a description. -/
def exampleGuide : String := linesText [
  "digraph \x7b",
  "  A[label=\"WRITE QUERIES\"];",
  "  B[label=\"RUN QUERIES\"];",
  "  C[label=\"SEE RESULTS\"];",
  "  A -> B;",
  "  B -> C;",
  "  C -> A;",
  "\x7d"]

/-- How the program, or a command, is called. -/
def usage (command : Option Command) : String :=
  let operands := match command with
    | none => " " ++ "|".intercalate (Command.all.map (·.name)) ++ " ..."
    | some .render => " [input]"
    | some .watch => " input"
    | some _ => ""
  let options := (Command.options command).map fun o =>
    if o.isFlag then "  " ++ o.label else "  " ++ o.label ++ " VALUE"
  let name := match command with
    | none => "sketchgraph"
    | some c => "sketchgraph " ++ c.name
  linesText (["usage: " ++ name ++ " [options]" ++ operands, "", "options:"] ++ options)

end Scrawl.Cli
