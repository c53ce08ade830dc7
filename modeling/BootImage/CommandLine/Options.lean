/-! Command line options.

    Each argument becomes tokens on its own: an option, an operand, or something unknown. A bundle
    of short options is a token each. After `--` every argument is an operand. Then the first
    operand names the command, and the command says which tokens may follow. Anything else is a
    usage fault. Where the version is asked for in place of a command, nothing after it counts. -/

namespace BootImage.CommandLine

/-- What to do. -/
inductive Command where
  /-- Print the linker script, or write it to a file. -/
  | script (output : Option String)
  /-- Print where the inputs of a section list go. -/
  | plan (list : String) (collect : Bool)
  /-- Verify an image against the standard layout. -/
  | verify (image : String)
  /-- Compare two images. -/
  | compare (first second : String)
  deriving DecidableEq

/-- What the command line asks for. -/
inductive Request where
  /-- To print the version of the program. -/
  | version
  /-- To carry out a command, with so many requests for more log events. -/
  | command (verbosity : Nat) (command : Command)
  deriving DecidableEq

/-- One part of the command line. -/
inductive Token where
  | verbose
  | version
  | collect
  | output (path : String)
  /-- An option that takes the next argument as its value. -/
  | outputNext
  | operand (text : String)
  | endOfOptions
  | unknown
  deriving DecidableEq

/-- The tokens of a bundle of short options; a value takes the rest of the bundle. -/
def shortTokens : List Char → List Token
  | [] => []
  | 'v' :: rest => .verbose :: shortTokens rest
  | 'V' :: rest => .version :: shortTokens rest
  | ['o'] => [.outputNext]
  | 'o' :: '=' :: path => [.output (String.ofList path)]
  | 'o' :: path => [.output (String.ofList path)]
  | _ => [.unknown]

/-- The token of a long option, whose value may follow a sign of equality. -/
def longToken (text : List Char) : Token :=
  match text.span (· != '=') with
  | (name, []) =>
    if name = "verbose".toList then .verbose
    else if name = "version".toList then .version
    else if name = "gc-sections".toList then .collect
    else if name = "output".toList then .outputNext
    else .unknown
  | (name, _ :: value) =>
    if name = "output".toList then .output (String.ofList value) else .unknown

/-- The tokens of one argument. -/
def argumentTokens (argument : String) : List Token :=
  match argument.toList with
  | '-' :: '-' :: text => [longToken text]
  | '-' :: c :: text => shortTokens (c :: text)
  | _ => [.operand argument]

/-- The tokens of the command line. -/
def tokens : List String → List Token
  | [] => []
  | argument :: rest =>
    if argument = "--" then .endOfOptions :: rest.map .operand
    else argumentTokens argument ++ tokens rest

/-- What the tokens after the name of a command say. -/
structure Given where
  verbosity : Nat := 0
  collects : Nat := 0
  outputs : List String := []
  operands : List String := []

/-- Collects the tokens; none of them may be unknown to a command or lack its value. -/
def gather? : List Token → Option Given
  | [] => some {}
  | .verbose :: rest => (gather? rest).map fun g => { g with verbosity := g.verbosity + 1 }
  | .collect :: rest => (gather? rest).map fun g => { g with collects := g.collects + 1 }
  | .output path :: rest => (gather? rest).map fun g => { g with outputs := path :: g.outputs }
  | .outputNext :: .operand path :: rest =>
    (gather? rest).map fun g => { g with outputs := path :: g.outputs }
  | .outputNext :: _ => none
  | .operand text :: rest => (gather? rest).map fun g => { g with operands := text :: g.operands }
  | .endOfOptions :: rest => gather? rest
  | .version :: _ => none
  | .unknown :: _ => none

/-- A command takes its own options at most once, and exactly its operands. -/
def command? (name : String) (g : Given) : Option Command :=
  match name, g.collects, g.outputs, g.operands with
  | "script", 0, [], [] => some (.script none)
  | "script", 0, [path], [] => some (.script (some path))
  | "plan", 0, [], [list] => some (.plan list false)
  | "plan", 1, [], [list] => some (.plan list true)
  | "verify", 0, [], [image] => some (.verify image)
  | "compare", 0, [], [first, second] => some (.compare first second)
  | _, _, _, _ => none

/-- Reads the command line. Before the name of the command only requests for more log events may
    stand; those after it, if there are any, count in their place. -/
def parse? (arguments : List String) : Option Request :=
  let all := tokens arguments
  let before := all.takeWhile (· == .verbose)
  match all.drop before.length with
  | .version :: _ => some .version
  | .operand name :: rest => do
    let g ← gather? rest
    if "" ∈ g.operands ∨ "" ∈ g.outputs then none
    else
      let command ← command? name g
      some (.command (if g.verbosity = 0 then before.length else g.verbosity) command)
  | _ => none

end BootImage.CommandLine
