/-
  ExpertRouting.Command.Options — the command line.

  A command is named by its first word; options stand behind it, in any order and each at
  most once, with a value in the same word after an equals sign or in the next one. A word
  that starts with a dash is no value unless it is the dash alone. `--verbose` may also
  stand in front of the command. Words are taken from left to right, and the first that
  does not fit refuses the line (`none`).
-/

import ExpertRouting.Capture.Settings

namespace ExpertRouting.Command

structure AnalyzeOptions where
  trace : String := "moe_routes.jsonl"
  metricsOut : String := "expert_metrics.json"
  strict : Bool := false
  deriving DecidableEq, Repr

structure BenchOptions where
  output : String := "moe_routes.jsonl"
  layer : UInt64 := 0
  tokens : UInt64 := 4096
  /-- Tokens in a batch; none counts as one. -/
  batch : UInt64 := 16
  topK : UInt64 := 4
  experts : UInt64 := 60
  seed : UInt64 := 1234
  timing : String := "timing.json"
  noLog : Bool := false
  deriving DecidableEq, Repr

inductive Topic where
  | program
  | analyze
  | bench
  | help
  deriving DecidableEq, Repr

def Topic.ofCommand? (name : String) : Option Topic :=
  [("analyze", Topic.analyze), ("bench", .bench), ("help", .help)].lookup name

inductive Request where
  | analyze (o : AnalyzeOptions)
  | bench (o : BenchOptions)
  | help (topic : Topic)
  | version
  deriving DecidableEq, Repr

/-- What an option does with its value to the options so far; none if it refuses it. -/
inductive Setter (α : Type) where
  | flag (set : α → α)
  | value (set : α → String → Option α)

def fileName {α : Type} (set : α → String → α) : Setter α :=
  .value fun o v => if v.isEmpty then none else some (set o v)

def word {α : Type} (set : α → UInt64 → α) : Setter α :=
  .value fun o v => (Settings.word? v.toList).map (set o)

abbrev Table (α : Type) := List (String × Setter α)

def analyzeTable : Table AnalyzeOptions :=
  [("trace", fileName fun o v => { o with trace := v }),
   ("metrics-out", fileName fun o v => { o with metricsOut := v }),
   ("strict", .flag fun o => { o with strict := true }),
   ("verbose", .flag id)]

def benchTable : Table BenchOptions :=
  [("output", fileName fun o v => { o with output := v }),
   ("layer", word fun o n => { o with layer := n }),
   ("tokens", word fun o n => { o with tokens := n }),
   ("batch", word fun o n => { o with batch := n }),
   ("top-k", word fun o n => { o with topK := n }),
   ("experts", word fun o n => { o with experts := n }),
   ("seed", word fun o n => { o with seed := n }),
   ("timing", fileName fun o v => { o with timing := v }),
   ("no-log", .flag fun o => { o with noLog := true }),
   ("verbose", .flag id)]

inductive Word where
  /-- Two dashes alone: no options follow. -/
  | dashes
  /-- Two dashes, a name and perhaps a value. -/
  | long (name : String) (value : Option String)
  /-- A dash and letters. -/
  | short (letters : List Char)
  | plain (text : String)
  deriving DecidableEq, Repr

def Word.ofString (text : String) : Word :=
  match text.toList with
  | ['-', '-'] => .dashes
  | '-' :: '-' :: rest =>
    let name := rest.takeWhile (· ≠ '=')
    .long (String.ofList name) (((rest.drop name.length).head?).map fun _ => String.ofList (rest.drop (name.length + 1)))
  | ['-'] => .plain text
  | '-' :: letters => .short letters
  | _ => .plain text

/-- A word that can be the value of the option before it. -/
def Word.value? : Word → Option String
  | .plain text => some text
  | _ => none

/-- Reads the options of a command; `seen` are those met already. The left side is a
    request for help, which is granted when it is met. -/
def readOptions {α : Type} (table : Table α) (o : α) (seen : List String) : List Word → Option (Unit ⊕ α)
  | [] => some (.inr o)
  | .dashes :: rest => if rest.isEmpty then some (.inr o) else none
  | .plain _ :: _ => none
  | .short letters :: _ => if letters.head? = some 'h' then some (.inl ()) else none
  | .long "help" none :: _ => some (.inl ())
  | .long name value :: rest =>
    if seen.contains name then none
    else
      match table.lookup name, value, rest with
      | some (.flag set), none, rest => readOptions table (set o) (name :: seen) rest
      | some (.value set), some v, rest => do readOptions table (← set o v) (name :: seen) rest
      | some (.value set), none, w :: rest => do readOptions table (← set o (← w.value?)) (name :: seen) rest
      | _, _, _ => none

def readCommand (name : String) (rest : List Word) : Option Request :=
  match name with
  | "analyze" => do
    match ← readOptions analyzeTable {} [] rest with
    | .inl () => some (.help .analyze)
    | .inr o => some (.analyze o)
  | "bench" => do
    match ← readOptions benchTable {} [] rest with
    | .inl () => some (.help .bench)
    | .inr o => some (.bench o)
  | "help" =>
    match rest with
    | [] => some (.help .program)
    | [.plain command] => (Topic.ofCommand? command).map .help
    | _ => none
  | _ => none

def readWords (verbose : Bool) : List Word → Option Request
  | .long "verbose" none :: rest => if verbose then none else readWords true rest
  | .long "help" none :: _ => some (.help .program)
  | .long "version" none :: _ => some .version
  | .short ('h' :: _) :: _ => some (.help .program)
  | .short ('V' :: _) :: _ => some .version
  | .plain name :: rest => readCommand name rest
  | _ => none

def Request.ofArguments (args : List String) : Option Request := readWords false (args.map Word.ofString)

def versionText : String := "moe-route-trace 0.1.0\n"

def Topic.text : Topic → String
  | .program =>
    "MoE expert routing trace tools\n\n" ++
    "Usage: moe-route-trace [OPTIONS] <COMMAND>\n\n" ++
    "Commands:\n" ++
    "  analyze  Compute expert usage metrics from a routing trace\n" ++
    "  bench    Drive the capture path with synthetic routing and record timing\n" ++
    "  help     Print this message or the help of the given subcommand(s)\n\n" ++
    "Options:\n" ++
    "      --verbose  \n" ++
    "  -h, --help     Print help\n" ++
    "  -V, --version  Print version\n"
  | .analyze =>
    "Compute expert usage metrics from a routing trace\n\n" ++
    "Usage: moe-route-trace analyze [OPTIONS]\n\n" ++
    "Options:\n" ++
    "      --trace <TRACE>              [default: moe_routes.jsonl]\n" ++
    "      --verbose                    \n" ++
    "      --metrics-out <METRICS_OUT>  [default: expert_metrics.json]\n" ++
    "      --strict                     Check every record against the header\n" ++
    "  -h, --help                       Print help\n"
  | .bench =>
    "Drive the capture path with synthetic routing and record timing\n\n" ++
    "Usage: moe-route-trace bench [OPTIONS]\n\n" ++
    "Options:\n" ++
    "      --output <OUTPUT>    [default: moe_routes.jsonl]\n" ++
    "      --verbose            \n" ++
    "      --layer <LAYER>      [default: 0]\n" ++
    "      --tokens <TOKENS>    [default: 4096]\n" ++
    "      --batch <BATCH>      [default: 16]\n" ++
    "      --top-k <TOP_K>      [default: 4]\n" ++
    "      --experts <EXPERTS>  [default: 60]\n" ++
    "      --seed <SEED>        [default: 1234]\n" ++
    "      --timing <TIMING>    [default: timing.json]\n" ++
    "      --no-log             \n" ++
    "  -h, --help               Print help\n"
  | .help =>
    "Print this message or the help of the given subcommand(s)\n\n" ++
    "Usage: moe-route-trace help [COMMAND]...\n\n" ++
    "Arguments:\n" ++
    "  [COMMAND]...  Print help for the subcommand(s)\n"

end ExpertRouting.Command
