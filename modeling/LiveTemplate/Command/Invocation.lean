import LiveTemplate.Command.Listing
import LiveTemplate.Command.Render

/-! What the program's arguments ask for, and what it answers. Options have values, and later ones are
kept behind earlier ones. After two dashes every argument is a path, and paths are not empty. Misuse ends
the reading of arguments early, and so does asking for help. -/

namespace LiveTemplate

inductive Invocation where
  | version
  | help
  | render (options : RenderOptions)
  | listParts (options : ListingOptions)
  deriving DecidableEq

inductive Interruption where
  | misuse
  | help
  deriving DecidableEq

structure OptionRule where
  name : String
  isPath : Bool
  repeats : Bool

namespace OptionRule

def state : OptionRule :=
  ⟨"state", true, false⟩

def update : OptionRule :=
  ⟨"update", true, true⟩

def config : OptionRule :=
  ⟨"config", true, false⟩

def type : OptionRule :=
  ⟨"type", false, false⟩

end OptionRule

structure Arguments where
  template? : Option String
  options : List (String × String)

namespace Arguments

def empty : Arguments :=
  ⟨none, []⟩

def values (arguments : Arguments) (rule : OptionRule) : List String :=
  (arguments.options.filter fun (name, _) => name == rule.name).map Prod.snd

def addOption (arguments : Arguments) (rule : OptionRule) (value : String) :
    Except Interruption Arguments :=
  if rule.isPath && value == "" then .error .misuse
  else if !rule.repeats && !(arguments.values rule).isEmpty then .error .misuse
  else .ok { arguments with options := arguments.options ++ [(rule.name, value)] }

def addTemplate (arguments : Arguments) (path : String) : Except Interruption Arguments :=
  if path == "" || arguments.template?.isSome then .error .misuse
  else .ok { arguments with template? := some path }

def isDashed (argument : List Char) : Bool :=
  argument.head? == some '-' && argument.length != 1

def read (rules : List OptionRule) : Arguments → List String → Except Interruption Arguments
  | arguments, [] => .ok arguments
  | arguments, argument :: rest =>
    match argument.toList with
    | ['-', '-'] => rest.foldlM addTemplate arguments
    | '-' :: '-' :: text =>
      let name := String.ofList (text.takeWhile (· != '='))
      match rules.find? (·.name == name), text.dropWhile (· != '='), rest with
      | some rule, _ :: value, rest => do
        let arguments ← arguments.addOption rule (String.ofList value)
        read rules arguments rest
      | some rule, [], value :: rest =>
        if isDashed value.toList then .error .misuse
        else do
          let arguments ← arguments.addOption rule value
          read rules arguments rest
      | some _, [], [] => .error .misuse
      | none, [], _ => .error (if name = "help" then .help else .misuse)
      | none, _ :: _, _ => .error .misuse
    | '-' :: c :: _ => .error (if c = 'h' then .help else .misuse)
    | _ => do
      let arguments ← arguments.addTemplate argument
      read rules arguments rest

end Arguments

namespace RenderOptions

def read (arguments : List String) : Except Interruption RenderOptions := do
  let rules := [OptionRule.state, .update, .config, .type]
  let found ← Arguments.read rules .empty arguments
  match found.template? with
  | none => .error .misuse
  | some template =>
    return { template
             state? := (found.values .state).head?
             updates := found.values .update
             config? := (found.values .config).head?
             type? := (found.values .type).head? }

def paths (options : RenderOptions) : List String :=
  options.template :: options.state?.toList ++ options.updates ++ options.config?.toList

end RenderOptions

namespace ListingOptions

def read (arguments : List String) : Except Interruption ListingOptions := do
  let found ← Arguments.read [OptionRule.config] .empty arguments
  match found.template? with
  | none => .error .misuse
  | some template => return { template, config? := (found.values .config).head? }

def paths (options : ListingOptions) : List String :=
  options.template :: options.config?.toList

end ListingOptions

namespace Invocation

def commands : List String :=
  ["render", "parts", "help"]

def read : List String → Except Interruption Invocation
  | "render" :: rest => return render (← RenderOptions.read rest)
  | "parts" :: rest => return listParts (← ListingOptions.read rest)
  | ["help"] => .ok help
  | ["help", command] => if commands.contains command then .ok help else .error .misuse
  | "--version" :: _ => .ok version
  | "--help" :: _ => .ok help
  | argument :: _ =>
    match argument.toList with
    | '-' :: 'V' :: _ => .ok version
    | '-' :: 'h' :: _ => .ok help
    | _ => .error .misuse
  | [] => .error .misuse

def paths : Invocation → List String
  | version | help => []
  | render options => options.paths
  | listParts options => options.paths

end Invocation

inductive Answer where
  | lines (lines : List String)
  | misuse
  | failed (error : CommandError)
  deriving DecidableEq

namespace Answer

def exitCode : Answer → Nat
  | lines _ => 0
  | failed _ => 1
  | misuse => 2

def output : Answer → String
  | lines shown => String.join (shown.map (· ++ "\n"))
  | misuse | failed _ => ""

def ofResult : Except CommandError (List String) → Answer
  | .ok found => lines found
  | .error error => failed error

end Answer

def versionLine : String :=
  "weft 0.1.1"

def helpLines : List String :=
  ["Usage: weft render <TEMPLATE> [OPTIONS]",
   "       weft parts <TEMPLATE> [OPTIONS]",
   "",
   "Options of both:",
   "  --config <CONFIG>  template markup conventions, as JSON",
   "Options of render:",
   "  --state <STATE>    initial state, a JSON object",
   "  --update <UPDATE>  state applied after the first render; repeat for more steps",
   "  --type <TYPE>      template type, in place of the template's own attribute"]

namespace Invocation

def run (files : Files) : Invocation → Answer
  | version => .lines [versionLine]
  | help => .lines helpLines
  | render options => .ofResult (LiveTemplate.render files options)
  | listParts options => .ofResult (LiveTemplate.listParts files options)

def answer (files : Files) (arguments : List String) : Answer :=
  match read arguments with
  | .ok invocation => invocation.run files
  | .error .help => .lines helpLines
  | .error .misuse => .misuse

end Invocation

end LiveTemplate
