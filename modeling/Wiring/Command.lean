import Wiring.Descriptor.Parse
import Wiring.Report.Summary
import Wiring.Report.Tree

/-!
# The command line

What the arguments ask for, and what the command answers: an exit code, what it prints, and the text
of an error.
-/

namespace Wiring

/-- The format of a report. -/
inductive ReportFormat where
  | text
  | json
deriving DecidableEq, Repr, Inhabited

/-- What is to be done. -/
inductive Task where
  | resolve (descriptor : String) (format : ReportFormat) (lenient : Bool)
  | tree (descriptor : String) (depth? : Option Nat) (lenient : Bool)
  | validate (descriptor : String)
deriving DecidableEq, Repr, Inhabited

/-- A task, and whether its report is decorated. -/
structure Invocation where
  task : Task
  color : Report.ColorChoice
deriving DecidableEq, Repr, Inhabited

namespace Invocation

/-! ## Arguments -/

/-- The options given, under their long names. -/
abbrev Options := List (String × String)

/-- The long names of options with a value, and whether they may stand before the task. -/
def globalOptions : List String := ["color", "log-level"]

/-- The options with a value, and the switches, of each task. -/
def taskOptions : List (String × List String × List String) :=
  [("resolve", ["descriptor", "format"], ["lenient"]),
    ("tree", ["descriptor", "depth"], ["lenient"]),
    ("validate", ["descriptor"], [])]

/-- Note an option, which may be given once. -/
def note? (given : Options) (name value : String) : Option Options :=
  if (given.lookup name).isSome then none else some ((name, value) :: given)

/-- May the argument be the value of an option? -/
def isValue (argument : String) : Bool :=
  argument.toList.head? != some '-' || argument == "-"

/-- Cut a long option at its equals sign. -/
def cutValue (s : List Char) : String × Option String :=
  match s.span (· != '=') with
  | (name, []) => (String.ofList name, none)
  | (name, _ :: value) => (String.ofList name, some (String.ofList value))

/-- Read options up to an argument that is none; that argument and all further ones are left. -/
def readOptions (valued switches : List String) :
    Options → List String → Option (Options × List String)
  | given, [] => some (given, [])
  | given, argument :: rest =>
    match argument.toList with
    | ['-', '-'] => if rest.isEmpty then some (given, []) else none
    | '-' :: '-' :: long =>
      let (name, value?) := cutValue long
      if switches.contains name then
        if value?.isSome then none
        else (note? given name "").bind fun given => readOptions valued switches given rest
      else if valued.contains name then
        match value?, rest with
        | some value, rest =>
          (note? given name value).bind fun given => readOptions valued switches given rest
        | none, value :: rest =>
          if isValue value then
            (note? given name value).bind fun given => readOptions valued switches given rest
          else none
        | none, [] => none
      else none
    | '-' :: 'd' :: short =>
      if !valued.contains "descriptor" then none
      else
        match short, rest with
        | [], value :: rest =>
          if isValue value then
            (note? given "descriptor" value).bind fun given =>
              readOptions valued switches given rest
          else none
        | [], [] => none
        | short, rest =>
          let value :=
            match short with
            | '=' :: value => value
            | value => value
          (note? given "descriptor" (String.ofList value)).bind fun given =>
            readOptions valued switches given rest
    | _ => some (given, argument :: rest)

/-- The choice that a word stands for. -/
def color? : String → Option Report.ColorChoice
  | "always" => some .always
  | "never" => some .never
  | "auto" => some .auto
  | _ => none

/-- The format that a word stands for. -/
def format? : String → Option ReportFormat
  | "text" => some .text
  | "json" => some .json
  | _ => none

/-- A number of 64 bits without a sign. -/
def depth? (s : String) : Option Nat :=
  match Text.int? s with
  | some i => if s.toList.head? != some '-' && i < Nat.pow 2 64 then some i.toNat else none
  | none => none

/-- An option that has a default. -/
def choice? {α : Type} (given : Options) (name : String) (read : String → Option α) (preset : α) :
    Option α :=
  match given.lookup name with
  | some value => read value
  | none => some preset

/-- The descriptor where none is named. -/
def presetDescriptor : String := "confgraph.yaml"

/-- The path of the descriptor: that given, or else that which the variables name. -/
def descriptor? (given : Options) (exported : Table String) : Option String :=
  let path := (given.lookup "descriptor" <|> exported.get? "CONFGRAPH_DESCRIPTOR").getD
    presetDescriptor
  if path.isEmpty then none else some path

/-- Read the arguments. -/
def parse? (exported : Table String) (arguments : List String) : Option Invocation := do
  let (before, rest) ← readOptions globalOptions [] [] arguments
  match rest with
  | [] => none
  | name :: rest => do
    let (valued, switches) ← taskOptions.lookup name
    let (given, rest) ← readOptions (valued ++ globalOptions) switches [] rest
    if !rest.isEmpty then none
    else
      let outer ← choice? before "color" color? .auto
      let color ← choice? given "color" color? outer
      let path ← descriptor? given exported
      let lenient := (given.lookup "lenient").isSome
      match name with
      | "resolve" => do
        let format ← choice? given "format" format? .text
        pure ⟨.resolve path format lenient, color⟩
      | "tree" => do
        let depth? ← choice? given "depth" (fun s => (depth? s).map some) none
        pure ⟨.tree path depth? lenient, color⟩
      | _ => pure ⟨.validate path, color⟩

end Invocation

/-! ## Answers -/

/-- What a command answers. -/
structure Answer where
  exitCode : Nat
  output : String := ""
  error? : Option String := none
deriving DecidableEq, Repr, Inhabited

namespace Answer

/-- Lines of output. -/
def outputOf (lines : List String) : String :=
  String.join (lines.map (· ++ "\n"))

/-- The task was done. -/
def success (lines : List String) : Answer := { exitCode := 0, output := outputOf lines }

/-- The task failed after some lines of output. -/
def failure (lines : List String) (error : String) : Answer :=
  { exitCode := 1, output := outputOf lines, error? := some error }

/-- The arguments make no sense. -/
def misuse : Answer := { exitCode := 2 }

end Answer

/-- What a command works with: files, and the exported variables of the process. -/
structure Surroundings where
  files : FileTree
  exported : Table String
  colorTerminal : Bool := false

namespace Task

/-- Read a descriptor and resolve it; `lenient` overrides its policy. -/
def load (s : Surroundings) (path : String) (lenient : Bool) : Except String Resolution :=
  match Descriptor.ofFile s.files path with
  | .error e => .error (s!"Failed to load descriptor from {path}: " ++ e.message)
  | .ok d =>
    let d :=
      if lenient then { d with settings := { d.settings with problemPolicy := .lenient } } else d
    match d.resolve (FileTree.parent path) s.files s.exported with
    | .error e => .error ("Resolution failed: " ++ e.message)
    | .ok r => .ok r

/-- Check a descriptor and its classes. -/
def validation (s : Surroundings) (style : Report.Style) (path : String) : Answer :=
  let start := [style.line .scan s!"Validating descriptor: {path}"]
  let failed := "Descriptor validation failed"
  match Descriptor.ofFile s.files path with
  | .error e =>
    .failure (start ++ [style.line .failed ("Descriptor parsing failed: " ++ e.message)]) failed
  | .ok _ =>
    let start := start ++ [style.line .ok "Descriptor parsed successfully"]
    match load s path true with
    | .error e => .failure (start ++ [style.line .failed e]) failed
    | .ok r =>
      let count := r.model.classes.length
      let start := start ++ [style.line .ok s!"Resolved {count} configuration classes"]
      let problems := r.model.problems
      if problems.isEmpty then .success (start ++ [style.line .done "Descriptor is valid"])
      else
        .failure
          (start ++ style.line .failed s!"Found {problems.length} problem(s):" ::
            problems.map fun p => s!"  - {p.message}")
          s!"{failed} with {problems.length} problem(s)"

/-- Do a task. -/
def run (s : Surroundings) (style : Report.Style) : Task → Answer
  | resolve path format lenient =>
    match load s path lenient, format with
    | .error e, _ => .failure [] e
    | .ok r, .json => .success [Document.Json.renderPretty (Report.toNode r)]
    | .ok r, .text => .success (Report.lines style r)
  | tree path depth? lenient =>
    match load s path lenient with
    | .error e => .failure [] e
    | .ok r =>
      .success (style.line .tree s!"Import tree for: {path}" ::
        (Report.tree r.model depth?).lines)
  | validate path => validation s style path

end Task

/-- Answer a command. -/
def Surroundings.answer (s : Surroundings) (arguments : List String) : Answer :=
  match Invocation.parse? s.exported arguments with
  | none => .misuse
  | some i => i.task.run s ⟨i.color.isDecorated s.exported s.colorTerminal⟩

end Wiring
