/-!
# Causes of failure

Everything that can go wrong while a descriptor is read and its configuration classes are resolved,
as one type of causes, with their texts. A failure that arises while definitions are stored is
wrapped once in a `store` cause that says what was being worked on.
-/

namespace Wiring

/-- Why an operation failed. -/
inductive Error where
  /-- The descriptor is well formed but says something that makes no sense. -/
  | descriptor (message : String) (hint? : Option String)
  | metadata (className message : String)
  | classNotFound (className : String)
  | instantiation (className message : String)
  /-- A failure inside the resolution, with the work during which it arose. -/
  | store (message : String) (source : Error)
  | circularImport (chain message : String)
  | invalidConfiguration (className message : String)
  | importDepthExceeded (className : String) (limit : Nat)
  | definitionOverride (name : String)
  | resourceNotFound (location : String)
  | unknownHost (location host : String)
  | unsupportedLocation (location : String)
  | unresolvablePlaceholder (placeholder value : String)
  | circularPlaceholder (placeholder : String)
  | propertySource (location message : String)
  | unsupportedEncoding (location encoding : String)
  | profileExpression (expression message : String)
  | missingPropertySource (name : String)
  | inputOutput (detail : String)
  | yaml (detail : String)
  | json (detail : String)
  | toml (detail : String)
  | pattern (detail : String)
  | url (detail : String)
  /-- A bound on the work was used up before the work was done. -/
  | exhausted (work : String)
deriving DecidableEq, Repr, Inhabited

namespace Error

/-- The text of a failure. -/
def message : Error → String
  | descriptor message hint? =>
    s!"Configuration parsing error: {message}" ++
      match hint? with
      | some hint => s!"\n  hint: {hint}"
      | none => ""
  | metadata className message => s!"Failed to read metadata for class [{className}]: {message}"
  | classNotFound className => s!"Class not found: {className}"
  | instantiation className message => s!"Failed to instantiate [{className}]: {message}"
  | store message source => s!"{message}: " ++ source.message
  | circularImport chain message => s!"Circular import detected: {message} (chain: {chain})"
  | invalidConfiguration className message =>
    s!"Invalid configuration class [{className}]: {message}"
  | importDepthExceeded className limit =>
    s!"Import depth limit of {limit} exceeded while processing [{className}]"
  | definitionOverride name =>
    s!"Cannot register bean definition [{name}]: a definition with that name already exists"
  | resourceNotFound location => s!"Resource not found: {location}"
  | unknownHost location host => s!"Unknown host '{host}' for resource {location}"
  | unsupportedLocation location => s!"Unsupported resource location: {location}"
  | unresolvablePlaceholder placeholder value =>
    s!"Could not resolve placeholder '{placeholder}' in value \"{value}\""
  | circularPlaceholder placeholder =>
    s!"Circular placeholder reference '{placeholder}' in property definitions"
  | propertySource location message => s!"Invalid property source {location}: {message}"
  | unsupportedEncoding location encoding =>
    s!"Unsupported encoding '{encoding}' for resource {location}"
  | profileExpression expression message =>
    s!"Malformed profile expression '{expression}': {message}"
  | missingPropertySource name => s!"Property source '{name}' does not exist"
  | inputOutput detail => s!"I/O error: {detail}"
  | yaml detail => s!"YAML parsing error: {detail}"
  | json detail => s!"JSON parsing error: {detail}"
  | toml detail => s!"TOML parsing error: {detail}"
  | pattern detail => s!"Regex error: {detail}"
  | url detail => s!"URL parsing error: {detail}"
  | exhausted work => s!"Gave up: {work} does not come to an end"

/-- Is this a failure with the work during which it arose? -/
def isStore : Error → Bool
  | store .. => true
  | _ => false

/-- Say during which work a failure arose. A failure that says so already stays as it is. -/
def during (message : String) : Error → Error
  | store m e => store m e
  | e => store message e

/-- The failure that no longer wraps another one. -/
def rootCause : Error → Error
  | store _ source => source.rootCause
  | e => e

/-- Failures that a property source directive may be told to overlook: there is nothing at the
location. -/
def isMissingLocation : Error → Bool
  | resourceNotFound _ | unknownHost .. | unresolvablePlaceholder .. => true
  | _ => false

@[simp] theorem isStore_during (message : String) (e : Error) :
    (e.during message).isStore = true := by
  cases e <;> rfl

@[simp] theorem rootCause_during (message : String) (e : Error) :
    (e.during message).rootCause = e.rootCause := by
  cases e <;> rfl

end Error

theorem bind_eq_ok {ε α β : Type} {x : Except ε α} {f : α → Except ε β} {b : β} :
    x >>= f = .ok b ↔ ∃ a, x = .ok a ∧ f a = .ok b := by
  cases x with
  | ok a => simp [bind, Except.bind]
  | error e => simp [bind, Except.bind]

theorem mapError_bind {ε ε' α β : Type} (x : Except ε α) (f : α → Except ε β) (g : ε → ε') :
    (x >>= f).mapError g = x.mapError g >>= fun a => (f a).mapError g := by
  cases x <;> rfl

end Wiring
