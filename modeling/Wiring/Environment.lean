import Wiring.Placeholder
import Wiring.Profile
import Wiring.PropertySource

/-!
# The environment

The property sources and the profiles that a resolution runs in. An environment that is not
configurable keeps its sources as they are.
-/

namespace Wiring

/-- The profile that is active by default. -/
def defaultProfile : String := "default"

/-- The name of the source with the variables of the process. -/
def systemEnvironmentName : String := "systemEnvironment"

/-- Property sources and profiles. -/
structure Environment where
  sources : SourceList := {}
  activeProfiles : List String := []
  defaultProfiles : List String := [defaultProfile]
  isConfigurable : Bool := true

namespace Environment

instance : Inhabited Environment := ⟨{}⟩

/-- Add a table of properties with the lowest precedence. -/
def withProperties (env : Environment) (name : String) (properties : Table String) :
    Environment :=
  { env with sources := env.sources.addLast (.table name none properties) }

/-- The value of a property as it is written. -/
def raw? (env : Environment) (key : String) : Option String := env.sources.property? key

/-- Expand the placeholders of a text; what cannot be resolved stays. -/
def expand (env : Environment) (text : String) : Except Error String :=
  Placeholder.expand .standard .lenient env.sources.textSize env.raw? text

/-- Expand the placeholders of a text, all of which must be resolved. -/
def expandRequired (env : Environment) (text : String) : Except Error String :=
  Placeholder.expand .standard .required env.sources.textSize env.raw? text

/-- The value of a property with its placeholders expanded; where that fails, as it is written. -/
def property? (env : Environment) (key : String) : Option String :=
  (env.raw? key).map fun raw =>
    match env.expand raw with
    | .ok text => text
    | .error _ => raw

/-- Has the property a value? -/
def contains (env : Environment) (key : String) : Bool := (env.raw? key).isSome

/-- The profiles that count: the active ones, or the default ones if none is. -/
def effectiveProfiles (env : Environment) : List String :=
  if env.activeProfiles.isEmpty then env.defaultProfiles else env.activeProfiles

/-- Does one of the profile expressions hold? A malformed one does not. -/
def accepts (env : Environment) (expressions : List String) : Bool :=
  expressions.any fun text =>
    match ProfileExpression.parse text with
    | .ok e => e.holds fun name => env.effectiveProfiles.contains name
    | .error _ => false

end Environment

end Wiring
