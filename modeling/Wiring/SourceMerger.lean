import Wiring.Context
import Wiring.SourceFactory

/-!
# Declared property sources

Classes declare property sources. Each new name goes before those added earlier; several sources of
one name become a group, the newest first.
-/

namespace Wiring

/-- A declared property source. -/
structure SourceDirective where
  locations : List String
  name? : Option String
  encoding? : Option String
  ignoresMissing : Bool
  factory? : Option String
deriving DecidableEq, Repr

/-- The directive of an annotation. -/
def SourceDirective.declaredBy (a : Annotation) : SourceDirective :=
  { locations := a.texts "value" ++ a.texts "locations"
    name? := a.nonEmptyText? "name"
    encoding? := a.nonEmptyText? "encoding"
    ignoresMissing := (a.bool? "ignore_resource_not_found").getD false
    factory? := a.nonEmptyText? "factory" }

/-- The names of the sources added, in order. -/
structure SourceMerger where
  names : List String := []
deriving DecidableEq, Repr, Inhabited

namespace SourceMerger

/-- Join a source with one of the same name. -/
def joined (incoming : PropertySource) : PropertySource → PropertySource
  | .composite name members => PropertySource.addFirstMember incoming (.composite name members)
  | existing =>
    PropertySource.addFirstMember incoming (.composite existing.name [existing.underResourceName])

/-- Add a source. What has changed when it cannot be put in its place stays changed. -/
def add (m : SourceMerger) (sources : SourceList) (s : PropertySource) :
    Except Error Unit × SourceMerger × SourceList :=
  if s.name ∈ m.names && sources.contains s.name then
    (.ok (), m, sources.modify s.name (joined s.underResourceName))
  else
    let (outcome, sources) : Except Error Unit × SourceList :=
      match m.names.getLast? with
      | none => (.ok (), sources.addLast s)
      | some previous => sources.addBefore previous s
    match outcome with
    | .ok () => (.ok (), ⟨m.names ++ [s.name]⟩, sources)
    | .error e => (.error e, m, sources)

/-- The factory of a directive is one. -/
def checkFactory (ctx : Context) (d : SourceDirective) : Except Error Unit :=
  match d.factory? with
  | none => .ok ()
  | some name => do
    match ← ctx.instantiate name with
    | .sourceFactory => pure ()
    | other => throw (Context.mismatch name "a PropertySourceFactory" other)

/-- The source at a location. -/
def load (ctx : Context) (env : Environment) (d : SourceDirective) (location : String) :
    Except Error PropertySource := do
  let location ← env.expandRequired location
  let r ← ctx.resources.get location
  SourceFactory.create d.name? r d.encoding?

/-- Add the sources at locations, one after the other. -/
def processLocations (ctx : Context) (declaring : String) (d : SourceDirective) :
    SourceMerger → Environment → List String → Except Error Unit × SourceMerger × Environment
  | m, env, [] => (.ok (), m, env)
  | m, env, location :: rest =>
    match load ctx env d location with
    | .error e =>
      if d.ignoresMissing && e.isMissingLocation then processLocations ctx declaring d m env rest
      else (.error e, m, env)
    | .ok s =>
      if !env.isConfigurable then
        (.error (.invalidConfiguration declaring
          "Environment does not support property source configuration"), m, env)
      else
        match m.add env.sources s with
        | (.error e, m, sources) => (.error e, m, { env with sources })
        | (.ok (), m, sources) => processLocations ctx declaring d m { env with sources } rest

/-- Add the sources of a directive on a class. -/
def process (ctx : Context) (m : SourceMerger) (env : Environment) (declaring : String)
    (d : SourceDirective) : Except Error Unit × SourceMerger × Environment :=
  if d.locations.isEmpty then
    (.error (.invalidConfiguration declaring
      "At least one PropertySource location is required"), m, env)
  else
    match checkFactory ctx d with
    | .error e => (.error e, m, env)
    | .ok () => processLocations ctx declaring d m env d.locations

end SourceMerger

end Wiring
