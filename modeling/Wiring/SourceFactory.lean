import Wiring.Document.Flatten
import Wiring.Document.Toml
import Wiring.Document.Yaml
import Wiring.Properties
import Wiring.PropertySource
import Wiring.Resource

/-!
# Property sources of resources

A resource becomes a table of properties. Its format goes by the extension of its location:
documents are flattened, everything else is properties text.
-/

namespace Wiring

namespace SourceFactory

open Document

/-- The properties of a document, which must be a record, or absent. -/
def ofDocument (location : String) : Value → Except Error (Table String)
  | .null => .ok Table.empty
  | .record fields => .ok ((Value.record fields).flatten "")
  | _ => .error (.propertySource location "top-level document must be a mapping")

/-- The properties of a text in the format of an extension. -/
def properties (location : String) (extension? : Option String) (text : String) :
    Except Error (Table String) :=
  let document (failure : Error) (n? : Option Node) : Except Error (Table String) :=
    match n?.bind Node.toValue? with
    | some v => ofDocument location v
    | none => .error failure
  match extension? with
  | some "yaml" => if Text.isBlankText text then .ok Table.empty else yaml document
  | some "yml" => if Text.isBlankText text then .ok Table.empty else yaml document
  | some "json" => document (.json "not a JSON document") (Json.parse? text)
  | some "toml" => document (.toml "not a TOML document") (Toml.parse? text)
  | _ => .ok (Properties.parse text)
where
  /-- The properties of a YAML document. -/
  yaml (document : Error → Option Node → Except Error (Table String)) :
      Except Error (Table String) :=
    document (.yaml "not a YAML document") (Yaml.parse? text)

/-- The property source of a resource, under a name, or else under its description. -/
def create (name? : Option String) (r : Resource) (encoding? : Option String) :
    Except Error PropertySource := do
  let text ← r.text encoding?
  let properties ← properties r.location r.extension? text
  pure (.table (name?.getD r.description) (some r.description) properties)

end SourceFactory

end Wiring
