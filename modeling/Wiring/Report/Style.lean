import Wiring.Table

/-!
# Markers of reports

The lines of a report start with a marker, which is a picture where reports are decorated and a tag
in brackets otherwise.
-/

namespace Wiring.Report

/-- Whether reports are decorated. -/
inductive ColorChoice where
  | always
  | never
  /-- As the exported variables and the terminal ask for. -/
  | auto
deriving DecidableEq, Repr, Inhabited

/-- Is a report decorated? -/
def ColorChoice.isDecorated (choice : ColorChoice) (exported : Table String)
    (colorTerminal : Bool) : Bool :=
  match choice with
  | always => true
  | never => false
  | auto =>
    if exported.contains "NO_COLOR" || exported.get? "CLICOLOR" == some "0" then false
    else if (exported.get? "CLICOLOR_FORCE").any fun v => !v.isEmpty && v != "0" then true
    else if exported.get? "TERM" == some "dumb" then false
    else colorTerminal

/-- What a line of a report is about. -/
inductive Marker where
  | classes
  | sources
  | definitions
  | tree
  | scan
  | ok
  | problems
  | failed
  | done
deriving DecidableEq, Repr, Inhabited

namespace Marker

/-- The picture of a marker. -/
def glyph : Marker → String
  | classes => "📦"
  | sources => "📋"
  | definitions => "🧩"
  | tree => "🌳"
  | scan => "🔍"
  | ok => "✅"
  | problems => "⚠️"
  | failed => "❌"
  | done => "🎉"

/-- The tag of a marker. -/
def tag : Marker → String
  | classes => "[CLASSES]"
  | sources => "[SOURCES]"
  | definitions => "[DEFS]"
  | tree => "[TREE]"
  | scan => "[SCAN]"
  | ok => "[OK]"
  | problems => "[WARN]"
  | failed => "[ERR]"
  | done => "[DONE]"

end Marker

/-- Whether a report is decorated. -/
structure Style where
  decorated : Bool
deriving DecidableEq, Repr, Inhabited

namespace Style

/-- The text of a marker. -/
def marker (s : Style) (m : Marker) : String := if s.decorated then m.glyph else m.tag

/-- A line with a marker. -/
def line (s : Style) (m : Marker) (text : String) : String := s.marker m ++ " " ++ text

end Style

end Wiring.Report
