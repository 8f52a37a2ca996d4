import Proctor.Report.Card
import Proctor.Report.Location
import Proctor.Time.Span
import Proctor.Xml.Element

/-!
Reports that cannot be read.
-/

namespace Proctor

inductive ReportFault
  | xml (fault : Xml.Fault)
  | unexpectedRoot (name : String)
  deriving DecidableEq, Repr

namespace ReportFault

def message : ReportFault → String
  | .xml fault => fault.message
  | .unexpectedRoot name => s!"unexpected root element <{name}>"

/-- The note on the card of a report that cannot be read. -/
def note (fault : ReportFault) : String :=
  s!"error parsing unit test results: {fault.message}"

end ReportFault

/-- The note on the card of an empty report. -/
def noResults : String := "No unit test results found"

end Proctor
