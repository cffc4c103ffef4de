import Orchestraitor.Worker.Run

/-!
# Byte caps of results

A result that does not fit its cap is cut between characters and gets a marker.  `declaredCommand` and
`renderSubsessionSummary` make room for the marker, `truncateBytes` itself does not: the summary of a
sub-session is within its cap only if nothing was cut.
-/

namespace Worker
open Base Base.Calls String

def capped (cap : Nat) (text : String) : String :=
  if cap < text.utf8ByteSize then
    ofList (takeBytes (cap - truncationMarker.utf8ByteSize) text.toList) ++ truncationMarker
  else text

end Worker
