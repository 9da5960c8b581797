import RowFactory.Name.ModulePath
import RowFactory.Source.Ty

namespace RowFactory

/-- Markers are full paths as lists of names. -/
structure Config where
  markers : List (List String)
  runtime : Path

def defaultMarkers : List String :=
  ["rowmap::RowMapped", "rowmap::prelude::RowMapped", "rowmap_derive::RowMapped"]

def defaultRuntime : Path := ⟨true, [.plain (.plain "rowmap")]⟩

/-- The names of a marker given as text; empty ones count for nothing. -/
def markerSegments (text : String) : List String :=
  ((pathWords text).filter (!·.isEmpty)).map String.ofList

namespace Config

def default : Config := ⟨defaultMarkers.map markerSegments, defaultRuntime⟩

def withoutMarkers : Config := ⟨[], defaultRuntime⟩

/-- One more marker, unless it is empty or known already. -/
def withMarker (c : Config) (text : String) : Config :=
  let segments := markerSegments text
  if segments.isEmpty || c.markers.contains segments then c
  else { c with markers := c.markers ++ [segments] }

def withRuntime (c : Config) (runtime : Path) : Config := { c with runtime }

def isMarker (c : Config) (segments : List String) : Bool := c.markers.contains segments

end Config

end RowFactory
