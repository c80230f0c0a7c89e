import Nodal.Transient.Simulator

/-! # Reports

A table of all components with their voltages and currents, under the time of the last tick. -/

namespace Nodal.CommandLine

def padRight (width : Nat) (s : String) : String :=
  s ++ String.ofList (List.replicate (width - s.length) ' ')

/-- The columns of the table; the last one ends where its text ends. -/
def row (id name kind voltages currents : String) : String :=
  padRight 6 id ++ " " ++ padRight 12 name ++ " " ++ padRight 16 kind ++ " " ++
    padRight 36 voltages ++ " " ++ currents

def header : String := row "id" "name" "type" "voltages (V)" "currents (A)"

def valuesText (values : List Float) : String :=
  " ".intercalate (values.map fun v => (Binary64.ofFloat v).scientificTo 4 true)

def timeLine (time : Float) : String :=
  "t = " ++ (Binary64.ofFloat time).scientificTo 6 false ++ " s"

def componentLine? (s : Simulator Float) (c : Component Float) : Option String :=
  (s.componentState? c.id).map fun state =>
    row c.id.name c.name c.kind.name (valuesText state.voltages) (valuesText state.currents)

/-- The report as lines, the last of them empty. -/
def reportLines (s : Simulator Float) : List String :=
  timeLine s.time :: header :: s.circuit.components.filterMap (componentLine? s) ++ [""]

end Nodal.CommandLine
