import Nodal.Proofs.Numbering
import Nodal.Transient.Simulator

/-! # The laws of circuits

Currents flow along the paths of devices, and at a node those that leave add up to those that
arrive. Each device relates its currents and voltages by a law of its own. Here these laws are
stated about the states that a tick stores, apart from the equations that make them hold. -/

namespace Nodal

namespace Device
variable {α : Type}

/-- The paths of the device's currents in their order. A current flows from the first node of its
path to the second through the device; an op-amp takes its output current from ground. -/
def paths : Device α → List (Node × Node)
  | resistor a b _ _ => [(a, b)]
  | wire a b _ => [(a, b)]
  | voltageSource a b _ _ => [(a, b)]
  | currentSource a b _ => [(a, b)]
  | capacitor a b _ => [(a, b)]
  | inductor a b _ => [(a, b)]
  | opAmp plus minus output _ _ => [(plus, minus), (.ground, output)]
  | diode anode cathode _ => [(anode, cathode)]
  | mosfet drain _ source _ _ => [(drain, source)]

/-- The paths lead between nodes that have a place in the layout. -/
theorem paths_lt {l : Layout} {d : Component α} (h : d.Fits l) :
    ∀ p ∈ d.device.paths, p.1.number.toNat < l.numNodes ∧ p.2.number.toNat < l.numNodes := by
  obtain ⟨id, name, device⟩ := d
  have hground : Node.ground.number.toNat < l.numNodes :=
    Nat.lt_of_lt_of_le (by decide : 0 < minNodes) l.two_le
  have hnodes := h.nodes_lt
  cases device <;> simp_all [paths, nodes]

variable [Scalar α]

/-- What the currents of the device take away from a node. -/
def leaving (d : Device α) (currents : List α) (n : Node) : α :=
  (List.zipWith (fun (a, b) i => (if a = n then i else 0) - if b = n then i else 0)
    d.paths currents).sum

/-- By how much the voltages of a source differ from what it keeps. -/
def violation (time : α) : Device α → List α → α
  | wire .., [v, w] => w - v
  | voltageSource _ _ waveform _, [v, w] => w - v - waveform.valueAt time
  | opAmp _ _ _ gain _, [plus, minus, output] => output - gain * (plus - minus)
  | _, _ => 0

/-- What the device makes of its voltages and currents at a time. Capacitors and inductors have
their law over time only. -/
def Law (time : α) : Device α → List α → List α → Prop
  | resistor _ _ resistance fault, [v, w], [i] => v - w = i * fault.effective resistance
  | wire .., [v, w], [_] => v = w
  | voltageSource _ _ waveform _, [v, w], [_] => w - v = waveform.valueAt time
  | currentSource _ _ current, [_, _], [i] => i = current
  | capacitor .., [_, _], [_] => True
  | inductor .., [_, _], [_] => True
  | opAmp _ _ _ gain _, [plus, minus, output], [_, _] => output = gain * (plus - minus)
  | diode _ _ params, [v, w], [i] => i = params.current (v - w)
  | mosfet _ _ _ channel params, [d, g, s], [i] =>
    i = (params.operatingPoint channel d g s).drainCurrent
  | _, _, _ => False

end Device

namespace Circuit
variable {α : Type} [Scalar α]

/-- The currents that leave a node less those that arrive there, over all components. -/
def netCurrent (c : Circuit α) (state : CircuitState α) (n : Node) : α :=
  (c.components.map fun d =>
    d.device.leaving ((state.get? d.id).getD .empty).currents n).sum

/-- What a solution, ground first, and the states derived from it leave unbalanced: at each node the
net current and the current through `gmin`, then for each source what its voltages miss. -/
def imbalance (c : Circuit α) (gmin time : α) (solution : List α) (state : CircuitState α) :
    List α :=
  c.nonGroundNodes.map (fun n =>
    gmin * (⟨solution, c.numNodes⟩ : Solution α).voltage n + c.netCurrent state n) ++
  c.sources.map fun d =>
    d.device.violation time ((state.get? d.id).getD .empty).voltages

end Circuit

/-- The stored state obeys the laws of circuits. -/
structure Simulator.ObeysLaws {α : Type} [Scalar α] (s : Simulator α) : Prop where
  /-- At every node but ground as much current leaves as arrives. -/
  balanced : ∀ n ∈ s.circuit.nonGroundNodes, s.circuit.netCurrent s.state n = 0
  /-- Every component tells the voltages of its nodes, and its device's law holds of them. -/
  lawful : ∀ d ∈ s.circuit.components, ∃ state, s.componentState? d.id = some state ∧
    state.voltages = d.nodes.map s.nodeVoltage ∧
    d.device.Law s.time state.voltages state.currents

end Nodal
