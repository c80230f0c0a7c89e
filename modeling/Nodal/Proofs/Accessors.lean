import Nodal.Proofs.Lengths

/-! # Reading voltages and currents

The voltages of the nodes and the currents of the sources stand in one list, and only the number of
nodes tells where the currents begin. A current is read from there on. A voltage is read from the
front, and nothing asks whether the node exists: behind the last node come the currents of the
sources, and only behind these the zeros. The position of a current is a machine word; for branch
numbers near its end it wraps around to the voltages. -/

namespace Nodal

namespace Solution
variable {α : Type} [Scalar α]

/-- The position of a current counts the nodes and the branches before it, as a word. -/
theorem branchCurrent_eq_getD (s : Solution α) (b : Branch) :
    s.branchCurrent b = s.values.getD ((s.numNodes + b.number) % UInt64.size) 0 := by
  have hposition : ((Unknown.current b).position s.numNodes + 1) % UInt64.size =
      (s.numNodes + b.number) % UInt64.size := by
    simp only [Unknown.position, UInt64.toNat_add, UInt64.toNat_sub, UInt64.toNat_ofNat',
      UInt64.toNat_one, UInt64.size]
    omega
  rw [branchCurrent, hposition]

/-- What is read from a solution with so many sources. -/
structure Readings (s : Solution α) (numSources : Nat) : Prop where
  voltage_known : ∀ k : Node, k.number.toNat < s.numNodes →
    s.values[k.number.toNat]? = some (s.voltage k)
  /-- A voltage behind the nodes is the current of a source. -/
  voltage_behind : ∀ (k : Node) (b : Branch), b.number < numSources →
    k.number.toNat = s.numNodes + b.number → s.voltage k = s.branchCurrent b
  voltage_beyond : ∀ k : Node, s.numNodes + numSources ≤ k.number.toNat → s.voltage k = 0
  current_known : ∀ b : Branch, b.number < numSources →
    s.values[s.numNodes + b.number]? = some (s.branchCurrent b)
  current_unknown : ∀ b : Branch, numSources ≤ b.number →
    s.numNodes + b.number < UInt64.size → s.branchCurrent b = 0
  /-- A current whose position wraps around is a voltage. -/
  current_wrapped : ∀ (b : Branch) (k : Node),
    s.numNodes + b.number = UInt64.size + k.number.toNat → s.branchCurrent b = s.voltage k
  /-- Nodes that do not exist have no voltage as long as no current flows. -/
  unknown_zero_iff : (∀ k : Node, s.numNodes ≤ k.number.toNat → s.voltage k = 0) ↔
    ∀ b : Branch, b.number < numSources → s.branchCurrent b = 0

variable {s : Solution α} {numSources : Nat}

theorem voltage_of_lt {k : Node} (h : k.number.toNat < s.values.length) :
    s.values[k.number.toNat]? = some (s.voltage k) := by
  rw [voltage, List.getD_eq_getElem?_getD, List.getElem?_eq_getElem h, Option.getD_some]

theorem voltage_of_le {k : Node} (h : s.values.length ≤ k.number.toNat) : s.voltage k = 0 := by
  rw [voltage, List.getD_eq_getElem?_getD, List.getElem?_eq_none h, Option.getD_none]

/-- A solution with an entry for each node and each source, when a word can count them. -/
theorem readings_of_length (h : s.values.length = s.numNodes + numSources)
    (hle : s.values.length ≤ UInt64.size) : s.Readings numSources := by
  have hlt : ∀ b : Branch, b.number < numSources → s.numNodes + b.number < s.values.length :=
    fun b hb => h ▸ Nat.add_lt_add_left hb _
  have hcurrent : ∀ b : Branch, b.number < numSources →
      s.branchCurrent b = s.values.getD (s.numNodes + b.number) 0 := fun b hb => by
    rw [branchCurrent_eq_getD, Nat.mod_eq_of_lt ((hlt b hb).trans_le hle)]
  have hbehind : ∀ (k : Node) (b : Branch), b.number < numSources →
      k.number.toNat = s.numNodes + b.number → s.voltage k = s.branchCurrent b :=
    fun k b hb hk => by rw [hcurrent b hb, voltage, hk]
  refine ⟨fun k hk => voltage_of_lt (h ▸ Nat.lt_add_right _ hk), hbehind,
    fun k hk => voltage_of_le (h ▸ hk), fun b hb => ?_, fun b hb hword => ?_, fun b k hk => ?_,
    fun hzero b hb => ?_, fun hzero k hk => ?_⟩
  · rw [hcurrent b hb, List.getD_eq_getElem?_getD, List.getElem?_eq_getElem (hlt b hb),
      Option.getD_some]
  · rw [branchCurrent_eq_getD, Nat.mod_eq_of_lt hword, List.getD_eq_getElem?_getD,
      List.getElem?_eq_none (h ▸ Nat.add_le_add_left hb _), Option.getD_none]
  · rw [branchCurrent_eq_getD, hk, Nat.add_mod_left, Nat.mod_eq_of_lt k.number.toNat_lt, voltage]
  · -- the current stands at a position that is the number of a node
    have hword := (hlt b hb).trans_le hle
    rw [← hbehind ⟨.ofNat (s.numNodes + b.number)⟩ b hb (UInt64.toNat_ofNat_of_lt' hword)]
    exact hzero _ (by rw [UInt64.toNat_ofNat_of_lt' hword]; exact Nat.le_add_right ..)
  · by_cases hend : k.number.toNat < s.numNodes + numSources
    · have hb : k.number.toNat - s.numNodes < numSources := Nat.sub_lt_left_of_lt_add hk hend
      rw [hbehind k ⟨_⟩ hb (Nat.add_sub_cancel' hk).symm]
      exact hzero _ hb
    · exact voltage_of_le (h ▸ Nat.not_lt.1 hend)

/-- From zeros nothing else is read, wherever a position leads. -/
theorem readings_of_zero (hzero : ∀ v ∈ s.values, v = 0)
    (hle : s.numNodes + numSources ≤ s.values.length) : s.Readings numSources := by
  have hget : ∀ i, s.values.getD i 0 = 0 := fun i => by
    rw [List.getD_eq_getElem?_getD]
    cases hv : s.values[i]? with
    | none => rfl
    | some v => exact hzero v (List.mem_of_getElem? hv)
  have hvoltage : ∀ k, s.voltage k = 0 := fun k => hget _
  have hcurrent : ∀ b, s.branchCurrent b = 0 := fun b => (s.branchCurrent_eq_getD b).trans (hget _)
  refine ⟨fun k hk => voltage_of_lt (hk.trans_le ((Nat.le_add_right ..).trans hle)),
    fun k b _ _ => (hvoltage k).trans (hcurrent b).symm, fun k _ => hvoltage k, fun b hb => ?_,
    fun b _ _ => hcurrent b, fun b k _ => (hcurrent b).trans (hvoltage k).symm,
    fun _ b _ => hcurrent b, fun _ k _ => hvoltage k⟩
  have hlt := (Nat.add_lt_add_left hb s.numNodes).trans_le hle
  rw [hcurrent, List.getElem?_eq_getElem hlt, hzero _ (List.getElem_mem hlt)]

end Solution

namespace Simulator
variable {α : Type} [Scalar α]

/-- The solution of the last tick, as components read it. -/
def view (s : Simulator α) : Solution α := ⟨s.solution, s.circuit.numNodes⟩

theorem lasting_readings :
    Lasting fun s : Simulator α => s.view.Readings s.circuit.numSources where
  initial := Solution.readings_of_zero (fun _ hv => List.mem_singleton.1 hv) (Nat.zero_le 1)
  reset s _ := Solution.readings_of_zero (zeroed_reset s).solution
    (Nat.le_of_eq List.length_replicate.symm)
  frame s s' hcircuit _ _ hsolution _ h := by rwa [view, hcircuit, hsolution]
  tick hs _ ht := by
    obtain ⟨hlength, hle⟩ := hs.length_tick ht
    exact Solution.readings_of_length hlength (hle.trans (by decide))

/-- Below the number of nodes a voltage is read where it stands, and below the number of sources a
current, from a solution of the right length as from every simulator that calls lead to. Behind the
nodes a voltage is read from the currents of the sources, and is zero behind these; behind the
sources a current is zero, until its position wraps around to the voltages. -/
theorem accessors_read :
    (∀ (s : Solution α) (numSources : Nat), s.values.length = s.numNodes + numSources →
      s.values.length ≤ UInt64.size → s.Readings numSources) ∧
    ∀ s : Simulator α, Reachable s → s.view.Readings s.circuit.numSources ∧
      ∀ k, s.nodeVoltage k = s.view.voltage k :=
  ⟨fun _ _ h hle => Solution.readings_of_length h hle,
    fun _ h => ⟨lasting_readings.reachable h, fun _ => rfl⟩⟩

/-- A source feeds a resistor. -/
def loadedSource : List (Component ℚ) :=
  [⟨⟨0⟩, "V0", .voltageSource .ground ⟨1⟩ (.constant 5) none⟩,
    ⟨⟨1⟩, "R1", .resistor ⟨1⟩ .ground 1000 .intact⟩]

/-- After a tick node 1 has the voltage of the source, and there is no node 2. -/
theorem reachable_loadedSource :
    ∃ s : Simulator ℚ, Reachable s ∧ s.lastError.isNone ∧ s.circuit.numNodes = 2 ∧
      s.circuit.numSources = 1 ∧ s.solution = [0, 5, 1 / 200] := by
  have hfound :
      (match replay 2 [.loadComponents loadedSource, .start, .advance 5] [] .initial with
        | some (_, s) => s.lastError.isNone && s.circuit.numNodes == 2 &&
          s.circuit.numSources == 1 && s.solution == [0, 5, 1 / 200]
        | none => false) = true := by decide +kernel
  split at hfound
  · rename_i log s hreplay
    simp only [Bool.and_eq_true, beq_iff_eq] at hfound
    obtain ⟨⟨⟨herr, hnodes⟩, hsources⟩, hsolution⟩ := hfound
    exact ⟨s, ⟨log, Run.initial.replay (by simp [Call.Proper]) hreplay⟩, herr, hnodes, hsources,
      hsolution⟩
  · cases hfound

theorem accessors_read_loadedSource :
    (⟨[0, 5, 1 / 200], 2⟩ : Solution ℚ).Readings 1 ∧
    ∃ s : Simulator ℚ, Reachable s ∧ s.circuit.numSources = 1 ∧ s.view.Readings 1 := by
  refine ⟨accessors_read.1 _ 1 rfl (by decide), ?_⟩
  obtain ⟨s, hs, -, -, hsources, -⟩ := reachable_loadedSource
  exact ⟨s, hs, hsources, hsources ▸ (accessors_read.2 s hs).1⟩

/-- The current of the source is read as the voltage of a node that the circuit does not have. -/
theorem unknown_node_reads_current :
    ∃ s : Simulator ℚ, Reachable s ∧ s.lastError.isNone ∧
      s.circuit.numNodes ≤ (⟨2⟩ : Node).number.toNat ∧ s.nodeVoltage ⟨2⟩ = 1 / 200 ∧
      s.nodeVoltage ⟨2⟩ ≠ 0 := by
  obtain ⟨s, hs, herr, hnodes, -, hsolution⟩ := reachable_loadedSource
  have hread : s.nodeVoltage ⟨2⟩ = 1 / 200 := by
    rw [nodeVoltage, hsolution]
    rfl
  refine ⟨s, hs, herr, hnodes.le, hread, ?_⟩
  rw [hread]
  norm_num

end Simulator

end Nodal
