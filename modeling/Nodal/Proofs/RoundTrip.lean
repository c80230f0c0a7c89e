import Nodal.Description.Writing
import Nodal.Proofs.JsonText
import Nodal.Proofs.Records

/-! # Saving and loading

A circuit file that has been written is read as the description that it was written for, however
its numbers are spelled, when each of them survives being spelled and read. -/

namespace Nodal

open Json (Value RawText Literal)

variable {spell : Float → Option Literal}

/-! ## What can be stored -/

/-- The number has a spelling, and reading it gives the number back. -/
def Reproduced (spell : Float → Option Literal) (x : Float) : Prop :=
  ∃ l, spell x = some l ∧ l.Canonical ∧ l.float? = some x

instance (spell : Float → Option Literal) (x : Float) : Decidable (Reproduced spell x) :=
  match h : spell x with
  | some l => decidable_of_iff (l.Canonical ∧ l.float? = some x) (by simp [Reproduced, h])
  | none => isFalse (by simp [Reproduced, h])

def NewtonSettings.floats (s : NewtonSettings Float) : List Float :=
  [s.tolerance, s.initialAlpha, s.alphaGrowth, s.alphaShrink, s.minAlpha, s.randomScale,
    s.stabilityEps, s.maxVoltageStep, s.maxCurrentStep]

def SimulatorSettings.floats (s : SimulatorSettings Float) : List Float :=
  s.timestep :: s.rate :: s.newton.floats

def DiodeParams.floats (p : DiodeParams Float) : List Float := [p.saturationCurrent, p.ideality]

def MosfetParams.floats (p : MosfetParams Float) : List Float :=
  [p.width, p.length, p.cox, p.mobility, p.vth, p.lambda]

def Parameters.floats : Parameters Float → List Float
  | resistor resistance _ => [resistance]
  | wire => []
  | voltageSource voltage frequency zeroTime => voltage :: zeroTime :: frequency.toList
  | currentSource current => [current]
  | capacitor capacitance => [capacitance]
  | inductor inductance => [inductance]
  | opAmp gain => [gain]
  | diode params => params.floats
  | mosfet _ params => params.floats

def Description.floats (d : Description Float) : List Float :=
  d.simulation.floats ++ d.components.flatMap fun c => c.parameters.floats

/-- Counts and numbers of components fit into machine words, and floating point numbers survive. -/
structure Description.Storable (spell : Float → Option Literal) (d : Description Float) :
    Prop where
  floats : ∀ x ∈ d.floats, Reproduced spell x
  iterations : d.simulation.newton.maxIterations < UInt64.size
  restarts : d.simulation.newton.maxRestarts < UInt64.size
  ids : ∀ c ∈ d.components, c.id.number < UInt64.size

namespace Description.Storable
variable {d : Description Float}

theorem simulation (h : d.Storable spell) : ∀ x ∈ d.simulation.floats, Reproduced spell x :=
  fun x hx => h.floats x (List.mem_append_left _ hx)

theorem components (h : d.Storable spell) :
    ∀ c ∈ d.components, ∀ x ∈ c.parameters.floats, Reproduced spell x :=
  fun c hc x hx => h.floats x (List.mem_append_right _ (List.mem_flatMap.2 ⟨c, hc, hx⟩))

end Description.Storable

/-! ## Texts -/

namespace Json.RawText

theorem chars?_unit {u : Nat} (hu : u < 0x20) (t : RawText) :
    chars? (.unit u :: t) = (chars? t).map (Char.ofNat u :: ·) := by
  have hleading : isLeading u = false := by simp [isLeading]; omega
  have htrailing : isTrailing u = false := by simp [isTrailing]; omega
  match t with
  | [] => simp [chars?, hleading, htrailing]
  | .char c :: t => simp [chars?, hleading, htrailing]
  | .unit v :: t => simp [chars?, hleading, htrailing]

/-- A code unit in place of a control character means the same. -/
theorem string?_reread (s : String) : string? (reread (ofString s)) = some s := by
  have hchars : ∀ cs : List Char, chars? (reread (cs.map .char)) = some cs := by
    intro cs
    induction cs with
    | nil => rfl
    | cons c cs ih =>
      rw [reread] at ih
      rw [reread, List.map_cons, List.map_cons, Piece.reread]
      split
      · rename_i hc
        rw [chars?_unit hc.1, ih, Option.map_some, Char.ofNat_toNat]
      · rw [chars?, ih, Option.map_some]
  rw [string?, ofString, hchars, Option.map_some, String.ofList_toList]

end Json.RawText

/-! ## Plain values -/

namespace Reading

open ComponentDescription (commonMembers)

theorem float_reread {x : Float} (hx : Reproduced spell x) (field : String) :
    float field (Value.float spell x).reread = .ok x := by
  obtain ⟨l, hl, -, hread⟩ := hx
  rw [Value.float, hl, Value.reread, float, hread]
  rfl

theorem nullable_of_ne_null {β : Type} {item : Value → Reading β} {v : Value} (hv : v ≠ .null)
    {b : β} (h : item v = .ok b) : nullable item v = .ok (some b) := by
  rw [nullable, h]
  · rfl
  · exact hv

theorem word_reread (w : UInt64) (field : String) :
    word field (Value.nat w.toNat).reread = .ok w := by
  rw [Value.nat, Value.reread, word, Json.Literal.word?_ofNat w.toNat_lt, UInt64.ofNat_toNat]
  rfl

theorem natural_reread {n : Nat} (hn : n < UInt64.size) (field : String) :
    natural field (Value.nat n).reread = .ok n := by
  have hword := word_reread (UInt64.ofNat n) field
  rw [UInt64.toNat_ofNat_of_lt' hn] at hword
  rw [natural, hword, Outcome.ok_bind, UInt64.toNat_ofNat_of_lt' hn]
  rfl

theorem string_reread (s field : String) : string field (Value.string s).reread = .ok s := by
  rw [Value.string, Value.reread, string, RawText.string?_reread]
  rfl

theorem nullable_float_reread {x : Float} (hx : Reproduced spell x) (field : String) :
    nullable (float field) (Value.float spell x).reread = .ok (some x) := by
  refine nullable_of_ne_null ?_ (float_reread hx field)
  obtain ⟨l, hl, -⟩ := hx
  rw [Value.float, hl, Value.reread]
  nofun

theorem nullable_string_reread (s field : String) :
    nullable (string field) (Value.string s).reread = .ok (some s) :=
  nullable_of_ne_null (by rw [Value.string, Value.reread]; nofun) (string_reread s field)

theorem choice_reread {β : Type} {ofName? : String → Option β} {s : String} {b : β}
    (h : ofName? s = some b) (field : String) :
    choice field ofName? (Value.string s).reread = .ok b := by
  rw [Value.string, Value.reread, choice, RawText.string?_reread, Option.bind_some, h]
  rfl

theorem kind_reread (k : Kind) (field : String) :
    kind field (Value.string k.name).reread = .ok k := by
  rw [Value.string, Value.reread, kind, RawText.string?_reread]
  cases k <;> rfl

theorem list_reread {β : Type} {item : Value → Reading β} {write : β → Value} {bs : List β}
    (field : String) (h : ∀ b ∈ bs, item (write b).reread = .ok b) :
    list field item (Value.array (bs.map write)).reread = .ok bs := by
  have hmapM := @Outcome.mapM_of_forall _ _ _ (fun b => item (write b).reread) (fun b => b) bs h
  rw [List.map_id'] at hmapM
  rw [Value.reread, Value.rereadItems_eq, list, List.map_map, List.mapM_map]
  exact hmapM

/-! ## Records -/

/-- The members of a record as they come back. -/
def rereadRaw (ms : Fields) : List (RawText × Value) :=
  ms.map fun m => ((RawText.ofString m.1).reread, m.2.reread)

/-- The same with their keys as strings. -/
def rereadFields (ms : Fields) : Fields := ms.map fun m => (m.1, m.2.reread)

theorem reread_record (ms : Fields) : (Value.record ms).reread = .object (rereadRaw ms) := by
  rw [Value.record, Value.reread, Value.rereadMembers_eq, List.map_map]
  rfl

theorem readable_reread (ms : Fields) : readable (rereadRaw ms) := by
  simp [readable, rereadRaw, RawText.string?_reread]

theorem map_plain_reread (ms : Fields) : (rereadRaw ms).map plain = rereadFields ms := by
  rw [rereadRaw, List.map_map, rereadFields]
  exact List.map_congr_left fun m _ => plain_of_key (RawText.string?_reread m.1) m.2.reread

theorem members_reread (ms : Fields) : members (rereadRaw ms) = .ok (rereadFields ms) := by
  rw [members_eq, if_pos (readable_reread ms), map_plain_reread]

theorem record_reread (field : String) (known : List String) (ms : Fields) :
    record field known (Value.record ms).reread = select known (rereadFields ms) := by
  rw [reread_record, record, members_reread, Outcome.ok_bind]

theorem newton_reread {s : NewtonSettings Float} (hfloats : ∀ x ∈ s.floats, Reproduced spell x)
    (hiterations : s.maxIterations < UInt64.size) (hrestarts : s.maxRestarts < UInt64.size)
    (field : String) : newton field (s.toValue spell).reread = .ok s := by
  simp only [NewtonSettings.floats, List.forall_mem_cons] at hfloats
  rw [newton, NewtonSettings.toValue, record_reread]
  simp [rereadFields, select, newtonFields, optional, List.lookup_cons, natural_reread,
    float_reread, *]

theorem simulation_reread {s : SimulatorSettings Float}
    (hfloats : ∀ x ∈ s.floats, Reproduced spell x)
    (hiterations : s.newton.maxIterations < UInt64.size)
    (hrestarts : s.newton.maxRestarts < UInt64.size) (field : String) :
    simulation field (s.toValue spell).reread = .ok s := by
  simp only [SimulatorSettings.floats, List.forall_mem_cons] at hfloats
  obtain ⟨htimestep, hrate, hnewton⟩ := hfloats
  rw [simulation, SimulatorSettings.toValue, record_reread]
  simp [rereadFields, select, simulationFields, optional, List.lookup_cons, word_reread,
    float_reread, htimestep, hrate, newton_reread hnewton hiterations hrestarts]

theorem diodeParams_reread {p : DiodeParams Float} (hfloats : ∀ x ∈ p.floats, Reproduced spell x)
    (field : String) : diodeParams field (p.toValue spell).reread = .ok p := by
  simp only [DiodeParams.floats, List.forall_mem_cons] at hfloats
  rw [diodeParams, DiodeParams.toValue, record_reread]
  simp [rereadFields, select, optional, List.lookup_cons, float_reread, *]

theorem mosfetParams_reread {p : MosfetParams Float} (hfloats : ∀ x ∈ p.floats, Reproduced spell x)
    (field : String) : mosfetParams field (p.toValue spell).reread = .ok p := by
  simp only [MosfetParams.floats, List.forall_mem_cons] at hfloats
  rw [mosfetParams, MosfetParams.toValue, record_reread]
  simp [rereadFields, select, optional, List.lookup_cons, float_reread, *]

/-! ## Components -/

theorem commonFields_disjoint (k : Kind) : commonFields.Disjoint (parameterFields k) := by
  unfold List.Disjoint
  cases k <;> decide

theorem mem_parameterFields (p : Parameters Float) :
    ∀ m ∈ rereadFields (p.toFields spell), m.1 ∈ parameterFields p.kind := by
  cases p with
  | voltageSource voltage frequency =>
    cases frequency <;>
      simp [rereadFields, Parameters.toFields, Parameters.kind, parameterFields]
  | _ => simp [rereadFields, Parameters.toFields, Parameters.kind, parameterFields]

theorem parameters_reread {p : Parameters Float} (hfloats : ∀ x ∈ p.floats, Reproduced spell x)
    {common : Fields} (hcommon : ∀ m ∈ common, m.1 ∈ commonFields) :
    parameters p.kind (common ++ rereadFields (p.toFields spell)) = .ok p := by
  have hselect : select (parameterFields p.kind) (common ++ rereadFields (p.toFields spell)) =
      select (parameterFields p.kind) (rereadFields (p.toFields spell)) := by
    refine select_append_right fun m hm => ?_
    exact commonFields_disjoint p.kind (hcommon m hm)
  rw [parameters, hselect]
  cases p with
  | wire => rfl
  | resistor resistance fault =>
    have hresistance := hfloats resistance (by simp [Parameters.floats])
    have hfault : ResistorFault.ofName? fault.name = some fault := by cases fault <;> rfl
    simp [Parameters.kind, parameterFields, Parameters.toFields, rereadFields, select, required,
      optional, List.lookup_cons, float_reread hresistance, choice_reread hfault]
  | voltageSource voltage frequency zeroTime =>
    have hvoltage := hfloats voltage (by simp [Parameters.floats])
    have hzeroTime := hfloats zeroTime (by simp [Parameters.floats])
    cases frequency with
    | none =>
      simp [Parameters.kind, parameterFields, Parameters.toFields, rereadFields, select, required,
        optional, List.lookup_cons, float_reread hvoltage, float_reread hzeroTime]
    | some f =>
      have hfrequency := nullable_float_reread (hfloats f (by simp [Parameters.floats]))
      simp [Parameters.kind, parameterFields, Parameters.toFields, rereadFields, select, required,
        optional, List.lookup_cons, float_reread hvoltage, float_reread hzeroTime, hfrequency]
  | currentSource x | capacitor x | inductor x =>
    have hx := hfloats x (by simp [Parameters.floats])
    simp [Parameters.kind, parameterFields, Parameters.toFields, rereadFields, select, required,
      float_reread hx]
  | opAmp gain =>
    have hgain := hfloats gain (by simp [Parameters.floats])
    simp [Parameters.kind, parameterFields, Parameters.toFields, rereadFields, select, optional,
      float_reread hgain]
  | diode params =>
    simp [Parameters.kind, parameterFields, Parameters.toFields, rereadFields, select, optional,
      diodeParams_reread hfloats]
  | mosfet channel params =>
    have hchannel : Channel.ofName? channel.name = some channel := by cases channel <;> rfl
    simp [Parameters.kind, parameterFields, Parameters.toFields, rereadFields, select, optional,
      List.lookup_cons, choice_reread hchannel, mosfetParams_reread hfloats]

/-! Whatever stands in a component means something. -/

theorem isSound_float {x : Float} (hx : Reproduced spell x) (depth : Nat) :
    (Value.float spell x).reread.isSound depth := by
  obtain ⟨l, hl, -, hread⟩ := hx
  rw [Value.float, hl, Value.reread, Value.isSound, hread, Option.isSome_some]

theorem isSound_nat {n : Nat} (hn : n < UInt64.size) (depth : Nat) :
    (Value.nat n).reread.isSound depth := by
  rw [Value.nat, Value.reread, Value.isSound, Json.Literal.float?_ofNat hn, Option.isSome_some]

theorem isSound_string (s : String) (depth : Nat) : (Value.string s).reread.isSound depth := by
  obtain ⟨cs, hcs, -⟩ := Option.map_eq_some_iff.1 (RawText.string?_reread s)
  rw [Value.string, Value.reread, Value.isSound, hcs, Option.isSome_some]

theorem isSound_record {ms : Fields} {depth : Nat} (h : ∀ m ∈ ms, m.2.reread.isSound depth) :
    (Value.record ms).reread.isSound (depth + 1) := by
  rw [reread_record, Value.isSound, membersSound_eq, readable_reread, map_plain_reread,
    Bool.true_and, List.all_eq_true]
  intro m hm
  obtain ⟨m, hm', rfl⟩ := List.mem_map.1 hm
  exact h m hm'

theorem isSound_nodes (nodes : List Node) (depth : Nat) :
    (Value.array (nodes.map fun n => .nat n.number.toNat)).reread.isSound (depth + 1) := by
  rw [Value.reread, Value.rereadItems_eq, Value.isSound, allSound_eq, List.all_eq_true]
  intro v hv
  simp only [List.map_map, List.mem_map, Function.comp_apply] at hv
  obtain ⟨n, -, rfl⟩ := hv
  exact isSound_nat n.number.toNat_lt depth

theorem isSound_parameters {p : Parameters Float} (hfloats : ∀ x ∈ p.floats, Reproduced spell x) :
    ∀ m ∈ (p.toFields spell), m.2.reread.isSound fieldDepth := by
  have hfloat : ∀ x ∈ p.floats, ∀ depth, (Value.float spell x).reread.isSound depth :=
    fun x hx => isSound_float (hfloats x hx)
  cases p with
  | wire => nofun
  | resistor => simp_all [Parameters.toFields, Parameters.floats, isSound_string]
  | voltageSource voltage frequency =>
    cases frequency <;> simp_all [Parameters.toFields, Parameters.floats]
  | currentSource | capacitor | inductor | opAmp =>
    simp_all [Parameters.toFields, Parameters.floats]
  | diode params =>
    rw [Parameters.toFields, List.forall_mem_singleton, DiodeParams.toValue]
    refine isSound_record ?_
    simp_all [Parameters.floats, DiodeParams.floats]
  | mosfet channel params =>
    rw [Parameters.toFields, List.forall_mem_cons, List.forall_mem_singleton, MosfetParams.toValue]
    refine ⟨isSound_string _ _, isSound_record ?_⟩
    simp_all [Parameters.floats, MosfetParams.floats]

theorem nodes_reread (nodes : List Node) (field : String) :
    list field (fun v => do return (⟨← word field v⟩ : Node))
      (Value.array (nodes.map fun n => .nat n.number.toNat)).reread = .ok nodes :=
  list_reread field fun n _ => by rw [word_reread]; rfl

theorem rereadFields_append (ms ns : Fields) :
    rereadFields (ms ++ ns) = rereadFields ms ++ rereadFields ns := List.map_append

theorem mem_commonFields (d : ComponentDescription Float) :
    ∀ m ∈ rereadFields d.commonMembers, m.1 ∈ commonFields := by
  cases hname : d.name <;> simp [commonMembers, rereadFields, commonFields, hname]

theorem isSound_common {d : ComponentDescription Float} (hid : d.id.number < UInt64.size) :
    ∀ m ∈ d.commonMembers, m.2.reread.isSound fieldDepth := by
  have hnodes := isSound_nodes d.nodes 123
  cases hname : d.name <;>
    simp [commonMembers, hname, isSound_nat hid, isSound_string, fieldDepth, hnodes]

theorem isSound_component {d : ComponentDescription Float} (hid : d.id.number < UInt64.size)
    (hfloats : ∀ x ∈ d.parameters.floats, Reproduced spell x) :
    (rereadFields (d.commonMembers ++ d.parameters.toFields spell)).all fun m =>
      m.2.isSound fieldDepth := by
  rw [List.all_eq_true]
  intro m hm
  obtain ⟨m, hm', rfl⟩ := List.mem_map.1 hm
  rcases List.mem_append.1 hm' with hm | hm
  · exact isSound_common hid m hm
  · exact isSound_parameters hfloats m hm

theorem select_component (spell : Float → Option Literal) (d : ComponentDescription Float) :
    select commonFields (rereadFields (d.commonMembers ++ d.parameters.toFields spell)) =
      .ok (rereadFields d.commonMembers) := by
  rw [rereadFields_append, select_append_left fun m hm hname =>
    commonFields_disjoint _ hname (mem_parameterFields _ m hm)]
  cases hname : d.name <;> simp [commonMembers, rereadFields, select, commonFields, hname]

/-! A name may stand between the number of a component and the rest. -/

theorem name_reread (d : ComponentDescription Float) :
    optional (rereadFields d.commonMembers) "name" none (fun name => nullable (string name)) =
      .ok d.name := by
  cases hname : d.name with
  | none => simp [commonMembers, rereadFields, optional, List.lookup_cons, hname]
  | some name =>
    simp [commonMembers, rereadFields, optional, List.lookup_cons, hname, nullable_string_reread]

theorem lookup_nodes (d : ComponentDescription Float) :
    (rereadFields d.commonMembers).lookup "nodes" =
      some (Value.array (d.nodes.map fun n => .nat n.number.toNat)).reread := by
  cases hname : d.name <;> simp [commonMembers, rereadFields, List.lookup_cons, hname]

theorem lookup_type (d : ComponentDescription Float) :
    (rereadFields d.commonMembers).lookup "type" =
      some (Value.string d.parameters.kind.name).reread := by
  cases hname : d.name <;> simp [commonMembers, rereadFields, List.lookup_cons, hname]

theorem component_reread {d : ComponentDescription Float} (hid : d.id.number < UInt64.size)
    (hfloats : ∀ x ∈ d.parameters.floats, Reproduced spell x) (field : String) :
    component field (d.toValue spell).reread = .ok d := by
  have hsound := isSound_component hid hfloats
  have hselect := select_component spell d
  have hparameters : parameters d.parameters.kind
      (rereadFields (d.commonMembers ++ d.parameters.toFields spell)) = .ok d.parameters := by
    rw [rereadFields_append]
    exact parameters_reread hfloats (mem_commonFields d)
  have hnumber : required (rereadFields d.commonMembers) "id" natural = .ok d.id.number :=
    natural_reread hid "id"
  have hnodes : required (rereadFields d.commonMembers) "nodes" (fun name => list name fun v => do
      return (⟨← word name v⟩ : Node)) = .ok d.nodes := by
    rw [required, lookup_nodes]
    exact nodes_reread d.nodes "nodes"
  have hkind : required (rereadFields d.commonMembers) "type" kind = .ok d.parameters.kind := by
    rw [required, lookup_type]
    exact kind_reread _ "type"
  rw [ComponentDescription.toValue, reread_record, component, members_reread, Outcome.ok_bind]
  simp only [hsound, hselect]
  rw [Bool.not_true, if_neg Bool.false_ne_true, Outcome.ok_bind, hnumber, Outcome.ok_bind,
    name_reread, Outcome.ok_bind, hnodes, Outcome.ok_bind, hkind, Outcome.ok_bind, hparameters]
  rfl

/-! ## Files -/

theorem description_reread {d : Description Float} (h : d.Storable spell) :
    description (d.toValue spell).reread = .ok d := by
  have hlist : list "components" (component "components")
      (Value.array (d.components.map (ComponentDescription.toValue spell))).reread =
        .ok d.components :=
    list_reread _ fun c hc => component_reread (h.ids c hc) (h.components c hc) _
  rw [description, Description.toValue, record_reread]
  simp [rereadFields, select, optional, List.lookup_cons, hlist,
    simulation_reread h.simulation h.iterations h.restarts]

end Reading

/-! ## What is written can be read -/

theorem legible_float {x : Float} (hx : Reproduced spell x) : (Value.float spell x).Legible := by
  obtain ⟨l, hl, hcanonical, -⟩ := hx
  rwa [Value.float, hl]

theorem legible_nat (n : Nat) : (Value.nat n).Legible := Json.Literal.canonical_ofNat n

theorem legible_string (s : String) : (Value.string s).Legible := trivial

theorem legible_record {ms : Reading.Fields} (h : ∀ m ∈ ms, m.2.Legible) :
    (Value.record ms).Legible := by
  rw [Value.record, Value.Legible, Value.legibleMembers_iff]
  intro m hm
  obtain ⟨m, hm', rfl⟩ := List.mem_map.1 hm
  exact h m hm'

theorem legible_array {items : List Value} (h : ∀ v ∈ items, v.Legible) :
    (Value.array items).Legible := by
  rwa [Value.Legible, Value.legibleItems_iff]

theorem legible_newton {s : NewtonSettings Float} (hfloats : ∀ x ∈ s.floats, Reproduced spell x) :
    (s.toValue spell).Legible := by
  simp only [NewtonSettings.floats, List.forall_mem_cons] at hfloats
  exact legible_record (by simp [legible_float, legible_nat, hfloats])

theorem legible_simulation {s : SimulatorSettings Float}
    (hfloats : ∀ x ∈ s.floats, Reproduced spell x) : (s.toValue spell).Legible := by
  simp only [SimulatorSettings.floats, List.forall_mem_cons] at hfloats
  obtain ⟨htimestep, hrate, hnewton⟩ := hfloats
  exact legible_record (by
    simp [legible_float, legible_nat, htimestep, hrate, legible_newton hnewton])

theorem legible_parameters {p : Parameters Float} (hfloats : ∀ x ∈ p.floats, Reproduced spell x) :
    ∀ m ∈ p.toFields spell, m.2.Legible := by
  have hfloat : ∀ x ∈ p.floats, (Value.float spell x).Legible :=
    fun x hx => legible_float (hfloats x hx)
  cases p with
  | wire => nofun
  | resistor => simp_all [Parameters.toFields, Parameters.floats, legible_string]
  | voltageSource voltage frequency =>
    cases frequency <;> simp_all [Parameters.toFields, Parameters.floats]
  | currentSource | capacitor | inductor | opAmp =>
    simp_all [Parameters.toFields, Parameters.floats]
  | diode params =>
    rw [Parameters.toFields, List.forall_mem_singleton]
    refine legible_record ?_
    simp_all [Parameters.floats, DiodeParams.floats]
  | mosfet channel params =>
    rw [Parameters.toFields, List.forall_mem_cons, List.forall_mem_singleton]
    refine ⟨legible_string _, legible_record ?_⟩
    simp_all [Parameters.floats, MosfetParams.floats]

theorem legible_component {d : ComponentDescription Float}
    (hfloats : ∀ x ∈ d.parameters.floats, Reproduced spell x) : (d.toValue spell).Legible := by
  have hnodes : (Value.array (d.nodes.map fun n => .nat n.number.toNat)).Legible := by
    refine legible_array fun v hv => ?_
    obtain ⟨n, -, rfl⟩ := List.mem_map.1 hv
    exact legible_nat _
  have hcommon : ∀ m ∈ d.commonMembers, m.2.Legible := by
    cases hname : d.name <;>
      simp [ComponentDescription.commonMembers, hname, legible_nat, legible_string, hnodes]
  refine legible_record fun m hm => ?_
  rcases List.mem_append.1 hm with hm | hm
  · exact hcommon m hm
  · exact legible_parameters hfloats m hm

theorem legible_description {d : Description Float} (h : d.Storable spell) :
    (d.toValue spell).Legible := by
  have hcomponents :
      (Value.array (d.components.map (ComponentDescription.toValue spell))).Legible := by
    refine legible_array fun v hv => ?_
    obtain ⟨c, hc, rfl⟩ := List.mem_map.1 hv
    exact legible_component (h.components c hc)
  exact legible_record (by simp [hcomponents, legible_simulation h.simulation])

/-- What has been saved is loaded again, field by field, however the numbers are spelled. -/
theorem Description.ofJson_toJson {d : Description Float} (h : d.Storable spell) :
    Description.ofJson (d.toJson spell) = .ok d := by
  rw [ofJson, toJson, Value.ofString?_render (legible_description h)]
  simp only [Reading.description_reread h]

/-- Not every number survives: the reader takes the one below, which is even. -/
example : ¬ Reproduced Literal.shortest? 9007199254740991 := by decide +kernel

/-- A filter with a clipping transistor; one name is missing, one needs escapes. -/
def clippedFilter : Description Float :=
  { simulation := .standard
    components := [
      ⟨⟨0⟩, some "V\t\"in\"\x01", [⟨1⟩, ⟨0⟩], .voltageSource 5 (some 50) 0⟩,
      ⟨⟨1⟩, none, [⟨1⟩, ⟨2⟩], .resistor 4.7e3 .shorted⟩,
      ⟨⟨18446744073709551615⟩, some "", [⟨2⟩, ⟨2⟩, ⟨0⟩], .mosfet .pmos .standard⟩] }

theorem storable_clippedFilter : clippedFilter.Storable Literal.shortest? :=
  ⟨by decide +kernel, by decide +kernel, by decide +kernel, by decide +kernel⟩

theorem Description.ofJson_toJson_clippedFilter :
    clippedFilter.Storable Literal.shortest? ∧
      Description.ofJson (clippedFilter.toJson Literal.shortest?) = .ok clippedFilter :=
  ⟨storable_clippedFilter, ofJson_toJson storable_clippedFilter⟩

end Nodal
