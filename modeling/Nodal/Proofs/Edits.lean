import Mathlib.Logic.Relation
import Nodal.Proofs.Records

/-! # Edits that leave the meaning of a circuit file

What a file says depends only on which known fields it sets. The members of an object may change
places, members with unknown names may come and go, and a field may be written with the value that
leaving it out stands for: the file is read the same, or refused for the same reason. Which names
are known in a component depends on its kind. -/

namespace Nodal.Reading

open Json (Value RawText)

/-- The records of a circuit file, and the list of its components. -/
inductive Level where
  | circuit
  | entries
  /-- A component of a kind, or of none when its kind cannot be read. -/
  | entry (kind : Option Kind)
  | simulation
  | newton
  | diodeParams
  | mosfetParams

namespace Level

def known : Level → List String
  | circuit => ["simulation", "components"]
  | entries => []
  | entry none => commonFields
  | entry (some k) => commonFields ++ parameterFields k
  | simulation => simulationFields
  | newton => newtonFields
  | diodeParams => ["saturation_current", "ideality"]
  | mosfetParams => ["width", "length", "cox", "mobility", "vth", "lambda"]

/-- The values that are read as `b`. -/
def means {β : Type} (name : String) (item : String → Value → Reading β) (b : β) :
    String × (Value → Prop) :=
  (name, fun v => item name v = .ok b)

/-- The fields that may be left out, with the values that say the same. -/
def defaults : Level → List (String × (Value → Prop))
  | circuit =>
    [means "simulation" Reading.simulation .standard,
      means "components" (fun name => list name (component name)) []]
  | entries => []
  | entry k => means "name" (fun name => nullable (string name)) none ::
    match k with
    | some .resistor => [means "fault" (fun name => choice name ResistorFault.ofName?) .intact]
    | some .voltageSource =>
      [means "frequency" (fun name => nullable (float name)) none, means "zero_time" float 0]
    | some .opAmp => [means "gain" float defaultGain]
    | some .diode => [means "params" Reading.diodeParams .standard]
    | some .mosfet =>
      [means "channel" (fun name => choice name Channel.ofName?) .nmos,
        means "params" Reading.mosfetParams .standard]
    | _ => []
  | simulation =>
    let d : SimulatorSettings Float := .standard
    [means "timestep" float d.timestep, means "sim_time_per_sec" float d.rate,
      means "seed" word d.seed, means "newton" Reading.newton d.newton]
  | newton =>
    let d : NewtonSettings Float := .standard
    [means "max_iterations" natural d.maxIterations, means "tolerance" float d.tolerance,
      means "max_restarts" natural d.maxRestarts, means "initial_alpha" float d.initialAlpha,
      means "alpha_growth" float d.alphaGrowth, means "alpha_shrink" float d.alphaShrink,
      means "min_alpha" float d.minAlpha, means "random_scale" float d.randomScale,
      means "stability_eps" float d.stabilityEps, means "max_voltage_step" float d.maxVoltageStep,
      means "max_current_step" float d.maxCurrentStep]
  | diodeParams =>
    let d : DiodeParams Float := .standard
    [means "saturation_current" float d.saturationCurrent, means "ideality" float d.ideality]
  | mosfetParams =>
    let d : MosfetParams Float := .standard
    [means "width" float d.width, means "length" float d.length, means "cox" float d.cox,
      means "mobility" float d.mobility, means "vth" float d.vth, means "lambda" float d.lambda]

def IsDefault (level : Level) (name : String) (v : Value) : Prop :=
  ∃ P, level.defaults.lookup name = some P ∧ P v

/-- The record that stands in a field. -/
def inner : Level → String → Option Level
  | circuit, "simulation" => some simulation
  | circuit, "components" => some entries
  | simulation, "newton" => some newton
  | entry (some .diode), "params" => some diodeParams
  | entry (some .mosfet), "params" => some mosfetParams
  | _, _ => none

/-- How deep containers nest in a value whose meaning is looked at even where nobody reads it. -/
def depth? : Level → Option Nat
  | entry _ => some fieldDepth
  | diodeParams | mosfetParams => some (fieldDepth - 1)
  | _ => none

/-- A value that an unknown field may have. -/
def Accepts (level : Level) (v : Value) : Prop := ∀ d ∈ level.depth?, v.isSound d

theorem accepts_bool (level : Level) (b : Bool) : level.Accepts (.bool b) :=
  fun d _ => by simp [Value.isSound]

end Level

/-- The kind that a component says it is of. -/
def entryKind? : Value → Option Kind
  | .object ms => (members ms >>= fun fs => required fs "type" kind).toOption
  | _ => none

/-- A change in a record of a circuit file that leaves what the file says. -/
inductive Edit : Level → Value → Value → Prop
  /-- The members of an object change places. -/
  | reorder {level ms ms'} (h : ms.Perm ms') : Edit level (.object ms) (.object ms')
  /-- A member with an unknown name is put in. -/
  | insert {level t name v ms} (hkey : RawText.string? t = some name) (hname : name ∉ level.known)
    (hv : level.Accepts v) : Edit level (.object ms) (.object ((t, v) :: ms))
  /-- A field that was left out is written. -/
  | complete {level t name v ms} (hkey : RawText.string? t = some name)
    (habsent : ∀ m ∈ ms, RawText.string? m.1 ≠ some name) (hdefault : level.IsDefault name v)
    (hv : level.Accepts v) : Edit level (.object ms) (.object ((t, v) :: ms))
  /-- The same where the fields stand in their order. -/
  | append {level name v items} (hname : level.known[items.length]? = some name)
    (hdefault : level.IsDefault name v) (hv : level.Accepts v) :
    Edit level (.array items) (.array (items ++ [v]))
  /-- A record that stands in a field changes. -/
  | inside {level inner t name v v' ms₁ ms₂} (hkey : RawText.string? t = some name)
    (hinner : level.inner name = some inner) (h : Edit inner v v') :
    Edit level (.object (ms₁ ++ (t, v) :: ms₂)) (.object (ms₁ ++ (t, v') :: ms₂))
  /-- The same where the fields stand in their order. -/
  | place {level inner name v v' items₁ items₂} (hname : level.known[items₁.length]? = some name)
    (hinner : level.inner name = some inner) (h : Edit inner v v') :
    Edit level (.array (items₁ ++ v :: items₂)) (.array (items₁ ++ v' :: items₂))
  /-- A component changes. -/
  | item {v v' items₁ items₂} (h : Edit (.entry (entryKind? v)) v v') :
    Edit .entries (.array (items₁ ++ v :: items₂)) (.array (items₁ ++ v' :: items₂))

/-! ## Values that say the same -/

/-- Both values are read the same. -/
def Level.Reads : Level → Value → Value → Prop
  | circuit, v, v' => description v = description v'
  | entries, v, v' => ∀ field, list field (component field) v = list field (component field) v'
  | entry k, v, v' => entryKind? v = k → ∀ field, component field v = component field v'
  | simulation, v, v' => ∀ field, Reading.simulation field v = Reading.simulation field v'
  | newton, v, v' => ∀ field, Reading.newton field v = Reading.newton field v'
  | diodeParams, v, v' => ∀ field, Reading.diodeParams field v = Reading.diodeParams field v'
  | mosfetParams, v, v' => ∀ field, Reading.mosfetParams field v = Reading.mosfetParams field v'

structure Level.Agrees (level : Level) (v v' : Value) : Prop where
  reads : level.Reads v v'
  sound : ∀ d ∈ level.depth?, v.isSound (d + 1) = v'.isSound (d + 1)

/-- What two records hold of a field says the same. -/
inductive SameSlot (level : Level) (name : String) : Option Value → Option Value → Prop
  | same (v : Option Value) : SameSlot level name v v
  | default {v : Value} (h : level.IsDefault name v) : SameSlot level name none (some v)
  | within {inner : Level} {v v' : Value} (hinner : level.inner name = some inner)
    (h : inner.Agrees v v') : SameSlot level name (some v) (some v')

/-- What two records hold of the named fields says the same. -/
def SameSlots (level : Level) (names : List String) (gs gs' : Fields) : Prop :=
  ∀ name ∈ names, SameSlot level name (gs.lookup name) (gs'.lookup name)

namespace SameSlots
variable {β γ : Type} {level inner : Level} {names : List String} {gs gs' : Fields} {name : String}
  {item : String → Value → Reading β} {f g : β → Reading γ}

theorem optional_eq {b : β} (h : SameSlots level names gs gs') (hname : name ∈ names)
    (hdefault : level.defaults.lookup name = some (Level.means name item b).2)
    (hinner : ∀ inner v v', level.inner name = some inner → inner.Agrees v v' →
      item name v = item name v') :
    optional gs name b item = optional gs' name b item := by
  have hslot := h name hname
  unfold optional
  generalize gs.lookup name = slot, gs'.lookup name = slot' at hslot
  cases hslot with
  | same v => rfl
  | default hv =>
    obtain ⟨P, hP, hv⟩ := hv
    cases hP.symm.trans hdefault
    exact hv.symm
  | within hlevel hv => exact hinner _ _ _ hlevel hv

/-- A field that holds no record. -/
theorem optional_bind {b : β} (h : SameSlots level names gs gs') (hname : name ∈ names)
    (hdefault : level.defaults.lookup name = some (Level.means name item b).2)
    (hinner : level.inner name = none) (hfg : ∀ b, f b = g b) :
    (optional gs name b item >>= f) = (optional gs' name b item >>= g) := by
  have hitem : optional gs name b item = optional gs' name b item :=
    h.optional_eq hname hdefault fun inner v v' hlevel => by cases hinner.symm.trans hlevel
  rw [hitem, funext hfg]

/-- A field that holds a record. -/
theorem record_bind {b : β} (h : SameSlots level names gs gs') (hname : name ∈ names)
    (hdefault : level.defaults.lookup name = some (Level.means name item b).2)
    (hinner : level.inner name = some inner)
    (hitem : ∀ v v', inner.Agrees v v' → item name v = item name v') (hfg : ∀ b, f b = g b) :
    (optional gs name b item >>= f) = (optional gs' name b item >>= g) := by
  have hitem : optional gs name b item = optional gs' name b item := by
    refine h.optional_eq hname hdefault fun inner' v v' hlevel hv => ?_
    cases hinner.symm.trans hlevel
    exact hitem v v' hv
  rw [hitem, funext hfg]

theorem required_bind (h : SameSlots level names gs gs') (hname : name ∈ names)
    (hdefault : level.defaults.lookup name = none) (hinner : level.inner name = none)
    (hfg : ∀ b, required gs name item = .ok b → f b = g b) :
    (required gs name item >>= f) = (required gs' name item >>= g) := by
  have hitem : required gs name item = required gs' name item := by
    have hslot := h name hname
    unfold required
    generalize gs.lookup name = slot, gs'.lookup name = slot' at hslot
    cases hslot with
    | same v => rfl
    | default hv =>
      obtain ⟨P, hP, -⟩ := hv
      cases hdefault.symm.trans hP
    | within hlevel hv => cases hinner.symm.trans hlevel
  rw [← hitem]
  cases hread : required gs name item with
  | error fault => rfl
  | ok b => exact hfg b hread

end SameSlots

/-! ## Fields -/

/-- Each known field is repeated in both lists of members, or says the same in both. -/
def Alike (level : Level) (fs fs' : Fields) : Prop :=
  ∀ name ∈ level.known, AlikeAt (SameSlot level name) name fs fs'

theorem alike_perm {level : Level} {fs fs' : Fields} (h : fs.Perm fs') : Alike level fs fs' := by
  intro name _
  have hlength : (named name fs).length = (named name fs').length := (h.filter _).length_eq
  refine ⟨by rw [hlength], fun hone => ?_⟩
  rw [lookup_perm h hone]
  exact .same _

theorem alike_insert {level : Level} {fs : Fields} {m : String × Value} (h : m.1 ∉ level.known) :
    Alike level fs (m :: fs) := by
  intro name hname
  have hne : m.1 ≠ name := fun hm => h (hm ▸ hname)
  refine ⟨by rw [named_cons_of_ne hne], fun _ => ?_⟩
  rw [lookup_eq name (m :: fs), named_cons_of_ne hne, ← lookup_eq]
  exact .same _

theorem alike_complete {level : Level} {fs : Fields} {name : String} {v : Value}
    (habsent : ∀ m ∈ fs, m.1 ≠ name) (h : level.IsDefault name v) :
    Alike level fs ((name, v) :: fs) := by
  intro name' _
  by_cases hname : name = name'
  · subst hname
    have hnil : named name fs = [] := List.filter_eq_nil_iff.2 (by simpa using habsent)
    have hone : named name ((name, v) :: fs) = [(name, v)] := by
      rw [named, List.filter_cons_of_pos (by simp), ← named, hnil]
    refine ⟨by simp [hnil, hone], fun _ => ?_⟩
    rw [lookup_eq, lookup_eq, hnil, hone]
    exact .default h
  · refine ⟨by rw [named_cons_of_ne hname], fun _ => ?_⟩
    rw [lookup_eq name' (_ :: fs), named_cons_of_ne hname, ← lookup_eq]
    exact .same _

theorem sameSlot_inside {level inner : Level} {name : String} {v v' : Value}
    (hinner : level.inner name = some inner) (h : inner.Agrees v v') (fs₁ fs₂ : Fields)
    (name' : String) :
    SameSlot level name' ((fs₁ ++ (name, v) :: fs₂).lookup name')
      ((fs₁ ++ (name, v') :: fs₂).lookup name') := by
  rw [List.lookup_append, List.lookup_append]
  cases fs₁.lookup name' with
  | some w => exact .same _
  | none =>
    by_cases hname : name' = name
    · subst hname
      simpa using SameSlot.within hinner h
    · have hne : (name' == name) = false := beq_false_of_ne hname
      simpa [List.lookup_cons, hne] using SameSlot.same _

theorem alike_inside {level inner : Level} {name : String} {v v' : Value}
    (hinner : level.inner name = some inner) (h : inner.Agrees v v') (fs₁ fs₂ : Fields) :
    Alike level (fs₁ ++ (name, v) :: fs₂) (fs₁ ++ (name, v') :: fs₂) := by
  intro name' _
  have hlength : (named name' (fs₁ ++ (name, v) :: fs₂)).length =
      (named name' (fs₁ ++ (name, v') :: fs₂)).length := by
    by_cases hname : name = name'
    · simp [named, hname]
    · simp [named, hname]
  exact ⟨by rw [hlength], fun _ => sameSlot_inside hinner h fs₁ fs₂ name'⟩

/-! ## Records -/

/-- Two records whose known fields say the same. -/
inductive Similar (level : Level) : Value → Value → Prop
  | object {ms ms' : List (RawText × Value)} (hkeys : readable ms = readable ms')
    (hfields : readable ms → Alike level (ms.map plain) (ms'.map plain))
    (hsound : ∀ d ∈ level.depth?, ((ms.map plain).all fun m => m.2.isSound d) =
      (ms'.map plain).all fun m => m.2.isSound d) :
    Similar level (.object ms) (.object ms')
  | array {items items' : List Value} (hknown : level.known ≠ [])
    (hlength : level.known.length < items.length ↔ level.known.length < items'.length)
    (hfields : ∀ name, SameSlot level name ((level.known.zip items).lookup name)
      ((level.known.zip items').lookup name))
    (hsound : ∀ d ∈ level.depth?, Value.allSound d items = Value.allSound d items') :
    Similar level (.array items) (.array items')

theorem Similar.sound {level : Level} {v v' : Value} (h : Similar level v v') :
    ∀ d ∈ level.depth?, v.isSound (d + 1) = v'.isSound (d + 1) := by
  intro d hd
  cases h with
  | object hkeys _ hsound =>
    rw [Value.isSound, Value.isSound, membersSound_eq, membersSound_eq, hkeys, hsound d hd]
  | array _ _ _ hsound => rw [Value.isSound, Value.isSound, hsound d hd]

theorem Similar.reorder {level : Level} {ms ms' : List (RawText × Value)} (h : ms.Perm ms') :
    Similar level (.object ms) (.object ms') :=
  .object h.all_eq (fun _ => alike_perm (h.map plain)) fun _ _ => (h.map plain).all_eq

theorem Similar.insert {level : Level} {t : RawText} {name : String} {v : Value}
    {ms : List (RawText × Value)} (hkey : RawText.string? t = some name)
    (hv : level.Accepts v)
    (h : readable ms → Alike level (ms.map plain) ((name, v) :: ms.map plain)) :
    Similar level (.object ms) (.object ((t, v) :: ms)) := by
  refine .object ?_ (fun hms => ?_) fun d hd => ?_
  · rw [readable_cons, hkey, Option.isSome_some, Bool.true_and]
  · rw [List.map_cons, plain_of_key hkey]
    exact h hms
  · rw [List.map_cons, List.all_cons, plain_of_key hkey, hv d hd, Bool.true_and]

theorem ne_of_absent {name : String} {ms : List (RawText × Value)} (hms : readable ms)
    (h : ∀ m ∈ ms, RawText.string? m.1 ≠ some name) : ∀ m ∈ ms.map plain, m.1 ≠ name := by
  intro m hm hname
  obtain ⟨m₀, hm₀, rfl⟩ := List.mem_map.1 hm
  obtain ⟨key, hkey⟩ := Option.isSome_iff_exists.1 (List.all_eq_true.1 hms m₀ hm₀)
  have hplain : plain m₀ = (key, m₀.2) := plain_of_key hkey m₀.2
  rw [hplain] at hname
  exact h m₀ hm₀ (hkey.trans (congrArg some hname))

/-- What stands in a field of a component means something or not, as the records there do. -/
theorem Level.Agrees.isSound {level inner : Level} {name : String} {v v' : Value}
    (hinner : level.inner name = some inner) (h : inner.Agrees v v') :
    ∀ d ∈ level.depth?, v.isSound d = v'.isSound d := by
  intro d hd
  unfold Level.inner at hinner
  split at hinner <;> cases hinner <;> cases hd
  · exact h.sound (fieldDepth - 1) rfl
  · exact h.sound (fieldDepth - 1) rfl

theorem Similar.inside {level inner : Level} {t : RawText} {name : String} {v v' : Value}
    (hkey : RawText.string? t = some name) (hinner : level.inner name = some inner)
    (h : inner.Agrees v v') (ms₁ ms₂ : List (RawText × Value)) :
    Similar level (.object (ms₁ ++ (t, v) :: ms₂)) (.object (ms₁ ++ (t, v') :: ms₂)) := by
  refine .object (by simp [readable]) (fun _ => ?_) fun d hd => ?_
  · simp only [List.map_append, List.map_cons, plain_of_key hkey]
    exact alike_inside hinner h _ _
  · simp only [List.map_append, List.map_cons, List.all_append, List.all_cons,
      plain_of_key hkey, h.isSound hinner d hd]

/-- A field of an array stands behind as many others as in the list of names. -/
theorem exists_split {known : List String} {i : Nat} {name : String} (h : known[i]? = some name) :
    ∃ known₁ known₂, known = known₁ ++ name :: known₂ ∧ known₁.length = i := by
  obtain ⟨hi, rfl⟩ := List.getElem?_eq_some_iff.1 h
  refine ⟨known.take i, known.drop (i + 1), ?_, ?_⟩
  · rw [List.getElem_cons_drop, List.take_append_drop]
  · rw [List.length_take, Nat.min_eq_left hi.le]

theorem Similar.place {level inner : Level} {name : String} {v v' : Value}
    {items₁ items₂ : List Value} (hname : level.known[items₁.length]? = some name)
    (hinner : level.inner name = some inner) (h : inner.Agrees v v') :
    Similar level (.array (items₁ ++ v :: items₂)) (.array (items₁ ++ v' :: items₂)) := by
  obtain ⟨known₁, known₂, hknown, hlength⟩ := exists_split hname
  refine .array (by simp [hknown]) (by simp) (fun name' => ?_) fun d hd => ?_
  · rw [hknown, List.zip_append hlength, List.zip_append hlength]
    exact sameSlot_inside hinner h _ _ name'
  · simp only [allSound_eq, List.all_append, List.all_cons, h.isSound hinner d hd]

theorem Similar.append {level : Level} {name : String} {v : Value} {items : List Value}
    (hname : level.known[items.length]? = some name) (hdefault : level.IsDefault name v)
    (hv : level.Accepts v) : Similar level (.array items) (.array (items ++ [v])) := by
  obtain ⟨known₁, known₂, hknown, hlength⟩ := exists_split hname
  have hzip : level.known.zip items = known₁.zip items ++ (name :: known₂).zip [] := by
    rw [← List.zip_append hlength, hknown, List.append_nil]
  refine .array (by simp [hknown]) ?_ (fun name' => ?_) fun d hd => ?_
  · simp only [hknown, List.length_append, List.length_cons, List.length_nil]
    omega
  · rw [hzip, hknown, List.zip_append hlength, List.lookup_append, List.lookup_append]
    cases (known₁.zip items).lookup name' with
    | some w => exact .same _
    | none =>
      by_cases hn : name' = name
      · subst hn
        simpa using SameSlot.default hdefault
      · have hne : (name' == name) = false := beq_false_of_ne hn
        simpa [List.lookup_cons, hne] using SameSlot.same none
  · simp [allSound_eq, hv d hd]

theorem Similar.matching_record {level : Level} {v v' : Value} (h : Similar level v v')
    (field : String) :
    Matching (SameSlots level level.known) (record field level.known v)
      (record field level.known v') := by
  cases h with
  | @object ms ms' hkeys hfields _ =>
    simp only [record, members_eq, ← hkeys]
    cases hms : readable ms with
    | false => exact .error _
    | true => exact matching_select (hfields hms)
  | array _ hlength hfields _ =>
    simp only [record, ← hlength]
    split
    · exact .error _
    · exact .ok fun name _ => hfields name

/-! ## Readings -/

theorem newton_eq {v v' : Value} (h : Similar .newton v v') (field : String) :
    newton field v = newton field v' := by
  refine (h.matching_record field).bind_eq fun gs gs' _ hs => ?_
  iterate 11 refine hs.optional_bind (by decide) rfl rfl fun _ => ?_
  rfl

theorem simulation_eq {v v' : Value} (h : Similar .simulation v v') (field : String) :
    simulation field v = simulation field v' := by
  refine (h.matching_record field).bind_eq fun gs gs' _ hs => ?_
  iterate 3 refine hs.optional_bind (by decide) rfl rfl fun _ => ?_
  exact hs.record_bind (by decide) rfl rfl (fun _ _ hv => hv.reads _) fun _ => rfl

theorem diodeParams_eq {v v' : Value} (h : Similar .diodeParams v v') (field : String) :
    diodeParams field v = diodeParams field v' := by
  refine (h.matching_record field).bind_eq fun gs gs' _ hs => ?_
  iterate 2 refine hs.optional_bind (by decide) rfl rfl fun _ => ?_
  rfl

theorem mosfetParams_eq {v v' : Value} (h : Similar .mosfetParams v v') (field : String) :
    mosfetParams field v = mosfetParams field v' := by
  refine (h.matching_record field).bind_eq fun gs gs' _ hs => ?_
  iterate 6 refine hs.optional_bind (by decide) rfl rfl fun _ => ?_
  rfl

theorem Alike.matching_parameters {k : Kind} {fs fs' : Fields}
    (h : Alike (.entry (some k)) fs fs') :
    Matching (SameSlots (.entry (some k)) (parameterFields k)) (select (parameterFields k) fs)
      (select (parameterFields k) fs') :=
  matching_select fun name hname => h name (List.mem_append_right _ hname)

theorem parameters_eq {k : Kind} {fs fs' : Fields} (h : Alike (.entry (some k)) fs fs') :
    parameters k fs = parameters k fs' := by
  refine h.matching_parameters.bind_eq fun gs gs' _ hs => ?_
  cases k with
  | resistor =>
    refine hs.required_bind (by decide) rfl rfl fun _ _ => ?_
    exact hs.optional_bind (by decide) rfl rfl fun _ => rfl
  | wire => rfl
  | voltageSource =>
    refine hs.required_bind (by decide) rfl rfl fun _ _ => ?_
    refine hs.optional_bind (by decide) rfl rfl fun _ => ?_
    exact hs.optional_bind (by decide) rfl rfl fun _ => rfl
  | currentSource | capacitor | inductor =>
    exact hs.required_bind (by decide) rfl rfl fun _ _ => rfl
  | opAmp => exact hs.optional_bind (by decide) rfl rfl fun _ => rfl
  | diode => exact hs.record_bind (by decide) rfl rfl (fun _ _ hv => hv.reads _) fun _ => rfl
  | mosfet =>
    refine hs.optional_bind (by decide) rfl rfl fun _ => ?_
    exact hs.record_bind (by decide) rfl rfl (fun _ _ hv => hv.reads _) fun _ => rfl

theorem Level.inner_entry {name : String} (h : name ≠ "params") (k : Option Kind) :
    (Level.entry k).inner name = none := by
  unfold inner
  split <;> simp_all

theorem Level.lookup_defaults_entry {name : String} (h : name ∈ ["id", "nodes", "type"])
    (k : Option Kind) : (Level.entry k).defaults.lookup name = none := by
  simp only [List.mem_cons, List.not_mem_nil, or_false] at h
  rcases k with - | k
  · rcases h with rfl | rfl | rfl <;> rfl
  · cases k <;> rcases h with rfl | rfl | rfl <;> rfl

theorem Alike.matching_common {k : Option Kind} {fs fs' : Fields} (h : Alike (.entry k) fs fs') :
    Matching (SameSlots (.entry k) commonFields) (select commonFields fs)
      (select commonFields fs') := by
  refine matching_select fun name hname => h name ?_
  cases k with
  | none => exact hname
  | some k => exact List.mem_append_left _ hname

/-- The kind that is read is the one that decides which names are known. -/
theorem entryKind?_eq {ms : List (RawText × Value)} {fs gs : Fields} (hfs : members ms = .ok fs)
    (hgs : select commonFields fs = .ok gs) :
    entryKind? (.object ms) = (required gs "type" kind).toOption := by
  have htype : gs.lookup "type" = fs.lookup "type" := lookup_of_select hgs (by decide)
  rw [entryKind?, hfs, Outcome.ok_bind, required, required, htype]

theorem component_eq {v v' : Value} (h : Similar (.entry (entryKind? v)) v v') (field : String) :
    component field v = component field v' := by
  generalize hkind : entryKind? v = k at h
  cases h with
  | array => rfl
  | @object ms ms' hkeys hfields hsound =>
    have hmembers : Matching (fun fs fs' => Alike (.entry k) fs fs' ∧
        (fs.all fun m => m.2.isSound fieldDepth) = fs'.all fun m => m.2.isSound fieldDepth)
        (members ms) (members ms') := by
      rw [members_eq, members_eq, ← hkeys]
      split
      · exact .ok ⟨hfields ‹_›, hsound _ rfl⟩
      · exact .error _
    refine hmembers.bind_eq fun fs fs' hfs halike => ?_
    obtain ⟨halike, hsound⟩ := halike
    simp only [hsound]
    cases fs'.all fun m => m.2.isSound fieldDepth with
    | false => rfl
    | true =>
      refine halike.matching_common.bind_eq fun gs gs' hgs hs => ?_
      refine hs.required_bind (by decide) (Level.lookup_defaults_entry (by decide) k)
        (Level.inner_entry (by decide) k) fun _ _ => ?_
      refine hs.optional_bind (by decide) rfl (Level.inner_entry (by decide) k) fun _ => ?_
      refine hs.required_bind (by decide) (Level.lookup_defaults_entry (by decide) k)
        (Level.inner_entry (by decide) k) fun _ _ => ?_
      refine hs.required_bind (by decide) (Level.lookup_defaults_entry (by decide) k)
        (Level.inner_entry (by decide) k) fun kd hkd => ?_
      -- From here on the kind is known, and with it the names of the parameters.
      obtain rfl : k = some kd := by rw [← hkind, entryKind?_eq hfs hgs, hkd]; rfl
      rw [parameters_eq halike]

theorem description_eq {v v' : Value} (h : Similar .circuit v v') :
    description v = description v' := by
  refine (h.matching_record "circuit").bind_eq fun gs gs' _ hs => ?_
  refine hs.record_bind (by decide) rfl rfl (fun _ _ hv => hv.reads _) fun _ => ?_
  exact hs.record_bind (by decide) rfl rfl (fun _ _ hv => hv.reads _) fun _ => rfl

theorem Similar.agrees {level : Level} {v v' : Value} (h : Similar level v v') :
    level.Agrees v v' := by
  refine ⟨?_, h.sound⟩
  cases level with
  | circuit => exact description_eq h
  | entries =>
    -- The list of components is no record: an edit of it is one of its components.
    cases h with
    | object => exact fun _ => rfl
    | array hknown => exact absurd rfl hknown
  | entry k =>
    rintro rfl field
    exact component_eq h field
  | simulation => exact simulation_eq h
  | newton => exact newton_eq h
  | diodeParams => exact diodeParams_eq h
  | mosfetParams => exact mosfetParams_eq h

theorem Edit.agrees {level : Level} {v v' : Value} (h : Edit level v v') : level.Agrees v v' := by
  induction h with
  | reorder h => exact (Similar.reorder h).agrees
  | insert hkey hname hv => exact (Similar.insert hkey hv fun _ => alike_insert hname).agrees
  | complete hkey habsent hdefault hv =>
    have halike := fun hms => alike_complete (ne_of_absent hms habsent) hdefault
    exact (Similar.insert hkey hv halike).agrees
  | append hname hdefault hv => exact (Similar.append hname hdefault hv).agrees
  | inside hkey hinner _ ih => exact (Similar.inside hkey hinner ih _ _).agrees
  | place hname hinner _ ih => exact (Similar.place hname hinner ih).agrees
  | item _ ih =>
    refine ⟨fun field => ?_, nofun⟩
    simp only [list, List.mapM_append, List.mapM_cons, ih.reads rfl]

theorem description_eq_of_edits {v v' : Value} (h : Relation.EqvGen (Edit .circuit) v v') :
    description v = description v' := by
  induction h with
  | rel v v' h => exact h.agrees.reads
  | refl v => rfl
  | symm v v' _ ih => exact ih.symm
  | trans v v' v'' _ _ ih₁ ih₂ => exact ih₁.trans ih₂

end Nodal.Reading

namespace Nodal

open Json (Value)
open Json.RawText (string?_ofString)
open Reading

/-- Texts whose values differ by edits are read the same, or refused for the same reason. -/
theorem Description.ofJson_eq_of_edits {text text' : String} {v v' : Value}
    (hv : Value.ofString? text = some v) (hv' : Value.ofString? text' = some v')
    (h : Relation.EqvGen (Edit .circuit) v v') :
    Description.ofJson text = Description.ofJson text' := by
  unfold ofJson
  simp only [hv, hv', description_eq_of_edits h]

namespace Reading

def bareEntry : Value :=
  .record [("id", .nat 0), ("type", .string "op_amp"), ("nodes", .array [])]

/-- The same component with its gain, and its kind at the end. -/
def fullEntry : Value :=
  .record [("nodes", .array []), ("type", .string "op_amp"), ("id", .nat 0),
    ("gain", .nat 1000000)]

def bareFile : Value := .record [("components", .array [bareEntry])]

/-- The same file with the settings, and a note. -/
def fullFile : Value :=
  .record [("note", .bool true), ("simulation", .record []), ("components", .array [fullEntry])]

theorem entryKind?_bareEntry : entryKind? bareEntry = some .opAmp := by decide +kernel

theorem edits_fullFile : Relation.EqvGen (Edit .circuit) bareFile fullFile := by
  let withGain : Value :=
    .record [("gain", .nat 1000000), ("id", .nat 0), ("type", .string "op_amp"),
      ("nodes", .array [])]
  let withSettings : Value :=
    .record [("simulation", .record []), ("components", .array [fullEntry])]
  have hgain : Edit (.entry (entryKind? bareEntry)) bareEntry withGain := by
    rw [entryKind?_bareEntry]
    refine .complete (string?_ofString "gain") (by decide +kernel) ⟨_, rfl, ?_⟩ ?_
    · decide +kernel
    · rintro d ⟨⟩
      decide +kernel
  have horder : Edit (.entry (entryKind? withGain)) withGain fullEntry :=
    .reorder (List.reverse_perm _).symm
  have hentry : ∀ v v', Edit (.entry (entryKind? v)) v v' → Edit .circuit
      (.record [("components", .array [v])]) (.record [("components", .array [v'])]) :=
    fun v v' h => @Edit.inside _ .entries _ _ _ _ [] [] (string?_ofString "components") rfl
      (@Edit.item _ _ [] [] h)
  have hsettings : Edit .circuit (.record [("components", .array [fullEntry])]) withSettings :=
    @Edit.complete _ _ "simulation" _ _ (string?_ofString _) (by decide +kernel) ⟨_, rfl, rfl⟩ nofun
  have hnote : Edit .circuit withSettings fullFile :=
    .insert (string?_ofString "note") (by decide) (Level.accepts_bool _ _)
  exact .trans _ _ _ (.rel _ _ (hentry _ _ hgain)) <|
    .trans _ _ _ (.rel _ _ (hentry _ _ horder)) <|
    .trans _ _ _ (.rel _ _ hsettings) (.rel _ _ hnote)

def bareText : String :=
  "\x7b\"components\":[\x7b\"id\":0,\"type\":\"op_amp\",\"nodes\":[]\x7d]\x7d"

def fullText : String :=
  "\x7b\"note\":true,\"simulation\":\x7b\x7d,\"components\":[" ++
    "\x7b\"nodes\":[],\"type\":\"op_amp\",\"id\":0,\"gain\":1000000\x7d]\x7d"

theorem ofString?_bareText : Value.ofString? bareText = some bareFile := (rfl)

theorem ofString?_fullText : Value.ofString? fullText = some fullFile := (rfl)

end Reading

theorem Description.ofJson_fullText :
    Value.ofString? bareText = some bareFile ∧ Value.ofString? fullText = some fullFile ∧
      Relation.EqvGen (Edit .circuit) bareFile fullFile ∧
      Description.ofJson bareText = Description.ofJson fullText :=
  ⟨ofString?_bareText, ofString?_fullText, edits_fullFile,
    Description.ofJson_eq_of_edits ofString?_bareText ofString?_fullText edits_fullFile⟩

end Nodal
