import Mathlib.Data.List.Find
import Mathlib.Data.List.Perm.Basic
import Nodal.Description.Reading
import Nodal.Proofs.Outcomes

/-! # Records of a circuit file

What reading a record looks at: which keys mean something, how often a known field stands there, and
the value of a field that stands there once. -/

namespace Nodal.Json.RawText

theorem string?_ofString (s : String) : string? (ofString s) = some s := by
  have hchars : ∀ cs : List Char, chars? (cs.map .char) = some cs := by
    intro cs
    induction cs with
    | nil => rfl
    | cons c cs ih => rw [List.map_cons, chars?, ih, Option.map_some]
  rw [string?, ofString, hchars, Option.map_some, String.ofList_toList]

end Nodal.Json.RawText

namespace Nodal.Reading

open Json (Value RawText)

variable {β γ δ : Type}

/-! ## Members -/

/-- Whether every key of an object means something. -/
def readable (ms : List (RawText × Value)) : Bool := ms.all fun m => (RawText.string? m.1).isSome

@[simp] theorem readable_cons (m : RawText × Value) (ms : List (RawText × Value)) :
    readable (m :: ms) = ((RawText.string? m.1).isSome && readable ms) := rfl

/-- A member with its key as a string. -/
def plain (m : RawText × Value) : String × Value := ((RawText.string? m.1).getD "", m.2)

theorem plain_of_key {t : RawText} {name : String} (h : RawText.string? t = some name) (v : Value) :
    plain (t, v) = (name, v) := by
  rw [plain, h, Option.getD_some]

theorem members_eq (ms : List (RawText × Value)) :
    members ms = if readable ms then .ok (ms.map plain) else .error .malformed := by
  induction ms with
  | nil => rfl
  | cons m ms ih =>
    obtain ⟨t, v⟩ := m
    unfold members at ih ⊢
    rw [List.mapM_cons, ih, readable_cons]
    dsimp only
    cases hkey : RawText.string? t with
    | none => rfl
    | some key =>
      rw [List.map_cons, plain_of_key hkey]
      cases readable ms <;> rfl

theorem allSound_eq (depth : Nat) (items : List Value) :
    Value.allSound depth items = items.all (Value.isSound depth) := by
  induction items with
  | nil => rfl
  | cons v items ih => rw [Value.allSound, ih, List.all_cons]

theorem membersSound_eq (depth : Nat) (ms : List (RawText × Value)) :
    Value.membersSound depth ms =
      (readable ms && (ms.map plain).all fun m => m.2.isSound depth) := by
  induction ms with
  | nil => simp [Value.membersSound, readable]
  | cons m ms ih =>
    have hkey : (RawText.chars? m.1).isSome = (RawText.string? m.1).isSome := by
      simp [RawText.string?]
    rw [Value.membersSound, ih, hkey, readable_cons, List.map_cons, List.all_cons, plain]
    ac_rfl

/-! ## Known fields -/

/-- The members with a name. -/
def named (name : String) (fs : Fields) : Fields := fs.filter fun m => m.1 = name

theorem named_cons_of_ne {name : String} {m : String × Value} (h : m.1 ≠ name) (fs : Fields) :
    named name (m :: fs) = named name fs :=
  List.filter_cons_of_neg (by simpa using h)

theorem lookup_eq (name : String) (fs : Fields) :
    fs.lookup name = (named name fs).head?.map Prod.snd := by
  induction fs with
  | nil => rfl
  | cons m fs ih =>
    obtain ⟨key, v⟩ := m
    rw [List.lookup_cons]
    by_cases h : key = name
    · simp [named, h]
    · have hne : (name == key) = false := beq_false_of_ne (Ne.symm h)
      rw [named_cons_of_ne h, ← ih, hne]

/-- The order of the members does not matter to a field that is not repeated. -/
theorem lookup_perm {fs fs' : Fields} (h : fs.Perm fs') {name : String}
    (hname : (named name fs).length ≤ 1) : fs.lookup name = fs'.lookup name := by
  have hperm : (named name fs).Perm (named name fs') := h.filter _
  -- A permutation of at most one member is the same list.
  suffices named name fs = named name fs' by rw [lookup_eq, this, lookup_eq]
  match hn : named name fs, hname with
  | [], _ =>
    rw [hn] at hperm
    exact hperm.nil_eq
  | [m], _ =>
    rw [hn] at hperm
    exact hperm.singleton_eq

theorem lookup_filter {known : List String} {name : String} (h : name ∈ known) (fs : Fields) :
    (fs.filter fun m => known.contains m.1).lookup name = fs.lookup name := by
  have hnamed : named name (fs.filter fun m => known.contains m.1) = named name fs := by
    rw [named, List.filter_filter]
    refine List.filter_congr fun m _ => ?_
    by_cases hm : m.1 = name
    · simp [hm, h]
    · simp [hm]
  rw [lookup_eq, hnamed, lookup_eq]

theorem select_eq (known : List String) (fs : Fields) :
    select known fs = match known.find? fun name => 1 < (named name fs).length with
      | some name => .error (.repeated name)
      | none => .ok (fs.filter fun m => known.contains m.1) := by
  have hcount : ∀ name ∈ known,
      ((fs.filter fun m => known.contains m.1).filter fun m => m.1 = name) = named name fs := by
    intro name hname
    rw [List.filter_filter, named]
    refine List.filter_congr fun m _ => ?_
    by_cases hm : m.1 = name
    · simp [hm, hname]
    · simp [hm]
  have hfind : (known.find? fun name =>
      1 < ((fs.filter fun m => known.contains m.1).filter fun m => m.1 = name).length) =
      known.find? fun name => 1 < (named name fs).length := by
    refine List.find?_congr fun name hname => ?_
    rw [hcount name hname]
  rw [← hfind]
  rfl

theorem lookup_of_select {known : List String} {fs gs : Fields} (h : select known fs = .ok gs)
    {name : String} (hname : name ∈ known) : gs.lookup name = fs.lookup name := by
  rw [select_eq] at h
  split at h
  · cases h
  · cases h
    exact lookup_filter hname fs

theorem select_congr {known : List String} {fs gs : Fields}
    (h : fs.filter (fun m => known.contains m.1) = gs.filter fun m => known.contains m.1) :
    select known fs = select known gs := by
  unfold select
  simp only [h]

/-- Members with other names are not looked at. -/
theorem select_append_left {known : List String} {fs gs : Fields} (h : ∀ m ∈ gs, m.1 ∉ known) :
    select known (fs ++ gs) = select known fs := by
  have hnone : gs.filter (fun m => known.contains m.1) = [] :=
    List.filter_eq_nil_iff.2 (by simpa using h)
  exact select_congr (by rw [List.filter_append, hnone, List.append_nil])

theorem select_append_right {known : List String} {fs gs : Fields} (h : ∀ m ∈ fs, m.1 ∉ known) :
    select known (fs ++ gs) = select known gs := by
  have hnone : fs.filter (fun m => known.contains m.1) = [] :=
    List.filter_eq_nil_iff.2 (by simpa using h)
  exact select_congr (by rw [List.filter_append, hnone, List.nil_append])

/-! ## Two readings side by side -/

/-- Both readings end with the same fault, or both have a result and `R` holds of the two. -/
inductive Matching (R : β → γ → Prop) : Reading β → Reading γ → Prop
  | error (fault : ParseFault) : Matching R (.error fault) (.error fault)
  | ok {b : β} {c : γ} (h : R b c) : Matching R (.ok b) (.ok c)

theorem Matching.bind_eq {R : β → γ → Prop} {x : Reading β} {y : Reading γ} (h : Matching R x y)
    {f : β → Reading δ} {g : γ → Reading δ} (hfg : ∀ b c, x = .ok b → R b c → f b = g c) :
    (x >>= f) = (y >>= g) := by
  cases h with
  | error fault => rfl
  | ok h => exact hfg _ _ rfl h

/-- Both lists repeat a field; or none of them does, and `R` holds of the two values. -/
def AlikeAt (R : Option Value → Option Value → Prop) (name : String) (fs fs' : Fields) : Prop :=
  (1 < (named name fs).length ↔ 1 < (named name fs').length) ∧
    ((named name fs).length ≤ 1 → R (fs.lookup name) (fs'.lookup name))

theorem matching_select {known : List String} {R : String → Option Value → Option Value → Prop}
    {fs fs' : Fields} (h : ∀ name ∈ known, AlikeAt (R name) name fs fs') :
    Matching (fun gs gs' => ∀ name ∈ known, R name (gs.lookup name) (gs'.lookup name))
      (select known fs) (select known fs') := by
  have hfind : (known.find? fun name => 1 < (named name fs).length) =
      known.find? fun name => 1 < (named name fs').length :=
    List.find?_congr fun name hname => decide_eq_decide.2 (h name hname).1
  rw [select_eq, select_eq, ← hfind]
  cases hrepeated : known.find? fun name => 1 < (named name fs).length with
  | some name => exact .error _
  | none =>
    refine .ok fun name hname => ?_
    have hone : (named name fs).length ≤ 1 := by
      simpa using List.find?_eq_none.1 hrepeated name hname
    rw [lookup_filter hname, lookup_filter hname]
    exact (h name hname).2 hone

end Nodal.Reading
