import Nodal.Json.Reader
import Nodal.Json.Writer
import Nodal.Proofs.Literals

/-! # JSON text read back

The text of a value is read as that value, save that a control character without an escape of its
own comes back as a code unit. First the characters give the tokens of the value, then the tokens
the value. -/

namespace Nodal.Json

section Runs
variable {σ τ : Type} {f : σ → τ → Option σ} {s s' : σ}

theorem foldlM_append_of_eq {xs : List τ} (h : xs.foldlM f s = some s') (ys : List τ) :
    (xs ++ ys).foldlM f s = ys.foldlM f s' := by
  rw [List.foldlM_append, h, Option.bind_eq_bind, Option.bind_some]

theorem foldlM_cons_of_eq {x : τ} (h : f s x = some s') (xs : List τ) :
    (x :: xs).foldlM f s = xs.foldlM f s' := by
  rw [List.foldlM_cons, h, Option.bind_eq_bind, Option.bind_some]

end Runs

/-! ## What comes back -/

/-- A control character without a one-letter escape is written, and read, as a code unit. -/
def Piece.reread : Piece → Piece
  | .char c =>
    if c.toNat < 0x20 ∧ c ∉ ['\n', '\r', '\t', '\x08', '\x0c'] then .unit c.toNat else .char c
  | .unit u => .unit (u % 0x10000)

def RawText.reread (t : RawText) : RawText := t.map Piece.reread

namespace Value

mutual

def reread : Value → Value
  | .null => .null
  | .bool b => .bool b
  | .number l => .number l
  | .text t => .text (RawText.reread t)
  | .array items => .array (rereadItems items)
  | .object members => .object (rereadMembers members)

def rereadItems : List Value → List Value
  | [] => []
  | v :: rest => v.reread :: rereadItems rest

def rereadMembers : List (RawText × Value) → List (RawText × Value)
  | [] => []
  | (key, v) :: rest => (RawText.reread key, v.reread) :: rereadMembers rest

end

mutual

/-- Every number inside is spelled in canonical form. -/
def Legible : Value → Prop
  | .number l => l.Canonical
  | .array items => LegibleItems items
  | .object members => LegibleMembers members
  | _ => True

def LegibleItems : List Value → Prop
  | [] => True
  | v :: rest => v.Legible ∧ LegibleItems rest

def LegibleMembers : List (RawText × Value) → Prop
  | [] => True
  | (_, v) :: rest => v.Legible ∧ LegibleMembers rest

end

theorem rereadItems_eq (items : List Value) : rereadItems items = items.map reread := by
  induction items with
  | nil => rfl
  | cons v rest ih => rw [rereadItems, ih, List.map_cons]

theorem rereadMembers_eq (members : List (RawText × Value)) :
    rereadMembers members = members.map fun m => (RawText.reread m.1, m.2.reread) := by
  induction members with
  | nil => rfl
  | cons m rest ih => rw [rereadMembers, ih, List.map_cons]

theorem legibleItems_iff (items : List Value) : LegibleItems items ↔ ∀ v ∈ items, v.Legible := by
  induction items with
  | nil => simp [LegibleItems]
  | cons v rest ih => rw [LegibleItems, ih, List.forall_mem_cons]

theorem legibleMembers_iff (members : List (RawText × Value)) :
    LegibleMembers members ↔ ∀ m ∈ members, m.2.Legible := by
  induction members with
  | nil => simp [LegibleMembers]
  | cons m rest ih => rw [LegibleMembers, ih, List.forall_mem_cons]

end Value

/-! ## The tokens of a value -/

/-- Tokens of several parts, with commas between them. -/
def separated : List (List Token) → List Token
  | [] => []
  | [ts] => ts
  | ts :: us :: rest => ts ++ .comma :: separated (us :: rest)

namespace Value

mutual

def tokens : Value → List Token
  | .null => [.null]
  | .bool b => [.bool b]
  | .number l => [.number l]
  | .text t => [.text (RawText.reread t)]
  | .array items => .beginArray :: (separated (itemTokens items) ++ [.endArray])
  | .object members => .beginObject :: (separated (memberTokens members) ++ [.endObject])

def itemTokens : List Value → List (List Token)
  | [] => []
  | v :: rest => v.tokens :: itemTokens rest

def memberTokens : List (RawText × Value) → List (List Token)
  | [] => []
  | (key, v) :: rest => (.text (RawText.reread key) :: .colon :: v.tokens) :: memberTokens rest

end

end Value

/-! ## From characters to tokens -/

namespace Lexer
open Token

/-- The tokens that have been read, with the one that the letters so far make. -/
inductive Holds : Lexer → List Token → Prop
  | between (ts : List Token) : Holds ⟨ts, .between⟩ ts
  | word {ts : List Token} {letters : List Char} {t : Token}
    (h : ofWord? letters.reverse = some t) : Holds ⟨ts, .word letters⟩ (t :: ts)

theorem Holds.finish? {l : Lexer} {ts : List Token} (h : l.Holds ts) :
    l.finish? = some ts.reverse := by
  cases h with
  | between => rfl
  | word h => simp [Lexer.finish?, h]

/-- Punctuation ends a word. -/
theorem Holds.step? {l : Lexer} {ts : List Token} (h : l.Holds ts) {c : Char} {t : Token}
    (hc : ofPunctuation? c = some t) : l.step? c = some ⟨t :: ts, .between⟩ := by
  have hbegin : isWordChar c = false ∧ ∀ done, begin? done c = some ⟨t :: done, .between⟩ := by
    unfold ofPunctuation? at hc
    split at hc <;> cases hc <;> exact ⟨rfl, fun _ => rfl⟩
  cases h with
  | between => exact hbegin.2 ts
  | word h => simp [Lexer.step?, hbegin, h]

theorem begin?_of_isWordChar {c : Char} (hc : isWordChar c) (done : List Token) :
    begin? done c = some ⟨done, .word [c]⟩ := by
  have hblank : isBlank c = false := by
    by_contra h
    simp only [isBlank, Bool.or_eq_true, beq_iff_eq, Bool.not_eq_false] at h
    rcases h with ((rfl | rfl) | rfl) | rfl <;> cases hc
  have hquote : (c == '"') = false := by
    by_contra h
    simp only [beq_iff_eq, Bool.not_eq_false] at h
    subst h
    cases hc
  simp [begin?, hblank, hquote, hc]

theorem foldlM_letters {cs : List Char} (hcs : cs.all isWordChar) (done : List Token)
    (letters : List Char) : cs.foldlM Lexer.step? ⟨done, .word letters⟩ =
      some ⟨done, .word (cs.reverse ++ letters)⟩ := by
  induction cs generalizing letters with
  | nil => rfl
  | cons c cs ih =>
    rw [List.all_cons, Bool.and_eq_true] at hcs
    have hletter : Lexer.step? ⟨done, .word letters⟩ c = some ⟨done, .word (c :: letters)⟩ := by
      simp [Lexer.step?, hcs.1]
    rw [foldlM_cons_of_eq hletter, ih hcs.2]
    simp

/-- The characters give the tokens, wherever they stand. -/
def Lexes (cs : List Char) (ts : List Token) : Prop :=
  ∀ done, ∃ l, cs.foldlM Lexer.step? ⟨done, .between⟩ = some l ∧ l.Holds (ts.reverse ++ done)

namespace Lexes

theorem nil : Lexes [] [] := fun done => ⟨_, rfl, .between done⟩

theorem append_punctuation {cs cs' : List Char} {ts ts' : List Token} {c : Char} {t : Token}
    (h : Lexes cs ts) (hc : ofPunctuation? c = some t) (h' : Lexes cs' ts') :
    Lexes (cs ++ c :: cs') (ts ++ t :: ts') := by
  intro done
  obtain ⟨l, hl, hholds⟩ := h done
  obtain ⟨l', hl', hholds'⟩ := h' (t :: (ts.reverse ++ done))
  refine ⟨l', ?_, by simpa using hholds'⟩
  rw [foldlM_append_of_eq hl, foldlM_cons_of_eq (hholds.step? hc), hl']

theorem enclosed {cs : List Char} {ts : List Token} {c c' : Char} {t t' : Token} (h : Lexes cs ts)
    (hc : ofPunctuation? c = some t) (hc' : ofPunctuation? c' = some t') :
    Lexes (c :: (cs ++ [c'])) (t :: (ts ++ [t'])) :=
  nil.append_punctuation hc (h.append_punctuation hc' nil)

theorem word {cs : List Char} {t : Token} (hcs : cs.all isWordChar) (ht : ofWord? cs = some t) :
    Lexes cs [t] := by
  intro done
  cases cs with
  | nil => cases ht
  | cons c cs =>
    rw [List.all_cons, Bool.and_eq_true] at hcs
    have hbegin : Lexer.step? ⟨done, .between⟩ c = some ⟨done, .word [c]⟩ :=
      begin?_of_isWordChar hcs.1 done
    refine ⟨⟨done, .word (cs.reverse ++ [c])⟩, ?_, .word (by simpa using ht)⟩
    rw [foldlM_cons_of_eq hbegin, foldlM_letters hcs.2]

theorem separated {strings : List String} {parts : List (List Token)}
    (h : List.Forall₂ (fun s ts => Lexes s.toList ts) strings parts) :
    Lexes (commaSeparated strings).toList (separated parts) := by
  induction h with
  | nil => exact nil
  | @cons s ts strings parts hs hrest ih =>
    cases hrest with
    | nil => exact hs
    | cons =>
      rw [commaSeparated, String.toList_append, String.toList_append, List.append_assoc]
      exact hs.append_punctuation rfl ih

end Lexes

/-! ### Texts -/

theorem hexValue?_hexDigit : ∀ n < 16, hexValue? (hexDigit n) = some n := by decide

/-- Inside a text, an escaped code unit. -/
theorem foldlM_escapeUnit (u : Nat) (done : List Token) (pieces : RawText) :
    (escapeUnit u).toList.foldlM Lexer.step? ⟨done, .text pieces⟩ =
      some ⟨done, .text (.unit (u % 0x10000) :: pieces)⟩ := by
  -- The four digits come one by one, the highest first.
  have hvalue : 16 * (16 * (16 * (16 * 0 + u / 4096 % 16) + u / 256 % 16) + u / 16 % 16) + u % 16 =
      u % 0x10000 := by omega
  have hdigit : ∀ n, hexValue? (hexDigit (n % 16)) = some (n % 16) :=
    fun n => hexValue?_hexDigit _ (Nat.mod_lt n (by decide))
  rw [escapeUnit, String.toList_ofList, ← hvalue]
  simp [List.foldlM_cons, Lexer.step?, continueText?, hdigit]

theorem foldlM_piece (p : Piece) (done : List Token) (pieces : RawText) :
    p.render.toList.foldlM Lexer.step? ⟨done, .text pieces⟩ =
      some ⟨done, .text (p.reread :: pieces)⟩ := by
  cases p with
  | unit u => exact foldlM_escapeUnit u done pieces
  | char c =>
    by_cases hshort : c ∈ ['"', '\\', '\n', '\r', '\t', '\x08', '\x0c']
    · simp only [List.mem_cons, List.not_mem_nil, or_false] at hshort
      rcases hshort with rfl | rfl | rfl | rfl | rfl | rfl | rfl <;> rfl
    · simp only [List.mem_cons, List.not_mem_nil, or_false, not_or] at hshort
      obtain ⟨hquote, hslash, hn, hr, ht, hb, hf⟩ := hshort
      rw [Piece.render, escapeChar, if_neg hquote, if_neg hslash, if_neg hn, if_neg hr, if_neg ht,
        if_neg hb, if_neg hf]
      by_cases hcontrol : c.toNat < 0x20
      · have hreread : Piece.reread (.char c) = .unit (c.toNat % 0x10000) := by
          rw [Piece.reread, if_pos ⟨hcontrol, by simp [hn, hr, ht, hb, hf]⟩, Nat.mod_eq_of_lt]
          omega
        rw [if_pos hcontrol, hreread]
        exact foldlM_escapeUnit _ done pieces
      · have hreread : Piece.reread (.char c) = .char c := if_neg fun h => hcontrol h.1
        rw [if_neg hcontrol, hreread]
        simp [Lexer.step?, continueText?, hquote, hslash, hcontrol]

theorem foldlM_pieces (t : RawText) (done : List Token) (pieces : RawText) :
    (String.join (t.map Piece.render)).toList.foldlM Lexer.step? ⟨done, .text pieces⟩ =
      some ⟨done, .text (t.reread.reverse ++ pieces)⟩ := by
  induction t generalizing pieces with
  | nil => rfl
  | cons p t ih =>
    rw [List.map_cons, String.join_cons, String.toList_append,
      foldlM_append_of_eq (foldlM_piece p done pieces), ih]
    simp [RawText.reread]

theorem Lexes.text (t : RawText) : Lexes (RawText.render t).toList [.text t.reread] := by
  intro done
  refine ⟨⟨.text t.reread :: done, .between⟩, ?_, .between _⟩
  have hquote : "\"".toList = ['"'] := rfl
  have hopen : Lexer.step? ⟨done, .between⟩ '"' = some ⟨done, .text []⟩ := rfl
  have hclose : Lexer.step? ⟨done, .text t.reread.reverse⟩ '"' =
      some ⟨.text t.reread :: done, .between⟩ := by
    simp [Lexer.step?, continueText?]
  rw [RawText.render, String.toList_append, String.toList_append, hquote, List.append_assoc,
    List.singleton_append, foldlM_cons_of_eq hopen, foldlM_append_of_eq (foldlM_pieces t done []),
    List.append_nil, foldlM_cons_of_eq hclose]
  rfl

/-! ### Numbers -/

theorem isWordChar_of_isDigit {c : Char} (h : Text.isDigit c) : isWordChar c := by
  simp [isWordChar, h]

theorem all_isWordChar_digits {cs : List Char} (h : cs.all Text.isDigit) : cs.all isWordChar :=
  List.all_eq_true.2 fun c hc => isWordChar_of_isDigit (List.all_eq_true.1 h c hc)

theorem all_isWordChar_exponent (e : Option Int) : (Literal.exponentChars e).all isWordChar := by
  have hdigits : ∀ n : Nat, (Nat.toDigits 10 n).all isWordChar :=
    fun n => all_isWordChar_digits (Text.all_isDigit_toDigits n)
  have hmark : isWordChar 'e' := rfl
  have hminus : isWordChar '-' := rfl
  cases e with
  | none => rfl
  | some e =>
    rw [Literal.exponentChars, List.all_cons, hmark, Bool.true_and]
    cases e with
    | ofNat n => rw [Text.toList_toString_ofNat, hdigits]
    | negSucc n =>
      rw [Text.toList_toString_negSucc, List.all_cons, hminus, Bool.true_and, hdigits]

theorem all_isWordChar_render {l : Literal} (h : l.Canonical) : l.render.toList.all isWordChar := by
  have hfraction : (Literal.fractionChars l.fraction).all isWordChar := by
    have hpoint : isWordChar '.' := rfl
    have hdigits := all_isWordChar_digits h.fraction
    cases hl : l.fraction with
    | nil => rfl
    | cons d ds =>
      rw [hl] at hdigits
      simpa [Literal.fractionChars, hpoint] using hdigits
  have hsign : (if l.negative then ['-'] else []).all isWordChar := by
    cases l.negative <;> rfl
  rw [Literal.toList_render, List.all_append, List.all_append, List.all_append, hsign,
    all_isWordChar_digits (Literal.all_isDigit_of_isWhole h.whole).1, hfraction,
    all_isWordChar_exponent]
  rfl

/-- No literal is one of the three words. -/
theorem ofWord?_of_ofChars? {cs : List Char} {l : Literal} (h : Literal.ofChars? cs = some l) :
    ofWord? cs = some (.number l) := by
  have hwords : ∀ w ∈ ["null", "true", "false"], cs ≠ w.toList := by
    rintro w hw rfl
    simp only [List.mem_cons, List.not_mem_nil, or_false] at hw
    rcases hw with rfl | rfl | rfl <;> cases h
  rw [ofWord?, if_neg (hwords _ (by simp)), if_neg (hwords _ (by simp)),
    if_neg (hwords _ (by simp)), h, Option.map_some]

theorem Lexes.number {l : Literal} (h : l.Canonical) : Lexes l.render.toList [.number l] :=
  .word (all_isWordChar_render h) (ofWord?_of_ofChars? (Literal.ofChars?_render h))

/-! ### Values -/

mutual

theorem Lexes.value : ∀ v : Value, v.Legible → Lexes v.render.toList v.tokens
  | .null, _ => .word rfl rfl
  | .bool true, _ => .word rfl rfl
  | .bool false, _ => .word rfl rfl
  | .number _, h => .number h
  | .text t, _ => .text t
  | .array items, h => by
    rw [Value.render, String.toList_append, String.toList_append]
    exact (Lexes.separated (Lexes.items items h)).enclosed rfl rfl
  | .object members, h => by
    rw [Value.render, String.toList_append, String.toList_append]
    exact (Lexes.separated (Lexes.members members h)).enclosed rfl rfl

theorem Lexes.items : ∀ items : List Value, Value.LegibleItems items →
    List.Forall₂ (fun s ts => Lexes s.toList ts) (Value.renderItems items) (Value.itemTokens items)
  | [], _ => .nil
  | v :: rest, h => .cons (Lexes.value v h.1) (Lexes.items rest h.2)

theorem Lexes.members : ∀ members : List (RawText × Value), Value.LegibleMembers members →
    List.Forall₂ (fun s ts => Lexes s.toList ts) (Value.renderMembers members)
      (Value.memberTokens members)
  | [], _ => .nil
  | (key, v) :: rest, h => by
    refine .cons ?_ (Lexes.members rest h.2)
    rw [String.toList_append, String.toList_append, List.append_assoc]
    exact (Lexes.text key).append_punctuation rfl (Lexes.value v h.1)

end

end Lexer

theorem Value.tokens?_render {v : Value} (h : v.Legible) :
    tokens? v.render.toList = some v.tokens := by
  obtain ⟨l, hl, hholds⟩ := Lexer.Lexes.value v h []
  rw [tokens?, Lexer.start, hl, Option.bind_eq_bind, Option.bind_some, hholds.finish?,
    List.append_nil, List.reverse_reverse]

/-! ## From tokens to values -/

namespace Reader

mutual

theorem foldlM_tokens : ∀ (v : Value) (frames : List Frame) (fresh : Bool),
    v.tokens.foldlM step? (value frames fresh) = some (put v.reread frames)
  | .null, _, _ | .bool _, _, _ | .number _, _, _ | .text _, _, _ => rfl
  | .array [], _, _ => rfl
  | .array (v :: rest), frames, fresh => by
    have hbegin : step? (value frames fresh) .beginArray =
        some (value (.array [] :: frames) true) := rfl
    rw [Value.tokens, foldlM_cons_of_eq hbegin,
      foldlM_append_of_eq (foldlM_items (v :: rest) nofun [] frames true), List.append_nil]
    simp [step?, Value.reread]
  | .object [], _, _ => rfl
  | .object (m :: rest), frames, fresh => by
    have hbegin : step? (value frames fresh) .beginObject = some (key [] frames true) := rfl
    rw [Value.tokens, foldlM_cons_of_eq hbegin,
      foldlM_append_of_eq (foldlM_members (m :: rest) nofun [] frames true), List.append_nil]
    simp [step?, Value.reread]

theorem foldlM_items : ∀ items : List Value, items ≠ [] → ∀ (before : List Value)
    (frames : List Frame) (fresh : Bool),
    (separated (Value.itemTokens items)).foldlM step? (value (.array before :: frames) fresh) =
      some (next (.array ((Value.rereadItems items).reverse ++ before) :: frames))
  | [], h, _, _, _ => absurd rfl h
  | [v], _, before, frames, fresh => foldlM_tokens v (.array before :: frames) fresh
  | v :: w :: rest, _, before, frames, fresh => by
    have hcomma : step? (put v.reread (.array before :: frames)) .comma =
        some (value (.array (v.reread :: before) :: frames) false) := rfl
    have hrest := foldlM_items (w :: rest) nofun (v.reread :: before) frames false
    rw [Value.itemTokens] at hrest
    rw [Value.itemTokens, Value.itemTokens, separated,
      foldlM_append_of_eq (foldlM_tokens v (.array before :: frames) fresh),
      foldlM_cons_of_eq hcomma, hrest]
    simp [Value.rereadItems]

theorem foldlM_members : ∀ members : List (RawText × Value), members ≠ [] →
    ∀ (before : List (RawText × Value)) (frames : List Frame) (fresh : Bool),
    (separated (Value.memberTokens members)).foldlM step? (key before frames fresh) =
      some (next (.object ((Value.rereadMembers members).reverse ++ before) :: frames))
  | [], h, _, _, _ => absurd rfl h
  | [(k, v)], _, before, frames, fresh => foldlM_tokens v (.member before k.reread :: frames) false
  | (k, v) :: m :: rest, _, before, frames, fresh => by
    have hmember : (Token.text k.reread :: .colon :: v.tokens).foldlM step?
        (key before frames fresh) =
          some (next (.object ((k.reread, v.reread) :: before) :: frames)) :=
      foldlM_tokens v (.member before k.reread :: frames) false
    have hcomma : step? (next (.object ((k.reread, v.reread) :: before) :: frames)) .comma =
        some (key ((k.reread, v.reread) :: before) frames false) := rfl
    have hrest := foldlM_members (m :: rest) nofun ((k.reread, v.reread) :: before) frames false
    rw [Value.memberTokens] at hrest
    rw [Value.memberTokens, Value.memberTokens, separated, foldlM_append_of_eq hmember,
      foldlM_cons_of_eq hcomma, hrest]
    simp [Value.rereadMembers]

end

end Reader

/-- The text of a value is read as the value again. -/
theorem Value.ofString?_render {v : Value} (h : v.Legible) :
    ofString? v.render = some v.reread := by
  rw [ofString?, tokens?_render h, Option.bind_eq_bind, Option.bind_some, ofTokens?, Reader.start,
    Reader.foldlM_tokens]
  rfl

end Nodal.Json
