/-
# Documents read back

What is written for a document made of texts and natural numbers is one of the texts that write it
(`Plain.writes_render`), so that the document is read back from it.
-/
import SharedLog.Json.Writer
import SharedLog.Proofs.Json.Grammar

namespace SharedLog.Json

open Text

/-! ## Strings -/

lemma eq_ofNat {c : Char} {n : Nat} (h : c.toNat = n) : c = Char.ofNat n :=
  h ▸ (Char.ofNat_toNat c).symm

lemma WritesGlyphs.codeEscape {n : Nat} {cs : List Char} {s : List Glyph} (h : WritesGlyphs cs s)
    (hn : n < 16 ^ 4) : WritesGlyphs (codeEscape n ++ cs) (Glyph.ofCode n :: s) := by
  have hnumber := Hex.number?_digits hn
  simp only [Hex.digits, List.nil_append, List.cons_append] at hnumber
  simp only [Json.codeEscape, Hex.digits, List.nil_append, List.cons_append]
  exact .code hnumber h

/-- What is written for a character writes it. -/
lemma WritesGlyphs.escapeChar {cs : List Char} {s : List Glyph} (h : WritesGlyphs cs s) (c : Char) :
    WritesGlyphs (escapeChar c ++ cs) (.char c :: s) := by
  unfold Json.escapeChar
  split
  iterate 5 exact .short rfl h
  rename_i hquote hbackslash _ _ _
  split_ifs with hbackspace hfeed hcontrol
  · exact .short (by rw [eq_ofNat hbackspace]; rfl) h
  · exact .short (by rw [eq_ofNat hfeed]; rfl) h
  · have hcode : Glyph.ofCode c.toNat = .char c := by
      rw [Glyph.ofCode, if_neg (by omega), Char.ofNat_toNat]
    exact hcode ▸ h.codeEscape (by omega)
  · have hchar := WritesGlyphs.char hquote hbackslash h
    rwa [if_neg hcontrol] at hchar

lemma writesGlyphs_render (cs : List Char) :
    WritesGlyphs ((cs.map Glyph.char).flatMap Glyph.render) (cs.map .char) := by
  induction cs with
  | nil => exact .nil
  | cons c cs ih => exact ih.escapeChar c

/-- Where no half stands alone there is nothing to put together. -/
lemma joinHalves_map_char (cs : List Char) : joinHalves (cs.map .char) = cs.map .char := by
  induction cs with
  | nil => rfl
  | cons c cs ih => rw [List.map_cons, joinHalves, ih]; rintro _ _ _ ⟨⟩

/-- What is written for a text writes it. -/
lemma writes_renderString (text : String) :
    Writes (renderString (glyphs text)) (string (glyphs text)) := by
  have hwrites := Writes.string (writesGlyphs_render text.toList)
  rwa [joinHalves_map_char] at hwrites

/-! ## Numbers -/

/-- The digits of a natural number write it. -/
lemma writesNumber_toDigits (n : Nat) : WritesNumber (Nat.toDigits 10 n) (some n) := by
  have hzero : (Nat.toDigits 10 n).head? = some '0' → (Nat.toDigits 10 n).length = 1 := by
    intro hhead
    obtain rfl := Numeral.eq_zero_of_head?_toDigits hhead
    rfl
  have hwrites := WritesNumber.mk (.inl rfl)
    ⟨Nat.toDigits_ne_nil, fun _ => Numeral.isDigit_of_mem_toDigits⟩ hzero .none .none
  simpa [Numeral.value_toDigits] using hwrites

/-! ## Documents -/

/-- Members whose names are texts. -/
def named (members : List (String × Json)) : List (List Glyph × Json) :=
  members.map fun (name, value) => (glyphs name, value)

lemma named_cons (name : String) (value : Json) (members : List (String × Json)) :
    named ((name, value) :: members) = (glyphs name, value) :: named members := rfl

/-- A document made of texts and natural numbers. -/
inductive Plain : Json → Prop
  | null : Plain null
  | bool (b : Bool) : Plain (bool b)
  | natural (n : Nat) : Plain (number (some n))
  | text (s : String) : Plain (ofText s)
  | array {items : List Json} (h : ∀ item ∈ items, Plain item) : Plain (array items)
  | object {members : List (String × Json)} (h : ∀ member ∈ members, Plain member.2) :
      Plain (object (named members))

variable {items : List Json} {members : List (String × Json)}

lemma writesItems_renderItems (hne : items ≠ []) (h : ∀ item ∈ items, Writes item.render item) :
    WritesItems (renderItems items) items := by
  induction items with
  | nil => exact absurd rfl hne
  | cons item items ih =>
    have hitem := h item List.mem_cons_self
    cases items with
    | nil => exact .one hitem
    | cons next items =>
      exact .cons hitem (ih (List.cons_ne_nil _ _) fun j hj => h j (List.mem_cons_of_mem _ hj))

lemma writesMembers_renderMembers (hne : members ≠ [])
    (h : ∀ member ∈ members, Writes member.2.render member.2) :
    WritesMembers (renderMembers (named members)) (named members) := by
  induction members with
  | nil => exact absurd rfl hne
  | cons member members ih =>
    have hname := writes_renderString member.1
    have hvalue := h member List.mem_cons_self
    cases members with
    | nil => exact .one hname hvalue
    | cons next members =>
      have hmore := ih (List.cons_ne_nil _ _) fun m hm => h m (List.mem_cons_of_mem _ hm)
      exact .cons hname hvalue hmore

/-- What is written for a document made of texts and natural numbers writes it. -/
theorem Plain.writes_render {j : Json} (h : Plain j) : Writes j.render j := by
  induction h with
  | null => exact .null
  | bool b =>
    cases b with
    | true => exact .true
    | false => exact .false
  | natural n => exact .number (writesNumber_toDigits n)
  | text s => exact writes_renderString s
  | @array items _ ih =>
    rcases eq_or_ne items [] with rfl | hne
    · exact .emptyArray nofun
    · exact .array (writesItems_renderItems hne ih)
  | @object members _ ih =>
    rcases eq_or_ne members [] with rfl | hne
    · exact .emptyObject nofun
    · exact .object (writesMembers_renderMembers hne ih)

/-- The text of a document is read as that document. -/
theorem Plain.ofChars?_render {j : Json} (h : Plain j) : ofChars? j.render = some j :=
  ofChars?_eq_some_iff.mpr h.writes_render

end SharedLog.Json
