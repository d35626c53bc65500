/-
# Other forms of a value

A value is read from more texts than the one that is written for it. Which texts write a document is
said by the grammar, white space and the ways to escape a character included. Here it is said which
documents are read as one value. The members of a record stand in any order, with unknown ones among
them that can be skipped, but none is given twice; or its fields stand in an array. Of two members
of a map with one id the last counts, and the items of a set may be repeated. A payload may be a
string, of which the bytes count.
-/
import Mathlib.Data.List.Induction
import SharedLog.Proofs.Wire.RoundTrip

namespace SharedLog.Wire

open Json

variable {α : Type} [Wire α] {text : String} {j : Json}

/-- A text is read as a value if and only if it writes a document of that value. -/
theorem decode?_eq_some_iff {a : α} :
    decode? text = some a ↔ ∃ j, Writes text.toList j ∧ ofJson? j = some a := by
  simp only [decode?, Option.bind_eq_some_iff, ofChars?_eq_some_iff]

/-- White space around a text makes no difference. -/
theorem decode?_pad {a : α} {before behind : String} (h : decode? text = some a)
    (hbefore : IsGap before.toList) (hbehind : IsGap behind.toList) :
    decode? (before ++ text ++ behind) = some a := by
  obtain ⟨j, hwrites, hread⟩ := decode?_eq_some_iff.mp h
  refine decode?_eq_some_iff.mpr ⟨j, ?_, hread⟩
  rw [String.toList_append, String.toList_append]
  exact .pad hbefore hwrites hbehind

/-! ## Lists and strings -/

/-- The last item is read after those before it. -/
lemma mapM_concat_eq_some_iff {β γ : Type} {read : β → Option γ} {l : List β} {b : β}
    {l' : List γ} :
    (l ++ [b]).mapM read = some l' ↔
      ∃ front c, l.mapM read = some front ∧ read b = some c ∧ front ++ [c] = l' := by
  simp [List.mapM_append, Option.bind_eq_some_iff]

lemma mapM_congr_left {β γ : Type} {read read' : β → Option γ} {l : List β}
    (h : ∀ b ∈ l, read b = read' b) : l.mapM read = l.mapM read' := by
  refine Option.ext fun l' => ?_
  rw [mapM_eq_some_iff, mapM_eq_some_iff, List.map_congr_left h]

lemma map_char?_eq_iff {s : List Glyph} {cs : List Char} :
    s.map Glyph.char? = cs.map some ↔ s = cs.map .char := by
  induction s generalizing cs with
  | nil => cases cs <;> simp
  | cons g s ih => cases cs <;> cases g <;> simp [Glyph.char?, ih]

/-- A string is a text if its elements are characters: no control character stands unescaped, and no
half of a surrogate pair stands alone. -/
theorem text?_eq_some_iff {s : List Glyph} : text? s = some text ↔ s = glyphs text := by
  simp only [text?, Option.map_eq_some_iff, mapM_eq_some_iff, map_char?_eq_iff, glyphs]
  constructor
  · rintro ⟨cs, rfl, rfl⟩
    rw [String.toList_ofList]
  · rintro rfl
    exact ⟨text.toList, rfl, String.ofList_toList⟩

lemma byteArray_toList_loop (b : ByteArray) (i : Nat) (front : List UInt8) :
    ByteArray.toList.loop b i front = front.reverse ++ b.data.toList.drop i := by
  fun_induction ByteArray.toList.loop b i front with
  | case1 i front hlt ih =>
    have hlength : i < b.data.toList.length := by simpa using hlt
    rw [ih, List.drop_eq_getElem_cons hlength]
    simp [ByteArray.get!, hlt]
  | case2 i front hle =>
    rw [List.drop_eq_nil_of_le (by simpa using Nat.le_of_not_lt hle)]
    simp

lemma byteArray_toList_append (b b' : ByteArray) : (b ++ b').toList = b.toList ++ b'.toList := by
  simp [ByteArray.toList, byteArray_toList_loop, ByteArray.data_append]

/-- The bytes of a text are its bytes in UTF-8. -/
theorem bytes_glyphs (text : String) : bytes (glyphs text) = text.toUTF8.toList := by
  obtain ⟨cs, rfl⟩ : ∃ cs, text = String.ofList cs := ⟨text.toList, String.ofList_toList.symm⟩
  rw [glyphs, String.toList_ofList]
  induction cs with
  | nil => simp [bytes]
  | cons c cs ih =>
    have happend : String.ofList (c :: cs) = String.singleton c ++ String.ofList cs := by
      simp
    rw [happend, String.toUTF8, String.toByteArray_append, byteArray_toList_append]
    exact congrArg (_ ++ ·) ih

/-! ## Records -/

section Records

variable {names : List String} {members members' : List (String × Json)}

/-- The names of an object that is read are texts. -/
lemma object?_eq_some_iff : j.object? = some members ↔ j = record members := by
  constructor
  · intro h
    unfold object? at h
    split at h
    · rename_i given
      refine congrArg Json.object ?_
      rw [mapM_eq_some_iff] at h
      induction given generalizing members with
      | nil => cases members <;> simp_all
      | cons member given ih =>
        cases members with
        | nil => cases h
        | cons named members =>
          obtain ⟨hmember, hgiven⟩ := List.cons.inj h
          obtain ⟨name, hname, rfl⟩ := Option.map_eq_some_iff.mp hmember
          rw [List.map_cons, ← ih hgiven]
          exact congrArg (fun s => (s, member.2) :: given) (text?_eq_some_iff.mp hname)
    · cases h
  · rintro rfl
    exact object?_record members

/-- A name is given once or not at all. -/
lemma member?_eq_some_iff {name : String} {field : Option Json} :
    member? members name = some field ↔
      members.filter (·.1 = name) = (field.map (name, ·)).toList := by
  have hname : ∀ member ∈ members.filter (·.1 = name), member.1 = name := fun member h => by
    simpa using (List.mem_filter.mp h).2
  unfold member?
  generalize members.filter (·.1 = name) = given at hname
  match given, hname with
  | [], _ => cases field <;> simp
  | [(other, value)], hname =>
    obtain rfl : other = name := hname _ List.mem_cons_self
    cases field <;> simp
  | _ :: _ :: _, _ => cases field <;> simp

lemma member?_of_perm {name : String} {field : Option Json} (h : members.Perm members')
    (hmember : member? members name = some field) : member? members' name = some field := by
  have hfilter := h.filter (·.1 = name)
  rw [member?_eq_some_iff] at hmember ⊢
  rw [hmember] at hfilter
  cases field with
  | none => exact List.perm_nil.mp hfilter.symm
  | some value => exact List.perm_singleton.mp hfilter.symm

lemma member?_perm (h : members.Perm members') (name : String) :
    member? members name = member? members' name :=
  Option.ext fun _ => ⟨member?_of_perm h, member?_of_perm h.symm⟩

/-- The fields of a record can be read if no unknown member has to be read and each name is given
once or not at all. -/
theorem fields?_record_eq_some_iff {fields : List (Option Json)} :
    (record members).fields? names = some fields ↔
      (∀ member ∈ members, member.1 ∈ names ∨ member.2.canSkip = true) ∧
        names.mapM (member? members) = some fields := by
  have hfields : (record members).fields? names =
      if members.all fun member => names.contains member.1 || member.2.canSkip then
        names.mapM (member? members)
      else none := by
    change (record members).object? >>= _ = _
    rw [object?_record]
    rfl
  simp [hfields]

/-- The members of a record stand in any order. -/
theorem fields?_perm (h : members.Perm members') (names : List String) :
    (record members).fields? names = (record members').fields? names := by
  have hmember : member? members = member? members' := funext (member?_perm h)
  refine Option.ext fun fields => ?_
  rw [fields?_record_eq_some_iff, fields?_record_eq_some_iff, hmember]
  simp only [h.mem_iff]

lemma member?_append {name : String} {others : List (String × Json)}
    (hothers : ∀ member ∈ others, member.1 ≠ name) :
    member? (members ++ others) name = member? members name := by
  rw [member?, member?, List.filter_append, filter_eq_nil hothers, List.append_nil]

/-- Members of unknown names make no difference if they can be skipped. -/
theorem fields?_append {others : List (String × Json)}
    (hothers : ∀ member ∈ others, member.1 ∉ names ∧ member.2.canSkip = true) :
    (record (members ++ others)).fields? names = (record members).fields? names := by
  have hmember : names.mapM (member? (members ++ others)) = names.mapM (member? members) :=
    mapM_congr_left fun name hname =>
      member?_append fun member h heq => (hothers member h).1 (heq ▸ hname)
  have hskip : ∀ member ∈ others, member.1 ∈ names ∨ member.2.canSkip = true :=
    fun member h => .inr (hothers member h).2
  refine Option.ext fun fields => ?_
  rw [fields?_record_eq_some_iff, fields?_record_eq_some_iff, hmember, List.forall_mem_append,
    and_iff_left hskip]

/-- No name is given twice. -/
theorem fields?_twice {name : String} {value value' : Json} {others : List (String × Json)}
    (hname : name ∈ names) (h : members.Perm ((name, value) :: (name, value') :: others)) :
    (record members).fields? names = none := by
  have hnone : member? members name = none := by
    rw [member?_perm h, member?, List.filter_cons_of_pos (by simp),
      List.filter_cons_of_pos (by simp)]
  refine Option.eq_none_iff_forall_ne_some.mpr fun fields hfields => ?_
  have hnames := mapM_eq_some_iff.mp (fields?_record_eq_some_iff.mp hfields).2
  have hmem : member? members name ∈ fields.map some := hnames ▸ List.mem_map_of_mem hname
  simp [hnone] at hmem

/-- The documents of a record with the given members: they stand in any order with other ones among
them that can be skipped, or their values stand in an array. -/
inductive RecordForm (members : List (String × Json)) : Json → Prop
  | object {given others : List (String × Json)} (hgiven : given.Perm (members ++ others))
      (hothers : ∀ member ∈ others,
        member.1 ∉ members.map Prod.fst ∧ member.2.canSkip = true) :
      RecordForm members (record given)
  | array : RecordForm members (.array (members.map Prod.snd))

/-- All documents of a record have the same fields. -/
theorem RecordForm.fields?_eq (h : RecordForm members j)
    (hdistinct : (members.map Prod.fst).Nodup) :
    j.fields? (members.map Prod.fst) = (record members).fields? (members.map Prod.fst) := by
  cases h with
  | object hgiven hothers => rw [fields?_perm hgiven, fields?_append hothers]
  | array =>
    rw [fields?_record rfl hdistinct]
    simp [fields?]

/-- A type whose values are read from the fields of a record. -/
structure IsRecord (α : Type) [Wire α] (names : List String) : Prop where
  distinct : names.Nodup
  reads : ∃ read : List (Option Json) → Option α, ∀ j, ofJson? j = (j.fields? names).bind read

lemma tokenRequest_isRecord : IsRecord TokenRequest ["epoch", "count", "streams"] :=
  ⟨by decide, _, fun _ => rfl⟩

lemma token_isRecord : IsRecord Token ["epoch", "first_position", "count", "backpointers"] :=
  ⟨by decide, _, fun _ => rfl⟩

lemma bootstrapRequest_isRecord : IsRecord BootstrapRequest
    ["new_epoch", "global_tail_hint", "stream_tail_hints", "rebuild_start", "full_reset"] :=
  ⟨by decide, _, fun _ => rfl⟩

lemma layoutChange_isRecord : IsRecord LayoutChange
    ["epoch", "full_reset", "rebuild_start", "global_tail_hint", "stream_tail_hints"] :=
  ⟨by decide, _, fun _ => rfl⟩

lemma sequencerMetrics_isRecord : IsRecord SequencerMetrics
    ["epoch", "global_tail", "stream_count", "tokens_issued", "queries_served", "stale_rejections",
      "bootstraps", "last_bootstrap_at"] :=
  ⟨by decide, _, fun _ => rfl⟩

lemma logEntry_isRecord : IsRecord LogEntry ["streams", "backpointers", "payload"] :=
  ⟨by decide, _, fun _ => rfl⟩

namespace IsRecord

lemma ofJson?_congr {j' : Json} (h : IsRecord α names)
    (hfields : j.fields? names = j'.fields? names) : (ofJson? j : Option α) = ofJson? j' := by
  obtain ⟨read, hread⟩ := h.reads
  rw [hread, hread, hfields]

/-- No other documents than objects and arrays are read as records. -/
theorem exists_of_ofJson? {a : α} (h : IsRecord α names) (hread : ofJson? j = some a) :
    (∃ members, j = record members) ∨ ∃ items, j = .array items ∧ items.length = names.length := by
  obtain ⟨read, hfields⟩ := h.reads
  obtain ⟨fields, hfields, -⟩ := Option.bind_eq_some_iff.mp ((hfields j).symm.trans hread)
  unfold fields? at hfields
  split at hfields
  · rename_i items
    split_ifs at hfields with hlength
    exact .inr ⟨items, rfl, hlength⟩
  · obtain ⟨members, hmembers, -⟩ := Option.bind_eq_some_iff.mp hfields
    exact .inl ⟨members, object?_eq_some_iff.mp hmembers⟩

/-- All documents of a record are read as the same value, if any. -/
theorem ofJson?_form (h : IsRecord α (members.map Prod.fst)) (hform : RecordForm members j) :
    (ofJson? j : Option α) = ofJson? (record members) :=
  h.ofJson?_congr (hform.fields?_eq h.distinct)

/-- Whatever form of a record a text writes, it is read as the value of the record. -/
theorem decode?_form {a : α} (h : IsRecord α (members.map Prod.fst))
    (hread : ofJson? (record members) = some a) (hform : RecordForm members j)
    (hwrites : Writes text.toList j) : decode? text = some a :=
  decode?_eq_some_iff.mpr ⟨j, hwrites, (h.ofJson?_form hform).trans hread⟩

/-- Whatever form of what is written for a value a text writes, it is read as that value. -/
theorem decode?_toJson {domain : α → Prop} {a : α} (h : IsRecord α (members.map Prod.fst))
    (hlawful : Lawful α domain) (ha : domain a) (hwritten : toJson a = record members)
    (hform : RecordForm members j) (hwrites : Writes text.toList j) : decode? text = some a :=
  h.decode?_form (hwritten ▸ hlawful.reads ha) hform hwrites

/-- A record that gives a name twice is not read. -/
theorem ofJson?_twice {name : String} {value value' : Json} {others : List (String × Json)}
    (h : IsRecord α names) (hname : name ∈ names)
    (htwice : members.Perm ((name, value) :: (name, value') :: others)) :
    (ofJson? (record members) : Option α) = none := by
  obtain ⟨read, hread⟩ := h.reads
  rw [hread, fields?_twice hname htwice, Option.bind_none]

end IsRecord

/-- The last name has the field that is given for it behind the other members, or none. -/
lemma fields?_concat {name : String} (hname : name ∉ names)
    (h : ∀ member ∈ members, member.1 ≠ name) (field : Option Json) :
    (record (members ++ (field.map (name, ·)).toList)).fields? (names ++ [name]) =
      ((record members).fields? names).map (· ++ [field]) := by
  have hlater : ∀ member ∈ (field.map (name, ·)).toList, member.1 = name := by
    rintro member hmember
    obtain ⟨value, -, rfl⟩ : ∃ value, field = some value ∧ (name, value) = member := by
      simpa using hmember
    rfl
  have hfirst : names.mapM (member? (members ++ (field.map (name, ·)).toList)) =
      names.mapM (member? members) := by
    refine mapM_congr_left fun other hother => member?_append fun member hmember => ?_
    rintro rfl
    exact hname (hlater member hmember ▸ hother)
  have hlast : member? (members ++ (field.map (name, ·)).toList) name = some field := by
    rw [member?_eq_some_iff, List.filter_append, filter_eq_nil h]
    cases field <;> simp
  have hskip : (∀ member ∈ members ++ (field.map (name, ·)).toList,
      member.1 ∈ names ++ [name] ∨ member.2.canSkip = true) ↔
        ∀ member ∈ members, member.1 ∈ names ∨ member.2.canSkip = true := by
    rw [List.forall_mem_append, and_iff_left fun member hmember => by simp [hlater member hmember]]
    exact forall₂_congr fun member hmember => by simp [h member hmember]
  refine Option.ext fun fields => ?_
  simp only [fields?_record_eq_some_iff, Option.map_eq_some_iff, hskip, mapM_concat_eq_some_iff,
    hfirst, hlast]
  simp [and_assoc]

/-- Where the moment of the last bootstrap is missing, there was none. -/
theorem ofJson?_lastBootstrapAt (h : ∀ member ∈ members, member.1 ≠ "last_bootstrap_at") :
    (ofJson? (record members) : Option SequencerMetrics) =
      ofJson? (record (members ++ [("last_bootstrap_at", .null)])) := by
  have hfields := @fields?_concat ["epoch", "global_tail", "stream_count", "tokens_issued",
    "queries_served", "stale_rejections", "bootstraps"] members "last_bootstrap_at" (by decide) h
  have hmissing := hfields none
  rw [Option.map_none, Option.toList_none, List.append_nil] at hmissing
  have hnull := hfields (some .null)
  refine (congrArg (· >>= _) hmissing).trans (Eq.trans ?_ (congrArg (· >>= _) hnull).symm)
  simp only [Option.bind_eq_bind, Option.bind_map]
  refine Option.bind_congr fun fields _ => ?_
  dsimp only [Function.comp]
  split
  · rename_i heq
    have hgiven : fields ++ [none] = [_, _, _, _, _, _, _] ++ [_] := heq
    obtain ⟨rfl, hlast⟩ := List.append_inj' hgiven rfl
    cases hlast
    rfl
  · rename_i hne
    split
    · rename_i heq
      have hgiven : fields ++ [some .null] = [_, _, _, _, _, _, _] ++ [_] := heq
      obtain ⟨rfl, -⟩ := List.append_inj' hgiven rfl
      exact absurd rfl (hne _ _ _ _ _ _ _ none)
    · rfl

end Records

/-! ## Sets and maps -/

section Collections

variable {items : List Json} {members : List (String × Json)} {streams : StreamSet}
  {positions : StreamPositions}

lemma ofJson?_array_eq_some_iff :
    ofJson? (.array items) = some streams ↔
      ∃ ids : List StreamId,
        items.mapM ofJson? = some ids ∧ Std.ExtTreeSet.ofList ids = streams := by
  change (items.mapM ofJson? >>= fun ids : List StreamId =>
    some (Std.ExtTreeSet.ofList ids)) = some streams ↔ _
  simp [Option.bind_eq_some_iff]

/-- One item more is one id more, if it is not there already. -/
theorem ofJson?_array_concat {item : Json} :
    ofJson? (.array (items ++ [item])) = some streams ↔
      ∃ (earlier : StreamSet) (s : StreamId), ofJson? (.array items) = some earlier ∧
        ofJson? item = some s ∧ earlier.insert s = streams := by
  have hconcat (ids : List StreamId) (s : StreamId) :
      Std.ExtTreeSet.ofList (ids ++ [s]) = (Std.ExtTreeSet.ofList ids).insert s := by
    rw [Std.ExtTreeSet.ofList_eq_insertMany_empty, Std.ExtTreeSet.insertMany_append,
      Std.ExtTreeSet.insertMany_list_singleton, Std.ExtTreeSet.ofList_eq_insertMany_empty]
  simp only [ofJson?_array_eq_some_iff, mapM_concat_eq_some_iff]
  constructor
  · rintro ⟨_, ⟨ids, s, hids, hs, rfl⟩, rfl⟩
    exact ⟨_, s, ⟨ids, hids, rfl⟩, hs, (hconcat ids s).symm⟩
  · rintro ⟨_, s, ⟨ids, hids, rfl⟩, hs, rfl⟩
    exact ⟨_, ⟨ids, s, hids, hs, rfl⟩, hconcat ids s⟩

/-- The id and the position of a member of a map. -/
def readMember? (member : String × Json) : Option (StreamId × Option Position) := do
  some (← StreamId.ofText? member.1, ← ofJson? member.2)

lemma ofJson?_record_eq_some_iff :
    ofJson? (record members) = some positions ↔
      ∃ pairs : List (StreamId × Option Position),
        members.mapM readMember? = some pairs ∧ Std.ExtTreeMap.ofList pairs = positions := by
  change ((record members).object? >>= fun members => members.mapM readMember? >>= fun pairs =>
    some (Std.ExtTreeMap.ofList pairs)) = some positions ↔ _
  rw [object?_record]
  simp [Option.bind_eq_some_iff]

/-- One member more counts in place of those before it with the same id, in whatever forms their
names write the id. -/
theorem ofJson?_record_concat {member : String × Json} :
    ofJson? (record (members ++ [member])) = some positions ↔
      ∃ (earlier : StreamPositions) (s : StreamId) (p? : Option Position),
        ofJson? (record members) = some earlier ∧ StreamId.ofText? member.1 = some s ∧
          ofJson? member.2 = some p? ∧ earlier.insert s p? = positions := by
  have hconcat (pairs : List (StreamId × Option Position)) (s : StreamId) (p? : Option Position) :
      Std.ExtTreeMap.ofList (pairs ++ [(s, p?)]) = (Std.ExtTreeMap.ofList pairs).insert s p? := by
    rw [Std.ExtTreeMap.ofList_eq_insertMany_empty, Std.ExtTreeMap.insertMany_append,
      Std.ExtTreeMap.insertMany_list_singleton, Std.ExtTreeMap.ofList_eq_insertMany_empty]
  have hmember {s : StreamId} {p? : Option Position} : readMember? member = some (s, p?) ↔
      StreamId.ofText? member.1 = some s ∧ ofJson? member.2 = some p? := by
    simp [readMember?, Option.bind_eq_some_iff]
  simp only [ofJson?_record_eq_some_iff, mapM_concat_eq_some_iff]
  constructor
  · rintro ⟨_, ⟨pairs, ⟨s, p?⟩, hpairs, hlast, rfl⟩, rfl⟩
    obtain ⟨hs, hp⟩ := hmember.mp hlast
    exact ⟨_, s, p?, ⟨pairs, hpairs, rfl⟩, hs, hp, (hconcat pairs s p?).symm⟩
  · rintro ⟨_, s, p?, ⟨pairs, hpairs, rfl⟩, hs, hp, rfl⟩
    exact ⟨_, ⟨pairs, (s, p?), hpairs, hmember.mpr ⟨hs, hp⟩, rfl⟩, hconcat pairs s p?⟩

/-- Of the members with one id the last counts. -/
theorem getElem?_of_last {member : String × Json} {later : List (String × Json)} {s : StreamId}
    (h : ofJson? (record (members ++ member :: later)) = some positions)
    (hname : StreamId.ofText? member.1 = some s)
    (hlater : ∀ other ∈ later, StreamId.ofText? other.1 ≠ some s) :
    positions[s]? = ofJson? member.2 := by
  induction later using List.reverseRecOn generalizing positions with
  | nil =>
    obtain ⟨earlier, s', p?, -, hs', hp, rfl⟩ := ofJson?_record_concat.mp h
    obtain rfl := Option.some.inj (hname.symm.trans hs')
    rw [Std.ExtTreeMap.getElem?_insert_self, hp]
  | append_singleton later other ih =>
    rw [← List.cons_append, ← List.append_assoc] at h
    obtain ⟨earlier, s', p?, hearlier, hs', -, rfl⟩ := ofJson?_record_concat.mp h
    have hne : s' ≠ s := by
      rintro rfl
      exact hlater other (by simp) hs'
    rw [← ih hearlier fun other hother => hlater other (List.mem_append_left _ hother)]
    simp [Std.ExtTreeMap.getElem?_insert, hne]

end Collections

/-! ## Payloads and choices -/

/-- A payload may be a string: its bytes count, those of half a surrogate pair and of an unescaped
control character included. -/
theorem ofJson?_string_payload (e : LogEntry) (s : List Glyph) :
    ofJson? (record [("streams", toJson e.streams), ("backpointers", toJson e.backpointers),
      ("payload", .string s)]) = some { e with payload := bytes s } :=
  bind_eq_some_of_eq (fields?_record rfl (by decide)) <|
    bind_eq_some_of_eq (streamSet_lawful.reads trivial) <|
    bind_eq_some_of_eq (streamPositions_lawful.reads trivial) <|
    bind_eq_some_of_eq (x := payloadOfJson? (.string s)) rfl rfl

/-- Where a text that writes an entry gives its payload as a text, in whatever form, the entry has
the bytes of that text. -/
theorem decode?_text_payload (e : LogEntry) (payload : String)
    (hform : RecordForm [("streams", toJson e.streams), ("backpointers", toJson e.backpointers),
      ("payload", .ofText payload)] j) (hwrites : Writes text.toList j) :
    decode? text = some { e with payload := payload.toUTF8.toList } :=
  bytes_glyphs payload ▸
    logEntry_isRecord.decode?_form (ofJson?_string_payload e (glyphs payload)) hform hwrites

/-- A record with its members in another order and an unknown one among them, white space and a
payload as a string. -/
example : canonical? LogEntry
    " \x7b\"payload\": \"a\\n\", \"x\": [-1.5], \"streams\": [], \"backpointers\": \x7b\x7d\x7d\n" =
    some "\x7b\"streams\":[],\"backpointers\":\x7b\x7d,\"payload\":[97,10]\x7d" := by
  decide +kernel

lemma choice?_null {β : Type} {name : String} {read : String × Option Json → Option β}
    (h : read (name, some .null) = read (name, none)) :
    (choice name .null).choice? >>= read = (Json.ofText name).choice? >>= read := by
  rw [choice?_choice, choice?_ofText]
  exact h

/-- A choice without a content may be written as one with nothing said. -/
theorem ofJson?_choice_null (name : String) :
    (ofJson? (choice name .null) : Option BootstrapOutcome) = ofJson? (.ofText name) ∧
      (ofJson? (choice name .null) : Option BootstrapReply) = ofJson? (.ofText name) ∧
      (ofJson? (choice name .null) : Option LogData) = ofJson? (.ofText name) :=
  ⟨choice?_null rfl, choice?_null rfl, choice?_null rfl⟩

end SharedLog.Wire
