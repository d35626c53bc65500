/-
# Values read back

What is written for a value is read as that value, for every type whose values cross the boundary
of a node. The documents are treated first, from the parts to the whole (`Lawful`); that documents
are read back from their texts then gives the same for texts (`Faithful`).
-/
import Mathlib.Data.List.Basic
import SharedLog.Proofs.Json.RoundTrip
import SharedLog.Proofs.Wire.Texts
import SharedLog.Wire

namespace SharedLog.Wire

open Json

/-- The document of every value of the domain is read as that value, and no other values are
read. -/
structure Lawful (α : Type) [Wire α] (domain : α → Prop) : Prop where
  plain : ∀ a : α, (toJson a).Plain
  reads : ∀ {a : α}, domain a → ofJson? (toJson a) = some a
  within : ∀ {j : Json} {a : α}, ofJson? j = some a → domain a

/-! ## Numbers, truth values and texts -/

/-- A list is read item by item. -/
lemma mapM_eq_some_iff {α β : Type} {read : α → Option β} {l : List α} {l' : List β} :
    l.mapM read = some l' ↔ l.map read = l'.map some := by
  induction l generalizing l' with
  | nil => cases l' <;> simp
  | cons a l ih => cases l' <;> simp [List.mapM_cons, Option.bind_eq_some_iff, ih]

/-- What is written item by item is read item by item. -/
lemma mapM_map_eq_some_map {α β γ : Type} {write : α → β} {read : β → Option γ} {meaning : α → γ}
    {l : List α} (h : ∀ a ∈ l, read (write a) = some (meaning a)) :
    (l.map write).mapM read = some (l.map meaning) := by
  rw [mapM_eq_some_iff, List.map_map, List.map_map]
  exact List.map_congr_left h

lemma mapM_map_eq_some {α β : Type} {write : α → β} {read : β → Option α} {l : List α}
    (h : ∀ a ∈ l, read (write a) = some a) : (l.map write).mapM read = some l := by
  simpa using mapM_map_eq_some_map h

lemma text?_glyphs (s : String) : text? (glyphs s) = some s := by
  have hchars : (s.toList.map Glyph.char).mapM Glyph.char? = some s.toList :=
    mapM_map_eq_some fun _ _ => rfl
  rw [text?, glyphs, hchars, Option.map_some, String.ofList_toList]

lemma natural?_number {n bound : Nat} (h : n < bound) : (number (some n)).natural? bound = some n :=
  if_pos h

lemma position_lawful : Lawful Position fun _ => True where
  plain p := .natural p.val
  reads {p} _ := bind_eq_some_of_eq (natural?_number p.isLt) p.ofNat?_val
  within _ := trivial

lemma epoch_lawful : Lawful Epoch fun _ => True where
  plain e := .natural e.val
  reads {e} _ := bind_eq_some_of_eq (natural?_number e.isLt) e.ofNat?_val
  within _ := trivial

lemma word_lawful : Lawful UInt64 fun _ => True where
  plain n := .natural n.toNat
  reads {n} _ := by
    change ((number (some n.toNat)).natural? UInt64.size).map UInt64.ofNat = some n
    rw [natural?_number n.toNat_lt_size, Option.map_some, UInt64.ofNat_toNat]
  within _ := trivial

lemma bool_lawful : Lawful Bool fun _ => True where
  plain b := .bool b
  reads _ := rfl
  within _ := trivial

lemma string_lawful : Lawful String fun _ => True where
  plain s := .text s
  reads {s} _ := text?_glyphs s
  within _ := trivial

lemma streamId_lawful : Lawful StreamId fun _ => True where
  plain s := .text s.text
  reads {s} _ := bind_eq_some_of_eq (text?_glyphs s.text) s.ofText?_text
  within _ := trivial

lemma timestamp_lawful : Lawful Timestamp fun t => Timestamp.inCalendar t.date where
  plain t := .text t.text
  reads {t} h := bind_eq_some_of_eq (text?_glyphs t.text) (Timestamp.ofText?_text h)
  within h := by
    obtain ⟨text, -, h⟩ := Option.bind_eq_some_iff.mp h
    exact Timestamp.inCalendar_of_ofText? h

/-- Where nothing may be said, a value is told from nothing. -/
lemma Lawful.option {α : Type} [Wire α] {domain : α → Prop} (h : Lawful α domain)
    (hne : ∀ a : α, toJson a ≠ .null) : Lawful (Option α) fun a? => ∀ a ∈ a?, domain a where
  plain
    | none => .null
    | some a => h.plain a
  reads {a?} hdomain := by
    cases a? with
    | none => rfl
    | some a =>
      change optional? ofJson? (toJson a) = some (some a)
      have hread := h.reads (hdomain a rfl)
      unfold optional?
      split
      · rename_i hnull
        exact absurd hnull (hne a)
      · rw [hread]
        rfl
  within {j a?} hread := by
    rintro a rfl
    change optional? ofJson? j = some (some a) at hread
    unfold optional? at hread
    split at hread
    · cases hread
    · obtain ⟨b, hb, ⟨⟩⟩ := Option.map_eq_some_iff.mp hread
      exact h.within hb

/-! ## Sets, maps and payloads -/

lemma ofList_toList_set (streams : StreamSet) : Std.ExtTreeSet.ofList streams.toList = streams := by
  ext s
  simp

lemma ofList_toList_map (positions : StreamPositions) :
    Std.ExtTreeMap.ofList positions.toList = positions := by
  refine Std.ExtTreeMap.ext_getElem? fun s => ?_
  cases hposition : positions[s]? with
  | none =>
    refine Std.ExtTreeMap.getElem?_ofList_of_contains_eq_false ?_
    simpa [Std.ExtTreeMap.map_fst_toList_eq_keys] using hposition
  | some p? =>
    exact Std.ExtTreeMap.getElem?_ofList_of_mem Std.ReflCmp.compare_self
      Std.ExtTreeMap.distinct_keys_toList
      (Std.ExtTreeMap.mem_toList_iff_getElem?_eq_some.mpr hposition)

lemma streamSet_lawful : Lawful StreamSet fun _ => True where
  plain streams := .array fun item hitem => by
    obtain ⟨s, -, rfl⟩ := List.mem_map.mp hitem
    exact streamId_lawful.plain s
  reads {streams} _ :=
    bind_eq_some_of_eq rfl <|
      bind_eq_some_of_eq (mapM_map_eq_some fun _ _ => streamId_lawful.reads trivial) <|
        congrArg some (ofList_toList_set streams)
  within _ := trivial

lemma optionPosition_lawful : Lawful (Option Position) fun _ => True :=
  let lawful := position_lawful.option fun _ h => by cases h
  ⟨lawful.plain, fun _ => lawful.reads fun _ _ => trivial, fun _ => trivial⟩

lemma object?_record (members : List (String × Json)) : (record members).object? = some members :=
  mapM_map_eq_some fun member _ => by
    change (text? (glyphs member.1)).map (·, member.2) = some member
    rw [text?_glyphs, Option.map_some]

lemma streamPositions_lawful : Lawful StreamPositions fun _ => True where
  plain positions := .object fun member hmember => by
    obtain ⟨⟨s, p?⟩, -, rfl⟩ := List.mem_map.mp hmember
    exact optionPosition_lawful.plain p?
  reads {positions} _ :=
    bind_eq_some_of_eq (object?_record _) <|
      bind_eq_some_of_eq
        (mapM_map_eq_some fun pair _ =>
          bind_eq_some_of_eq pair.1.ofText?_text <|
            bind_eq_some_of_eq (optionPosition_lawful.reads (a := pair.2) trivial) rfl) <|
        congrArg some (ofList_toList_map positions)
  within _ := trivial

lemma payloadOfJson?_payloadToJson (payload : List UInt8) :
    payloadOfJson? (payloadToJson payload) = some payload :=
  mapM_map_eq_some fun b _ => by
    rw [natural?_number b.toNat_lt, Option.map_some, UInt8.ofNat_toNat]

lemma plain_payloadToJson (payload : List UInt8) : (payloadToJson payload).Plain :=
  .array fun item hitem => by
    obtain ⟨b, -, rfl⟩ := List.mem_map.mp hitem
    exact .natural b.toNat

/-! ## Records -/

lemma filter_eq_nil {members : List (String × Json)} {name : String}
    (h : ∀ member ∈ members, member.1 ≠ name) : members.filter (·.1 = name) = [] :=
  List.filter_eq_nil_iff.mpr fun member hmember => by simpa using h member hmember

lemma filter_name {members : List (String × Json)} (hdistinct : (members.map Prod.fst).Nodup)
    {member : String × Json} (hmember : member ∈ members) :
    members.filter (·.1 = member.1) = [member] := by
  induction members with
  | nil => cases hmember
  | cons first members ih =>
    rw [List.map_cons, List.nodup_cons] at hdistinct
    rcases List.mem_cons.mp hmember with rfl | hlater
    · have hother : ∀ other ∈ members, other.1 ≠ member.1 := fun other hother h =>
        hdistinct.1 (List.mem_map.mpr ⟨other, hother, h⟩)
      rw [List.filter_cons_of_pos (by simp), filter_eq_nil hother]
    · have hne : first.1 ≠ member.1 := fun h =>
        hdistinct.1 (List.mem_map.mpr ⟨member, hlater, h.symm⟩)
      rw [List.filter_cons_of_neg (by simpa using hne), ih hdistinct.2 hlater]

/-- A record with a document for each name has the documents in the order of their names. -/
lemma fields?_record {names : List String} {members : List (String × Json)}
    (hnames : names = members.map Prod.fst) (hdistinct : names.Nodup) :
    (record members).fields? names = some (members.map fun member => some member.2) := by
  subst hnames
  have hknown : (members.all fun member =>
      (members.map Prod.fst).contains member.1 || member.2.canSkip) = true := by
    refine List.all_eq_true.mpr fun member hmember => ?_
    simp only [Bool.or_eq_true, List.contains_iff_mem]
    exact .inl (List.mem_map_of_mem hmember)
  refine bind_eq_some_of_eq (object?_record members) ((if_pos hknown).trans ?_)
  refine mapM_map_eq_some_map fun member hmember => ?_
  rw [member?, filter_name hdistinct hmember]

/-- A record is plain if its members are. -/
lemma plain_record {members : List (String × Json)}
    (h : members.Forall fun member => member.2.Plain) : (record members).Plain :=
  .object (List.forall_iff_forall_mem.mp h)

lemma tokenRequest_lawful : Lawful TokenRequest fun _ => True where
  plain r := plain_record ⟨epoch_lawful.plain _, word_lawful.plain _, streamSet_lawful.plain _⟩
  reads {r} _ :=
    bind_eq_some_of_eq (fields?_record rfl (by decide)) <|
      bind_eq_some_of_eq (epoch_lawful.reads trivial) <|
      bind_eq_some_of_eq (word_lawful.reads trivial) <|
      bind_eq_some_of_eq (streamSet_lawful.reads trivial) rfl
  within _ := trivial

lemma token_lawful : Lawful Token fun _ => True where
  plain t := plain_record ⟨epoch_lawful.plain _, position_lawful.plain _, word_lawful.plain _,
    streamPositions_lawful.plain _⟩
  reads {t} _ :=
    bind_eq_some_of_eq (fields?_record rfl (by decide)) <|
      bind_eq_some_of_eq (epoch_lawful.reads trivial) <|
      bind_eq_some_of_eq (position_lawful.reads trivial) <|
      bind_eq_some_of_eq (word_lawful.reads trivial) <|
      bind_eq_some_of_eq (streamPositions_lawful.reads trivial) rfl
  within _ := trivial

lemma bootstrapRequest_lawful : Lawful BootstrapRequest fun _ => True where
  plain r := plain_record ⟨epoch_lawful.plain _, position_lawful.plain _,
    streamPositions_lawful.plain _, position_lawful.plain _, bool_lawful.plain _⟩
  reads {r} _ :=
    bind_eq_some_of_eq (fields?_record rfl (by decide)) <|
      bind_eq_some_of_eq (epoch_lawful.reads trivial) <|
      bind_eq_some_of_eq (position_lawful.reads trivial) <|
      bind_eq_some_of_eq (streamPositions_lawful.reads trivial) <|
      bind_eq_some_of_eq (position_lawful.reads trivial) <|
      bind_eq_some_of_eq (bool_lawful.reads trivial) rfl
  within _ := trivial

lemma layoutChange_lawful : Lawful LayoutChange fun _ => True where
  plain c := plain_record ⟨epoch_lawful.plain _, bool_lawful.plain _, position_lawful.plain _,
    position_lawful.plain _, streamPositions_lawful.plain _⟩
  reads {c} _ :=
    bind_eq_some_of_eq (fields?_record rfl (by decide)) <|
      bind_eq_some_of_eq (epoch_lawful.reads trivial) <|
      bind_eq_some_of_eq (bool_lawful.reads trivial) <|
      bind_eq_some_of_eq (position_lawful.reads trivial) <|
      bind_eq_some_of_eq (position_lawful.reads trivial) <|
      bind_eq_some_of_eq (streamPositions_lawful.reads trivial) rfl
  within _ := trivial

lemma logEntry_lawful : Lawful LogEntry fun _ => True where
  plain e := plain_record ⟨streamSet_lawful.plain _, streamPositions_lawful.plain _,
    plain_payloadToJson _⟩
  reads {e} _ :=
    bind_eq_some_of_eq (fields?_record rfl (by decide)) <|
      bind_eq_some_of_eq (streamSet_lawful.reads trivial) <|
      bind_eq_some_of_eq (streamPositions_lawful.reads trivial) <|
      bind_eq_some_of_eq (payloadOfJson?_payloadToJson _) rfl
  within _ := trivial

/-- What a sequencer can tell of itself: the count of its streams is a 64-bit number, and dates are
kept for the year of its last bootstrap. -/
def InRange (m : SequencerMetrics) : Prop :=
  m.streamCount < UInt64.size ∧ ∀ t ∈ m.lastBootstrapAt, Timestamp.inCalendar t.date = true

lemma lt_of_natural? {j : Json} {n bound : Nat} (h : j.natural? bound = some n) : n < bound := by
  unfold natural? at h
  split at h
  · split_ifs at h with hlt
    cases h
    exact hlt
  · cases h

lemma optionTimestamp_lawful : Lawful (Option Timestamp) fun t? =>
    ∀ t ∈ t?, Timestamp.inCalendar t.date = true :=
  timestamp_lawful.option fun _ h => by cases h

lemma sequencerMetrics_lawful : Lawful SequencerMetrics InRange where
  plain m := plain_record ⟨epoch_lawful.plain _, position_lawful.plain _, .natural _,
    word_lawful.plain _, word_lawful.plain _, word_lawful.plain _, word_lawful.plain _,
    optionTimestamp_lawful.plain _⟩
  reads {m} h :=
    bind_eq_some_of_eq (fields?_record rfl (by decide)) <|
      bind_eq_some_of_eq (epoch_lawful.reads trivial) <|
      bind_eq_some_of_eq (position_lawful.reads trivial) <|
      bind_eq_some_of_eq (natural?_number h.1) <|
      bind_eq_some_of_eq (word_lawful.reads trivial) <|
      bind_eq_some_of_eq (word_lawful.reads trivial) <|
      bind_eq_some_of_eq (word_lawful.reads trivial) <|
      bind_eq_some_of_eq (word_lawful.reads trivial) <|
      bind_eq_some_of_eq (optionTimestamp_lawful.reads h.2) rfl
  within {j m} h := by
    obtain ⟨fields, -, h⟩ := Option.bind_eq_some_iff.mp h
    split at h
    · iterate 2 obtain ⟨_, -, h⟩ := Option.bind_eq_some_iff.mp h
      obtain ⟨count, hcount, h⟩ := Option.bind_eq_some_iff.mp h
      iterate 4 obtain ⟨_, -, h⟩ := Option.bind_eq_some_iff.mp h
      obtain ⟨t?, ht, h⟩ := Option.bind_eq_some_iff.mp h
      cases h
      exact ⟨lt_of_natural? hcount, optionTimestamp_lawful.within ht⟩
    · cases h

/-! ## Choices -/

lemma choice?_ofText (name : String) : (ofText name).choice? = some (name, none) := by
  rw [ofText, Json.choice?, text?_glyphs, Option.map_some]

lemma choice?_choice (name : String) (content : Json) :
    (choice name content).choice? = some (name, some content) := by
  change (text? (glyphs name)).map (·, some content) = _
  rw [text?_glyphs, Option.map_some]

lemma plain_choice {content : Json} (h : content.Plain) (name : String) :
    (choice name content).Plain :=
  plain_record h

lemma bootstrapOutcome_lawful : Lawful BootstrapOutcome fun _ => True where
  plain outcome := by cases outcome <;> exact .text _
  reads {outcome} _ := by
    cases outcome <;> exact bind_eq_some_of_eq (choice?_ofText _) rfl
  within _ := trivial

lemma bootstrapReply_lawful : Lawful BootstrapReply fun _ => True where
  plain
    | .ack => .text _
    | .nack reason => plain_choice (string_lawful.plain reason) _
  reads {reply} _ := by
    cases reply with
    | ack => exact bind_eq_some_of_eq (choice?_ofText _) rfl
    | nack reason =>
      refine bind_eq_some_of_eq (choice?_choice ..) ?_
      exact congrArg (Option.map BootstrapReply.nack) (string_lawful.reads trivial)
  within _ := trivial

lemma logData_lawful : Lawful LogData fun _ => True where
  plain
    | .entry e => plain_choice (logEntry_lawful.plain e) _
    | .hole => .text _
  reads {value} _ := by
    cases value with
    | entry e =>
      refine bind_eq_some_of_eq (choice?_choice ..) ?_
      exact congrArg (Option.map LogData.entry) (logEntry_lawful.reads trivial)
    | hole => exact bind_eq_some_of_eq (choice?_ofText _) rfl
  within _ := trivial

/-! ## Texts -/

/-- The text that a text is written as once it has been read. -/
def canonical? (α : Type) [Wire α] (text : String) : Option String :=
  (decode? text : Option α).map encode

/-- Decoding undoes encoding for the values of the domain. -/
structure Faithful (α : Type) [Wire α] (domain : α → Prop) : Prop where
  decode_encode : ∀ {a : α}, domain a → decode? (encode a) = some a
  /-- No two values are written alike. -/
  encode_injective : ∀ {a b : α}, domain a → domain b → encode a = encode b → a = b
  /-- In whatever form a text writes a value, it is a value of the domain. -/
  domain_of_decode : ∀ {text : String} {a : α}, decode? text = some a → domain a
  /-- In whatever form a text writes a value, the text that this is written as writes the same value
  and is written as it stands. -/
  canonical : ∀ {text : String} {a : α}, decode? text = some a →
    ∃ canon, canonical? α text = some canon ∧ decode? canon = some a ∧
      canonical? α canon = some canon

theorem Lawful.faithful {α : Type} [Wire α] {domain : α → Prop} (h : Lawful α domain) :
    Faithful α domain := by
  have hread : ∀ {a : α}, domain a → decode? (encode a) = some a := fun {a} ha => by
    rw [decode?, encode, String.toList_ofList, (h.plain a).ofChars?_render, Option.bind_some,
      h.reads ha]
  have hwithin : ∀ {text : String} {a : α}, decode? text = some a → domain a := fun h' => by
    obtain ⟨j, -, hj⟩ := Option.bind_eq_some_iff.mp h'
    exact h.within hj
  refine ⟨hread, fun ha hb heq => ?_, hwithin, fun {text a} ha => ?_⟩
  · exact Option.some.inj ((hread ha).symm.trans (heq ▸ hread hb))
  · refine ⟨encode a, by rw [canonical?, ha, Option.map_some], hread (hwithin ha), ?_⟩
    rw [canonical?, hread (hwithin ha), Option.map_some]

/-- Decoding undoes encoding for all types whose values cross the boundary of a node. -/
theorem decode_undoes_encode :
    Faithful Position (fun _ => True) ∧ Faithful Epoch (fun _ => True) ∧
      Faithful StreamId (fun _ => True) ∧ Faithful TokenRequest (fun _ => True) ∧
      Faithful Token (fun _ => True) ∧ Faithful BootstrapRequest (fun _ => True) ∧
      Faithful LayoutChange (fun _ => True) ∧ Faithful LogEntry (fun _ => True) ∧
      Faithful SequencerMetrics InRange ∧ Faithful BootstrapOutcome (fun _ => True) ∧
      Faithful BootstrapReply (fun _ => True) ∧ Faithful LogData (fun _ => True) :=
  ⟨position_lawful.faithful, epoch_lawful.faithful, streamId_lawful.faithful,
    tokenRequest_lawful.faithful, token_lawful.faithful, bootstrapRequest_lawful.faithful,
    layoutChange_lawful.faithful, logEntry_lawful.faithful, sequencerMetrics_lawful.faithful,
    bootstrapOutcome_lawful.faithful, bootstrapReply_lawful.faithful, logData_lawful.faithful⟩

end SharedLog.Wire
