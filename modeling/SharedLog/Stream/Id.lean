/-
# Stream ids

A stream is a sub-sequence of the log, named by 128 bits. Ids order as these numbers do, which is
also the order of their bytes and of their texts. The id of a named stream is the version 5 id of
its name under the object-identifier namespace, so one name means one stream on every node.
-/
import Std.Data.ExtTreeMap
import Std.Data.ExtTreeSet
import SharedLog.Digest.Sha1
import SharedLog.Position

namespace SharedLog

/-- How many ids there are: `2 ^ 128`. -/
abbrev StreamId.bound : Nat := 340_282_366_920_938_463_463_374_607_431_768_211_456

/-- The identifier of a stream. -/
structure StreamId where
  /-- The 128 bits as a number, first byte most significant. -/
  val : Nat
  /-- Ids have 128 bits. -/
  isLt : val < StreamId.bound
deriving DecidableEq

namespace StreamId

@[ext] theorem ext {s t : StreamId} (h : s.val = t.val) : s = t := by
  cases s; cases t; simp_all

instance : Inhabited StreamId := ⟨⟨0, by decide⟩⟩

instance : Ord StreamId := ⟨compareOn val⟩

instance : Std.TransOrd StreamId := inferInstanceAs (Std.TransCmp (compareOn val))

instance : Std.LawfulEqOrd StreamId where
  eq_of_compare h := ext (Nat.compare_eq_eq.mp h)

/-- The id with the given number, if it has at most 128 bits. -/
def ofNat? (n : Nat) : Option StreamId :=
  if h : n < bound then some ⟨n, h⟩ else none

/-- The id with the given bytes, of which the last sixteen count. -/
def ofBytes (bytes : List UInt8) : StreamId :=
  ⟨bytes.foldl (fun n b => 256 * n + b.toNat) 0 % bound, Nat.mod_lt _ (by decide)⟩

/-- The namespace of object identifiers. -/
def objectIdentifiers : List UInt8 :=
  [0x6b, 0xa7, 0xb8, 0x12, 0x9d, 0xad, 0x11, 0xd1, 0x80, 0xb4, 0x00, 0xc0, 0x4f, 0xd4, 0x30, 0xc8]

/-- Sixteen bytes marked as a version 5 id of the standard variant. -/
def markVersion5 (bytes : List UInt8) : List UInt8 :=
  (bytes.modify 6 fun b => (b &&& 0x0f) ||| 0x50).modify 8 fun b => (b &&& 0x3f) ||| 0x80

/-- The id of the stream with the given name. -/
def named (name : String) : StreamId :=
  ofBytes (markVersion5 ((Digest.sha1 (objectIdentifiers ++ name.toUTF8.toList)).take 16))

end StreamId

/-- A set of streams. -/
abbrev StreamSet := Std.ExtTreeSet StreamId

/-- The last position of each stream that has one. -/
abbrev StreamTails := Std.ExtTreeMap StreamId Position

/-- For some streams, a position of theirs; `none` says that the stream has no position. -/
abbrev StreamPositions := Std.ExtTreeMap StreamId (Option Position)

instance : DecidableEq StreamSet := inferInstance

instance : DecidableEq StreamTails := inferInstance

instance : DecidableEq StreamPositions := inferInstance

/-- The function's value at each stream of a set. -/
def StreamSet.mapTo {α : Type} (streams : StreamSet) (f : StreamId → α) :
    Std.ExtTreeMap StreamId α :=
  streams.foldl (fun m s => m.insert s (f s)) ∅

/-- The given tails, with the tail of every stream of a set moved to one position. -/
def StreamTails.moveTo (tails : StreamTails) (streams : StreamSet) (p : Position) : StreamTails :=
  streams.foldl (fun m s => m.insert s p) tails

/-- The position recorded for a stream, if any. -/
def StreamPositions.at? (positions : StreamPositions) (s : StreamId) : Option Position :=
  positions[s]?.join

theorem getElem?_foldl_insert {α : Type} (f : StreamId → α) (l : List StreamId)
    (m : Std.ExtTreeMap StreamId α) (t : StreamId) :
    (l.foldl (fun m s => m.insert s (f s)) m)[t]? = if t ∈ l then some (f t) else m[t]? := by
  induction l generalizing m with
  | nil => simp
  | cons s l ih =>
    rw [List.foldl_cons, ih, Std.ExtTreeMap.getElem?_insert]
    by_cases hl : t ∈ l
    · simp [hl]
    · by_cases hs : s = t
      · subst hs; simp [hl]
      · simp [hl, hs, Ne.symm hs]

@[simp] theorem StreamSet.getElem?_mapTo {α : Type} (streams : StreamSet) (f : StreamId → α)
    (t : StreamId) : (streams.mapTo f)[t]? = if t ∈ streams then some (f t) else none := by
  rw [mapTo, Std.ExtTreeSet.foldl_eq_foldl_toList, getElem?_foldl_insert]
  simp

@[simp] theorem StreamTails.getElem?_moveTo (tails : StreamTails) (streams : StreamSet)
    (p : Position) (t : StreamId) :
    (tails.moveTo streams p)[t]? = if t ∈ streams then some p else tails[t]? := by
  rw [moveTo, Std.ExtTreeSet.foldl_eq_foldl_toList, getElem?_foldl_insert (fun _ => p)]
  simp

end SharedLog
