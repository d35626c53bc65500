/-
# The wire format

The values that cross the boundary of a node are written as JSON documents: records as objects with
their fields in order, sets as arrays, maps as objects whose names are stream ids, choices by their
names. Writing is canonical. Reading also accepts a record as an array of its fields, members in
any order with unknown ones among them, the other forms of a stream id, and a payload as a string.
-/
import SharedLog.Entry
import SharedLog.Json.Reader
import SharedLog.Json.Writer
import SharedLog.Layout
import SharedLog.Sequencer.State
import SharedLog.Timestamp.Text

namespace SharedLog

/-- A type whose values are written on the wire. -/
class Wire (α : Type) where
  /-- The document of a value. -/
  toJson : α → Json
  /-- The value of a document. -/
  ofJson? : Json → Option α

namespace Wire

open Json

/-- The text of a value. -/
def encode {α : Type} [Wire α] (a : α) : String := String.ofList (toJson a).render

/-- The value that a text writes. -/
def decode? {α : Type} [Wire α] (text : String) : Option α := (ofChars? text.toList).bind ofJson?

/-- An object with the given members. -/
def record (members : List (String × Json)) : Json :=
  .object (members.map fun (name, value) => (glyphs name, value))

/-- A choice with a content. -/
def choice (name : String) (content : Json) : Json := record [(name, content)]

/-! ## Numbers, truth values and texts -/

instance : Wire Position where
  toJson p := .number (some p.val)
  ofJson? j := (j.natural? UInt64.size).bind Position.ofNat?

instance : Wire Epoch where
  toJson e := .number (some e.val)
  ofJson? j := (j.natural? UInt64.size).bind Epoch.ofNat?

instance : Wire UInt64 where
  toJson n := .number (some n.toNat)
  ofJson? j := (j.natural? UInt64.size).map UInt64.ofNat

/-- The document of a count. -/
def countToJson (n : Nat) : Json := .number (some n)

/-- The count that a document writes. -/
def countOfJson? (j : Json) : Option Nat := j.natural? UInt64.size

instance : Wire Bool where
  toJson := .bool
  ofJson? := bool?

instance : Wire String where
  toJson := .ofText
  ofJson? := string?

instance : Wire StreamId where
  toJson s := .ofText s.text
  ofJson? j := j.string?.bind StreamId.ofText?

instance : Wire Timestamp where
  toJson t := .ofText t.text
  ofJson? j := j.string?.bind Timestamp.ofText?

instance {α : Type} [Wire α] : Wire (Option α) where
  toJson
    | some a => toJson a
    | none => .null
  ofJson? := optional? ofJson?

/-! ## Sets, maps and payloads -/

instance : Wire StreamSet where
  toJson streams := .array (streams.toList.map toJson)
  ofJson? j := do
    let items ← j.array?
    let streams : List StreamId ← items.mapM ofJson?
    some (.ofList streams)

instance : Wire StreamPositions where
  toJson positions := record (positions.toList.map fun (s, p) => (s.text, toJson p))
  ofJson? j := do
    let members ← j.object?
    let pairs : List (StreamId × Option Position) ← members.mapM fun (name, value) => do
      some (← StreamId.ofText? name, ← ofJson? value)
    some (.ofList pairs)

/-- The document of a payload. -/
def payloadToJson (payload : List UInt8) : Json :=
  .array (payload.map fun b => .number (some b.toNat))

/-- The payload that a document writes: bytes as numbers, or the bytes of a string. -/
def payloadOfJson? : Json → Option (List UInt8)
  | .string s => some (bytes s)
  | .array items => items.mapM fun j => (j.natural? 256).map UInt8.ofNat
  | _ => none

/-! ## Requests and answers of the sequencer -/

instance : Wire TokenRequest where
  toJson r := record
    [("epoch", toJson r.epoch), ("count", toJson r.count), ("streams", toJson r.streams)]
  ofJson? j := do
    let [some epoch, some count, some streams] ← j.fields? ["epoch", "count", "streams"] | none
    some ⟨← ofJson? epoch, ← ofJson? count, ← ofJson? streams⟩

instance : Wire Token where
  toJson t := record
    [("epoch", toJson t.epoch), ("first_position", toJson t.first), ("count", toJson t.count),
      ("backpointers", toJson t.backpointers)]
  ofJson? j := do
    let [some epoch, some first, some count, some backpointers] ←
      j.fields? ["epoch", "first_position", "count", "backpointers"] | none
    some ⟨← ofJson? epoch, ← ofJson? first, ← ofJson? count, ← ofJson? backpointers⟩

instance : Wire BootstrapRequest where
  toJson r := record
    [("new_epoch", toJson r.newEpoch), ("global_tail_hint", toJson r.globalTailHint),
      ("stream_tail_hints", toJson r.streamTailHints), ("rebuild_start", toJson r.rebuildStart),
      ("full_reset", toJson r.fullReset)]
  ofJson? j := do
    let [some newEpoch, some globalTailHint, some streamTailHints, some rebuildStart,
        some fullReset] ←
      j.fields? ["new_epoch", "global_tail_hint", "stream_tail_hints", "rebuild_start",
        "full_reset"] | none
    some ⟨← ofJson? newEpoch, ← ofJson? globalTailHint, ← ofJson? streamTailHints,
      ← ofJson? rebuildStart, ← ofJson? fullReset⟩

instance : Wire LayoutChange where
  toJson c := record
    [("epoch", toJson c.epoch), ("full_reset", toJson c.fullReset),
      ("rebuild_start", toJson c.rebuildStart), ("global_tail_hint", toJson c.globalTailHint),
      ("stream_tail_hints", toJson c.streamTailHints)]
  ofJson? j := do
    let [some epoch, some fullReset, some rebuildStart, some globalTailHint,
        some streamTailHints] ←
      j.fields? ["epoch", "full_reset", "rebuild_start", "global_tail_hint",
        "stream_tail_hints"] | none
    some ⟨← ofJson? epoch, ← ofJson? fullReset, ← ofJson? rebuildStart, ← ofJson? globalTailHint,
      ← ofJson? streamTailHints⟩

instance : Wire SequencerMetrics where
  toJson m := record
    [("epoch", toJson m.epoch), ("global_tail", toJson m.globalTail),
      ("stream_count", countToJson m.streamCount), ("tokens_issued", toJson m.tokensIssued),
      ("queries_served", toJson m.queriesServed), ("stale_rejections", toJson m.staleRejections),
      ("bootstraps", toJson m.bootstraps), ("last_bootstrap_at", toJson m.lastBootstrapAt)]
  ofJson? j := do
    let [some epoch, some globalTail, some streamCount, some tokensIssued, some queriesServed,
        some staleRejections, some bootstraps, lastBootstrapAt] ←
      j.fields? ["epoch", "global_tail", "stream_count", "tokens_issued", "queries_served",
        "stale_rejections", "bootstraps", "last_bootstrap_at"] | none
    some ⟨← ofJson? epoch, ← ofJson? globalTail, ← countOfJson? streamCount,
      ← ofJson? tokensIssued, ← ofJson? queriesServed, ← ofJson? staleRejections,
      ← ofJson? bootstraps, ← ofJson? (lastBootstrapAt.getD .null)⟩

instance : Wire BootstrapOutcome where
  toJson
    | .applied => .ofText "Applied"
    | .alreadyApplied => .ofText "AlreadyApplied"
  ofJson? j := do
    let (name, content) ← j.choice?
    if !isVoid content then none
    else if name = "Applied" then some .applied
    else if name = "AlreadyApplied" then some .alreadyApplied
    else none

instance : Wire BootstrapReply where
  toJson
    | .ack => .ofText "Ack"
    | .nack reason => choice "Nack" (toJson reason)
  ofJson? j := do
    let (name, content) ← j.choice?
    if name = "Ack" ∧ isVoid content then some .ack
    else if name = "Nack" then content.bind fun j => (ofJson? j).map .nack
    else none

/-! ## Values of the log -/

instance : Wire LogEntry where
  toJson e := record
    [("streams", toJson e.streams), ("backpointers", toJson e.backpointers),
      ("payload", payloadToJson e.payload)]
  ofJson? j := do
    let [some streams, some backpointers, some payload] ←
      j.fields? ["streams", "backpointers", "payload"] | none
    some ⟨← ofJson? streams, ← ofJson? backpointers, ← payloadOfJson? payload⟩

instance : Wire LogData where
  toJson
    | .entry e => choice "Entry" (toJson e)
    | .hole => .ofText "Hole"
  ofJson? j := do
    let (name, content) ← j.choice?
    if name = "Hole" ∧ isVoid content then some .hole
    else if name = "Entry" then content.bind fun j => (ofJson? j).map .entry
    else none

end Wire

end SharedLog
