import Accounts.Backend.Redis
import Accounts.Json.Printer
import Accounts.Json.Reader
import Accounts.Time.Rfc3339

/-!
# Event streams

Where messages go: nowhere, to a log, to a collector that keeps the latest, to a Redis server, or to
several streams at once. A stream that is given a message may become another stream, with the
message collected in it, and may put out lines of a log and commands for a server.
-/
namespace Accounts.Event

open Accounts.Text

structure Message where
  tag : String
  payload : List UInt8
  deriving DecidableEq, Repr

/-- The circumstances of a publication: its time, and whether commands can be sent. -/
structure Occasion where
  time : Instant
  canSend : Bool
  deriving DecidableEq, Repr

/-- A name with the mark of its stream in front. -/
def marked (mark tag : String) : String := if mark = "" then tag else mark ++ "." ++ tag

/-- The payload as text, with damage replaced. -/
def Message.text (m : Message) : String := String.ofList (Utf8.decodeLossy m.payload)

/-- The payload as a value: the one that it denotes, or else its text. -/
def Message.value (m : Message) : Json := (Json.parseBytes? m.payload).getD (.string m.text)

structure Collected where
  tag : String
  time : Instant
  value : Json

/-- The most bytes that room can be reserved for at once. -/
def maxReserved : Nat := 9223372036854775807

/-- The memory of a process, as far as collectors need it. How many bytes an item has is left to the
machine, and a request for room can also be turned down where the machine has less to give. -/
structure Memory where
  itemBytes : Nat
  /-- Room for so many items can be reserved at once. -/
  reserves : Nat → Bool
  /-- A full ring of so many items can move to one with more room. -/
  grows : Nat → Bool
  itemBytes_pos : 0 < itemBytes
  reserves_zero : reserves 0 = true
  mul_le_of_reserves : ∀ n, reserves n = true → n * itemBytes ≤ maxReserved
  mul_le_of_grows : ∀ n, grows n = true → (n + 1) * itemBytes ≤ maxReserved

namespace Memory

/-- A memory that has all that can be reserved, for items with a tag of 24 bytes, a time of 12 and a
value of 32, filled up to a multiple of 8. A ring doubles its room when it grows. -/
def ample : Memory where
  itemBytes := 72
  reserves n := n * 72 ≤ maxReserved
  grows n := 2 * n * 72 ≤ maxReserved
  itemBytes_pos := by decide
  reserves_zero := by decide
  mul_le_of_reserves _ h := of_decide_eq_true h
  mul_le_of_grows n h := by
    have hdouble : 2 * n * 72 ≤ maxReserved := of_decide_eq_true h
    unfold maxReserved at *
    omega

theorem le_of_reserves (memory : Memory) {n : Nat} (h : memory.reserves n = true) :
    n ≤ maxReserved :=
  calc n = n * 1 := (Nat.mul_one n).symm
    _ ≤ n * memory.itemBytes := Nat.mul_le_mul_left n memory.itemBytes_pos
    _ ≤ maxReserved := memory.mul_le_of_reserves n h

end Memory

/-- A ring of items with the room that was reserved for them. -/
structure Collector where
  capacity : Nat
  items : List Collected
  capacity_le : capacity ≤ maxReserved
  length_le : items.length ≤ capacity

namespace Collector

def empty (capacity : Nat) (h : capacity ≤ maxReserved) : Collector :=
  ⟨capacity, [], h, Nat.zero_le capacity⟩

/-- An empty collector; there is none if its room cannot be reserved. -/
def reserve (memory : Memory) (capacity : Nat) : Option Collector :=
  if h : memory.reserves capacity = true then some (empty capacity (memory.le_of_reserves h))
  else none

/-- Whether there is room for one more item. A full ring grows before it drops its oldest item; one
without capacity takes no item at all. -/
def fits (memory : Memory) (c : Collector) : Bool :=
  c.capacity = 0 || c.items.length < c.capacity || memory.grows c.capacity

/-- Adds an item and drops the oldest beyond the capacity. -/
def add (c : Collector) (item : Collected) : Collector :=
  let items := c.items ++ [item]
  { c with
    items := items.drop (items.length - c.capacity)
    length_le := by
      rw [List.length_drop]
      omega }

/-- The items as an array, with `showTime` for their times. -/
def toJsonWith (showTime : Instant → String) (c : Collector) : Json :=
  .array (c.items.map fun i =>
    .object [("tag", .string i.tag), ("timestamp", .string (showTime i.time)),
      ("message", i.value)])

def toJson (c : Collector) : Json := c.toJsonWith fun t => String.ofList t.write

end Collector

inductive Stream where
  | discard
  | log (mark : String)
  | collect (c : Collector)
  | redis (mark : String) (usesChannel : Bool)
  | broadcast (streams : List Stream)

/-- What streams put out: log lines as names with texts, and commands. -/
structure Output where
  lines : List (String × String)
  commands : List Backend.Redis.Command
  deriving DecidableEq, Repr

namespace Output

def empty : Output := ⟨[], []⟩

def append (a b : Output) : Output := ⟨a.lines ++ b.lines, a.commands ++ b.commands⟩

end Output

namespace Stream

mutual

def publish (o : Occasion) (m : Message) : Stream → Stream
  | discard => discard
  | log mark => log mark
  | collect c => collect (c.add ⟨m.tag, o.time, m.value⟩)
  | redis mark usesChannel => redis mark usesChannel
  | broadcast streams => broadcast (publishAll o m streams)

def publishAll (o : Occasion) (m : Message) : List Stream → List Stream
  | [] => []
  | s :: rest => s.publish o m :: publishAll o m rest

end

mutual

def output (o : Occasion) (m : Message) : Stream → Output
  | discard | collect _ => Output.empty
  | log mark => ⟨[(marked mark m.tag, m.text)], []⟩
  | redis mark usesChannel =>
    if !o.canSend then Output.empty
    else if usesChannel then ⟨[], [.publish (marked mark m.tag) m.text]⟩
    else ⟨[], [.append (marked mark m.tag) m.text]⟩
  | broadcast streams => outputAll o m streams

def outputAll (o : Occasion) (m : Message) : List Stream → Output
  | [] => Output.empty
  | s :: rest => (s.output o m).append (outputAll o m rest)

end

mutual

/-- The collectors of a stream, in order. -/
def collectors : Stream → List Collector
  | collect c => [c]
  | broadcast streams => collectorsOf streams
  | _ => []

def collectorsOf : List Stream → List Collector
  | [] => []
  | s :: rest => s.collectors ++ collectorsOf rest

end

/-- Whether every collector has room for one more item. -/
def fits (memory : Memory) (s : Stream) : Bool := s.collectors.all (Collector.fits memory)

/-- Publishes messages one after another. Nothing comes of it if a collector finds no room. -/
def publishMany (memory : Memory) (s : Stream) :
    List (Occasion × Message) → Option (Stream × Output)
  | [] => some (s, Output.empty)
  | (o, m) :: rest =>
    if s.fits memory then
      (publishMany memory (s.publish o m) rest).map fun (s', out) =>
        (s', (s.output o m).append out)
    else none

end Stream

end Accounts.Event
