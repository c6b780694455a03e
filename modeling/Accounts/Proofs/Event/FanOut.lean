import Accounts.Proofs.Settings.Assembly
import Mathlib.Data.List.DropRight

/-!
# Fan-out of events

A stream hands every message on to all streams that are registered with it, directly or through
others: its receivers. Each receiver goes through what it would go through alone, and what the
receivers put out is put out message by message. A collector keeps the last messages, as many as its
capacity, whatever came before (`fan_out`).

A collector needs room twice. All of its capacity is reserved before any message comes, and where it
cannot be, there is no service at all, so a capacity may be as large as the memory allows and no
larger (`fan_out_overfull`). When it is full, it grows with the next message and drops its oldest
only then, so even a collector that could be made can be too large to be outgrown (`Outgrown`).
-/
namespace Accounts

open Text

namespace Event

variable {memory : Memory} {s r : Stream} {c : Collector} {k : Nat}

/-! ### Collectors -/

theorem rtake_append_rtake {α : Type} (xs ys : List α) (n : Nat) :
    (xs.rtake n ++ ys).rtake n = (xs ++ ys).rtake n := by
  have hmin : min (n - ys.length) n = n - ys.length := by omega
  simp only [List.rtake_eq_reverse_take_reverse, List.reverse_append, List.reverse_reverse,
    List.take_append, List.take_take, List.length_reverse, hmin]

/-- What a collector keeps of a message. -/
def Collected.of (g : Occasion × Message) : Collected := ⟨g.2.tag, g.1.time, g.2.value⟩

theorem capacity_foldl_add (c : Collector) (items : List Collected) :
    (items.foldl Collector.add c).capacity = c.capacity := by
  induction items generalizing c with
  | nil => rfl
  | cons i items ih => exact ih (c.add i)

theorem items_foldl_add (c : Collector) (items : List Collected) :
    (items.foldl Collector.add c).items = (c.items ++ items).rtake c.capacity := by
  induction items generalizing c with
  | nil =>
    have hdrop : c.items.length - c.capacity = 0 := Nat.sub_eq_zero_of_le c.length_le
    simp [List.rtake, hdrop]
  | cons i items ih =>
    have hadd : (c.add i).items = (c.items ++ [i]).rtake c.capacity := rfl
    have hcapacity : (c.add i).capacity = c.capacity := rfl
    -- what was dropped before an item came would be dropped after it anyway
    rw [List.foldl_cons, ih, hadd, hcapacity, rtake_append_rtake, List.append_assoc,
      List.singleton_append]

theorem length_items_foldl_add (hc : c.items = []) (items : List Collected) :
    (items.foldl Collector.add c).items.length = min c.capacity items.length := by
  rw [items_foldl_add, hc, List.nil_append, List.rtake, List.length_drop]
  omega

theorem Collector.fits_foldl_add_iff (hc : c.items = []) (items : List Collected) :
    (items.foldl Collector.add c).fits memory = true ↔
      c.capacity = 0 ∨ items.length < c.capacity ∨ memory.grows c.capacity = true := by
  have hlt : min c.capacity items.length < c.capacity ↔ items.length < c.capacity := by omega
  simp only [Collector.fits, capacity_foldl_add, length_items_foldl_add hc, hlt, Bool.or_eq_true,
    decide_eq_true_eq, or_assoc]

/-- The value that a payload is collected as: what it is parsed as, or else its text with damage
replaced. -/
inductive Message.Reads (m : Message) : Json → Prop
  | parsed {v : Json} (h : Json.parseBytes? m.payload = some v) : Reads m v
  | text (h : Json.parseBytes? m.payload = none) :
    Reads m (.string (String.ofList (Utf8.decodeLossy m.payload)))

theorem Message.reads_value (m : Message) : m.Reads m.value := by
  unfold Message.value
  cases h : Json.parseBytes? m.payload with
  | some v => exact .parsed h
  | none => exact .text h

/-- The item is of this message. -/
structure Collected.Tells (g : Occasion × Message) (i : Collected) : Prop where
  tag : i.tag = g.2.tag
  time : i.time = g.1.time
  value : g.2.Reads i.value

theorem Collected.tells_of (g : Occasion × Message) : Collected.Tells g (.of g) :=
  ⟨rfl, rfl, g.2.reads_value⟩

/-! ### Receivers -/

namespace Stream

mutual

/-- The streams that are registered, directly or through another stream, in order. -/
def receivers : Stream → List Stream
  | broadcast streams => receiversOf streams
  | s => [s]

def receiversOf : List Stream → List Stream
  | [] => []
  | s :: rest => s.receivers ++ receiversOf rest

end

mutual

theorem receivers_publish (o : Occasion) (m : Message) :
    ∀ s : Stream, (s.publish o m).receivers = s.receivers.map (publish o m)
  | discard => rfl
  | log _ => rfl
  | collect _ => rfl
  | redis _ _ => rfl
  | broadcast streams => receiversOf_publishAll o m streams

theorem receiversOf_publishAll (o : Occasion) (m : Message) :
    ∀ streams : List Stream,
      receiversOf (publishAll o m streams) = (receiversOf streams).map (publish o m)
  | [] => rfl
  | s :: rest => by
    simp only [publishAll, receiversOf, List.map_append]
    rw [receivers_publish o m s, receiversOf_publishAll o m rest]

end

mutual

theorem ne_broadcast_of_mem_receivers {streams : List Stream} :
    ∀ s : Stream, r ∈ s.receivers → r ≠ broadcast streams
  | discard, hr | log _, hr | collect _, hr | redis _ _, hr => by
    obtain rfl := List.mem_singleton.1 hr
    nofun
  | broadcast ss, hr => ne_broadcast_of_mem_receiversOf ss hr

theorem ne_broadcast_of_mem_receiversOf {streams : List Stream} :
    ∀ ss : List Stream, r ∈ receiversOf ss → r ≠ broadcast streams
  | s :: rest, hr =>
    (List.mem_append.1 hr).elim (ne_broadcast_of_mem_receivers s)
      (ne_broadcast_of_mem_receiversOf rest)

end

theorem receivers_of_mem_receivers (hr : r ∈ s.receivers) : r.receivers = [r] := by
  cases r with
  | broadcast streams => exact absurd rfl (ne_broadcast_of_mem_receivers s hr)
  | _ => rfl

end Stream

/-! ### Output -/

namespace Output

/-- Outputs one after another. -/
def joined (outs : List Output) : Output := ⟨outs.flatMap lines, outs.flatMap commands⟩

theorem joined_cons (out : Output) (outs : List Output) :
    joined (out :: outs) = out.append (joined outs) := by
  simp [joined, append]

theorem joined_append (a b : List Output) : joined (a ++ b) = (joined a).append (joined b) := by
  simp [joined, append]

theorem joined_singleton (out : Output) : joined [out] = out := by
  simp [joined]

end Output

namespace Stream

mutual

/-- Each receiver puts something out for a message, and nobody else. -/
theorem output_eq (o : Occasion) (m : Message) :
    ∀ s : Stream, s.output o m = .joined (s.receivers.map (output o m))
  | discard | log _ | collect _ | redis _ _ => (Output.joined_singleton _).symm
  | broadcast streams => outputAll_eq o m streams

theorem outputAll_eq (o : Occasion) (m : Message) :
    ∀ streams : List Stream,
      outputAll o m streams = .joined ((receiversOf streams).map (output o m))
  | [] => rfl
  | s :: rest => by
    simp only [outputAll, receiversOf, List.map_append]
    rw [Output.joined_append, output_eq o m s, outputAll_eq o m rest]

end

mutual

theorem output_publish (o o' : Occasion) (m m' : Message) :
    ∀ s : Stream, (s.publish o m).output o' m' = s.output o' m'
  | discard | log _ | collect _ | redis _ _ => rfl
  | broadcast streams => outputAll_publishAll o o' m m' streams

theorem outputAll_publishAll (o o' : Occasion) (m m' : Message) :
    ∀ streams : List Stream,
      outputAll o' m' (publishAll o m streams) = outputAll o' m' streams
  | [] => rfl
  | s :: rest => by
    simp only [publishAll, outputAll]
    rw [output_publish o o' m m' s, outputAll_publishAll o o' m m' rest]

end

/-! ### Many messages -/

/-- What a stream is after these messages, if there is room for all of them. -/
def after (s : Stream) (given : List (Occasion × Message)) : Stream :=
  given.foldl (fun s g => s.publish g.1 g.2) s

theorem after_cons (s : Stream) (g : Occasion × Message) (given : List (Occasion × Message)) :
    s.after (g :: given) = (s.publish g.1 g.2).after given := rfl

theorem receivers_after (s : Stream) (given : List (Occasion × Message)) :
    (s.after given).receivers = s.receivers.map fun r => r.after given := by
  induction given generalizing s with
  | nil => exact (List.map_id _).symm
  | cons g given ih =>
    simp only [after_cons]
    rw [ih, receivers_publish, List.map_map]
    rfl

theorem after_collect (c : Collector) (given : List (Occasion × Message)) :
    (collect c).after given = collect ((given.map Collected.of).foldl Collector.add c) := by
  induction given generalizing c with
  | nil => rfl
  | cons g given ih =>
    rw [after_cons]
    exact ih _

theorem after_of_publish_eq (h : ∀ o m, r.publish o m = r) (given : List (Occasion × Message)) :
    r.after given = r := by
  induction given with
  | nil => rfl
  | cons g given ih =>
    rw [after_cons, h, ih]

/-- There is room for each of these messages when it comes. -/
def FitsAll (memory : Memory) (s : Stream) (given : List (Occasion × Message)) : Prop :=
  ∀ before g rest, given = before ++ g :: rest → (s.after before).fits memory = true

theorem fitsAll_cons_iff {g : Occasion × Message} {given : List (Occasion × Message)} :
    s.FitsAll memory (g :: given) ↔
      s.fits memory = true ∧ (s.publish g.1 g.2).FitsAll memory given := by
  constructor
  · intro h
    refine ⟨h [] g given rfl, fun before g' rest hgiven => ?_⟩
    exact h (g :: before) g' rest (congrArg (g :: ·) hgiven)
  · rintro ⟨hfirst, h⟩ before g' rest hgiven
    cases before with
    | nil => exact hfirst
    | cons _ before =>
      cases hgiven
      exact h before g' rest rfl

theorem publishMany_of_fitsAll {given : List (Occasion × Message)} (h : s.FitsAll memory given) :
    s.publishMany memory given =
      some (s.after given, .joined (given.map fun g => s.output g.1 g.2)) := by
  induction given generalizing s with
  | nil => rfl
  | cons g given ih =>
    obtain ⟨hfits, h⟩ := fitsAll_cons_iff.1 h
    rw [publishMany, if_pos hfits, ih h, List.map_cons, Output.joined_cons]
    simp only [output_publish]
    rfl

theorem publishMany_eq_none_iff {given : List (Occasion × Message)} :
    s.publishMany memory given = none ↔ ¬ s.FitsAll memory given := by
  induction given generalizing s with
  | nil => exact ⟨nofun, fun h => absurd (fun before _ _ hgiven => by simp at hgiven) h⟩
  | cons g given ih =>
    rw [fitsAll_cons_iff, publishMany]
    split
    · next hfits => rw [Option.map_eq_none_iff, ih, and_iff_right hfits]
    · next hfull => exact ⟨fun _ h => hfull h.1, fun _ => rfl⟩

/-- A run that does not crash is the run without a bound on the room. -/
theorem publishMany_eq_some_iff {given : List (Occasion × Message)} {result : Stream × Output} :
    s.publishMany memory given = some result ↔ s.FitsAll memory given ∧
      result = (s.after given, .joined (given.map fun g => s.output g.1 g.2)) := by
  constructor
  · intro h
    have hfits : s.FitsAll memory given := by
      by_contra hfull
      cases h.symm.trans (publishMany_eq_none_iff.2 hfull)
    exact ⟨hfits, Option.some.inj (h.symm.trans (publishMany_of_fitsAll hfits))⟩
  · rintro ⟨hfits, rfl⟩
    exact publishMany_of_fitsAll hfits

/-! ### Room -/

mutual

theorem mem_collectors_iff : ∀ s : Stream, c ∈ s.collectors ↔ collect c ∈ s.receivers
  | discard | log _ | redis _ _ => by simp [collectors, receivers]
  | collect _ => by simp [collectors, receivers]
  | broadcast streams => mem_collectorsOf_iff streams

theorem mem_collectorsOf_iff :
    ∀ streams : List Stream, c ∈ collectorsOf streams ↔ collect c ∈ receiversOf streams
  | [] => by simp [collectorsOf, receiversOf]
  | s :: rest => by
    simp only [collectorsOf, receiversOf, List.mem_append]
    rw [mem_collectors_iff s, mem_collectorsOf_iff rest]

end

theorem mem_receivers_after_iff {given : List (Occasion × Message)} {c' : Collector} :
    collect c' ∈ (s.after given).receivers ↔
      ∃ c, collect c ∈ s.receivers ∧ c' = (given.map Collected.of).foldl Collector.add c := by
  rw [receivers_after, List.mem_map]
  constructor
  · rintro ⟨r, hr, hafter⟩
    cases r with
    | collect c =>
      rw [after_collect] at hafter
      cases hafter
      exact ⟨c, hr, rfl⟩
    | discard | log _ | redis _ _ =>
      rw [after_of_publish_eq fun _ _ => rfl] at hafter
      cases hafter
    | broadcast streams => exact absurd rfl (ne_broadcast_of_mem_receivers s hr)
  · rintro ⟨c, hc, rfl⟩
    exact ⟨_, hc, after_collect c given⟩

/-- Nothing has been collected yet. -/
def IsFresh (s : Stream) : Prop := ∀ c, collect c ∈ s.receivers → c.items = []

/-- Of `k` messages, a collector is given one more than it can hold and has no room to grow. -/
def Outgrown (memory : Memory) (k : Nat) (s : Stream) : Prop :=
  ∃ c, collect c ∈ s.receivers ∧ 0 < c.capacity ∧ c.capacity < k ∧
    memory.grows c.capacity = false

theorem fits_after_iff (hs : s.IsFresh) (given : List (Occasion × Message)) :
    (s.after given).fits memory = true ↔ ∀ c, collect c ∈ s.receivers →
      c.capacity = 0 ∨ given.length < c.capacity ∨ memory.grows c.capacity = true := by
  have hfits {c : Collector} (hc : collect c ∈ s.receivers) :
      ((given.map Collected.of).foldl Collector.add c).fits memory = true ↔
        c.capacity = 0 ∨ given.length < c.capacity ∨ memory.grows c.capacity = true := by
    rw [Collector.fits_foldl_add_iff (hs c hc), List.length_map]
  simp only [fits, List.all_eq_true, mem_collectors_iff, mem_receivers_after_iff]
  constructor
  · exact fun h c hc => (hfits hc).1 (h _ ⟨c, hc, rfl⟩)
  · rintro h _ ⟨c, hc, rfl⟩
    exact (hfits hc).2 (h c hc)

theorem fitsAll_iff (hs : s.IsFresh) (given : List (Occasion × Message)) :
    s.FitsAll memory given ↔ ¬ s.Outgrown memory given.length := by
  constructor
  · rintro h ⟨c, hc, hpos, hlt, hfull⟩
    -- the message that comes when the collector has just become full
    have hsplit : given =
        given.take c.capacity ++ given[c.capacity] :: given.drop (c.capacity + 1) := by
      rw [← List.drop_eq_getElem_cons, List.take_append_drop]
    have hfits := (fits_after_iff hs _).1 (h _ _ _ hsplit) c hc
    rw [List.length_take_of_le hlt.le, hfull] at hfits
    simp [hpos.ne'] at hfits
  · rintro h before g rest rfl
    refine (fits_after_iff hs before).2 fun c hc => ?_
    by_contra hnone
    simp only [not_or, Bool.not_eq_true, not_lt] at hnone
    obtain ⟨hzero, hle, hfull⟩ := hnone
    have hlength : c.capacity < (before ++ g :: rest).length := by
      rw [List.length_append, List.length_cons]
      omega
    exact h ⟨c, hc, Nat.pos_of_ne_zero hzero, hlength, hfull⟩

theorem fitsAll_of_mem_receivers (hr : r ∈ s.receivers) (hs : s.IsFresh)
    {given : List (Occasion × Message)} (h : s.FitsAll memory given) :
    r.FitsAll memory given := by
  have hmem {c : Collector} (hc : collect c ∈ r.receivers) : collect c ∈ s.receivers := by
    rw [receivers_of_mem_receivers hr, List.mem_singleton] at hc
    exact hc ▸ hr
  rw [fitsAll_iff fun c hc => hs c (hmem hc)]
  rintro ⟨c, hc, hfull⟩
  exact (fitsAll_iff hs given).1 h ⟨c, hmem hc, hfull⟩

end Stream

/-! ### Receivers alone -/

/-- The command that is sent for a message. -/
def command (mark : String) (usesChannel : Bool) (g : Occasion × Message) : Backend.Redis.Command :=
  if usesChannel then .publish (marked mark g.2.tag) g.2.text
  else .append (marked mark g.2.tag) g.2.text

/-- What becomes of a receiver by these `k` messages, and what it has put out: a log has a line for
each of them, and a server is sent a command for each of them that can be sent. A collector of
capacity `n` holds the last `n` of them, or all if there are fewer. -/
inductive Received (k : Nat) (given : List (Occasion × Message)) : Stream → Stream × Output → Prop
  | discard : Received k given .discard (.discard, .empty)
  | log (mark : String) : Received k given (.log mark)
    (.log mark, ⟨given.map fun g => (marked mark g.2.tag, g.2.text), []⟩)
  | redis (mark : String) (usesChannel : Bool) : Received k given (.redis mark usesChannel)
    (.redis mark usesChannel,
      ⟨[], (given.filter fun g => g.1.canSend).map (command mark usesChannel)⟩)
  | collect {n : Nat} {c₀ c : Collector} (hstart : c₀.items = []) (hroom : c₀.capacity = n)
    (hcapacity : c.capacity = n) (hlength : c.items.length = min n k)
    (hitems : List.Forall₂ Collected.Tells (given.drop (k - n)) c.items) :
    Received k given (.collect c₀) (.collect c, .empty)

theorem joined_empty (given : List (Occasion × Message)) :
    Output.joined (given.map fun _ => .empty) = .empty := by
  simp [Output.joined, Output.empty]

theorem output_redis (mark : String) (usesChannel : Bool) (g : Occasion × Message) :
    (Stream.redis mark usesChannel).output g.1 g.2 =
      ⟨[], ([g].filter fun g => g.1.canSend).map (command mark usesChannel)⟩ := by
  obtain ⟨⟨time, canSend⟩, m⟩ := g
  cases canSend <;> cases usesChannel <;> rfl

theorem joined_log (mark : String) (given : List (Occasion × Message)) :
    Output.joined (given.map fun g => (Stream.log mark).output g.1 g.2) =
      ⟨given.map fun g => (marked mark g.2.tag, g.2.text), []⟩ := by
  have hlines : given.flatMap (fun g => [(marked mark g.2.tag, g.2.text)]) =
      given.map fun g => (marked mark g.2.tag, g.2.text) := List.map_eq_flatMap.symm
  simp [Output.joined, Stream.output, List.flatMap_map, hlines]

theorem joined_redis (mark : String) (usesChannel : Bool) (given : List (Occasion × Message)) :
    Output.joined (given.map fun g => (Stream.redis mark usesChannel).output g.1 g.2) =
      ⟨[], (given.filter fun g => g.1.canSend).map (command mark usesChannel)⟩ := by
  simp only [output_redis]
  induction given with
  | nil => rfl
  | cons g given ih =>
    have hcons : g :: given = [g] ++ given := rfl
    rw [List.map_cons, Output.joined_cons, ih, hcons, List.filter_append, List.map_append]
    rfl

theorem forall₂_tells (given : List (Occasion × Message)) :
    List.Forall₂ Collected.Tells given (given.map .of) := by
  rw [List.forall₂_map_right_iff, List.forall₂_same]
  exact fun g _ => Collected.tells_of g

/-- A collector that is empty at first keeps the last messages. -/
theorem received_collect (hc : c.items = []) (given : List (Occasion × Message)) :
    Received given.length given (.collect c) ((Stream.collect c).after given,
      .joined (given.map fun g => (Stream.collect c).output g.1 g.2)) := by
  have hout : .joined (given.map fun g => (Stream.collect c).output g.1 g.2) = Output.empty :=
    joined_empty given
  have hitems : ((given.map Collected.of).foldl Collector.add c).items =
      (given.drop (given.length - c.capacity)).map .of := by
    rw [items_foldl_add, hc, List.nil_append, List.rtake, List.length_map, List.map_drop]
  rw [Stream.after_collect, hout]
  refine .collect hc rfl (capacity_foldl_add c _) ?_ ?_
  · rw [length_items_foldl_add hc, List.length_map]
  · rw [hitems]
    exact forall₂_tells _

theorem received_after (hr : r ∈ s.receivers) (hs : s.IsFresh)
    (given : List (Occasion × Message)) :
    Received given.length given r
      (r.after given, .joined (given.map fun g => r.output g.1 g.2)) := by
  cases r with
  | discard =>
    rw [Stream.after_of_publish_eq fun _ _ => rfl]
    exact joined_empty given ▸ .discard
  | log mark =>
    rw [Stream.after_of_publish_eq fun _ _ => rfl]
    exact joined_log mark given ▸ .log mark
  | collect c => exact received_collect (hs c hr) given
  | redis mark usesChannel =>
    rw [Stream.after_of_publish_eq fun _ _ => rfl, joined_redis]
    exact .redis mark usesChannel
  | broadcast streams => exact absurd rfl (Stream.ne_broadcast_of_mem_receivers s hr)

/-- Every receiver has got these `k` messages as if it were alone; and for each message in turn,
each receiver in turn has put out what it puts out for it. -/
structure Delivered (memory : Memory) (k : Nat) (given : List (Occasion × Message)) (s : Stream)
    (result : Stream × Output) : Prop where
  received : ∀ r ∈ s.receivers, ∃ alone, r.publishMany memory given = some alone ∧
    Received k given r alone
  receivers : List.Forall₂ (fun r r' => ∃ out, r.publishMany memory given = some (r', out))
    s.receivers result.1.receivers
  output : result.2 =
    .joined (given.map fun g => .joined (s.receivers.map fun r => r.output g.1 g.2))

/-- What comes of `k` messages: they are delivered, unless a collector is outgrown. -/
structure FansOut (memory : Memory) (k : Nat) (given : List (Occasion × Message)) (s : Stream) :
    Prop where
  delivered : ∀ result, s.publishMany memory given = some result → Delivered memory k given s result
  crashes : s.publishMany memory given = none ↔ s.Outgrown memory k

theorem fansOut (memory : Memory) (hs : s.IsFresh) (given : List (Occasion × Message)) :
    FansOut memory given.length given s := by
  refine ⟨fun result hresult => ?_, ?_⟩
  · obtain ⟨hfits, rfl⟩ := Stream.publishMany_eq_some_iff.1 hresult
    have halone {r : Stream} (hr : r ∈ s.receivers) : r.publishMany memory given =
        some (r.after given, .joined (given.map fun g => r.output g.1 g.2)) :=
      Stream.publishMany_of_fitsAll (Stream.fitsAll_of_mem_receivers hr hs hfits)
    refine ⟨fun r hr => ⟨_, halone hr, received_after hr hs given⟩, ?_, ?_⟩
    · rw [Stream.receivers_after, List.forall₂_map_right_iff, List.forall₂_same]
      exact fun r hr => ⟨_, halone hr⟩
    · simp only [Stream.output_eq _ _ s]
  · rw [Stream.publishMany_eq_none_iff, Stream.fitsAll_iff hs, not_not]

/-! ### The streams of a service -/

open Settings

variable {settings : Settings}

/-- One stream for each choice, or one that discards everything if there is none. -/
def Registered (settings : Settings) (rs : List Stream) : Prop :=
  if settings.streams = [] then rs = [.discard]
  else List.Forall₂ (Configured settings) settings.streams rs

theorem exists_configured {choices : List StreamChoice} {rs : List Stream}
    (h : List.Forall₂ (Configured settings) choices rs) (hr : r ∈ rs) :
    ∃ choice, Configured settings choice r := by
  induction h with
  | nil => cases hr
  | cons hfirst _ ih =>
    rcases List.mem_cons.1 hr with rfl | hr
    · exact ⟨_, hfirst⟩
    · exact ih hr

theorem receivers_of_configured {choice : StreamChoice} (h : Configured settings choice r) :
    r.receivers = [r] := by
  cases h <;> rfl

theorem receiversOf_of_configured {choices : List StreamChoice} {rs : List Stream}
    (h : List.Forall₂ (Configured settings) choices rs) : Stream.receiversOf rs = rs := by
  induction h with
  | nil => rfl
  | cons hfirst _ ih =>
    rw [Stream.receiversOf, receivers_of_configured hfirst, ih, List.singleton_append]

theorem registered_joinStreams {rs : List Stream}
    (h : List.Forall₂ (Configured settings) settings.streams rs) :
    Registered settings (joinStreams rs).receivers := by
  unfold Registered
  split
  · rename_i hnone
    obtain rfl := List.forall₂_nil_left_iff.1 (hnone ▸ h)
    rfl
  · have hreceivers : (joinStreams rs).receivers = rs := by
      rcases rs with _ | ⟨r, _ | ⟨r', rs⟩⟩
      · exact absurd (List.forall₂_nil_right_iff.1 h) ‹_›
      · obtain ⟨choice, hr⟩ := exists_configured h (List.mem_singleton_self r)
        exact receivers_of_configured hr
      · exact receiversOf_of_configured h
    rwa [hreceivers]

theorem isFresh_of_registered (h : Registered settings s.receivers) : s.IsFresh := by
  intro c hc
  unfold Registered at h
  split at h
  · rw [h] at hc
    cases List.mem_singleton.1 hc
  · obtain ⟨choice, hchoice⟩ := exists_configured h hc
    cases hchoice with
    | collector _ hitems => exact hitems

/-- After `k` messages, however the streams are nested, every registered stream has got each of them
once and in order, and a collector holds the last of them; nothing else happens but a crash at a
collector that is outgrown. The streams of a service are those of its settings, one for each choice.
There is such a service if all of them can be connected; it crashes while it is put together exactly
if the first that cannot is a collector without room. -/
theorem fan_out (ms : List (Occasion × Message)) (hk : k ≤ ms.length) (memory : Memory) :
    (∀ s : Stream, s.IsFresh → FansOut memory k (ms.take k) s) ∧
      ∀ (network : Backend.Network) (entropy : Entropy) (clock : Instant) (settings : Settings),
        (∀ env, (environment memory network entropy clock settings).run = some (.ok env) →
          Registered settings env.stream.receivers ∧ FansOut memory k (ms.take k) env.stream) ∧
        ((∃ env, (environment memory network entropy clock settings).run = some (.ok env)) ↔
          settings.cost.validate = .ok () ∧
            ∀ choice ∈ settings.streams, Connects memory network settings choice) ∧
        ((environment memory network entropy clock settings).run = none ↔
          settings.cost.validate = .ok () ∧ Overfull memory network settings settings.streams) := by
  have hlength : (ms.take k).length = k := List.length_take_of_le hk
  have hfansOut (s : Stream) (hs : s.IsFresh) : FansOut memory k (ms.take k) s := by
    have h := fansOut memory hs (ms.take k)
    rwa [hlength] at h
  refine ⟨hfansOut, fun network entropy clock settings =>
    ⟨fun env henv => ?_, exists_environment_iff, environment_eq_none_iff⟩⟩
  obtain ⟨-, -, rs, hconfigured, hstream⟩ := configured_of_environment henv
  have hregistered : Registered settings env.stream.receivers :=
    hstream ▸ registered_joinStreams hconfigured
  exact ⟨hregistered, hfansOut _ (isFresh_of_registered hregistered)⟩

/-- A value, a text that is no value, and bytes that are no text. -/
def published : List (Occasion × Message) :=
  [(⟨.ofCount 0, true⟩, ⟨"a", Utf8.encode "[1]".toList⟩),
    (⟨.ofCount 1, true⟩, ⟨"b", Utf8.encode "plain".toList⟩), (⟨.ofCount 2, true⟩, ⟨"c", [0xFF]⟩)]

/-- Collectors of several capacities and a log, some of them behind another stream. -/
def nested : Stream :=
  .broadcast [.collect (.empty 1 (by decide)),
    .broadcast [.collect (.empty 0 (by decide)), .log "x"], .collect (.empty 2 (by decide))]

/-- Two collectors of one capacity around a log. -/
def repeating : Settings :=
  { Settings.standard with streams := [.collector 1, .log, .collector 1] }

theorem fan_out_nested :
    (∃ result, nested.publishMany .ample (published.take 2) = some result ∧
        Delivered .ample 2 (published.take 2) nested result) ∧
      ∃ env, (environment .ample .unreachable ⟨0⟩ (.ofCount 0) repeating).run = some (.ok env) ∧
        Registered repeating env.stream.receivers ∧
        ∃ result, env.stream.publishMany .ample (published.take 3) = some result ∧
          Delivered .ample 3 (published.take 3) env.stream result := by
  have hfresh : nested.IsFresh := by
    intro c hc
    simp only [nested, Stream.receivers, Stream.receiversOf, List.append_nil, List.cons_append,
      List.nil_append, List.mem_cons, List.not_mem_nil, or_false, Stream.collect.injEq,
      reduceCtorEq, false_or] at hc
    rcases hc with rfl | rfl | rfl <;> rfl
  have htwo : 2 ≤ published.length := by decide
  have hthree : 3 ≤ published.length := by decide
  have hnested : nested.publishMany .ample (published.take 2) = some _ := rfl
  have henv : (environment .ample .unreachable ⟨0⟩ (.ofCount 0) repeating).run =
      some (.ok _) := rfl
  obtain ⟨hregistered, hfansOut⟩ := ((fan_out published hthree .ample).2 _ _ _ _).1 _ henv
  exact ⟨⟨_, hnested, ((fan_out published htwo .ample).1 nested hfresh).delivered _ hnested⟩,
    _, henv, hregistered, _, rfl, hfansOut.delivered _ rfl⟩

/-- A log, and a collector of as many items as can be counted. -/
def greedy : Settings.Variables
  | "USERD_EVENTSTREAM" => some "log,collector"
  | "USERD_EVENTSTREAM_COLLECTOR_MAX_ITEMS" => some "18446744073709551615"
  | _ => none

/-- However much memory there is, such a collector has no room in it. -/
theorem fan_out_overfull :
    ∃ settings, ofVariables greedy = .ok settings ∧
      settings.streams = [.log, .collector 18446744073709551615] ∧
      ∀ memory, (environment memory .unreachable ⟨0⟩ (.ofCount 0) settings).run = none := by
  have hread : ofVariables greedy = .ok
      { standard with streams := [.log, .collector 18446744073709551615] } := by
    rfl
  refine ⟨_, hread, rfl, fun memory => environment_eq_none_iff.2 ⟨rfl, ?_⟩⟩
  refine ⟨[.log], 18446744073709551615, [], rfl, ?_, ?_⟩
  · intro choice hchoice
    obtain rfl := List.mem_singleton.1 hchoice
    exact .log
  · refine Bool.eq_false_iff.2 fun hroom => ?_
    exact absurd (memory.le_of_reserves hroom) (by decide)

end Event

end Accounts
