import Timepiece.Link.Command

/-!
# Cutting uploads into writes

A write to the watch holds at most twenty bytes.  A bulk upload is cut into
chunks, each of which is acknowledged, and every chunk into packets, each led by
a tag that tells its place in the chunk.  The upload is opened and closed by a
chunk of its own.  A notification is cut into commands.

## Main definitions

* `pieces` — a list cut into pieces of a given length.
* `PacketRole` — the place of a packet in its chunk.
* `packets`, `chunks`, `uploadPlan` — how an upload is cut.
* `notificationPackets` — how a notification is cut.

## Main results

* `flatten_pieces` — cutting loses nothing.
* `length_of_mem_pieces`, `ne_nil_of_mem_pieces` — no piece is too long or empty.
-/

namespace Timepiece

/-! ### Pieces -/

/-- A list cut into pieces of a given length, of which only the last may be
shorter.  Pieces of length zero are pieces of length one. -/
def pieces {α : Type} (size : Nat) (items : List α) : List (List α) :=
  match items with
  | [] => []
  | first :: rest =>
    (first :: rest.take (size - 1)) :: pieces size (rest.drop (size - 1))
termination_by items.length
decreasing_by
  simp only [List.length_drop, List.length_cons]
  omega

@[simp] theorem pieces_nil {α : Type} (size : Nat) : pieces size ([] : List α) = [] := by
  rw [pieces]

theorem pieces_cons {α : Type} (size : Nat) (first : α) (rest : List α) :
    pieces size (first :: rest) =
      (first :: rest.take (size - 1)) :: pieces size (rest.drop (size - 1)) := by
  rw [pieces]

/-- Cutting loses nothing. -/
theorem flatten_pieces {α : Type} (size : Nat) (items : List α) :
    (pieces size items).flatten = items := by
  fun_induction pieces size items with
  | case1 => rfl
  | case2 first rest ih => simp [ih]

/-- No piece is too long. -/
theorem length_of_mem_pieces {α : Type} {size : Nat} (hs : 0 < size) {items piece : List α}
    (h : piece ∈ pieces size items) : piece.length ≤ size := by
  fun_induction pieces size items with
  | case1 => simp at h
  | case2 first rest ih =>
    rcases List.mem_cons.1 h with rfl | h
    · simp only [List.length_cons, List.length_take]
      omega
    · exact ih h

/-- No piece is empty. -/
theorem ne_nil_of_mem_pieces {α : Type} {size : Nat} {items piece : List α}
    (h : piece ∈ pieces size items) : piece ≠ [] := by
  fun_induction pieces size items with
  | case1 => simp at h
  | case2 first rest ih =>
    rcases List.mem_cons.1 h with rfl | h
    · simp
    · exact ih h

/-! ### Packets -/

/-- The place of a packet in its chunk. -/
inductive PacketRole where
  | first
  | middle
  | last
  /-- The chunk is a single packet. -/
  | only
  deriving DecidableEq, Repr

namespace PacketRole

/-- The byte that leads a packet. -/
def tag : PacketRole → UInt8
  | first => 0x40
  | middle => 0x41
  | last => 0x42
  | only => 0x43

/-- The place that a byte stands for. -/
def ofTag? (tag : UInt8) : Option PacketRole :=
  if tag = 0x40 then some first
  else if tag = 0x41 then some middle
  else if tag = 0x42 then some last
  else if tag = 0x43 then some only
  else none

/-- The name of a place. -/
def name : PacketRole → String
  | first => "first"
  | middle => "middle"
  | last => "last"
  | only => "only"

@[simp] theorem ofTag?_tag (role : PacketRole) : ofTag? role.tag = some role := by
  cases role <;> decide

end PacketRole

/-- How many bytes of a chunk a packet holds. -/
def packetData : Nat := 19

/-- The packets after the first one of a chunk. -/
def laterPackets : List Bytes → List Bytes
  | [] => []
  | [piece] => [PacketRole.last.tag :: piece]
  | piece :: rest => (PacketRole.middle.tag :: piece) :: laterPackets rest

/-- Pieces with the tags of their places. -/
def tagged : List Bytes → List Bytes
  | [] => []
  | [piece] => [PacketRole.only.tag :: piece]
  | piece :: rest => (PacketRole.first.tag :: piece) :: laterPackets rest

/-- A chunk cut into packets. -/
def packets (chunk : Bytes) : List Bytes := tagged (pieces packetData chunk)

/-! ### Chunks -/

/-- How many bytes of the payload a chunk holds. -/
def chunkData : Nat := 255

/-- The byte that leads a chunk of the payload. -/
def dataMark : UInt8 := 0x21

/-- The byte that opens an upload. -/
def initMark : UInt8 := 0x20

/-- The byte that closes an upload. -/
def commitMark : UInt8 := 0x22

/-- A payload cut into chunks. -/
def chunks (payload : Bytes) : List Bytes := (pieces chunkData payload).map (dataMark :: ·)

/-- The write that opens an upload. -/
def initUpload : Bytes := [PacketRole.only.tag, initMark]

/-- The write that closes an upload. -/
def commitUpload : Bytes := [PacketRole.only.tag, commitMark]

/-- The packets of every chunk of an upload. -/
def uploadPlan (payload : Bytes) : List (List Bytes) := (chunks payload).map packets

/-- How many packets a plan has. -/
def packetCount (plan : List (List Bytes)) : Nat := plan.flatten.length

/-- The places of packets, as far as their tags tell them. -/
def roles (packets : List Bytes) : List PacketRole :=
  packets.filterMap fun packet => packet.head?.bind PacketRole.ofTag?

/-- Every write of an upload, in order. -/
def uploadWrites (payload : Bytes) : List Bytes :=
  initUpload :: (uploadPlan payload).flatten ++ [commitUpload]

/-! ### Notifications -/

/-- How many bytes of a notification a command holds. -/
def notificationData : Nat := 16

/-- A notification cut into writes. -/
def notificationPackets (payload : Bytes) : List Bytes :=
  (pieces notificationData payload).map fun data => (Command.notificationData data).encode

end Timepiece
