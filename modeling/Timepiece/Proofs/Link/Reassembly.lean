import Mathlib
import Timepiece.Proofs.Link.UploadLog
import Timepiece.Workshop.FragmentReport

/-!
# Uploads put together again

A watch sees nothing of an upload but its writes, one after the other.  It knows the tags
that tell the place of a packet in its chunk, and the marks that tell what a chunk is for,
and puts the payload together from them.

## Main definitions

* `Receiver` — what a watch has put together so far.
* `Receiver.take`, `Receiver.takeAll` — what one write, and a row of writes, do to it.
* `PacketRole.Whole` — the places of the packets of a chunk.
* `UploadFramed` — all that holds of the writes of an upload.

## Main results

* `Receiver.takeAll_packets` — a chunk is put together from its packets.
* `Receiver.takeAll_uploadWrites` — **an upload is put together** from its writes, whatever
  the watch received before.
* `uploadWrites_framed` — the writes of every upload are as `UploadFramed` says.
-/

namespace Timepiece

/-! ### Pieces -/

section Pieces

variable {α : Type} {size : Nat} {items piece : List α}

theorem pieces_ne_nil (h : items ≠ []) : pieces size items ≠ [] := by
  cases items with
  | nil => exact absurd rfl h
  | cons first rest =>
    rw [pieces_cons]
    exact List.cons_ne_nil _ _

/-- Every piece but the last has the full length. -/
theorem length_of_mem_dropLast_pieces (hs : 0 < size) (h : piece ∈ (pieces size items).dropLast) :
    piece.length = size := by
  fun_induction pieces size items with
  | case1 => exact absurd h List.not_mem_nil
  | case2 first rest ih =>
    by_cases hrest : rest.drop (size - 1) = []
    · -- the piece would be the only one, and so the last
      rw [hrest, pieces_nil] at h
      exact absurd h List.not_mem_nil
    · rw [List.dropLast_cons_of_ne_nil (pieces_ne_nil hrest)] at h
      rcases List.mem_cons.1 h with rfl | h
      · have hlength := List.length_pos_of_ne_nil hrest
        rw [List.length_drop] at hlength
        rw [List.length_cons, List.length_take]
        omega
      · exact ih h

end Pieces

/-! ### Packets -/

/-- The places of the packets of a chunk: a single packet, or a first and a last one with
any number of others in the middle. -/
inductive PacketRole.Whole : List PacketRole → Prop
  | only : Whole [.only]
  | several (middles : Nat) :
    Whole (.first :: List.replicate middles PacketRole.middle ++ [PacketRole.last])

@[simp] theorem roles_nil : roles [] = [] := rfl

@[simp] theorem roles_tag_cons (role : PacketRole) (piece : Bytes) (rest : List Bytes) :
    roles ((role.tag :: piece) :: rest) = role :: roles rest := by
  simp [roles]

theorem roles_laterPackets (piece : Bytes) (rest : List Bytes) :
    roles (laterPackets (piece :: rest)) =
      List.replicate rest.length PacketRole.middle ++ [PacketRole.last] := by
  induction rest generalizing piece with
  | nil => simp [laterPackets]
  | cons next rest ih =>
    rw [laterPackets, roles_tag_cons, ih, List.length_cons, List.replicate_succ, List.cons_append]
    exact List.cons_ne_nil _ _

theorem length_laterPackets (parts : List Bytes) : (laterPackets parts).length = parts.length := by
  fun_induction laterPackets parts with
  | case1 => rfl
  | case2 piece => rfl
  | case3 piece rest _ ih => rw [List.length_cons, List.length_cons, ih]

/-- The tags of a chunk tell the place of every packet. -/
theorem whole_roles_tagged {parts : List Bytes} (h : parts ≠ []) :
    PacketRole.Whole (roles (tagged parts)) ∧
      (roles (tagged parts)).length = (tagged parts).length := by
  fun_cases tagged parts with
  | case1 => exact absurd rfl h
  | case2 piece =>
    rw [roles_tag_cons, roles_nil]
    exact ⟨.only, rfl⟩
  | case3 piece rest hrest =>
    obtain ⟨next, rest, rfl⟩ := List.exists_cons_of_ne_nil hrest
    rw [roles_tag_cons, roles_laterPackets]
    exact ⟨.several rest.length, by simp [length_laterPackets]⟩

/-- A packet is a piece of its chunk behind a tag. -/
theorem exists_piece_of_mem_laterPackets {parts : List Bytes} {packet : Bytes}
    (h : packet ∈ laterPackets parts) :
    ∃ role : PacketRole, ∃ piece ∈ parts, packet = role.tag :: piece := by
  fun_induction laterPackets parts with
  | case1 => exact absurd h List.not_mem_nil
  | case2 piece => exact ⟨_, piece, List.mem_singleton_self _, List.mem_singleton.1 h⟩
  | case3 piece rest _ ih =>
    rcases List.mem_cons.1 h with rfl | h
    · exact ⟨_, piece, List.mem_cons_self, rfl⟩
    · obtain ⟨role, piece', hmem, rfl⟩ := ih h
      exact ⟨role, piece', List.mem_cons_of_mem _ hmem, rfl⟩

theorem exists_piece_of_mem_tagged {parts : List Bytes} {packet : Bytes}
    (h : packet ∈ tagged parts) :
    ∃ role : PacketRole, ∃ piece ∈ parts, packet = role.tag :: piece := by
  fun_cases tagged parts with
  | case1 => exact absurd h List.not_mem_nil
  | case2 piece => exact ⟨_, piece, List.mem_singleton_self _, List.mem_singleton.1 h⟩
  | case3 piece rest hrest =>
    rw [tagged] at h
    · rcases List.mem_cons.1 h with rfl | h
      · exact ⟨_, piece, List.mem_cons_self, rfl⟩
      · obtain ⟨role, piece', hmem, rfl⟩ := exists_piece_of_mem_laterPackets h
        exact ⟨role, piece', List.mem_cons_of_mem _ hmem, rfl⟩
    · exact hrest

/-- A packet is neither empty nor longer than a write may be. -/
theorem length_of_mem_packets {chunk packet : Bytes} (h : packet ∈ packets chunk) :
    2 ≤ packet.length ∧ packet.length ≤ packetData + 1 := by
  obtain ⟨role, piece, hpiece, rfl⟩ := exists_piece_of_mem_tagged h
  have hpos := List.length_pos_of_ne_nil (ne_nil_of_mem_pieces hpiece)
  have hle := length_of_mem_pieces (by decide) hpiece
  rw [List.length_cons]
  omega

/-- Behind their tags packets hold the chunk. -/
theorem flatMap_drop_laterPackets (parts : List Bytes) :
    (laterPackets parts).flatMap (List.drop 1) = parts.flatten := by
  fun_induction laterPackets parts with
  | case1 => rfl
  | case2 piece => simp
  | case3 piece rest _ ih => simp [ih]

theorem flatMap_drop_packets (chunk : Bytes) : (packets chunk).flatMap (List.drop 1) = chunk := by
  have hparts : ∀ parts : List Bytes, (tagged parts).flatMap (List.drop 1) = parts.flatten := by
    intro parts
    fun_cases tagged parts with
    | case1 => rfl
    | case2 piece => simp
    | case3 piece rest hrest => simp [flatMap_drop_laterPackets]
  rw [packets, hparts, flatten_pieces]

/-! ### Receivers -/

/-- What a watch has put together from the writes so far. -/
structure Receiver where
  /-- The payloads of the uploads that came to their end, in order. -/
  delivered : List Bytes
  /-- What the chunks of the open upload have brought; nothing if no upload is open. -/
  payload : Option Bytes
  /-- What the packets of the open chunk have brought; nothing if no chunk is open. -/
  chunk : Option Bytes

namespace Receiver

/-- Nothing was received yet. -/
def start : Receiver := ⟨[], none, none⟩

/-- Takes a whole chunk in, which its mark tells to open an upload, to go on with it, or to
close it. -/
def takeChunk (r : Receiver) (chunk : Bytes) : Option Receiver :=
  match chunk, r.payload with
  | [mark], none => if mark = initMark then some { r with payload := some [] } else none
  | mark :: data, some payload =>
    if mark = dataMark then some { r with payload := some (payload ++ data) }
    else if mark = commitMark ∧ data = [] then
      some { r with delivered := r.delivered ++ [payload], payload := none }
    else none
  | _, _ => none

/-- Takes a packet in, which its place tells to open a chunk, to go on with it, or to close
it. -/
def takePacket (r : Receiver) (role : PacketRole) (data : Bytes) : Option Receiver :=
  match role, r.chunk with
  | .only, none => r.takeChunk data
  | .first, none => some { r with chunk := some data }
  | .middle, some taken => some { r with chunk := some (taken ++ data) }
  | .last, some taken => { r with chunk := none }.takeChunk (taken ++ data)
  | _, _ => none

/-- Takes a write in.  One that stands where none of its kind may come is refused. -/
def take (r : Receiver) : (write : Bytes) → Option Receiver
  | [] => none
  | tag :: data => (PacketRole.ofTag? tag).bind fun role => r.takePacket role data

/-- Takes writes in, one after the other. -/
def takeAll (r : Receiver) (writes : List Bytes) : Option Receiver := writes.foldlM take r

variable {r : Receiver} {delivered : List Bytes}

@[simp] theorem take_tag (r : Receiver) (role : PacketRole) (data : Bytes) :
    r.take (role.tag :: data) = r.takePacket role data := by
  rw [take, PacketRole.ofTag?_tag, Option.bind_some]

theorem takeAll_cons (r : Receiver) (write : Bytes) (rest : List Bytes) :
    r.takeAll (write :: rest) = (r.take write).bind (takeAll · rest) := rfl

@[simp] theorem takeAll_singleton (r : Receiver) (write : Bytes) :
    r.takeAll [write] = r.take write := by
  rw [takeAll_cons]
  cases r.take write <;> rfl

theorem takeAll_append (r : Receiver) (first second : List Bytes) :
    r.takeAll (first ++ second) = (r.takeAll first).bind (takeAll · second) := by
  rw [takeAll, List.foldlM_append]
  rfl

/-- The packets after the first one bring the rest of the chunk. -/
theorem takeAll_laterPackets (payload : Option Bytes) (taken piece : Bytes) (rest : List Bytes) :
    takeAll ⟨delivered, payload, some taken⟩ (laterPackets (piece :: rest)) =
      takeChunk ⟨delivered, payload, none⟩ (taken ++ (piece :: rest).flatten) := by
  induction rest generalizing taken piece with
  | nil => simp [laterPackets, takePacket]
  | cons next rest ih =>
    have hmiddle : take ⟨delivered, payload, some taken⟩ (PacketRole.middle.tag :: piece) =
        some ⟨delivered, payload, some (taken ++ piece)⟩ := rfl
    rw [laterPackets, takeAll_cons, hmiddle, Option.bind_some, ih, List.append_assoc,
      ← List.flatten_cons]
    exact List.cons_ne_nil _ _

/-- **A chunk is put together from its packets.** -/
theorem takeAll_packets (payload : Option Bytes) {chunk : Bytes} (h : chunk ≠ []) :
    takeAll ⟨delivered, payload, none⟩ (packets chunk) =
      takeChunk ⟨delivered, payload, none⟩ chunk := by
  have hflatten := flatten_pieces packetData chunk
  have hparts : pieces packetData chunk ≠ [] := pieces_ne_nil h
  rw [packets]
  generalize pieces packetData chunk = parts at hflatten hparts
  subst hflatten
  fun_cases tagged parts with
  | case1 => exact absurd rfl hparts
  | case2 piece => simp [takePacket]
  | case3 piece rest hrest =>
    obtain ⟨next, rest, rfl⟩ := List.exists_cons_of_ne_nil hrest
    have hfirst : take ⟨delivered, payload, none⟩ (PacketRole.first.tag :: piece) =
        some ⟨delivered, payload, some piece⟩ := rfl
    rw [takeAll_cons, hfirst, Option.bind_some, takeAll_laterPackets, ← List.flatten_cons]

/-- Chunks of an open upload add what is behind their marks. -/
theorem takeAll_plan (payload : Bytes) (parts : List Bytes) :
    takeAll ⟨delivered, some payload, none⟩ ((parts.map (dataMark :: ·)).map packets).flatten =
      some ⟨delivered, some (payload ++ parts.flatten), none⟩ := by
  induction parts generalizing payload with
  | nil =>
    rw [List.flatten_nil, List.append_nil]
    rfl
  | cons part parts ih =>
    have hpart : takeAll ⟨delivered, some payload, none⟩ (packets (dataMark :: part)) =
        some ⟨delivered, some (payload ++ part), none⟩ := by
      rw [takeAll_packets _ (List.cons_ne_nil _ _)]
      simp [takeChunk]
    rw [List.map_cons, List.map_cons, List.flatten_cons, takeAll_append, hpart, Option.bind_some,
      ih, List.flatten_cons, List.append_assoc]

/-- **An upload is put together from its writes.** -/
theorem takeAll_uploadWrites (payload : Bytes) :
    takeAll ⟨delivered, none, none⟩ (uploadWrites payload) =
      some ⟨delivered ++ [payload], none, none⟩ := by
  have hinit : take ⟨delivered, none, none⟩ initUpload = some ⟨delivered, some [], none⟩ := rfl
  have hcommit : take ⟨delivered, some payload, none⟩ commitUpload =
      some ⟨delivered ++ [payload], none, none⟩ := rfl
  rw [uploadWrites, List.cons_append, takeAll_cons, hinit, Option.bind_some, takeAll_append,
    uploadPlan, chunks, takeAll_plan, flatten_pieces, Option.bind_some, List.nil_append,
    takeAll_singleton, hcommit]

/-- Uploads are put together in their order. -/
theorem takeAll_uploads (payloads : List Bytes) :
    takeAll ⟨delivered, none, none⟩ (payloads.flatMap uploadWrites) =
      some ⟨delivered ++ payloads, none, none⟩ := by
  induction payloads generalizing delivered with
  | nil =>
    rw [List.append_nil]
    rfl
  | cons payload payloads ih =>
    rw [List.flatMap_cons, takeAll_append, takeAll_uploadWrites, Option.bind_some, ih,
      List.append_assoc, List.singleton_append]

end Receiver

/-! ### Framing -/

/-- All that holds of the writes of an upload. -/
structure UploadFramed (payload : Bytes) : Prop where
  /-- A watch that sees only the writes has the payload, also when other uploads follow. -/
  received : ∀ later : List Bytes,
    Receiver.start.takeAll (uploadWrites payload ++ later.flatMap uploadWrites) =
      some ⟨payload :: later, none, none⟩
  /-- No write is too short for a tag and a byte behind it, or too long. -/
  lengths : ∀ write ∈ uploadWrites payload, 2 ≤ write.length ∧ write.length ≤ 20
  /-- The tags tell of every packet what place it has in its chunk. -/
  places : ∀ packets ∈ uploadPlan payload,
    PacketRole.Whole (roles packets) ∧ (roles packets).length = packets.length
  /-- Behind the tags of a chunk stand its mark and between 1 and 255 bytes of the payload. -/
  brought : ∀ packets ∈ uploadPlan payload, ∃ data : Bytes,
    packets.flatMap (List.drop 1) = dataMark :: data ∧ 1 ≤ data.length ∧ data.length ≤ 255
  /-- Only the last chunk may bring less than 255 bytes. -/
  full : ∀ packets ∈ (uploadPlan payload).dropLast, ∃ data : Bytes,
    packets.flatMap (List.drop 1) = dataMark :: data ∧ data.length = 255
  /-- The packets and two more are all the writes. -/
  count : packetCount (uploadPlan payload) + 2 = (uploadWrites payload).length
  /-- The report of an upload tells how many writes there are. -/
  report :
    let plan := uploadPlan payload
    let writes := uploadWrites payload
    ∃ lines, FragmentReport.text payload =
      s!"{payload.length} bytes in {plan.length} chunks, {writes.length} writes " ++
        "including init and commit\n" ++ lines

theorem packetCount_add_two (payload : Bytes) :
    packetCount (uploadPlan payload) + 2 = (uploadWrites payload).length := by
  simp [packetCount, uploadWrites]

theorem length_of_mem_uploadWrites {payload write : Bytes} (h : write ∈ uploadWrites payload) :
    2 ≤ write.length ∧ write.length ≤ packetData + 1 := by
  rw [uploadWrites, List.mem_append, List.mem_cons, List.mem_singleton] at h
  rcases h with (rfl | hpacket) | rfl
  · decide
  · obtain ⟨packets, hpackets, hmem⟩ := List.mem_flatten.1 hpacket
    obtain ⟨chunk, -, rfl⟩ := List.mem_map.1 hpackets
    exact length_of_mem_packets hmem
  · decide

/-- What the chunks of a plan bring are the pieces of the payload. -/
theorem uploadPlan_eq (payload : Bytes) :
    uploadPlan payload = (pieces chunkData payload).map fun data => packets (dataMark :: data) := by
  simp [uploadPlan, chunks, Function.comp_def]

/-- **The writes of an upload can be read back**, are of the right size, and are as many as
the report says. -/
theorem uploadWrites_framed (payload : Bytes) : UploadFramed payload where
  received later := Receiver.takeAll_uploads (payload :: later)
  lengths _ hwrite := length_of_mem_uploadWrites hwrite
  places := by
    intro packets hpackets
    obtain ⟨data, -, rfl⟩ := List.mem_map.1 (uploadPlan_eq payload ▸ hpackets)
    exact whole_roles_tagged (pieces_ne_nil (List.cons_ne_nil _ _))
  brought := by
    intro packets hpackets
    obtain ⟨data, hdata, rfl⟩ := List.mem_map.1 (uploadPlan_eq payload ▸ hpackets)
    exact ⟨data, flatMap_drop_packets _, List.length_pos_of_ne_nil (ne_nil_of_mem_pieces hdata),
      length_of_mem_pieces (by decide) hdata⟩
  full := by
    intro packets hpackets
    rw [uploadPlan_eq, ← List.map_dropLast] at hpackets
    obtain ⟨data, hdata, rfl⟩ := List.mem_map.1 hpackets
    exact ⟨data, flatMap_drop_packets _, length_of_mem_dropLast_pieces (by decide) hdata⟩
  count := packetCount_add_two payload
  report := by
    dsimp only
    rw [← packetCount_add_two]
    exact ⟨_, rfl⟩

end Timepiece
