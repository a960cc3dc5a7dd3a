import Mathlib
import Timepiece.Link.Notification
import Timepiece.Proofs.Link.NotificationLog
import Timepiece.Proofs.Link.Reassembly
import Timepiece.Proofs.Numbers.Words
import Timepiece.Proofs.Reader

/-!
# Writes that are told apart

Commands and the packets of uploads go over one channel, and a watch has nothing but their bytes.
The first byte tells a command from a packet, and one command from another; what follows it tells
the rest.  A notification is cut into commands, and is put together from them: its first byte tells
how long the header is, the header tells everything but the data, and the data is what is left.

## Main definitions

* `Notification.ofPayload?` — the notification that a watch reads from what is sent of it.
* `Notification.Conveyed` — all that holds of what is sent of a notification.

## Main results

* `Command.encode_injective` — **commands are told by their bytes.**
* `Command.head_ne_tag`, `exists_tag_of_mem_uploadWrites` — **commands and packets are told apart**
  by the first byte.
* `Notification.ofPayload?_bytes` — a notification is read back.
* `writes_told_apart` — **everything that is written is told apart.**
-/

namespace Timepiece

/-! ### Commands and packets -/

namespace Command

/-- Commands are told by their bytes. -/
theorem encode_injective : Function.Injective encode := by
  intro a b h
  obtain ⟨hopcode, harguments⟩ := List.cons.inj h
  cases a with
  | setTime seconds =>
    cases b with
    | setTime seconds' => exact congrArg setTime (longBytes_injective harguments)
    | _ => exact absurd hopcode (by simp [opcode])
  | announceNotification size =>
    cases b with
    | announceNotification size' =>
      exact congrArg announceNotification (wordBytes_injective harguments)
    | _ => exact absurd hopcode (by simp [opcode])
  | notificationData data =>
    cases b with
    | notificationData data' => exact congrArg notificationData harguments
    | _ => exact absurd hopcode (by simp [opcode])
  | commitNotification =>
    cases b with
    | commitNotification => rfl
    | _ => exact absurd hopcode (by simp [opcode])
  | extendAlert id timeout =>
    cases b with
    | extendAlert id' timeout' =>
      obtain ⟨hid, htimeout⟩ := List.append_inj harguments (by simp)
      rw [wordBytes_injective hid, wordBytes_injective htimeout]
    | _ => exact absurd hopcode (by simp [opcode])
  | closeAlert id =>
    cases b with
    | closeAlert id' => exact congrArg closeAlert (wordBytes_injective harguments)
    | _ => exact absurd hopcode (by simp [opcode])
  | setProperty index value =>
    cases b with
    | setProperty index' value' =>
      obtain ⟨rfl, rfl⟩ := List.cons.inj harguments
      rfl
    | _ => exact absurd hopcode (by simp [opcode])

/-- No command begins with the tag of a packet. -/
theorem head_ne_tag (command : Command) (role : PacketRole) :
    command.encode.head? ≠ some role.tag := by
  intro h
  have hopcode : command.opcode = role.tag := Option.some.inj h
  cases command <;> cases role <;> simp [opcode, PacketRole.tag] at hopcode

end Command

/-- Every write of an upload begins with the tag of a packet. -/
theorem exists_tag_of_mem_uploadWrites {payload write : Bytes} (h : write ∈ uploadWrites payload) :
    ∃ role : PacketRole, write.head? = some role.tag := by
  rw [uploadWrites, List.mem_append, List.mem_cons, List.mem_singleton] at h
  rcases h with (rfl | hpacket) | rfl
  · exact ⟨.only, rfl⟩
  · obtain ⟨packets, hpackets, hmem⟩ := List.mem_flatten.1 hpacket
    obtain ⟨chunk, -, rfl⟩ := List.mem_map.1 hpackets
    obtain ⟨role, piece, -, rfl⟩ := exists_piece_of_mem_tagged hmem
    exact ⟨role, rfl⟩
  · exact ⟨.only, rfl⟩

/-! ### Notifications -/

namespace Notification

open Reader

variable {notification : Notification} {payload : Bytes}

/-- Reads what stands before the data of a notification, which is missing then. -/
def readHeader : Reader (Bytes → Notification) := do
  match ← byte with
  | 1 => do
    let id ← word
    let vibration ← long
    let timeout ← word
    pure (alert id vibration timeout)
  | 2 => do
    let vibration ← long
    let timeout ← word
    pure (info vibration timeout)
  | 3 => pure update
  | _ => failure

/-- The notification that a watch reads from what is sent of it. -/
def ofPayload? (payload : Bytes) : Option Notification :=
  (readHeader payload).map fun read => read.1 read.2

/-- How long the header of a notification is. -/
def headerSize : Notification → Nat
  | alert .. => 9
  | info .. => 7
  | update _ => 1

/-- All that holds of what is sent of a notification. -/
structure Conveyed (notification : Notification) (payload : Bytes) : Prop where
  /-- It is cut into commands, the data of which make it up. -/
  packets : ∃ bodies : List Bytes,
    notificationPackets payload = bodies.map (fun body => (Command.notificationData body).encode) ∧
      bodies.flatten = payload
  /-- The notification is told by it. -/
  recovered : ofPayload? payload = some notification
  /-- Whoever sends it announces its size first. -/
  announced : ∃ size : UInt16, size.toNat = payload.length ∧ ∀ config : LinkConfig,
    Transfer.ofNotification config payload = .ok (.ofTasks
      (Transfer.requestTasks (Command.announceNotification size).encode config.requests ++
        Transfer.dataTasks payload))

theorem exists_takes_readHeader (notification : Notification) :
    ∃ make, Takes readHeader notification.header make ∧ make notification.data = notification := by
  cases notification with
  | alert id vibration timeout data =>
    refine ⟨alert id vibration timeout, ?_, rfl⟩
    rw [header, List.cons_append, List.cons_append, List.append_assoc]
    exact takes_byte_bind ((takes_word id).bind ((takes_long vibration).bind
      ((takes_word timeout).bind_pure)))
  | info vibration timeout data =>
    refine ⟨info vibration timeout, ?_, rfl⟩
    exact takes_byte_bind ((takes_long vibration).bind ((takes_word timeout).bind_pure))
  | update data => exact ⟨update, takes_byte_bind (takes_pure update), rfl⟩

/-- A notification is read back. -/
theorem ofPayload?_bytes (notification : Notification) :
    ofPayload? notification.bytes = some notification := by
  obtain ⟨make, htakes, hmake⟩ := exists_takes_readHeader notification
  rw [ofPayload?, bytes, htakes notification.data, Option.map_some]
  exact congrArg some hmake

theorem length_bytes (notification : Notification) :
    notification.bytes.length = notification.headerSize + notification.data.length := by
  rw [bytes, List.length_append]
  cases notification with
  | alert | info => simp [header, headerSize]
  | update => rfl

theorem payload_eq_ok_iff : notification.payload = .ok payload ↔
    notification.headerSize + notification.data.length ≤ maxAnnounced ∧
      payload = notification.bytes := by
  rw [Notification.payload, length_bytes]
  split
  · next hsize => simp [hsize, eq_comm]
  · next hsize => simp [hsize]

theorem exists_error_iff : (∃ fault, notification.payload = .error fault) ↔
    maxAnnounced < notification.headerSize + notification.data.length := by
  rw [Notification.payload, length_bytes]
  split
  · next hsize => simp [Nat.not_lt.2 hsize]
  · next hsize => simp [Nat.not_le.1 hsize]

theorem conveyed_of_payload (h : notification.payload = .ok payload) :
    notification.Conveyed payload := by
  obtain ⟨hsize, rfl⟩ := payload_eq_ok_iff.1 h
  rw [← length_bytes] at hsize
  obtain ⟨bodies, hpackets, hflatten, -⟩ := notificationPackets_eq notification.bytes
  obtain ⟨size, hannounced, hrequest⟩ := notificationRequest_announces hsize
  refine ⟨⟨bodies, hpackets, hflatten⟩, ofPayload?_bytes notification, size, hannounced, ?_⟩
  intro config
  rw [Transfer.ofNotification, if_pos hsize, hrequest]

end Notification

/-! ### All writes -/

/-- **Everything that is written is told apart.**

* Commands are told by their bytes, and no command begins with the tag of a packet, as every write
  of an upload does.
* What is sent of a notification tells all that there is to it, is made up of the data of its
  commands, and is as long as is announced.
* Nothing is sent of a notification if and only if it is longer than can be announced. -/
theorem writes_told_apart :
    Function.Injective Command.encode ∧
    (∀ (command : Command) (role : PacketRole), command.encode.head? ≠ some role.tag) ∧
    (∀ payload, ∀ write ∈ uploadWrites payload, ∃ role : PacketRole,
      write.head? = some role.tag) ∧
    (∀ (notification : Notification) (payload : Bytes), notification.payload = .ok payload →
      notification.Conveyed payload) ∧
    ∀ notification : Notification, (∃ fault, notification.payload = .error fault) ↔
      65535 < notification.headerSize + notification.data.length := by
  refine ⟨Command.encode_injective, Command.head_ne_tag, fun payload write hwrite =>
    exists_tag_of_mem_uploadWrites hwrite, fun _ _ =>
    Notification.conveyed_of_payload, ?_⟩
  intro notification
  exact Notification.exists_error_iff

/-- An alert with three bytes of data. -/
theorem writes_told_apart_alert :
    (Notification.alert 7 0x80ff 5000 [1, 2, 3]).payload =
        .ok [1, 0, 7, 0, 0, 0x80, 0xff, 0x13, 0x88, 1, 2, 3] ∧
      (Notification.alert 7 0x80ff 5000 [1, 2, 3]).Conveyed
        [1, 0, 7, 0, 0, 0x80, 0xff, 0x13, 0x88, 1, 2, 3] := by
  have hpayload : (Notification.alert 7 0x80ff 5000 [1, 2, 3]).payload =
      .ok [1, 0, 7, 0, 0, 0x80, 0xff, 0x13, 0x88, 1, 2, 3] := by decide
  exact ⟨hpayload, writes_told_apart.2.2.2.1 _ _ hpayload⟩

end Timepiece
