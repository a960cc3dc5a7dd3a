import Mathlib
import Timepiece.Link.Transfer
import Timepiece.Proofs.Link.Histories

/-!
# What is seen of a notification

A notification is seen as a row of marks: the slot for permissions is armed and answered, and
writes are attempted that the watch takes or refuses.  From such a log can be told what the
watch took and how often it refused the request, and so when a write is due.

## Main definitions

* `NotificationMark`, `NotificationLog` — what is seen.
* `NotificationLog.accepted`, `NotificationLog.replies` — what the watch took, and what
  happened at the slot.
* `notificationWrites` — the writes of a notification that is permitted.
* `NotificationLog.Permitted` — a request was permitted, and some of the writes were taken.
* `NotificationLog.Taken` — what the watch can have taken at any time.
* `NotificationLog.Due`, `NotificationLog.Orderly` — when a write may be attempted, and that
  all were.

## Main results

* `notificationRequest_announces` — **a request announces the size** of the notification.
* `notificationPackets_eq` — **nothing of the notification is lost** in its writes.
* `commitNotification_mem_iff` — the commit is taken if and only if all writes are.
-/

namespace Timepiece

/-! ### Logs -/

/-- What is seen of a notification. -/
inductive NotificationMark where
  /-- The slot for permissions was armed. -/
  | armed
  /-- An answer was delivered to the slot. -/
  | answered (granted : Bool)
  /-- A write was attempted, and the watch took it or not. -/
  | attempt (data : Bytes) (taken : Bool)
  deriving DecidableEq, Repr

/-- Whether a mark is of an attempt to write, and not of the slot. -/
def NotificationMark.isAttempt : NotificationMark → Bool
  | attempt _ _ => true
  | _ => false

/-- What was seen of a notification, in order. -/
abbrev NotificationLog := List NotificationMark

namespace NotificationLog

/-- The writes that the watch took. -/
def accepted (log : NotificationLog) : List Bytes :=
  log.filterMap fun
    | .attempt data true => some data
    | _ => none

/-- What happened at the slot, from the first time on that it was armed. -/
def replies (log : NotificationLog) : NotificationLog :=
  (log.filter fun mark => !mark.isAttempt).dropWhile (· != .armed)

/-- Rounds in which the slot was armed and a refusal came. -/
def refusals : Nat → NotificationLog
  | 0 => []
  | count + 1 => refusals count ++ [.armed, .answered false]

variable {log : NotificationLog} {mark : NotificationMark} {data : Bytes}

@[simp] theorem accepted_concat_taken :
    accepted (log ++ [.attempt data true]) = accepted log ++ [data] := by
  simp [accepted]

@[simp] theorem accepted_concat_refused :
    accepted (log ++ [.attempt data false]) = accepted log := by
  simp [accepted]

@[simp] theorem accepted_concat_armed : accepted (log ++ [.armed]) = accepted log := by
  simp [accepted]

@[simp] theorem accepted_concat_answered {granted : Bool} :
    accepted (log ++ [.answered granted]) = accepted log := by
  simp [accepted]

@[simp] theorem replies_concat_attempt {taken : Bool} :
    replies (log ++ [.attempt data taken]) = replies log := by
  simp [replies, NotificationMark.isAttempt]

@[simp] theorem replies_concat_armed : replies (log ++ [.armed]) = replies log ++ [.armed] := by
  simp only [replies, List.filter_append, List.dropWhile_append]
  split
  · next h =>
    rw [List.isEmpty_iff.1 h]
    rfl
  · rfl

/-- Once the slot was armed, every answer counts; before, it was for somebody else. -/
theorem replies_concat_answered {granted : Bool} : replies (log ++ [.answered granted]) =
    if replies log = [] then [] else replies log ++ [.answered granted] := by
  unfold replies
  rw [List.filter_append, List.dropWhile_append]
  split
  · next h =>
    rw [if_pos (List.isEmpty_iff.1 h)]
    rfl
  · next h =>
    rw [if_neg fun hnil => h (List.isEmpty_iff.2 hnil)]
    rfl

end NotificationLog

/-! ### The writes of a notification -/

/-- The writes of a notification, once it is permitted. -/
def notificationWrites (payload : Bytes) : List Bytes :=
  notificationPackets payload ++ [Command.commitNotification.encode]

theorem notificationWrites_ne_nil (payload : Bytes) : notificationWrites payload ≠ [] := by
  simp [notificationWrites]

/-- A request announces the size of the notification. -/
theorem notificationRequest_announces {payload : Bytes} (h : payload.length ≤ maxAnnounced) :
    ∃ size : UInt16, size.toNat = payload.length ∧
      Transfer.notificationRequest payload = (Command.announceNotification size).encode := by
  refine ⟨UInt16.ofNat payload.length, ?_, rfl⟩
  have hlt : payload.length < 2 ^ 16 := Nat.lt_of_le_of_lt h (by decide)
  exact UInt16.toNat_ofNat_of_lt hlt

/-- Nothing of the notification is lost in its writes. -/
theorem notificationPackets_eq (payload : Bytes) : ∃ bodies : List Bytes,
    notificationPackets payload = bodies.map (fun body => (Command.notificationData body).encode) ∧
      bodies.flatten = payload ∧ ∀ body ∈ bodies, body.length ≤ 16 := by
  refine ⟨pieces notificationData payload, rfl, flatten_pieces _ payload, ?_⟩
  intro body hbody
  exact length_of_mem_pieces (by decide) hbody

/-- A request is not the commit. -/
theorem notificationRequest_ne_commit (payload : Bytes) :
    Transfer.notificationRequest payload ≠ Command.commitNotification.encode := by
  intro h
  have hopcode : (0x23 : UInt8) = 0x25 := (List.cons.inj h).1
  exact absurd hopcode (by decide)

/-- The commit is none of the writes before it. -/
theorem commitNotification_not_mem (payload : Bytes) :
    Command.commitNotification.encode ∉ notificationPackets payload := by
  intro h
  obtain ⟨body, -, heq⟩ := List.mem_map.1 h
  have hopcode : (0x24 : UInt8) = 0x25 := (List.cons.inj heq).1
  exact absurd hopcode (by decide)

/-- The commit is taken if and only if all writes are. -/
theorem commitNotification_mem_iff {payload : Bytes} {sent left : List Bytes} {count : Nat}
    (h : notificationWrites payload = sent ++ left) :
    Command.commitNotification.encode ∈
        List.replicate count (Transfer.notificationRequest payload) ++ sent ↔ left = [] := by
  rw [List.mem_append]
  constructor
  · rintro (hmem | hmem)
    · exact absurd (List.eq_of_mem_replicate hmem).symm (notificationRequest_ne_commit payload)
    · -- if something were left, all that was sent would stand before the commit
      rcases List.eq_nil_or_concat left with rfl | ⟨others, last, rfl⟩
      · rfl
      · rw [List.concat_eq_append, ← List.append_assoc] at h
        obtain ⟨hpackets, -⟩ := List.append_inj' h rfl
        refine absurd ?_ (commitNotification_not_mem payload)
        rw [hpackets]
        exact List.mem_append_left others hmem
  · rintro rfl
    rw [List.append_nil] at h
    right
    rw [← h]
    simp [notificationWrites]

/-! ### When writes are due -/

namespace NotificationLog

variable {config : LinkConfig} {payload : Bytes} {log : NotificationLog} {data : Bytes}
  {refused : Nat} {sent : List Bytes}

/-- After some requests that were refused, the watch took one more and permitted it, and has
taken some of the writes since. -/
structure Permitted (config : LinkConfig) (payload : Bytes) (log : NotificationLog)
    (refused : Nat) (sent : List Bytes) : Prop where
  limit : refused < config.requests
  accepted : accepted log =
    List.replicate (refused + 1) (Transfer.notificationRequest payload) ++ sent
  replies : replies log = refusals refused ++ [.armed, .answered true]

/-- The watch took some requests, and after the last of them was permitted, some of the writes;
the others are left. -/
structure Taken (config : LinkConfig) (payload : Bytes) (log : NotificationLog) (count : Nat)
    (sent left : List Bytes) : Prop where
  limit : count ≤ config.requests
  accepted : accepted log =
    List.replicate count (Transfer.notificationRequest payload) ++ sent
  writes : notificationWrites payload = sent ++ left
  permitted : sent ≠ [] → ∃ refused, count = refused + 1 ∧
    replies log = refusals refused ++ [.armed, .answered true]

/-- What may have happened at the slot for a request that is made. -/
def Pending (tail : NotificationLog) : Prop :=
  tail = [.armed] ∨ ∃ granted, tail = [.armed, .answered granted]

/-- The moment at which a write may be attempted.  For a request, the slot was armed, and all
requests before it were taken and refused; it may already be answered.  For another write, the
last request was permitted, and everything before it was taken. -/
inductive Due (config : LinkConfig) (payload : Bytes) (log : NotificationLog) (data : Bytes) :
    Prop
  | request {refused : Nat} {tail : NotificationLog} :
    data = Transfer.notificationRequest payload → refused < config.requests →
    accepted log = List.replicate refused (Transfer.notificationRequest payload) →
    replies log = refusals refused ++ tail → Pending tail → Due config payload log data
  | write {refused : Nat} {pre suf : List Bytes} : notificationWrites payload = pre ++ data :: suf →
    Permitted config payload log refused pre → Due config payload log data

/-- Every write was attempted when it was due. -/
def Orderly (config : LinkConfig) (payload : Bytes) (log : NotificationLog) : Prop :=
  Throughout (fun earlier mark => ∀ data taken, mark = .attempt data taken →
    Due config payload earlier data) log

theorem Orderly.concat_attempt (h : Orderly config payload log) {taken : Bool}
    (hdue : Due config payload log data) :
    Orderly config payload (log ++ [.attempt data taken]) := by
  refine throughout_concat.2 ⟨h, ?_⟩
  intro data' taken' heq
  obtain ⟨rfl, -⟩ := NotificationMark.attempt.inj heq
  exact hdue

theorem Orderly.concat_slot {mark : NotificationMark} (h : Orderly config payload log)
    (hmark : mark.isAttempt = false) : Orderly config payload (log ++ [mark]) := by
  refine throughout_concat.2 ⟨h, ?_⟩
  intro data taken heq
  rw [heq] at hmark
  exact nomatch hmark

/-- An attempt that is refused changes nothing. -/
theorem Permitted.concat_refused (h : Permitted config payload log refused sent) :
    Permitted config payload (log ++ [.attempt data false]) refused sent where
  limit := h.limit
  accepted := by rw [accepted_concat_refused, h.accepted]
  replies := by rw [replies_concat_attempt, h.replies]

/-- A write that is taken joins those before it. -/
theorem Permitted.concat_taken (h : Permitted config payload log refused sent) :
    Permitted config payload (log ++ [.attempt data true]) refused (sent ++ [data]) where
  limit := h.limit
  accepted := by rw [accepted_concat_taken, h.accepted, List.append_assoc]
  replies := by rw [replies_concat_attempt, h.replies]

/-- Before a request is permitted, nothing but requests is taken. -/
theorem Taken.of_requests {count : Nat} (hlimit : count ≤ config.requests)
    (haccepted : NotificationLog.accepted log =
      List.replicate count (Transfer.notificationRequest payload)) :
    Taken config payload log count [] (notificationWrites payload) where
  limit := hlimit
  accepted := by rw [haccepted, List.append_nil]
  writes := rfl
  permitted := fun h => absurd rfl h

theorem Permitted.taken {left : List Bytes} (h : Permitted config payload log refused sent)
    (hwrites : notificationWrites payload = sent ++ left) :
    Taken config payload log (refused + 1) sent left where
  limit := h.limit
  accepted := h.accepted
  writes := hwrites
  permitted := fun _ => ⟨refused, rfl, h.replies⟩

end NotificationLog

end Timepiece
