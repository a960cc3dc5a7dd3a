import Mathlib
import Timepiece.Proofs.Link.NotificationLog
import Timepiece.Proofs.Link.Rendezvous
import Timepiece.Proofs.Link.TransferSteps
import Timepiece.Proofs.Link.Upload

/-!
# Notifications against any watch

A notification is announced by a request, which the watch permits or refuses, and a request
that was refused is made again some times.  While that goes on, the watch takes some writes
and refuses others, and answers arrive when they please: before they are due, late, several
times, or never.  Whatever the watch does, nothing of the notification is written before a
request was permitted, and nothing of it is written twice or out of order.

## Main definitions

* `NotificationRun`, `NotificationRun.step` — a notification among the events around it, with
  a log of what was seen.
* `NotificationRun.Stage` — how far a notification has come.
* `NotificationRun.Inv` — the invariant of a run.
* `NotificationRun.Safe` — what a notification promises.

## Main results

* `NotificationRun.Inv.step` — **every event keeps the invariant**.
* `NotificationRun.handshake_run` — **a notification is safe against any watch**.
-/

namespace Timepiece

/-! ### Runs -/

/-- A notification among the events around it. -/
structure NotificationRun where
  transfer : Transfer
  signals : Signals
  result : Option LinkResult
  log : NotificationLog

namespace NotificationRun

open NotificationLog

/-- A notification that has not begun.  One that is too large has ended. -/
def start (config : LinkConfig) (payload : Bytes) (signals : Signals) : NotificationRun :=
  match Transfer.ofNotification config payload with
  | .ok transfer => ⟨transfer, signals, none, []⟩
  | .error fault => ⟨.ofTasks [], signals, some (.error fault), []⟩

/-- What is seen of a step. -/
def marks (t : Transfer) (taken : Bool) (s : TransferStep) : NotificationLog :=
  (if t.tasks.head? = some (.arm .permission) then [.armed] else []) ++
    (s.attempt.map fun data => .attempt data taken).toList

/-- The run after a step of the notification. -/
def after (run : NotificationRun) (taken : Bool) (s : TransferStep) : NotificationRun :=
  let log := run.log ++ marks run.transfer taken s
  match s.progress with
  | .running transfer => ⟨transfer, s.signals, none, log⟩
  | .blocked => ⟨run.transfer, s.signals, none, log⟩
  | .finished result => ⟨run.transfer, s.signals, some result, log⟩

/-- The run after an event.  A notification that has ended makes no steps. -/
def step (config : LinkConfig) (run : NotificationRun) : UploadEvent → NotificationRun
  | .work now taken =>
    match run.result with
    | some _ => run
    | none => run.after taken (run.transfer.step config now taken run.signals)
  | .acknowledge =>
    { run with signals := { run.signals with ack := (run.signals.ack.fulfill ()).2 } }
  | .permit granted =>
    let (delivered, permission) := run.signals.permission.fulfill granted
    { run with
      signals := { run.signals with permission }
      log := run.log ++ if delivered then [.answered granted] else [] }

/-- The run after some events. -/
def run (config : LinkConfig) (payload : Bytes) (signals : Signals) (events : List UploadEvent) :
    NotificationRun :=
  events.foldl (step config) (start config payload signals)

variable {config : LinkConfig} {payload : Bytes} {now : Nat} {taken : Bool} {t : Transfer}
  {signals : Signals} {log tail : NotificationLog} {refused left : Nat} {fault : LinkFault}

/-! ### The invariant -/

/-- The slot while a request is made, and what has happened at it for the request. -/
inductive Round (permission : Rendezvous Bool) (ticket : Nat) : NotificationLog → Prop
  | armed : permission.slot = some ⟨ticket, true⟩ → permission.letters.lookup ticket = none →
    Round permission ticket [.armed]
  | answered {granted : Bool} : permission.slot = none →
    permission.letters.lookup ticket = some granted →
    Round permission ticket [.armed, .answered granted]

/-- The tasks of a notification whose request may still be made some times. -/
def asking (payload : Bytes) (left : Nat) : List Task :=
  Transfer.requestTasks (Transfer.notificationRequest payload) left ++ Transfer.dataTasks payload

/-- The tasks that write. -/
def writing (writes : List Bytes) : List Task := writes.map fun data => .write data none

/-- A notification that is refused was requested as often as it may be, and each request was
refused. -/
def Denied (config : LinkConfig) (payload : Bytes) (log : NotificationLog) (count : Nat) : Prop :=
  count = config.requests ∧
    accepted log = List.replicate config.requests (Transfer.notificationRequest payload) ∧
    replies log = refusals config.requests

/-- How far a notification has come. -/
inductive Stage (config : LinkConfig) (payload : Bytes) : NotificationRun → Prop
  /-- Some requests were refused; the next one is to be made, perhaps after a pause. -/
  | asking {t : Transfer} {signals : Signals} {log : NotificationLog} {refused left : Nat} :
    t.tasks = asking payload left ∨ (∃ ms, t.tasks = .pause ms :: asking payload left) →
    refused + left = config.requests → 0 < left →
    accepted log = List.replicate refused (Transfer.notificationRequest payload) →
    replies log = refusals refused → (refused = 0 ∨ signals.permission.slot = none) →
    Stage config payload ⟨t, signals, none, log⟩
  /-- A request is written. -/
  | requesting {t : Transfer} {signals : Signals} {log tail : NotificationLog}
    {refused left : Nat} :
    t.tasks = .write (Transfer.notificationRequest payload) (some .permission) ::
      .awaitPermission (Transfer.notificationRequest payload) left :: Transfer.dataTasks payload →
    refused + left = config.requests → 0 < left →
    accepted log = List.replicate refused (Transfer.notificationRequest payload) →
    replies log = refusals refused ++ tail → Round signals.permission t.ticket tail →
    Stage config payload ⟨t, signals, none, log⟩
  /-- The answer to a request is waited for. -/
  | waiting {t : Transfer} {signals : Signals} {log tail : NotificationLog} {refused left : Nat} :
    t.tasks = .awaitPermission (Transfer.notificationRequest payload) left ::
      Transfer.dataTasks payload →
    refused + left = config.requests → 0 < left →
    accepted log = List.replicate (refused + 1) (Transfer.notificationRequest payload) →
    replies log = refusals refused ++ tail → Round signals.permission t.ticket tail →
    Stage config payload ⟨t, signals, none, log⟩
  /-- A request was permitted, and the notification is written. -/
  | sending {t : Transfer} {signals : Signals} {log : NotificationLog} {refused : Nat}
    {pre suf : List Bytes} : t.tasks = writing suf → notificationWrites payload = pre ++ suf →
    suf ≠ [] → Permitted config payload log refused pre → signals.permission.slot = none →
    Stage config payload ⟨t, signals, none, log⟩
  | done {t : Transfer} {signals : Signals} {log : NotificationLog} {refused : Nat} :
    Permitted config payload log refused (notificationWrites payload) →
    signals.permission.slot = none → Stage config payload ⟨t, signals, some (.ok ()), log⟩
  | failed {t : Transfer} {signals : Signals} {log : NotificationLog} {fault : LinkFault}
    {count : Nat} {sent left : List Bytes} : Taken config payload log count sent left → left ≠ [] →
    (∀ count, fault = .permissionDenied count → Denied config payload log count) →
    signals.permission.slot = none → Stage config payload ⟨t, signals, some (.error fault), log⟩

/-- What stays true of a notification whatever happens. -/
structure Inv (config : LinkConfig) (payload : Bytes) (run : NotificationRun) : Prop where
  stage : Stage config payload run
  orderly : Orderly config payload run.log
  slot : run.signals.permission.Reachable

theorem requests_pos (config : LinkConfig) : 0 < config.requests := by
  rw [LinkConfig.requests]
  omega

theorem start_of_le (h : payload.length ≤ maxAnnounced) :
    start config payload signals =
      ⟨.ofTasks (asking payload config.requests), signals, none, []⟩ := by
  rw [start, Transfer.ofNotification, if_pos h]
  rfl

theorem inv_start (hsize : payload.length ≤ maxAnnounced) (h : signals.permission.Reachable) :
    Inv config payload (start config payload signals) := by
  rw [start_of_le hsize]
  refine ⟨?_, throughout_nil, h⟩
  exact .asking (.inl rfl) (Nat.zero_add _) (requests_pos config) rfl rfl (.inl rfl)

/-! ### What the steps keep -/

theorem marks_arm {rest : List Task} (h : t.tasks = .arm .permission :: rest)
    {progress : TransferProgress} : marks t taken ⟨progress, signals, none⟩ = [.armed] := by
  simp [marks, h]

/-- A step that does not arm the slot leaves no mark but of an attempt. -/
theorem marks_of_head (h : t.tasks.head? ≠ some (.arm .permission)) (s : TransferStep) :
    marks t taken s = (s.attempt.map fun data => .attempt data taken).toList := by
  rw [marks, if_neg h, List.nil_append]

/-- A step that neither arms the slot nor attempts to write leaves no mark. -/
theorem append_marks_of_silent (h : t.tasks.head? ≠ some (.arm .permission)) {s : TransferStep}
    (hsilent : s.attempt = none) : log ++ marks t taken s = log := by
  rw [marks_of_head h, hsilent]
  exact List.append_nil log

theorem Round.pending {permission : Rendezvous Bool} {ticket : Nat}
    (h : Round permission ticket tail) : Pending tail := by
  cases h with
  | armed _ _ => exact .inl rfl
  | @answered granted _ _ => exact .inr ⟨granted, rfl⟩

/-- A wait that ends with an answer was answered, and the slot is free again. -/
theorem Round.of_await {permission permission' : Rendezvous Bool} {ticket : Nat}
    {timeUp granted : Bool} (h : Round permission ticket tail)
    (hawait : permission.await? ticket timeUp = some (some granted, permission')) :
    tail = [.armed, .answered granted] ∧ permission'.slot = none := by
  obtain ⟨value, hvalue, hhere, rfl⟩ | ⟨hanswer, -, -⟩ := Rendezvous.await_cases hawait
  · obtain rfl := Option.some.inj hvalue
    cases h with
    | armed hslot hletters =>
      rw [Rendezvous.look, hletters, hslot] at hhere
      simp at hhere
    | answered hslot hletters =>
      rw [Rendezvous.look, hletters] at hhere
      obtain rfl := Mail.here.inj hhere
      refine ⟨rfl, ?_⟩
      show permission.slot.map _ = none
      rw [hslot, Option.map_none]
  · cases hanswer

/-- A step that arms the slot, or pauses before. -/
theorem Inv.ask (h : Inv config payload ⟨t, signals, none, log⟩)
    (htasks : t.tasks = asking payload left ∨ (∃ ms, t.tasks = .pause ms :: asking payload left))
    (hcount : refused + left = config.requests) (hleft : 0 < left)
    (haccepted : accepted log = List.replicate refused (Transfer.notificationRequest payload))
    (hreplies : replies log = refusals refused)
    (hslot : refused = 0 ∨ signals.permission.slot = none) :
    Inv config payload (step config ⟨t, signals, none, log⟩ (.work now taken)) := by
  rcases htasks with htasks | ⟨ms, htasks⟩
  · simp only [step, Transfer.step_arm_slot htasks (List.cons_ne_nil _ _), NotificationRun.after]
    rw [marks_arm htasks]
    refine ⟨.requesting rfl hcount hleft ?_ ?_ (.armed rfl h.slot.sound.lookup_next),
      h.orderly.concat_slot rfl, h.slot.arm⟩
    · rw [accepted_concat_armed, haccepted]
    · rw [replies_concat_armed, hreplies]
  · have hpauses : Transfer.Pauses t signals (asking payload left)
        (t.step config now taken signals) := Transfer.pauses_step htasks
    have hhead : t.tasks.head? ≠ some (.arm .permission) := by simp [htasks]
    simp only [step]
    generalize t.step config now taken signals = s at hpauses
    unfold NotificationRun.after
    cases hpauses with
    | begins =>
      rw [append_marks_of_silent hhead rfl]
      exact ⟨.asking (.inr ⟨ms, htasks⟩) hcount hleft haccepted hreplies hslot, h.orderly, h.slot⟩
    | goesOn =>
      rw [append_marks_of_silent hhead rfl]
      exact h
    | ends =>
      have hnext : t.proceed (asking payload left) =
          .running ⟨asking payload left, .ready, t.ticket⟩ :=
        Transfer.proceed_of_ne_nil (List.cons_ne_nil _ _)
      rw [append_marks_of_silent hhead rfl, hnext]
      exact ⟨.asking (.inl rfl) hcount hleft haccepted hreplies hslot, h.orderly, h.slot⟩

/-- A step that writes a request, or waits to write it. -/
theorem Inv.request (h : Inv config payload ⟨t, signals, none, log⟩)
    (htasks : t.tasks = .write (Transfer.notificationRequest payload) (some .permission) ::
      .awaitPermission (Transfer.notificationRequest payload) left :: Transfer.dataTasks payload)
    (hcount : refused + left = config.requests) (hleft : 0 < left)
    (haccepted : accepted log = List.replicate refused (Transfer.notificationRequest payload))
    (hreplies : replies log = refusals refused ++ tail)
    (hround : Round signals.permission t.ticket tail) :
    Inv config payload (step config ⟨t, signals, none, log⟩ (.work now taken)) := by
  have hlt : refused < config.requests := by omega
  have hdue : Due config payload log (Transfer.notificationRequest payload) :=
    .request rfl hlt haccepted hreplies hround.pending
  have hattempts : Transfer.Attempts t taken signals _ _ _ (t.step config now taken signals) :=
    Transfer.attempts_step htasks
  have hhead : t.tasks.head? ≠ some (.arm .permission) := by simp [htasks]
  simp only [step]
  generalize t.step config now taken signals = s at hattempts
  rw [NotificationRun.after, marks_of_head hhead]
  cases hattempts with
  | rest =>
    rw [Option.map_none, Option.toList_none, List.append_nil]
    exact h
  | taken htaken =>
    subst htaken
    rw [Transfer.proceed_of_ne_nil (List.cons_ne_nil _ _)]
    refine ⟨.waiting rfl hcount hleft ?_ ?_ hround, h.orderly.concat_attempt hdue, h.slot⟩
    · rw [List.replicate_succ', ← haccepted]
      exact accepted_concat_taken
    · exact replies_concat_attempt.trans hreplies
  | again htaken =>
    subst htaken
    refine ⟨.requesting htasks hcount hleft ?_ ?_ hround, h.orderly.concat_attempt hdue, h.slot⟩
    · exact accepted_concat_refused.trans haccepted
    · exact replies_concat_attempt.trans hreplies
  | refused htaken =>
    subst htaken
    have hrefused : accepted (log ++ [.attempt (Transfer.notificationRequest payload) false]) =
        List.replicate refused (Transfer.notificationRequest payload) :=
      accepted_concat_refused.trans haccepted
    exact ⟨.failed (.of_requests hlt.le hrefused) (notificationWrites_ne_nil payload)
      (fun _ heq => nomatch heq) rfl, h.orderly.concat_attempt hdue, h.slot.drop.disarm⟩

/-- A step that waits for the answer to a request. -/
theorem Inv.wait (h : Inv config payload ⟨t, signals, none, log⟩)
    (htasks : t.tasks = .awaitPermission (Transfer.notificationRequest payload) left ::
      Transfer.dataTasks payload)
    (hcount : refused + left = config.requests) (hleft : 0 < left)
    (haccepted : accepted log =
      List.replicate (refused + 1) (Transfer.notificationRequest payload))
    (hreplies : replies log = refusals refused ++ tail)
    (hround : Round signals.permission t.ticket tail) :
    Inv config payload (step config ⟨t, signals, none, log⟩ (.work now taken)) := by
  have hasks : Transfer.Asks config t signals _ _ _ (t.step config now taken signals) :=
    Transfer.asks_step htasks
  have hhead : t.tasks.head? ≠ some (.arm .permission) := by simp [htasks]
  simp only [step]
  generalize t.step config now taken signals = s at hasks
  unfold NotificationRun.after
  cases hasks with
  | begins =>
    rw [append_marks_of_silent hhead rfl]
    exact ⟨.waiting htasks hcount hleft haccepted hreplies hround, h.orderly, h.slot⟩
  | goesOn =>
    rw [append_marks_of_silent hhead rfl]
    exact h
  | granted hawait =>
    obtain ⟨rfl, hslot⟩ := hround.of_await hawait
    have hlt : refused < config.requests := by omega
    have haccepted : accepted log =
        List.replicate (refused + 1) (Transfer.notificationRequest payload) ++ [] := by
      rw [List.append_nil, haccepted]
    have hwriting : Transfer.dataTasks payload = writing (notificationWrites payload) := by
      simp [Transfer.dataTasks, writing, notificationWrites]
    have hnext : t.proceed (Transfer.dataTasks payload) =
        .running ⟨Transfer.dataTasks payload, .ready, t.ticket⟩ :=
      Transfer.proceed_of_ne_nil (by simp [Transfer.dataTasks])
    rw [append_marks_of_silent hhead rfl, hnext]
    exact ⟨.sending hwriting rfl (by simp [notificationWrites]) ⟨hlt, haccepted, hreplies⟩ hslot,
      h.orderly, h.slot.await hawait⟩
  | again hmore hawait =>
    obtain ⟨rfl, hslot⟩ := hround.of_await hawait
    have hnext : refused + 1 + (left - 1) = config.requests := by omega
    rw [append_marks_of_silent hhead rfl]
    refine ⟨.asking (.inr ⟨config.permissionRetry, rfl⟩) hnext (by omega) haccepted ?_
      (.inr hslot), h.orderly, h.slot.await hawait⟩
    rw [hreplies]
    rfl
  | denied hlast hawait =>
    obtain ⟨rfl, hslot⟩ := hround.of_await hawait
    have hall : refused + 1 = config.requests := by omega
    have hdenied : Denied config payload log config.requests := by
      refine ⟨rfl, ?_, ?_⟩
      · rw [← hall, haccepted]
      · rw [← hall, hreplies]
        rfl
    rw [append_marks_of_silent hhead rfl]
    refine ⟨.failed (.of_requests hall.le haccepted) (notificationWrites_ne_nil payload) ?_ hslot,
      h.orderly, h.slot.await hawait⟩
    intro count heq
    obtain rfl := LinkFault.permissionDenied.inj heq
    exact hdenied
  | missing hawait =>
    rw [append_marks_of_silent hhead rfl]
    have hlimit : refused + 1 ≤ config.requests := by omega
    refine ⟨.failed (.of_requests hlimit haccepted) (notificationWrites_ne_nil payload) ?_
      (Rendezvous.slot_of_await_none hawait), h.orderly, h.slot.await hawait⟩
    intro _ heq
    cases heq

/-- A step that writes a part of the notification, or waits to write it. -/
theorem Inv.send {data : Bytes} {pre suf : List Bytes}
    (h : Inv config payload ⟨t, signals, none, log⟩) (htasks : t.tasks = writing (data :: suf))
    (hwrites : notificationWrites payload = pre ++ data :: suf)
    (hpermitted : Permitted config payload log refused pre)
    (hslot : signals.permission.slot = none) :
    Inv config payload (step config ⟨t, signals, none, log⟩ (.work now taken)) := by
  have hdue : Due config payload log data := .write hwrites hpermitted
  have hattempts : Transfer.Attempts t taken signals data none (writing suf)
      (t.step config now taken signals) := Transfer.attempts_step htasks
  have hhead : t.tasks.head? ≠ some (.arm .permission) := by simp [htasks, writing]
  simp only [step]
  generalize t.step config now taken signals = s at hattempts
  rw [NotificationRun.after, marks_of_head hhead]
  cases hattempts with
  | rest =>
    rw [Option.map_none, Option.toList_none, List.append_nil]
    exact h
  | taken htaken =>
    subst htaken
    -- what was written joins what was taken; with the commit the notification ends
    cases suf with
    | nil =>
      have hall : Permitted config payload (log ++ [.attempt data true]) refused
          (notificationWrites payload) := hwrites ▸ hpermitted.concat_taken
      exact ⟨.done hall hslot, h.orderly.concat_attempt hdue, h.slot⟩
    | cons next suf =>
      have hnext : notificationWrites payload = (pre ++ [data]) ++ next :: suf := by
        rw [hwrites, List.append_assoc, List.singleton_append]
      exact ⟨.sending rfl hnext (List.cons_ne_nil _ _) hpermitted.concat_taken hslot,
        h.orderly.concat_attempt hdue, h.slot⟩
  | again htaken =>
    subst htaken
    exact ⟨.sending htasks hwrites (List.cons_ne_nil _ _) hpermitted.concat_refused hslot,
      h.orderly.concat_attempt hdue, h.slot⟩
  | refused htaken =>
    subst htaken
    exact ⟨.failed (hpermitted.concat_refused.taken hwrites) (List.cons_ne_nil _ _)
      (fun _ heq => nomatch heq) hslot, h.orderly.concat_attempt hdue, h.slot⟩

/-- Every step of the notification keeps the invariant. -/
theorem Inv.work {run : NotificationRun} (h : Inv config payload run) :
    Inv config payload (step config run (.work now taken)) := by
  cases h.stage with
  | asking htasks hcount hleft haccepted hreplies hslot =>
    exact h.ask htasks hcount hleft haccepted hreplies hslot
  | requesting htasks hcount hleft haccepted hreplies hround =>
    exact h.request htasks hcount hleft haccepted hreplies hround
  | waiting htasks hcount hleft haccepted hreplies hround =>
    exact h.wait htasks hcount hleft haccepted hreplies hround
  | @sending t signals log refused pre suf htasks hwrites hleft hpermitted hslot =>
    cases suf with
    | nil => exact absurd rfl hleft
    | cons data suf => exact h.send htasks hwrites hpermitted hslot
  | done _ _ => exact h
  | failed _ _ _ _ => exact h

/-- An answer that nobody waits for changes nothing. -/
theorem step_permit_of_unarmed {run : NotificationRun} {granted : Bool}
    (h : run.signals.permission.slot = none) : step config run (.permit granted) = run := by
  have hfulfill : run.signals.permission.fulfill granted = (false, run.signals.permission) := by
    rw [Rendezvous.fulfill, h]
  simp only [step, hfulfill, Bool.false_eq_true, if_false, List.append_nil]

/-- An answer is delivered to the request that is made, if that has none yet. -/
theorem Round.permit {marks : NotificationLog} (h : Round signals.permission t.ticket tail)
    (config : LinkConfig) (hreplies : replies log = marks ++ tail) (granted : Bool) : ∃ tail',
      replies (step config ⟨t, signals, none, log⟩ (.permit granted)).log = marks ++ tail' ∧
      accepted (step config ⟨t, signals, none, log⟩ (.permit granted)).log = accepted log ∧
      Round (step config ⟨t, signals, none, log⟩ (.permit granted)).signals.permission t.ticket
        tail' := by
  cases h with
  | armed hslot _ =>
    have hfulfill : signals.permission.fulfill granted = (true, { signals.permission with
        slot := none, letters := (t.ticket, granted) :: signals.permission.letters }) := by
      rw [Rendezvous.fulfill, hslot]
    simp only [step, hfulfill, if_true]
    refine ⟨[.armed, .answered granted], ?_, accepted_concat_answered, .answered rfl (by simp)⟩
    rw [replies_concat_answered, if_neg (by simp [hreplies]), hreplies, List.append_assoc]
    rfl
  | answered hslot hletters =>
    have hsame : step config ⟨t, signals, none, log⟩ (.permit granted) =
        ⟨t, signals, none, log⟩ := step_permit_of_unarmed hslot
    rw [hsame]
    exact ⟨_, hreplies, rfl, .answered hslot hletters⟩

/-- An answer before the first request is for somebody else. -/
theorem step_permit_of_none (config : LinkConfig) (run : NotificationRun) (granted : Bool)
    (h : replies run.log = []) :
    replies (step config run (.permit granted)).log = [] ∧
      accepted (step config run (.permit granted)).log = accepted run.log := by
  simp only [step]
  split
  · rw [replies_concat_answered, if_pos h, accepted_concat_answered]
    exact ⟨rfl, rfl⟩
  · rw [List.append_nil]
    exact ⟨h, rfl⟩

theorem Inv.orderly_permit {run : NotificationRun} (h : Inv config payload run) (granted : Bool) :
    Orderly config payload (step config run (.permit granted)).log := by
  simp only [step]
  split
  · exact h.orderly.concat_slot rfl
  · rw [List.append_nil]
    exact h.orderly

/-- An answer is for the request that is made, or is lost. -/
theorem Inv.permit {run : NotificationRun} (h : Inv config payload run) (granted : Bool) :
    Inv config payload (step config run (.permit granted)) := by
  refine ⟨?_, h.orderly_permit granted, h.slot.fulfill⟩
  cases h.stage with
  | @asking t signals log _ _ htasks hcount hleft haccepted hreplies hslot =>
    rcases hslot with rfl | hslot
    · obtain ⟨hnone, hsame⟩ :=
        step_permit_of_none config ⟨t, signals, none, log⟩ granted hreplies
      exact .asking htasks hcount hleft (hsame.trans haccepted) hnone (.inl rfl)
    · rw [step_permit_of_unarmed hslot]
      exact .asking htasks hcount hleft haccepted hreplies (.inr hslot)
  | requesting htasks hcount hleft haccepted hreplies hround =>
    obtain ⟨tail', hreplies', hsame, hround'⟩ := hround.permit config hreplies granted
    exact .requesting htasks hcount hleft (hsame.trans haccepted) hreplies' hround'
  | waiting htasks hcount hleft haccepted hreplies hround =>
    obtain ⟨tail', hreplies', hsame, hround'⟩ := hround.permit config hreplies granted
    exact .waiting htasks hcount hleft (hsame.trans haccepted) hreplies' hround'
  | sending htasks hwrites hleft hpermitted hslot =>
    rw [step_permit_of_unarmed hslot]
    exact .sending htasks hwrites hleft hpermitted hslot
  | done hpermitted hslot =>
    rw [step_permit_of_unarmed hslot]
    exact .done hpermitted hslot
  | failed htaken hleft hdenied hslot =>
    rw [step_permit_of_unarmed hslot]
    exact .failed htaken hleft hdenied hslot

/-- An acknowledgement changes nothing for a notification. -/
theorem Inv.acknowledge {run : NotificationRun} (h : Inv config payload run) :
    Inv config payload (step config run .acknowledge) := by
  refine ⟨?_, h.orderly, h.slot⟩
  cases h.stage with
  | asking htasks hcount hleft haccepted hreplies hslot =>
    exact .asking htasks hcount hleft haccepted hreplies hslot
  | requesting htasks hcount hleft haccepted hreplies hround =>
    exact .requesting htasks hcount hleft haccepted hreplies hround
  | waiting htasks hcount hleft haccepted hreplies hround =>
    exact .waiting htasks hcount hleft haccepted hreplies hround
  | sending htasks hwrites hleft hpermitted hslot =>
    exact .sending htasks hwrites hleft hpermitted hslot
  | done hpermitted hslot => exact .done hpermitted hslot
  | failed htaken hleft hdenied hslot => exact .failed htaken hleft hdenied hslot

/-- **Every event keeps the invariant.** -/
theorem Inv.step {run : NotificationRun} (h : Inv config payload run) (event : UploadEvent) :
    Inv config payload (run.step config event) := by
  cases event with
  | work now taken => exact h.work
  | acknowledge => exact h.acknowledge
  | permit granted => exact h.permit granted

theorem inv_run (hsize : payload.length ≤ maxAnnounced) (h : signals.permission.Reachable)
    (events : List UploadEvent) : Inv config payload (run config payload signals events) := by
  -- by induction on the events, from any state that has the invariant
  have hall : ∀ {r : NotificationRun}, Inv config payload r →
      Inv config payload (events.foldl (NotificationRun.step config) r) := by
    induction events with
    | nil => exact fun hr => hr
    | cons event rest ih => exact fun hr => ih (hr.step event)
  exact hall (inv_start hsize h)

/-! ### Safety -/

/-- What a notification promises, however the watch behaves. -/
structure Safe (config : LinkConfig) (payload : Bytes) (run : NotificationRun) : Prop where
  /-- The watch took requests, at most as many as may be made, and then writes in their order,
  none of them twice and none before the last request was permitted. -/
  taken : ∃ count sent left, Taken config payload run.log count sent left
  /-- Every write was attempted when it was due. -/
  orderly : Orderly config payload run.log
  /-- The notification succeeds if and only if the watch took the commit. -/
  ok_iff : run.result = some (.ok ()) ↔
    Command.commitNotification.encode ∈ NotificationLog.accepted run.log
  /-- A notification that is refused was requested as often as it may be. -/
  denied : ∀ count, run.result = some (.error (.permissionDenied count)) →
    Denied config payload run.log count
  /-- A notification that has ended leaves the slot unarmed. -/
  unarmed : run.result.isSome = true → run.signals.permission.isArmed = false

/-- Nothing but requests was taken of a notification that has not succeeded. -/
theorem exists_taken_of_requests {run : NotificationRun} {count : Nat}
    (hcount : count ≤ config.requests) (haccepted : accepted run.log =
      List.replicate count (Transfer.notificationRequest payload)) (hnone : run.result = none) :
    ∃ count sent left, Taken config payload run.log count sent left ∧
      (run.result = some (.ok ()) ↔ left = []) := by
  refine ⟨count, [], _, .of_requests hcount haccepted, ?_, ?_⟩
  · intro hok
    exact nomatch hnone.symm.trans hok
  · intro hempty
    exact absurd hempty (notificationWrites_ne_nil payload)

theorem Stage.exists_taken {run : NotificationRun} (h : Stage config payload run) :
    ∃ count sent left, Taken config payload run.log count sent left ∧
      (run.result = some (.ok ()) ↔ left = []) := by
  cases h with
  | asking _ hcount hleft haccepted => exact exists_taken_of_requests (by omega) haccepted rfl
  | requesting _ hcount hleft haccepted => exact exists_taken_of_requests (by omega) haccepted rfl
  | waiting _ hcount hleft haccepted => exact exists_taken_of_requests (by omega) haccepted rfl
  | sending _ hsplit hleft hpermitted _ =>
    exact ⟨_, _, _, hpermitted.taken hsplit, (fun h => nomatch h), fun h => absurd h hleft⟩
  | done hpermitted _ =>
    exact ⟨_, _, _, hpermitted.taken (List.append_nil _).symm, fun _ => rfl, fun _ => rfl⟩
  | failed htaken hleft _ _ =>
    exact ⟨_, _, _, htaken, (fun h => nomatch h), fun h => absurd h hleft⟩

theorem Stage.denied {run : NotificationRun} (h : Stage config payload run) {count : Nat}
    (hresult : run.result = some (.error (.permissionDenied count))) :
    Denied config payload run.log count := by
  cases h with
  | asking | requesting | waiting | sending | done => exact nomatch hresult
  | failed _ _ hdenied _ => exact hdenied count (Except.error.inj (Option.some.inj hresult))

theorem Stage.unarmed {run : NotificationRun} (h : Stage config payload run)
    (hresult : run.result.isSome = true) : run.signals.permission.isArmed = false := by
  cases h with
  | asking | requesting | waiting | sending => exact nomatch hresult
  | done _ hslot | failed _ _ _ hslot => rw [Rendezvous.isArmed, hslot, Option.isSome_none]

theorem Inv.safe {run : NotificationRun} (h : Inv config payload run) :
    Safe config payload run where
  taken := by
    obtain ⟨count, sent, left, htaken, -⟩ := h.stage.exists_taken
    exact ⟨count, sent, left, htaken⟩
  orderly := h.orderly
  ok_iff := by
    obtain ⟨count, sent, left, htaken, hok⟩ := h.stage.exists_taken
    rw [hok, htaken.accepted, commitNotification_mem_iff htaken.writes]
  denied := fun _ => h.stage.denied
  unarmed := h.stage.unarmed

/-- A notification that is too large is not written, and has ended. -/
theorem run_of_lt (h : maxAnnounced < payload.length) (events : List UploadEvent) :
    (run config payload signals events).result =
        some (.error (.payloadTooLarge payload.length)) ∧
      ∀ mark ∈ (run config payload signals events).log, mark.isAttempt = false := by
  induction events using List.reverseRecOn with
  | nil =>
    have hlarge : ¬ payload.length ≤ maxAnnounced := Nat.not_le.2 h
    simp [run, start, Transfer.ofNotification, hlarge]
  | append_singleton past event ih =>
    obtain ⟨hresult, hlog⟩ := ih
    have hconcat : run config payload signals (past ++ [event]) =
        step config (run config payload signals past) event := by
      rw [run, List.foldl_append]
      rfl
    rw [hconcat]
    cases event with
    | work now taken =>
      simp only [step, hresult]
      exact ⟨trivial, hlog⟩
    | acknowledge => exact ⟨hresult, hlog⟩
    | permit granted =>
      refine ⟨hresult, List.forall_mem_append.2 ⟨hlog, ?_⟩⟩
      split <;> simp [NotificationMark.isAttempt]

/-- **A notification is safe against any watch.**  Its request announces its size, its writes
hold all of it, and whatever the watch does, what it takes is as promised.  Nothing is written
of a notification whose size cannot be announced. -/
theorem handshake_run (config : LinkConfig) (payload : Bytes) (signals : Signals)
    (h : signals.permission.Reachable) (events : List UploadEvent) :
    (payload.length ≤ maxAnnounced →
      (∃ size : UInt16, size.toNat = payload.length ∧
        Transfer.notificationRequest payload = (Command.announceNotification size).encode) ∧
      (∃ bodies : List Bytes, notificationWrites payload =
          bodies.map (fun body => (Command.notificationData body).encode) ++
            [Command.commitNotification.encode] ∧
        bodies.flatten = payload ∧ ∀ body ∈ bodies, body.length ≤ 16) ∧
      Safe config payload (run config payload signals events)) ∧
    (maxAnnounced < payload.length →
      (run config payload signals events).result =
          some (.error (.payloadTooLarge payload.length)) ∧
        ∀ mark ∈ (run config payload signals events).log, mark.isAttempt = false) := by
  refine ⟨fun hsize => ⟨notificationRequest_announces hsize, ?_, (inv_run hsize h events).safe⟩,
    fun hlarge => run_of_lt hlarge events⟩
  obtain ⟨bodies, hpackets, hflatten, hlength⟩ := notificationPackets_eq payload
  exact ⟨bodies, by rw [notificationWrites, hpackets], hflatten, hlength⟩

/-- A refusal comes before the first request and another one after it; the second request is
permitted while it is still refused by the radio. -/
def insistent : List UploadEvent :=
  [.permit false, .work 0 true, .work 0 true, .permit false, .work 0 true, .work 0 true,
    .permit true, .work 0 true, .work 50 true, .work 50 true, .work 50 false, .permit true,
    .work 51 true, .work 51 true, .work 51 true, .work 51 true, .work 51 true]

theorem handshake_run_insistent :
    (run {} [7] .empty insistent).result.map Except.isOk = some true ∧
      NotificationLog.accepted (run {} [7] .empty insistent).log =
        [[0x23, 0, 1], [0x23, 0, 1], [0x24, 7], [0x25]] ∧
      Safe {} [7] (run {} [7] .empty insistent) := by
  have hsafe := ((handshake_run {} [7] .empty .empty insistent).1 (by decide)).2.2
  exact ⟨by decide +kernel, by decide +kernel, hsafe⟩

end NotificationRun

end Timepiece
