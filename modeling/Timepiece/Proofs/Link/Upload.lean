import Mathlib
import Timepiece.Proofs.Link.Rendezvous
import Timepiece.Proofs.Link.TransferSteps
import Timepiece.Proofs.Link.UploadLog

/-!
# Uploads against any watch

While an upload goes on, the watch takes some writes and refuses others, and
acknowledgements arrive when they please: before they are due, late, several times, or
never.  Whatever the watch does, it takes the writes in their order and none of them twice,
and no unit of the upload is begun before the one before it was acknowledged.

## Main definitions

* `UploadRun`, `UploadRun.step` — an upload among the events around it, with a log of what
  was seen.
* `UploadRun.Stage` — how far an upload has come.
* `UploadRun.Inv` — the invariant of a run.
* `UploadRun.Safe` — what an upload promises.

## Main results

* `UploadRun.Inv.step` — **every event keeps the invariant**.
* `UploadRun.safe_run` — **an upload is safe against any watch**.
-/

namespace Timepiece

/-! ### Runs -/

/-- What happens around an upload. -/
inductive UploadEvent where
  /-- The upload makes a step at some moment; a write that it attempts is taken or not. -/
  | work (now : Nat) (taken : Bool)
  /-- An acknowledgement arrives. -/
  | acknowledge
  /-- The answer to the request of a notification arrives. -/
  | permit (granted : Bool)
  deriving DecidableEq, Repr

/-- An upload among the events around it. -/
structure UploadRun where
  transfer : Transfer
  signals : Signals
  result : Option LinkResult
  log : UploadLog

namespace UploadRun

open UploadLog

/-- An upload that has not begun. -/
def start (payload : Bytes) (signals : Signals) : UploadRun :=
  ⟨.ofUpload payload, signals, none, []⟩

/-- Whether a step has done the first task. -/
def completes (t : Transfer) : TransferProgress → Bool
  | .running t' => t'.tasks.length < t.tasks.length
  | .blocked => false
  | .finished (.ok _) => true
  | .finished (.error _) => false

/-- What is seen of a step at the slot for acknowledgements. -/
def slotMarks (t : Transfer) (progress : TransferProgress) : UploadLog :=
  match t.tasks with
  | .arm .ack :: _ => if completes t progress then [.armed] else []
  | .awaitAck :: _ => if completes t progress then [.released] else []
  | _ => []

/-- What is seen of a step. -/
def marks (t : Transfer) (taken : Bool) (s : TransferStep) : UploadLog :=
  slotMarks t s.progress ++ (s.attempt.map fun data => .attempt data taken).toList

/-- The run after a step of the upload. -/
def after (run : UploadRun) (taken : Bool) (s : TransferStep) : UploadRun :=
  let log := run.log ++ marks run.transfer taken s
  match s.progress with
  | .running transfer => ⟨transfer, s.signals, none, log⟩
  | .blocked => ⟨run.transfer, s.signals, none, log⟩
  | .finished result => ⟨run.transfer, s.signals, some result, log⟩

/-- The run after an event.  An upload that has ended makes no steps. -/
def step (config : LinkConfig) (run : UploadRun) : UploadEvent → UploadRun
  | .work now taken =>
    match run.result with
    | some _ => run
    | none => run.after taken (run.transfer.step config now taken run.signals)
  | .acknowledge =>
    let (delivered, ack) := run.signals.ack.fulfill ()
    { run with
      signals := { run.signals with ack }
      log := run.log ++ if delivered then [.acknowledged] else [] }
  | .permit granted =>
    { run with
      signals := { run.signals with permission := (run.signals.permission.fulfill granted).2 } }

/-- The run after some events. -/
def run (config : LinkConfig) (payload : Bytes) (signals : Signals) (events : List UploadEvent) :
    UploadRun :=
  events.foldl (step config) (start payload signals)

variable {config : LinkConfig} {payload : Bytes} {now : Nat} {taken : Bool} {t : Transfer}
  {signals : Signals} {log : UploadLog}

/-! ### The invariant -/

/-- The slot while a unit is sent, and what has happened at it for the unit. -/
inductive Round (ack : Rendezvous Unit) (ticket : Nat) : UploadLog → Prop
  | armed : ack.slot = some ⟨ticket, true⟩ → ack.letters.lookup ticket = none →
    Round ack ticket [.armed]
  | acknowledged : ack.slot = none → ack.letters.lookup ticket = some () →
    Round ack ticket [.armed, .acknowledged]

/-- How far an upload has come. -/
inductive Stage (payload : Bytes) : UploadRun → Prop
  /-- Some units are released; the next one, or the commit, is to begin. -/
  | ready {t : Transfer} {signals : Signals} {log : UploadLog} {before after : List (List Bytes)} :
    uploadUnits payload = before ++ after → t.tasks = Transfer.remaining after →
    accepted log = before.flatten → handshakes log = rounds before.length →
    (before = [] ∨ signals.ack.slot = none) → Stage payload ⟨t, signals, none, log⟩
  /-- A unit is sent, or all of it was sent and its acknowledgement is waited for. -/
  | sending {t : Transfer} {signals : Signals} {log tail : UploadLog}
    {before after : List (List Bytes)} {pre suf : List Bytes} :
    uploadUnits payload = before ++ (pre ++ suf) :: after → t.tasks = Transfer.sending suf after →
    accepted log = before.flatten ++ pre → handshakes log = rounds before.length ++ tail →
    Round signals.ack t.ticket tail → Stage payload ⟨t, signals, none, log⟩
  | done {t : Transfer} {signals : Signals} {log : UploadLog} : signals.ack.slot = none →
    accepted log = uploadWrites payload → Stage payload ⟨t, signals, some (.ok ()), log⟩
  | failed {t : Transfer} {signals : Signals} {log : UploadLog} {fault : LinkFault} :
    signals.ack.slot = none → accepted log <+: uploadWrites payload →
    accepted log ≠ uploadWrites payload → Stage payload ⟨t, signals, some (.error fault), log⟩

/-- What stays true of an upload whatever happens. -/
structure Inv (payload : Bytes) (run : UploadRun) : Prop where
  stage : Stage payload run
  orderly : Orderly payload run.log
  slot : run.signals.ack.Reachable

theorem inv_start (payload : Bytes) (h : signals.ack.Reachable) :
    Inv payload (start payload signals) where
  stage := by
    have hunits : uploadUnits payload = [] ++ uploadUnits payload := rfl
    exact .ready hunits (Transfer.uploadTasks_eq payload) rfl rfl (.inl rfl)
  orderly := orderly_nil
  slot := h

/-- What was taken is a part of all writes, if something is left. -/
theorem Stage.failed_of_left {fault : LinkFault} {left : List Bytes}
    (hslot : signals.ack.slot = none) (hwrites : uploadWrites payload = accepted log ++ left)
    (hleft : left ≠ []) : Stage payload ⟨t, signals, some (.error fault), log⟩ := by
  refine .failed hslot ⟨left, hwrites.symm⟩ fun heq => hleft ?_
  rw [← heq] at hwrites
  exact List.self_eq_append_right.1 hwrites

/-! ### What the steps keep -/

theorem marks_arm {rest : List Task} (h : t.tasks = .arm .ack :: rest) {t' : Transfer}
    (ht : t'.tasks = rest) : marks t taken ⟨.running t', signals, none⟩ = [.armed] := by
  simp [marks, slotMarks, completes, h, ht]

theorem marks_write {data : Bytes} {guard : Option SignalSlot} {rest : List Task}
    (h : t.tasks = .write data guard :: rest) (s : TransferStep) :
    marks t taken s = (s.attempt.map fun data => .attempt data taken).toList := by
  simp [marks, slotMarks, h]

/-- A step that arms the slot. -/
theorem Inv.arm {before after : List (List Bytes)} {unit : List Bytes}
    (h : Inv payload ⟨t, signals, none, log⟩)
    (hunits : uploadUnits payload = before ++ unit :: after)
    (htasks : t.tasks = Transfer.remaining (unit :: after))
    (haccepted : accepted log = before.flatten)
    (hhandshakes : handshakes log = rounds before.length) :
    Inv payload (step config ⟨t, signals, none, log⟩ (.work now taken)) := by
  rw [Transfer.remaining_cons] at htasks
  have hstep : t.step config now taken signals =
      ⟨.running ⟨Transfer.sending unit after, .ready, signals.ack.next⟩,
        { signals with ack := signals.ack.arm.2 }, none⟩ :=
    Transfer.step_arm htasks (Transfer.sending_ne_nil unit after)
  have hfirst : uploadUnits payload = before ++ ([] ++ unit) :: after := hunits
  simp only [step, hstep, UploadRun.after]
  rw [marks_arm htasks rfl]
  refine ⟨.sending hfirst rfl ?_ ?_ (.armed rfl h.slot.sound.lookup_next), ?_, h.slot.arm⟩
  · rw [accepted_concat rfl, haccepted, List.append_nil]
  · rw [handshakes_concat_armed, hhandshakes]
  · exact h.orderly.concat_slot rfl

/-- A step that writes the commit, or waits to write it. -/
theorem Inv.commit (h : Inv payload ⟨t, signals, none, log⟩)
    (htasks : t.tasks = Transfer.remaining [])
    (haccepted : accepted log = (uploadUnits payload).flatten)
    (hhandshakes : handshakes log = rounds (uploadUnits payload).length)
    (hslot : signals.ack.slot = none) :
    Inv payload (step config ⟨t, signals, none, log⟩ (.work now taken)) := by
  have hunits : uploadUnits payload = uploadUnits payload ++ [] := (List.append_nil _).symm
  have hwrites : uploadWrites payload = accepted log ++ [commitUpload] := by
    rw [uploadWrites_eq, haccepted]
  have hdue : Due payload log commitUpload := .commit rfl haccepted hhandshakes
  have hattempts : Transfer.Attempts t taken signals commitUpload none []
      (t.step config now taken signals) := Transfer.attempts_step htasks
  simp only [step]
  generalize t.step config now taken signals = s at hattempts
  -- the only mark that a write leaves is the attempt
  rw [UploadRun.after, marks_write htasks]
  cases hattempts with
  | rest =>
    rw [Option.map_none, Option.toList_none, List.append_nil]
    exact h
  | taken htaken =>
    subst htaken
    refine ⟨.done hslot ?_, h.orderly.concat_attempt hdue, h.slot⟩
    rw [hwrites]
    exact accepted_concat_taken
  | again htaken =>
    subst htaken
    refine ⟨.ready hunits htasks ?_ ?_ (.inr hslot), h.orderly.concat_attempt hdue, h.slot⟩
    · exact accepted_concat_refused.trans haccepted
    · exact handshakes_concat_attempt.trans hhandshakes
  | refused htaken =>
    subst htaken
    have hleft : uploadWrites payload =
        accepted (log ++ [.attempt commitUpload false]) ++ [commitUpload] := by
      rw [hwrites, accepted_concat_refused]
    exact ⟨.failed_of_left hslot hleft (by simp), h.orderly.concat_attempt hdue, h.slot⟩

theorem Round.tail {ack : Rendezvous Unit} {ticket : Nat} {tail : UploadLog}
    (h : Round ack ticket tail) : tail = [.armed] ∨ tail = [.armed, .acknowledged] := by
  cases h with
  | armed _ _ => exact .inl rfl
  | acknowledged _ _ => exact .inr rfl

/-- A step that writes a packet of a unit, or waits to write it. -/
theorem Inv.write {before after : List (List Bytes)} {pre suf : List Bytes} {data : Bytes}
    {tail : UploadLog} (h : Inv payload ⟨t, signals, none, log⟩)
    (hunits : uploadUnits payload = before ++ (pre ++ data :: suf) :: after)
    (htasks : t.tasks = Transfer.sending (data :: suf) after)
    (haccepted : accepted log = before.flatten ++ pre)
    (hhandshakes : handshakes log = rounds before.length ++ tail)
    (hround : Round signals.ack t.ticket tail) :
    Inv payload (step config ⟨t, signals, none, log⟩ (.work now taken)) := by
  have hdue : Due payload log data := .packet hunits haccepted hhandshakes hround.tail
  have hattempts : Transfer.Attempts t taken signals data (some .ack) (Transfer.sending suf after)
      (t.step config now taken signals) := Transfer.attempts_step htasks
  simp only [step]
  generalize t.step config now taken signals = s at hattempts
  have hfirst : t.tasks = .write data (some .ack) :: Transfer.sending suf after := htasks
  rw [UploadRun.after, marks_write hfirst]
  cases hattempts with
  | rest =>
    rw [Option.map_none, Option.toList_none, List.append_nil]
    exact h
  | taken htaken =>
    subst htaken
    -- the packet moves to those that were taken
    have hnext : uploadUnits payload = before ++ ((pre ++ [data]) ++ suf) :: after := by
      rw [List.append_assoc, List.singleton_append]
      exact hunits
    rw [Transfer.proceed_of_ne_nil (Transfer.sending_ne_nil suf after)]
    refine ⟨.sending hnext rfl ?_ ?_ hround, h.orderly.concat_attempt hdue, h.slot⟩
    · rw [← List.append_assoc, ← haccepted]
      exact accepted_concat_taken
    · exact handshakes_concat_attempt.trans hhandshakes
  | again htaken =>
    subst htaken
    refine ⟨.sending hunits htasks ?_ ?_ hround, h.orderly.concat_attempt hdue, h.slot⟩
    · exact accepted_concat_refused.trans haccepted
    · exact handshakes_concat_attempt.trans hhandshakes
  | refused htaken =>
    subst htaken
    have hleft : uploadWrites payload = accepted (log ++ [.attempt data false]) ++
        (data :: suf ++ after.flatten ++ [commitUpload]) := by
      rw [uploadWrites_eq, hunits, accepted_concat_refused, haccepted]
      simp
    exact ⟨.failed_of_left rfl hleft (by simp), h.orderly.concat_attempt hdue, h.slot.drop.disarm⟩

/-- A wait that ends with an acknowledgement was answered, and the slot is free again. -/
theorem Round.of_await {ack ack' : Rendezvous Unit} {ticket : Nat} {tail : UploadLog}
    {timeUp : Bool} (h : Round ack ticket tail)
    (hawait : ack.await? ticket timeUp = some (some (), ack')) :
    tail = [.armed, .acknowledged] ∧ ack'.slot = none := by
  obtain ⟨_, -, hhere, rfl⟩ | ⟨hanswer, -, -⟩ := Rendezvous.await_cases hawait
  · cases h with
    | armed hslot hletters =>
      rw [Rendezvous.look, hletters, hslot] at hhere
      simp at hhere
    | acknowledged hslot _ =>
      refine ⟨rfl, ?_⟩
      show ack.slot.map _ = none
      rw [hslot, Option.map_none]
  · exact nomatch hanswer

theorem marks_await {rest : List Task} (h : t.tasks = .awaitAck :: rest) {s : TransferStep}
    (hattempt : s.attempt = none) :
    marks t taken s = if completes t s.progress then [.released] else [] := by
  simp [marks, slotMarks, h, hattempt]

/-- A step that waits for the acknowledgement of a unit. -/
theorem Inv.await {before after : List (List Bytes)} {pre : List Bytes} {tail : UploadLog}
    (h : Inv payload ⟨t, signals, none, log⟩)
    (hunits : uploadUnits payload = before ++ pre :: after)
    (htasks : t.tasks = Transfer.sending [] after)
    (haccepted : accepted log = before.flatten ++ pre)
    (hhandshakes : handshakes log = rounds before.length ++ tail)
    (hround : Round signals.ack t.ticket tail) :
    Inv payload (step config ⟨t, signals, none, log⟩ (.work now taken)) := by
  have hfirst : t.tasks = .awaitAck :: Transfer.remaining after := htasks
  have hsame : uploadUnits payload = before ++ (pre ++ []) :: after := by
    rw [List.append_nil, hunits]
  have hawaits : Transfer.Awaits t signals (Transfer.remaining after)
      (t.step config now taken signals) := Transfer.awaits_step hfirst
  simp only [step]
  generalize t.step config now taken signals = s at hawaits
  cases hawaits with
  | begins =>
    rw [UploadRun.after, marks_await hfirst rfl]
    simp only [completes, lt_irrefl, decide_false, Bool.false_eq_true, if_false, List.append_nil]
    exact ⟨.sending hsame htasks haccepted hhandshakes hround, h.orderly, h.slot⟩
  | goesOn =>
    rw [UploadRun.after, marks_await hfirst rfl]
    simp only [completes, Bool.false_eq_true, if_false, List.append_nil]
    exact h
  | released hawait =>
    -- the unit joins those before it, and its round is complete
    obtain ⟨rfl, hslot⟩ := hround.of_await hawait
    have hnext : uploadUnits payload = (before ++ [pre]) ++ after := by
      rw [List.append_assoc, List.singleton_append, hunits]
    rw [Transfer.proceed_of_ne_nil (Transfer.remaining_ne_nil after), UploadRun.after,
      marks_await hfirst rfl]
    simp only [completes, hfirst, List.length_cons, Nat.lt_succ_self, decide_true, if_true]
    refine ⟨.ready hnext rfl ?_ ?_ (.inr hslot), h.orderly.concat_slot rfl, h.slot.await hawait⟩
    · rw [accepted_concat rfl, haccepted, List.flatten_append, List.flatten_singleton]
    · rw [handshakes_concat rfl (by simp [hhandshakes]), hhandshakes, List.length_append,
        List.append_assoc]
      rfl
  | missing hawait =>
    have hleft : uploadWrites payload =
        accepted log ++ (after.flatten ++ [commitUpload]) := by
      rw [uploadWrites_eq, hunits, haccepted]
      simp
    rw [UploadRun.after, marks_await hfirst rfl]
    simp only [completes, Bool.false_eq_true, if_false, List.append_nil]
    exact ⟨.failed_of_left (Rendezvous.slot_of_await_none hawait) hleft (by simp), h.orderly,
      h.slot.await hawait⟩

/-- Every step of the upload keeps the invariant. -/
theorem Inv.work {run : UploadRun} (h : Inv payload run) :
    Inv payload (step config run (.work now taken)) := by
  cases h.stage with
  | @ready t signals log before after hunits htasks haccepted hhandshakes hslot =>
    cases after with
    | nil =>
      rw [List.append_nil] at hunits
      subst hunits
      have hsome : uploadUnits payload ≠ [] := List.cons_ne_nil _ _
      exact h.commit htasks haccepted hhandshakes (hslot.resolve_left hsome)
    | cons unit after => exact h.arm hunits htasks haccepted hhandshakes
  | @sending t signals log tail before after pre suf hunits htasks haccepted hhandshakes hround =>
    cases suf with
    | nil =>
      rw [List.append_nil] at hunits
      exact h.await hunits htasks haccepted hhandshakes hround
    | cons data suf => exact h.write hunits htasks haccepted hhandshakes hround
  | done _ _ => exact h
  | failed _ _ _ => exact h

/-- An acknowledgement that nobody waits for changes nothing. -/
theorem step_acknowledge_of_unarmed {run : UploadRun} (h : run.signals.ack.slot = none) :
    step config run .acknowledge = run := by
  have hfulfill : run.signals.ack.fulfill () = (false, run.signals.ack) := by
    rw [Rendezvous.fulfill, h]
  simp only [step, hfulfill, Bool.false_eq_true, if_false, List.append_nil]

/-- An acknowledgement answers the unit that is sent, or is lost. -/
theorem Inv.acknowledge {run : UploadRun} (h : Inv payload run) :
    Inv payload (step config run .acknowledge) := by
  cases h.stage with
  | @ready t signals log before after hunits htasks haccepted hhandshakes hslot =>
    rcases hslot with rfl | hslot
    · -- somebody else may have armed the slot before the upload began
      have hnone : handshakes log = [] := hhandshakes
      refine ⟨.ready hunits htasks ?_ ?_ (.inl rfl), ?_, h.slot.fulfill⟩
      · dsimp only
        split
        · rw [accepted_concat rfl, haccepted]
        · rw [List.append_nil, haccepted]
      · dsimp only
        split
        · exact handshakes_concat_acknowledged hnone
        · rw [List.append_nil, hhandshakes]
      · dsimp only [step]
        split
        · exact h.orderly.concat_slot rfl
        · rw [List.append_nil]
          exact h.orderly
    · rw [step_acknowledge_of_unarmed hslot]
      exact h
  | @sending t signals log tail before after pre suf hunits htasks haccepted hhandshakes hround =>
    cases hround with
    | armed hslot hletters =>
      -- the acknowledgement is delivered, even if packets of the unit are still to be written
      have hfulfill : signals.ack.fulfill () = (true,
          { signals.ack with slot := none, letters := (t.ticket, ()) :: signals.ack.letters }) := by
        rw [Rendezvous.fulfill, hslot]
      have hreachable : (signals.ack.fulfill ()).2.Reachable := h.slot.fulfill
      simp only [step, hfulfill, if_true] at hreachable ⊢
      refine ⟨.sending hunits htasks ?_ ?_ (.acknowledged rfl (by simp)),
        h.orderly.concat_slot rfl, hreachable⟩
      · rw [accepted_concat rfl, haccepted]
      · rw [handshakes_concat rfl (by simp [hhandshakes]), hhandshakes, List.append_assoc]
        rfl
    | acknowledged hslot _ =>
      rw [step_acknowledge_of_unarmed hslot]
      exact h
  | done hslot _ =>
    rw [step_acknowledge_of_unarmed hslot]
    exact h
  | failed hslot _ _ =>
    rw [step_acknowledge_of_unarmed hslot]
    exact h

/-- The answer to the request of a notification changes nothing for an upload. -/
theorem Inv.permit {run : UploadRun} (h : Inv payload run) (granted : Bool) :
    Inv payload (step config run (.permit granted)) := by
  refine ⟨?_, h.orderly, h.slot⟩
  cases h.stage with
  | ready hunits htasks haccepted hhandshakes hslot =>
    exact .ready hunits htasks haccepted hhandshakes hslot
  | sending hunits htasks haccepted hhandshakes hround =>
    exact .sending hunits htasks haccepted hhandshakes hround
  | done hslot haccepted => exact .done hslot haccepted
  | failed hslot hpart hne => exact .failed hslot hpart hne

/-- **Every event keeps the invariant.** -/
theorem Inv.step {run : UploadRun} (h : Inv payload run) (event : UploadEvent) :
    Inv payload (run.step config event) := by
  cases event with
  | work now taken => exact h.work
  | acknowledge => exact h.acknowledge
  | permit granted => exact h.permit granted

theorem inv_run (config : LinkConfig) (payload : Bytes) (events : List UploadEvent)
    (h : signals.ack.Reachable) : Inv payload (run config payload signals events) := by
  -- by induction on the events, from any state that has the invariant
  have hall : ∀ {r : UploadRun}, Inv payload r → Inv payload (events.foldl (step config) r) := by
    induction events with
    | nil => exact fun hr => hr
    | cons event rest ih => exact fun hr => ih (hr.step event)
  exact hall (inv_start payload h)

/-! ### Safety -/

/-- What an upload promises, however the watch behaves. -/
structure Safe (payload : Bytes) (run : UploadRun) : Prop where
  /-- The watch took writes in their order, and none of them twice. -/
  accepted : accepted run.log <+: uploadWrites payload
  /-- The upload succeeds if and only if the watch took all its writes. -/
  ok_iff : run.result = some (.ok ()) ↔ UploadLog.accepted run.log = uploadWrites payload
  /-- Every write was attempted when it was due. -/
  orderly : Orderly payload run.log
  /-- When the commit was attempted, every unit was acknowledged and released. -/
  commit : ∀ earlier taken later, run.log = earlier ++ .attempt commitUpload taken :: later →
    handshakes earlier = rounds ((uploadPlan payload).length + 1)
  /-- An upload that has ended leaves the slot unarmed. -/
  unarmed : run.result.isSome = true → run.signals.ack.isArmed = false

/-- While an upload goes on, some write was not taken. -/
theorem not_ok_of_left {left : List Bytes}
    (hwrites : uploadWrites payload = accepted log ++ left) (hleft : left ≠ []) :
    accepted log <+: uploadWrites payload ∧
      ((none : Option LinkResult) = some (.ok ()) ↔ accepted log = uploadWrites payload) := by
  refine ⟨⟨left, hwrites.symm⟩, (fun h => nomatch h), fun heq => absurd ?_ hleft⟩
  rw [← heq] at hwrites
  exact List.self_eq_append_right.1 hwrites

theorem Stage.accepted {run : UploadRun} (h : Stage payload run) :
    UploadLog.accepted run.log <+: uploadWrites payload ∧
      (run.result = some (.ok ()) ↔ UploadLog.accepted run.log = uploadWrites payload) := by
  cases h with
  | @ready t signals log before after hunits _ haccepted _ _ =>
    have hwrites : uploadWrites payload =
        UploadLog.accepted log ++ (after.flatten ++ [commitUpload]) := by
      rw [uploadWrites_eq, hunits, haccepted, List.flatten_append, List.append_assoc]
    exact not_ok_of_left hwrites (by simp)
  | @sending t signals log tail before after pre suf hunits _ haccepted _ _ =>
    have hwrites : uploadWrites payload =
        UploadLog.accepted log ++ (suf ++ after.flatten ++ [commitUpload]) := by
      rw [uploadWrites_eq, hunits, haccepted]
      simp
    exact not_ok_of_left hwrites (by simp)
  | done _ haccepted => exact ⟨haccepted ▸ List.prefix_refl _, fun _ => haccepted, fun _ => rfl⟩
  | failed _ hpart hne => exact ⟨hpart, (fun h => nomatch h), fun heq => absurd heq hne⟩

theorem Stage.unarmed {run : UploadRun} (h : Stage payload run)
    (hresult : run.result.isSome = true) : run.signals.ack.isArmed = false := by
  cases h with
  | ready _ _ _ _ _ => exact nomatch hresult
  | sending _ _ _ _ _ => exact nomatch hresult
  | done hslot _ | failed hslot _ _ => rw [Rendezvous.isArmed, hslot, Option.isSome_none]

theorem Inv.safe {run : UploadRun} (h : Inv payload run) : Safe payload run where
  accepted := h.stage.accepted.1
  ok_iff := h.stage.accepted.2
  orderly := h.orderly
  commit := by
    intro earlier taken later heq
    cases h.orderly earlier commitUpload taken later heq with
    | @packet before after pre suf tail hunits _ _ _ =>
      have hunit : pre ++ commitUpload :: suf ∈ uploadUnits payload := by simp [hunits]
      exact absurd (by simp) (commitUpload_not_mem_units hunit)
    | commit _ _ hhandshakes => exact hhandshakes
  unarmed := h.stage.unarmed

/-- **An upload is safe against any watch.** -/
theorem safe_run (config : LinkConfig) (payload : Bytes) (signals : Signals)
    (h : signals.ack.Reachable) (events : List UploadEvent) :
    Safe payload (run config payload signals events) :=
  (inv_run config payload events h).safe

theorem safe_run_single : ∃ events,
    (run {} [7] .empty events).result.map Except.isOk = some true ∧
      Safe [7] (run {} [7] .empty events) := by
  refine ⟨[.work 0 true, .work 0 false, .work 1000 true, .acknowledge, .work 1000 true,
    .work 1000 true, .work 1000 true, .acknowledge, .work 1000 true, .acknowledge, .work 1000 true,
    .work 1000 true, .work 1000 true], ?_, safe_run _ _ _ .empty _⟩
  decide +kernel

end UploadRun

end Timepiece
