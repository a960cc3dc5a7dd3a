import Mathlib
import Timepiece.Proofs.Link.Rendezvous
import Timepiece.Proofs.Link.SessionEffects

/-!
# Answers that nobody waits for

An upload arms the slot for acknowledgements before every unit, and waits for the answer before
it goes on.  If it ends before that, the slot is given up.  So the slot holds something only while
a unit is sent: a worker without a transfer leaves it unarmed and without an answer.

## Main definitions

* `Rendezvous.Idle`, `Rendezvous.Armed`, `Rendezvous.Answered` — nothing, an arming, or an answer is
  all there is in a slot.
* `Transfer.Paired` — every arming for an acknowledgement is followed by a wait for it.
* `Transfer.Keeps` — what the slot holds is what the tasks that are left wait for.
* `Session.Tidy` — the slot holds nothing but what the worker waits for.

## Main results

* `Transfer.Keeps.step` — **a step of a transfer keeps the slot**, or leaves nothing in it.
* `Session.tidy_after` — **the slot is kept whatever happens**.
* `Session.signals_step` — what the other side does to the slot.
-/

namespace Timepiece

/-! ### Slots -/

namespace Rendezvous

variable {α : Type} {r r' : Rendezvous α} {ticket : Nat} {value : α}

/-- The slot is not armed, and there is no answer. -/
structure Idle (r : Rendezvous α) : Prop where
  slot : r.slot = none
  letters : r.letters = []

/-- The slot is armed for a ticket, and there is no answer. -/
structure Armed (r : Rendezvous α) (ticket : Nat) : Prop where
  slot : r.slot = some ⟨ticket, true⟩
  letters : r.letters = []

/-- The slot is not armed, and there is an answer for a ticket and no other one. -/
structure Answered (r : Rendezvous α) (ticket : Nat) : Prop where
  slot : r.slot = none
  letters : ∃ value, r.letters = [(ticket, value)]

theorem idle_empty : Idle (empty : Rendezvous α) := ⟨rfl, rfl⟩

theorem Idle.arm (h : r.Idle) : r.arm.2.Armed r.next := ⟨rfl, h.letters⟩

/-- An answer for which the slot is not armed is lost. -/
theorem fulfill_of_unarmed (h : r.slot = none) (value : α) : (r.fulfill value).2 = r := by
  rw [fulfill, h]

theorem Armed.fulfill (h : r.Armed ticket) (value : α) : (r.fulfill value).2.Answered ticket := by
  rw [Rendezvous.fulfill, h.slot]
  exact ⟨rfl, value, by rw [h.letters]⟩

theorem Armed.look_eq (h : r.Armed ticket) : r.look ticket = .coming := by
  simp [look, h.slot, h.letters]

theorem Answered.look_eq (h : r.Answered ticket) : ∃ value, r.look ticket = .here value := by
  obtain ⟨value, hletters⟩ := h.letters
  exact ⟨value, by simp [look, hletters]⟩

/-- A slot that is given up holds nothing, if it held nothing but what belongs to the ticket. -/
theorem idle_drop_disarm (h : r.Armed ticket ∨ r.Answered ticket) :
    (r.drop ticket).disarm.Idle := by
  refine ⟨rfl, ?_⟩
  show r.letters.filter _ = []
  rcases h with harmed | hanswered
  · rw [harmed.letters]
    rfl
  · obtain ⟨value, hletters⟩ := hanswered.letters
    simp [hletters]

theorem Answered.drop (h : r.Answered ticket) : (r.drop ticket).Idle := by
  refine ⟨?_, (idle_drop_disarm (.inr h)).letters⟩
  show r.slot.map _ = none
  rw [h.slot, Option.map_none]

/-- When a wait has ended nothing is left of it. -/
theorem idle_of_await {timeUp : Bool} {answer : Option α}
    (h : r.Armed ticket ∨ r.Answered ticket)
    (hawait : r.await? ticket timeUp = some (answer, r')) : r'.Idle := by
  obtain ⟨value, -, hhere, rfl⟩ | ⟨-, -, rfl⟩ := await_cases hawait
  · rcases h with harmed | hanswered
    · rw [harmed.look_eq] at hhere
      exact nomatch hhere
    · exact hanswered.drop
  · exact idle_drop_disarm h

end Rendezvous

/-! ### Transfers -/

/-- Whether a task has to do with acknowledgements. -/
def Task.usesAck : Task → Bool
  | .arm .ack | .write _ (some .ack) | .awaitAck => true
  | _ => false

namespace Transfer

/-- Every arming of the slot for acknowledgements is followed by guarded writes and a wait, before
anything else is done.  The flag tells whether the tasks begin between an arming and its wait. -/
inductive Paired : Bool → List Task → Prop
  | done : Paired false []
  | arm {rest : List Task} : Paired true rest → Paired false (.arm .ack :: rest)
  | packet {data : Bytes} {rest : List Task} : Paired true rest →
    Paired true (.write data (some .ack) :: rest)
  | await {rest : List Task} : Paired false rest → Paired true (.awaitAck :: rest)
  | other {task : Task} {rest : List Task} : task.usesAck = false → Paired false rest →
    Paired false (task :: rest)

variable {config : LinkConfig} {now : Nat} {taken : Bool} {signals : Signals} {t t' : Transfer}
  {task : Task} {rest tasks : List Task} {ack : Rendezvous Unit}

namespace Paired

/-- Tasks that end with nothing armed may be followed by others, also when they begin between an
arming and its wait. -/
theorem append {held : Bool} (h : Paired held tasks) (hrest : Paired false rest) :
    Paired held (tasks ++ rest) := by
  induction h with
  | done => exact hrest
  | arm _ ih => exact .arm ih
  | packet _ ih => exact .packet ih
  | await _ ih => exact .await ih
  | other hother _ ih => exact .other hother ih

theorem of_unused (h : ∀ task ∈ tasks, task.usesAck = false) : Paired false tasks := by
  induction tasks with
  | nil => exact .done
  | cons task tasks ih =>
    obtain ⟨hfirst, hothers⟩ := List.forall_mem_cons.1 h
    exact .other hfirst (ih hothers)

/-- Between an arming and its wait something is left to do. -/
theorem ne_nil (h : Paired true rest) : rest ≠ [] := by
  rintro rfl
  cases h

theorem of_remaining (units : List (List Bytes)) : Paired false (remaining units) := by
  induction units with
  | nil => exact .other rfl .done
  | cons unit units ih =>
    have hunit : Paired true (sending unit units) := by
      induction unit with
      | nil => exact .await ih
      | cons data unit hrest => exact .packet hrest
    rw [remaining_cons]
    exact .arm hunit

theorem of_requestTasks (request : Bytes) (left : Nat) :
    Paired false (requestTasks request left) := by
  refine of_unused ?_
  simp [requestTasks, Task.usesAck]

theorem of_dataTasks (payload : Bytes) : Paired false (dataTasks payload) := by
  refine of_unused fun task hmem => ?_
  rcases List.mem_append.1 hmem with hmem | hmem
  · obtain ⟨data, -, rfl⟩ := List.mem_map.1 hmem
    rfl
  · obtain rfl := List.mem_singleton.1 hmem
    rfl

end Paired

/-- What the slot holds is what the tasks that are left wait for. -/
inductive Keeps (ack : Rendezvous Unit) (t : Transfer) : Prop
  | free : Paired false t.tasks → ack.Idle → Keeps ack t
  | held : Paired true t.tasks → ack.Armed t.ticket ∨ ack.Answered t.ticket → Keeps ack t

/-- What a step leaves in the slot: what the tasks that are left wait for, and nothing if none are
left. -/
def KeptBy (t : Transfer) (step : TransferStep) : Prop :=
  match step.progress with
  | .running next => Keeps step.signals.ack next
  | .blocked => Keeps step.signals.ack t
  | .finished _ => step.signals.ack.Idle

theorem kept_proceed {attempt : Option Bytes} (h : Paired false rest) (hidle : signals.ack.Idle) :
    KeptBy t ⟨t'.proceed rest, signals, attempt⟩ := by
  cases rest with
  | nil => exact hidle
  | cons task rest => exact .free h hidle

theorem kept_arm {slot : SignalSlot} (h : Keeps signals.ack t)
    (htasks : t.tasks = .arm slot :: rest) : KeptBy t (t.step config now taken signals) := by
  cases h with
  | held hpaired => rw [htasks] at hpaired; cases hpaired
  | free hpaired hidle =>
    rw [htasks] at hpaired
    cases hpaired with
    | arm hrest =>
      rw [step_arm htasks hrest.ne_nil]
      exact .held hrest (.inl hidle.arm)
    | other hunused hrest =>
      cases slot with
      | ack => exact nomatch hunused
      | permission =>
        rw [step, htasks]
        exact kept_proceed hrest hidle

theorem kept_write {data : Bytes} {guard : Option SignalSlot} (h : Keeps signals.ack t)
    (htasks : t.tasks = .write data guard :: rest) :
    KeptBy t (t.step config now taken signals) := by
  have hattempts : Attempts t taken signals data guard rest (t.step config now taken signals) :=
    attempts_step htasks
  generalize t.step config now taken signals = step at hattempts
  cases hattempts with
  | rest => exact h
  | again =>
    cases h with
    | free hpaired hidle => exact .free hpaired hidle
    | held hpaired hslot => exact .held hpaired hslot
  | taken =>
    cases h with
    | free hpaired hidle =>
      rw [htasks] at hpaired
      cases hpaired with
      | other _ hrest => exact kept_proceed hrest hidle
    | held hpaired hslot =>
      rw [htasks] at hpaired
      cases hpaired with
      | packet hrest =>
        rw [proceed_of_ne_nil hrest.ne_nil]
        exact .held hrest hslot
  | refused =>
    -- what is guarded by the slot for acknowledgements stands between an arming and its wait
    cases h with
    | free hpaired hidle =>
      rw [htasks] at hpaired
      cases hpaired with
      | other hunused _ =>
        match guard, hunused with
        | none, _ => exact hidle
        | some .permission, _ => exact hidle
    | held hpaired hslot =>
      rw [htasks] at hpaired
      cases hpaired with
      | packet => exact Rendezvous.idle_drop_disarm hslot

theorem kept_await (h : Keeps signals.ack t) (htasks : t.tasks = .awaitAck :: rest) :
    KeptBy t (t.step config now taken signals) := by
  have hawaits : Awaits t signals rest (t.step config now taken signals) := awaits_step htasks
  generalize t.step config now taken signals = step at hawaits
  cases h with
  | free hpaired =>
    rw [htasks] at hpaired
    cases hpaired with
    | other hunused => exact nomatch hunused
  | held hpaired hslot =>
    have hfirst := hpaired
    rw [htasks] at hfirst
    cases hfirst with
    | await hrest =>
      cases hawaits with
      | begins | goesOn => exact .held hpaired hslot
      | released hawait => exact kept_proceed hrest (Rendezvous.idle_of_await hslot hawait)
      | missing hawait => exact Rendezvous.idle_of_await hslot hawait

/-- What comes after a task that has nothing to do with acknowledgements does not find the slot
held. -/
theorem Keeps.unused (h : Keeps ack t) (htasks : t.tasks = task :: rest)
    (hunused : task.usesAck = false) : Paired false t.tasks ∧ Paired false rest ∧ ack.Idle := by
  cases h with
  | free hpaired hidle =>
    refine ⟨hpaired, ?_, hidle⟩
    rw [htasks] at hpaired
    cases hpaired with
    | arm => exact nomatch hunused
    | other _ hrest => exact hrest
  | held hpaired =>
    rw [htasks] at hpaired
    cases hpaired <;> exact nomatch hunused

theorem kept_permission {request : Bytes} {left : Nat} (h : Keeps signals.ack t)
    (htasks : t.tasks = .awaitPermission request left :: rest) :
    KeptBy t (t.step config now taken signals) := by
  have hasks : Asks config t signals request left rest (t.step config now taken signals) :=
    asks_step htasks
  generalize t.step config now taken signals = step at hasks
  obtain ⟨hpaired, hrest, hidle⟩ := h.unused htasks rfl
  cases hasks with
  | begins | goesOn => exact .free hpaired hidle
  | granted => exact kept_proceed hrest hidle
  | again =>
    have hrequest := Paired.of_requestTasks request (left - 1)
    exact .free (.other rfl (hrequest.append hrest)) hidle
  | denied | missing => exact hidle

theorem kept_pause {ms : Nat} (h : Keeps signals.ack t) (htasks : t.tasks = .pause ms :: rest) :
    KeptBy t (t.step config now taken signals) := by
  have hpauses : Pauses t signals rest (t.step config now taken signals) := pauses_step htasks
  generalize t.step config now taken signals = step at hpauses
  obtain ⟨hpaired, hrest, hidle⟩ := h.unused htasks rfl
  cases hpauses with
  | begins | goesOn => exact .free hpaired hidle
  | ends => exact kept_proceed hrest hidle

/-- **A step of a transfer keeps the slot**, or leaves nothing in it. -/
theorem Keeps.step (h : Keeps signals.ack t) (config : LinkConfig) (now : Nat) (taken : Bool) :
    KeptBy t (t.step config now taken signals) := by
  cases htasks : t.tasks with
  | nil =>
    rw [Transfer.step, htasks]
    cases h with
    | free _ hidle => exact hidle
    | held hpaired =>
      rw [htasks] at hpaired
      cases hpaired
  | cons task rest =>
    cases task with
    | arm slot => exact kept_arm h htasks
    | write data guard => exact kept_write h htasks
    | awaitAck => exact kept_await h htasks
    | awaitPermission request left => exact kept_permission h htasks
    | pause ms => exact kept_pause h htasks

/-- An acknowledgement that arrives is one that the tasks that are left wait for, or is lost. -/
theorem Keeps.fulfill (h : Keeps ack t) : Keeps (ack.fulfill ()).2 t := by
  cases h with
  | free hpaired hidle =>
    rw [Rendezvous.fulfill_of_unarmed hidle.slot]
    exact .free hpaired hidle
  | held hpaired hslot =>
    rcases hslot with harmed | hanswered
    · exact .held hpaired (.inr (harmed.fulfill ()))
    · rw [Rendezvous.fulfill_of_unarmed hanswered.slot]
      exact .held hpaired (.inr hanswered)

end Transfer

/-! ### Sessions -/

namespace Session

variable {s : Session} {luck : Luck} {move : Move}

theorem signals_tell (luck : Luck) (s : Session) (input : LinkInput) :
    (s.tell luck input).2.2.signals = s.signals := by
  obtain ⟨lifecycle, alarms, cache, queue, htell⟩ := tell_eq luck s input
  rw [htell]

/-- A move of the other side leaves the slot for acknowledgements alone, or hands an answer to
it. -/
theorem signals_step (luck : Luck) (s : Session) (hwork : move ≠ .work) :
    (s.step luck move).2.signals.ack = s.signals.ack ∨
      (s.step luck move).2.signals.ack = (s.signals.ack.fulfill ()).2 := by
  cases move with
  | work => exact absurd rfl hwork
  | submit job =>
    obtain ⟨queue, senders, hsubmit⟩ := s.submit_eq job
    refine .inl ?_
    show (s.submit job).signals.ack = s.signals.ack
    rw [hsubmit]
  | offer job =>
    obtain ⟨queue, hoffer⟩ := s.offer_eq job
    refine .inl ?_
    show (s.offer job).signals.ack = s.signals.ack
    rw [hoffer]
  | enter | wait | services => exact .inl rfl
  | radio event =>
    show (s.receive luck event).2.signals.ack = _ ∨ (s.receive luck event).2.signals.ack = _
    obtain ⟨input, hreceive⟩ | ⟨id, hreceive⟩ | ⟨signals, hreceive, hslot⟩ :=
      receive_cases luck s event
    · rw [hreceive, signals_tell]
      exact .inl rfl
    · obtain ⟨queue, hactivate⟩ := s.activate_eq id
      rw [hreceive, hactivate]
      exact .inl rfl
    · rw [hreceive]
      exact hslot
  | alarm =>
    obtain ⟨lifecycle, alarms, cache, queue, hring⟩ := ring_eq luck s
    refine .inl ?_
    show (s.ring luck).2.signals.ack = s.signals.ack
    rw [hring]
  | request request =>
    obtain ⟨input, hrequested⟩ := requested_eq luck s request
    refine .inl ?_
    show (s.requested luck request).2.signals.ack = s.signals.ack
    rw [hrequested, signals_tell]

/-- The slot for acknowledgements holds nothing but what the worker waits for. -/
def Tidy (s : Session) : Prop :=
  match s.worker with
  | .transferring _ transfer => transfer.Keeps s.signals.ack
  | _ => s.signals.ack.Idle

theorem tidy_of_transferring {purpose : Purpose} {transfer : Transfer}
    (hworker : s.worker = .transferring purpose transfer) :
    s.Tidy ↔ transfer.Keeps s.signals.ack := by
  rw [Tidy, hworker]

theorem tidy_of_idle (hworker : s.worker = .idle) : s.Tidy ↔ s.signals.ack.Idle := by
  rw [Tidy, hworker]

theorem tidy_of_pushing {pending : List (Nat × Property)} (hworker : s.worker = .pushing pending) :
    s.Tidy ↔ s.signals.ack.Idle := by
  rw [Tidy, hworker]

theorem tidy_start (config : LinkConfig) (services : Services) : (start config services).Tidy :=
  Rendezvous.idle_empty

theorem keeps_ofWrite (data : Bytes) (h : s.signals.ack.Idle) :
    (Transfer.ofWrite data).Keeps s.signals.ack :=
  .free (.other rfl .done) h

theorem keeps_notificationTransfer {notification : Notification} {transfer : Transfer}
    (h : s.signals.ack.Idle) (hmade : notificationTransfer s.config notification = .ok transfer) :
    transfer.Keeps s.signals.ack := by
  unfold notificationTransfer Transfer.ofNotification at hmade
  split at hmade
  · split at hmade
    · obtain rfl := Except.ok.inj hmade
      exact .free ((Transfer.Paired.of_requestTasks _ _).append (.of_dataTasks _)) h
    · exact nomatch hmade
  · exact nomatch hmade

theorem tidy_beginPush (picked : Property → Bool) (hworker : s.worker = .idle)
    (h : s.signals.ack.Idle) : (s.beginPush picked).2.Tidy := by
  unfold beginPush
  split
  · exact h
  · exact (tidy_of_idle hworker).2 h

theorem tidy_beginRequest {number : Nat} {purpose : Purpose} {made : Except LinkFault Transfer}
    (hworker : s.worker = .idle) (h : s.signals.ack.Idle)
    (hmade : ∀ transfer, made = .ok transfer → transfer.Keeps s.signals.ack) :
    (s.beginRequest number purpose made).2.Tidy := by
  unfold beginRequest
  split
  · split
    · next transfer => exact hmade transfer rfl
    · exact (tidy_of_idle hworker).2 h
  · exact (tidy_of_idle hworker).2 h

theorem tidy_begin (luck : Luck) (job : Job) (hworker : s.worker = .idle)
    (h : s.signals.ack.Idle) : (s.begin luck job).2.Tidy := by
  cases job with
  | upload payload request =>
    refine tidy_beginRequest hworker h fun transfer hmade => ?_
    obtain rfl := Except.ok.inj hmade
    have hpaired : Transfer.Paired false (Transfer.uploadTasks payload) := by
      rw [Transfer.uploadTasks_eq]
      exact .of_remaining (uploadUnits payload)
    exact .free hpaired h
  | notification notification handler request =>
    exact tidy_beginRequest hworker h fun transfer hmade => keeps_notificationTransfer h hmade
  | command command request =>
    refine tidy_beginRequest hworker h fun transfer hmade => ?_
    obtain rfl := Except.ok.inj hmade
    exact keeps_ofWrite command.encode h
  | push | pushExtension | pushAll => exact tidy_beginPush _ hworker h
  | syncClock =>
    unfold begin
    dsimp only
    split
    · split
      · exact keeps_ofWrite _ h
      · exact (tidy_of_idle hworker).2 h
    · exact (tidy_of_idle hworker).2 h

theorem tidy_conclude (purpose : Purpose) (result : LinkResult) (h : s.signals.ack.Idle) :
    (s.conclude purpose result).2.Tidy := by
  cases purpose <;> cases result <;> exact h

theorem tidy_advance {purpose : Purpose} {transfer : Transfer} (luck : Luck)
    (hworker : s.worker = .transferring purpose transfer) (h : s.Tidy) :
    (s.advance luck purpose transfer).2.Tidy := by
  have hkept := ((tidy_of_transferring hworker).1 h).step s.config s.now luck.accepts
  unfold advance
  generalize transfer.step s.config s.now luck.accepts s.signals = step at hkept ⊢
  obtain ⟨progress, signals, attempt⟩ := step
  cases progress with
  | running next => exact hkept
  | blocked =>
    have hsame : ({ s with signals } : Session).worker = .transferring purpose transfer := hworker
    exact (tidy_of_transferring hsame).2 hkept
  | finished result => exact tidy_conclude purpose result hkept

theorem tidy_work (luck : Luck) (h : s.Tidy) : (s.work luck).2.Tidy := by
  have hworks := works_work luck s
  generalize s.work luck = result at hworks
  cases hworks with
  | rests => exact h
  | @takes job rest htakes =>
    obtain ⟨-, hidle, -, -⟩ := work_of_takes luck htakes
    exact tidy_begin luck job hidle ((tidy_of_idle hidle).1 h)
  | ends hworker => exact (tidy_of_pushing hworker).1 h
  | @looks entry pending hworker =>
    have hidle := (tidy_of_pushing hworker).1 h
    obtain ⟨-, hnext⟩ | ⟨-, hnext⟩ := s.pushOne_cases entry pending
    · rw [hnext]
      exact hidle
    · rw [hnext]
      exact keeps_ofWrite _ hidle
  | advances hworker => exact tidy_advance luck hworker h

/-- Every move keeps the slot. -/
theorem Tidy.step (h : s.Tidy) (luck : Luck) (move : Move) : (s.step luck move).2.Tidy := by
  by_cases hwork : move = .work
  · subst hwork
    exact tidy_work luck h
  · have hworker := worker_step luck s hwork
    have hslot := signals_step luck s hwork
    generalize (s.step luck move).2 = next at hworker hslot
    cases hbefore : s.worker with
    | idle | pushing pending =>
      have hidle : s.signals.ack.Idle := by
        simpa only [Tidy, hbefore] using h
      rw [Rendezvous.fulfill_of_unarmed hidle.slot, or_self] at hslot
      simp only [Tidy, hworker, hbefore, hslot]
      exact hidle
    | transferring purpose transfer =>
      have hkeeps := (tidy_of_transferring hbefore).1 h
      refine (tidy_of_transferring (hworker.trans hbefore)).2 ?_
      rcases hslot with hsame | hanswered
      · rw [hsame]
        exact hkeeps
      · rw [hanswered]
        exact hkeeps.fulfill

/-- **The slot is kept whatever happens.** -/
theorem tidy_after (config : LinkConfig) (services : Services) (moves : List (Luck × Move)) :
    ((start config services).after moves).Tidy := by
  induction moves using List.reverseRecOn with
  | nil => exact tidy_start config services
  | append_singleton past last ih =>
    obtain ⟨luck, move⟩ := last
    rw [after_concat]
    exact ih.step luck move

end Session

end Timepiece
