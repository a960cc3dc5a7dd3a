import Mathlib
import Timepiece.Proofs.Link.Activation
import Timepiece.Proofs.Link.Scripts

/-!
# Who does what to the world outside

Only the worker writes to the watch and answers requests.  The other side of a session starts and
ends connections, calls functions and pages through notifications, and leaves the worker at what
it is doing.  A worker without work does nothing until it takes some up.

## Main definitions

* `Effect.ofWorker` — what only the worker does.
* `Session.accepted`, `Session.succeeded` — the writes that were taken, and the requests that were
  answered with success.
* `Session.Works`, `Session.Serves` — what the worker does with a step, and with a step of a
  transfer that is no push.
* `Session.Served` — what of that is taken and answered with success.

## Main results

* `Session.tell_eq`, `Session.receive_cases` — what the other side changes.
* `Session.silent_step`, `Session.worker_step` — **a move of the other side neither writes nor
  answers, and leaves the worker alone**.
* `Session.silent_rest` — a worker without work does nothing.
* `Session.works_work` — the worker does one of these things.
* `Session.serves_advance` — **a step of a transfer attempts a write or answers**.
* `Session.served_advance` — **it takes the first write of a script, or none**.
-/

namespace Timepiece

/-- Whether an effect is one of the worker: it writes, or answers a request. -/
def Effect.ofWorker : Effect → Bool
  | .write _ _ | .reply _ _ => true
  | _ => false

/-- Whether an effect is an attempt to write. -/
def Effect.isWrite : Effect → Bool
  | .write _ _ => true
  | _ => false

/-- The number of a request that is answered when a transfer ends. -/
def Purpose.request? : Purpose → Option Nat
  | .request number => some number
  | .alert _ number => some number
  | _ => none

/-- The answer to a request, if there is one. -/
def answer (request : Option Nat) (result : LinkResult) : List Effect :=
  (request.map fun request => .reply request result).toList

namespace Session

/-- The writes that were taken, in order. -/
def accepted (effects : List Effect) : List Bytes := effects.filterMap taken?

/-- The request that is answered with success. -/
def succeeded? : Effect → Option Nat
  | .reply request (.ok ()) => some request
  | _ => none

/-- The requests that were answered with success, in order. -/
def succeeded (effects : List Effect) : List Nat := effects.filterMap succeeded?

/-- The worker does nothing. -/
def Silent (effects : List Effect) : Prop := ∀ effect ∈ effects, effect.ofWorker = false

variable {effects more : List Effect} {s : Session} {luck : Luck} {move : Move}
  {moves : List (Luck × Move)}

/-! ### What is written and answered -/

@[simp] theorem accepted_nil : accepted [] = [] := rfl

@[simp] theorem accepted_append : accepted (effects ++ more) = accepted effects ++ accepted more :=
  List.filterMap_append

@[simp] theorem succeeded_append :
    succeeded (effects ++ more) = succeeded effects ++ succeeded more := List.filterMap_append

theorem Silent.append (h : Silent effects) (h' : Silent more) : Silent (effects ++ more) :=
  List.forall_mem_append.2 ⟨h, h'⟩

theorem silent_nil : Silent [] := fun _ hmem => absurd hmem List.not_mem_nil

theorem Silent.accepted_eq (h : Silent effects) : accepted effects = [] := by
  refine List.filterMap_eq_nil_iff.2 fun effect hmem => ?_
  have hnone := h effect hmem
  cases effect with
  | write => exact nomatch hnone
  | _ => rfl

theorem Silent.succeeded_eq (h : Silent effects) : succeeded effects = [] := by
  refine List.filterMap_eq_nil_iff.2 fun effect hmem => ?_
  have hnone := h effect hmem
  cases effect with
  | reply => exact nomatch hnone
  | _ => rfl

/-- Who only writes answers nothing. -/
theorem succeeded_of_writes (h : ∀ effect ∈ effects, effect.isWrite = true) :
    succeeded effects = [] := by
  refine List.filterMap_eq_nil_iff.2 ?_
  intro effect hmem
  have hwrite := h effect hmem
  cases effect with
  | write => rfl
  | _ => exact nomatch hwrite

theorem accepted_answer (request : Option Nat) (result : LinkResult) :
    accepted (answer request result) = [] := by
  cases request <;> rfl

theorem succeeded_answer_error (request : Option Nat) (fault : LinkFault) :
    succeeded (answer request (.error fault)) = [] := by
  cases request <;> rfl

/-! ### Work that enters the queue -/

/-- Work that enters the queue leaves everything else as it is. -/
theorem offer_eq (s : Session) (job : Job) : ∃ queue, s.offer job = { s with queue } := by
  unfold offer
  split
  · exact ⟨_, rfl⟩
  · exact ⟨s.queue, rfl⟩

theorem submit_eq (s : Session) (job : Job) :
    ∃ queue senders, s.submit job = { s with queue, senders } := by
  unfold submit
  split
  · exact ⟨_, s.senders, rfl⟩
  · exact ⟨s.queue, _, rfl⟩

/-- With a report of the watch set nothing changes but that, what was pushed, and the queue. -/
theorem activate_eq (s : Session) (id : UInt32) : ∃ queue,
    s.activate id = { s with active := s.services.find id, cache := .empty, queue } := by
  unfold activate
  dsimp only
  split
  · exact offer_eq _ .pushAll
  · exact ⟨s.queue, rfl⟩

/-! ### The other side -/

/-- What has to be done for the connection changes nothing but that, the alarms, what was pushed,
and the queue. -/
theorem execute_eq (luck : Luck) (s : Session) (directive : Directive) :
    ∃ lifecycle alarms cache queue,
      (s.execute luck directive).2.2 = { s with lifecycle, alarms, cache, queue } := by
  cases directive with
  | openLink | reconnect =>
    unfold execute
    dsimp only
    split
    · exact ⟨s.lifecycle, s.alarms, s.cache, s.queue, rfl⟩
    · exact ⟨_, s.alarms, s.cache, s.queue, rfl⟩
  | syncClock =>
    obtain ⟨queue, hoffer⟩ := s.offer_eq .syncClock
    exact ⟨s.lifecycle, s.alarms, s.cache, queue, hoffer⟩
  | discover | armNotifications | disconnect | close =>
    exact ⟨s.lifecycle, s.alarms, s.cache, s.queue, rfl⟩
  | scheduleSettle | scheduleClockSync => exact ⟨s.lifecycle, _, s.cache, s.queue, rfl⟩
  | clearPushCache => exact ⟨s.lifecycle, s.alarms, .empty, s.queue, rfl⟩

theorem executeAll_eq (luck : Luck) (s : Session) (directives : List Directive) :
    ∃ lifecycle alarms cache queue,
      (s.executeAll luck directives).2.2 = { s with lifecycle, alarms, cache, queue } := by
  induction directives generalizing s with
  | nil => exact ⟨s.lifecycle, s.alarms, s.cache, s.queue, rfl⟩
  | cons directive rest ih =>
    obtain ⟨lifecycle, alarms, cache, queue, hfirst⟩ := execute_eq luck s directive
    obtain ⟨lifecycle', alarms', cache', queue', hrest⟩ := ih (s.execute luck directive).2.2
    refine ⟨lifecycle', alarms', cache', queue', hrest.trans ?_⟩
    rw [hfirst]

/-- What the connection is told changes nothing but that, the alarms, what was pushed, and the
queue. -/
theorem tell_eq (luck : Luck) (s : Session) (input : LinkInput) :
    ∃ lifecycle alarms cache queue,
      (s.tell luck input).2.2 = { s with lifecycle, alarms, cache, queue } := by
  obtain ⟨lifecycle, alarms, cache, queue, hall⟩ :=
    executeAll_eq luck { s with lifecycle := (s.lifecycle.step input).2 } (s.lifecycle.step input).1
  exact ⟨lifecycle, alarms, cache, queue, hall⟩

/-- An alarm that goes off changes nothing but the connection, the alarms, what was pushed, and the
queue. -/
theorem ring_eq (luck : Luck) (s : Session) : ∃ lifecycle alarms cache queue,
    (s.ring luck).2 = { s with lifecycle, alarms, cache, queue } := by
  unfold ring
  split
  · next alarm alarms _ => exact tell_eq luck { s with alarms } alarm.input
  · exact ⟨s.lifecycle, s.alarms, s.cache, s.queue, rfl⟩

/-- What the host asks of the connection is told to it. -/
theorem requested_eq (luck : Luck) (s : Session) (request : LinkRequest) :
    ∃ input, (s.requested luck request).2 = (s.tell luck input).2.2 := by
  cases request with
  | connect address => exact ⟨.connect address, rfl⟩
  | disconnect => exact ⟨.disconnect, rfl⟩
  | close => exact ⟨.close, rfl⟩
  | setAutoReconnect enabled => exact ⟨.setAutoReconnect enabled, rfl⟩

/-- What the radio reports is told to the connection, switches the active watch set, or reaches the
slots, of which that for acknowledgements stays or is handed an answer. -/
theorem receive_cases (luck : Luck) (s : Session) (event : RadioEvent) :
    (∃ input, (s.receive luck event).2 = (s.tell luck input).2.2) ∨
      (∃ id, (s.receive luck event).2 = s.activate id) ∨
      ∃ signals, (s.receive luck event).2 = { s with signals } ∧
        (signals.ack = s.signals.ack ∨ signals.ack = (s.signals.ack.fulfill ()).2) := by
  cases event with
  | linkUp => exact .inl ⟨.linkUp, rfl⟩
  | linkDown => exact .inl ⟨.linkDown, rfl⟩
  | servicesDiscovered success => exact .inl ⟨.servicesDiscovered success, rfl⟩
  | received data =>
    right
    unfold receive
    dsimp only
    split
    · next report _ =>
      cases report with
      | activeWatchSet id => exact .inl ⟨id, rfl⟩
      | acknowledged => exact .inr ⟨_, rfl, .inr rfl⟩
      | permission granted => exact .inr ⟨_, rfl, .inl rfl⟩
      | notification function => exact .inr ⟨s.signals, rfl, .inl rfl⟩
      | callFunction index =>
        unfold dispatch
        dsimp only
        split <;> exact .inr ⟨s.signals, rfl, .inl rfl⟩
    · exact .inr ⟨s.signals, rfl, .inl rfl⟩

theorem silent_execute (luck : Luck) (s : Session) (directive : Directive) :
    Silent (s.execute luck directive).2.1 := by
  cases directive with
  | openLink | reconnect =>
    unfold execute
    dsimp only
    split <;> simp [Silent, Effect.ofWorker]
  | discover | scheduleSettle | armNotifications | clearPushCache | scheduleClockSync | syncClock
  | disconnect | close => simp [execute, Silent, Effect.ofWorker]

theorem silent_executeAll (luck : Luck) (s : Session) (directives : List Directive) :
    Silent (s.executeAll luck directives).2.1 := by
  induction directives generalizing s with
  | nil => exact silent_nil
  | cons directive rest ih => exact (silent_execute luck s directive).append (ih _)

theorem silent_tell (luck : Luck) (s : Session) (input : LinkInput) :
    Silent (s.tell luck input).2.1 := silent_executeAll luck _ _

theorem silent_ring (luck : Luck) (s : Session) : Silent (s.ring luck).1 := by
  unfold ring
  split
  · exact silent_tell luck _ _
  · exact silent_nil

theorem silent_requested (luck : Luck) (s : Session) (request : LinkRequest) :
    Silent (s.requested luck request).1 := by
  cases request with
  | connect address =>
    exact (silent_tell luck s (.connect address)).append (by simp [Silent, Effect.ofWorker])
  | disconnect => exact silent_tell luck s .disconnect
  | close => exact silent_tell luck s .close
  | setAutoReconnect enabled => exact silent_tell luck s (.setAutoReconnect enabled)

theorem silent_page (s : Session) (function : NotificationFunction) :
    Silent (s.page function) := by
  unfold page
  split
  · split <;> simp [Silent, Effect.ofWorker]
  · split
    · cases function with
      | nextPart | previousPart =>
        dsimp only
        split <;> simp [Silent, Effect.ofWorker]
      | _ => simp [Silent, Effect.ofWorker]
    · exact silent_nil

theorem silent_dispatch (s : Session) (report : Report) : Silent (s.dispatch report).1 := by
  cases report with
  | callFunction index =>
    unfold dispatch
    dsimp only
    split <;> simp [Silent, Effect.ofWorker]
  | notification function => exact s.silent_page function
  | acknowledged | permission | activeWatchSet => exact silent_nil

theorem silent_receive (luck : Luck) (s : Session) (event : RadioEvent) :
    Silent (s.receive luck event).1 := by
  cases event with
  | linkUp => exact silent_tell luck s .linkUp
  | linkDown => exact silent_tell luck s .linkDown
  | servicesDiscovered success => exact silent_tell luck s (.servicesDiscovered success)
  | received data =>
    unfold receive
    dsimp only
    split
    · exact s.silent_dispatch _
    · exact silent_nil

/-- **A move of the other side neither writes nor answers a request.** -/
theorem silent_step (luck : Luck) (s : Session) (hwork : move ≠ .work) :
    Silent (s.step luck move).1 := by
  cases move with
  | work => exact absurd rfl hwork
  | request request => exact silent_requested luck s request
  | radio event => exact silent_receive luck s event
  | alarm => exact silent_ring luck s
  | submit | offer | enter | wait | services => exact silent_nil

/-- **A move of the other side leaves the worker alone.** -/
theorem worker_step (luck : Luck) (s : Session) (hwork : move ≠ .work) :
    (s.step luck move).2.worker = s.worker := by
  by_cases hswitch : ∃ data id, move = .radio (.received data) ∧
      Report.decode data = .ok (.activeWatchSet id)
  · obtain ⟨data, id, rfl, hreport⟩ := hswitch
    show (s.receive luck (.received data)).2.worker = s.worker
    simp only [receive, hreport, dispatch]
    obtain ⟨queue, hactivate⟩ := s.activate_eq id
    rw [hactivate]
  · cases move with
    | services => rfl
    | _ =>
      refine (beside_step luck hwork (fun data hmove id hreport => ?_) (by simp)).worker
      exact hswitch ⟨data, id, hmove, hreport⟩

/-! ### A worker without work -/

/-- A worker without work that takes none up does nothing. -/
theorem step_of_rest (luck : Luck) (hidle : s.worker = .idle) (htakes : s.takes? move = none) :
    Silent (s.step luck move).1 ∧ (s.step luck move).2.worker = .idle := by
  by_cases hwork : move = .work
  · subst hwork
    have hqueue : s.queue = [] := by simpa [takes?, hidle] using htakes
    show Silent (s.work luck).1 ∧ (s.work luck).2.worker = .idle
    rw [work_of_empty hidle hqueue]
    exact ⟨silent_nil, hidle⟩
  · exact ⟨silent_step luck s hwork, (worker_step luck s hwork).trans hidle⟩

/-- A worker without work does nothing while no work is taken up. -/
theorem silent_rest (hidle : s.worker = .idle) (htaken : s.taken moves = []) :
    Silent (s.effects moves) := by
  induction moves generalizing s with
  | nil => exact silent_nil
  | cons head rest ih =>
    obtain ⟨luck, move⟩ := head
    obtain ⟨hnone, hrest⟩ := List.append_eq_nil_iff.1 htaken
    have htakes : s.takes? move = none := by simpa using hnone
    obtain ⟨hsilent, hnext⟩ := step_of_rest luck hidle htakes
    exact hsilent.append (ih hnext hrest)

/-! ### Steps of the worker -/

/-- What the worker does with a step: it has nothing to do, takes up a piece of work, is done with
pushing, looks at a property, or goes on with a transfer. -/
inductive Works (s : Session) (luck : Luck) : List Effect × Session → Prop
  | rests : Works s luck ([], s)
  | takes {job : Job} {rest : List Job} : s.takes? .work = some job →
    Works s luck ((s.shifted rest).begin luck job)
  | ends : s.worker = .pushing [] → Works s luck ([], { s with worker := .idle })
  | looks {entry : Nat × Property} {pending : List (Nat × Property)} :
    s.worker = .pushing (entry :: pending) → Works s luck ([], s.pushOne entry.1 entry.2 pending)
  | advances {purpose : Purpose} {transfer : Transfer} :
    s.worker = .transferring purpose transfer → Works s luck (s.advance luck purpose transfer)

theorem works_work (luck : Luck) (s : Session) : s.Works luck (s.work luck) := by
  cases hworker : s.worker with
  | idle =>
    cases hqueue : s.queue with
    | nil =>
      rw [work_of_empty hworker hqueue]
      exact .rests
    | cons job rest =>
      have htakes : s.takes? .work = some job := by simp [takes?, hworker, hqueue]
      obtain ⟨rest, -, -, hstep⟩ := work_of_takes luck htakes
      change s.work luck = _ at hstep
      rw [hstep]
      exact .takes htakes
  | pushing pending =>
    cases pending with
    | nil =>
      rw [work_of_done hworker]
      exact .ends hworker
    | cons entry pending =>
      rw [work_of_pending hworker]
      exact .looks hworker
  | transferring purpose transfer =>
    rw [work_of_transfer hworker]
    exact .advances hworker

/-! ### Transfers -/

/-- What is written with a step of a transfer, of which a write was taken or not. -/
def attempted (step : TransferStep) (taken : Bool) : List Effect :=
  step.attempt.toList.map fun data => .write data taken

theorem accepted_attempted (step : TransferStep) (taken : Bool) :
    accepted (attempted step taken) = step.written taken := by
  unfold attempted TransferStep.written
  cases step.attempt <;> cases taken <;> rfl

theorem writes_attempted (step : TransferStep) (taken : Bool) :
    ∀ effect ∈ attempted step taken, effect.isWrite = true := by
  intro effect hmem
  obtain ⟨data, -, rfl⟩ := List.mem_map.1 hmem
  rfl

/-- With the end of a transfer its request is answered, and nothing else is done. -/
theorem conclude_fst (s : Session) (purpose : Purpose) (result : LinkResult) :
    (s.conclude purpose result).1 = answer purpose.request? result := by
  cases purpose <;> cases result <;> rfl

/-- With the end of a transfer that is no push the worker is done. -/
theorem idle_conclude (s : Session) {purpose : Purpose} (result : LinkResult)
    (h : purpose.isPush = false) : (s.conclude purpose result).2.worker = .idle := by
  cases purpose with
  | push => exact nomatch h
  | request | clock => rfl
  | alert => cases result <;> rfl

/-- A transfer that is no push goes on, with a write that may be attempted; or the worker is done
with it, and its request is answered. -/
inductive Serves (purpose : Purpose) (transfer : Transfer) (result : List Effect × Session) : Prop
  | goesOn {next : Transfer} : result.2.worker = .transferring purpose next →
    (∀ effect ∈ result.1, effect.isWrite = true) →
    (∀ writes, Transfer.Scripts next.tasks writes →
      Transfer.Scripts transfer.tasks (accepted result.1 ++ writes)) →
    Serves purpose transfer result
  | ends {attempts : List Effect} {outcome : LinkResult} : result.2.worker = .idle →
    (∀ effect ∈ attempts, effect.isWrite = true) →
    result.1 = attempts ++ answer purpose.request? outcome →
    (outcome = .ok () → Transfer.Scripts transfer.tasks (accepted attempts)) →
    (∀ fault, outcome = .error fault → accepted attempts = []) →
    Serves purpose transfer result

/-- **A step of a transfer attempts a write or answers.** -/
theorem serves_advance (luck : Luck) (s : Session) {purpose : Purpose} {transfer : Transfer}
    (hworker : s.worker = .transferring purpose transfer) (h : purpose.isPush = false) :
    Serves purpose transfer (s.advance luck purpose transfer) := by
  have hadvances := Transfer.advances_step s.config s.now luck.accepts s.signals transfer
  unfold advance
  generalize transfer.step s.config s.now luck.accepts s.signals = step at hadvances ⊢
  cases hadvances with
  | @runs next signals attempt hscripts =>
    refine .goesOn rfl (writes_attempted ⟨.running next, signals, attempt⟩ luck.accepts) ?_
    intro writes hwrites
    have hscript := hscripts writes hwrites
    rwa [← accepted_attempted] at hscript
  | waits =>
    exact .goesOn hworker (fun _ hmem => absurd hmem List.not_mem_nil) fun _ hwrites => hwrites
  | @succeeds signals attempt hscript =>
    refine .ends (idle_conclude _ _ h)
      (writes_attempted ⟨.finished (.ok ()), signals, attempt⟩ luck.accepts)
      (congrArg _ (conclude_fst _ purpose (.ok ()))) ?_ (fun _ hfault => nomatch hfault)
    intro _
    rwa [accepted_attempted]
  | @fails fault signals attempt hunwritten =>
    refine .ends (idle_conclude _ _ h)
      (writes_attempted ⟨.finished (.error fault), signals, attempt⟩ luck.accepts)
      (congrArg _ (conclude_fst _ purpose (.error fault))) (fun hok => nomatch hok) ?_
    intro _ _
    rwa [accepted_attempted]

/-- A transfer that is no push goes on, or the worker is done with it.  A request is only answered
with success when the transfer is done to its end. -/
inductive Served (purpose : Purpose) (transfer : Transfer) (result : List Effect × Session) : Prop
  | goesOn {next : Transfer} : result.2.worker = .transferring purpose next →
    succeeded result.1 = [] →
    (∀ writes, Transfer.Scripts next.tasks writes →
      Transfer.Scripts transfer.tasks (accepted result.1 ++ writes)) →
    Served purpose transfer result
  | succeeds : result.2.worker = .idle → Transfer.Scripts transfer.tasks (accepted result.1) →
    Served purpose transfer result
  | fails : result.2.worker = .idle → accepted result.1 = [] → succeeded result.1 = [] →
    Served purpose transfer result

theorem Serves.served {purpose : Purpose} {transfer : Transfer} {result : List Effect × Session}
    (h : Serves purpose transfer result) : Served purpose transfer result := by
  cases h with
  | goesOn hnext hwrites hscripts => exact .goesOn hnext (succeeded_of_writes hwrites) hscripts
  | @ends attempts outcome hidle hwrites heffects hok herror =>
    have haccepted : accepted result.1 = accepted attempts := by
      rw [heffects, accepted_append, accepted_answer, List.append_nil]
    cases outcome with
    | ok =>
      refine .succeeds hidle ?_
      rw [haccepted]
      exact hok rfl
    | error fault =>
      refine .fails hidle (haccepted.trans (herror fault rfl)) ?_
      rw [heffects, succeeded_append, succeeded_of_writes hwrites, succeeded_answer_error]
      rfl

/-- **A step of a transfer takes the first write of a script, or none.** -/
theorem served_advance (luck : Luck) (s : Session) {purpose : Purpose} {transfer : Transfer}
    (hworker : s.worker = .transferring purpose transfer) (h : purpose.isPush = false) :
    Served purpose transfer (s.advance luck purpose transfer) :=
  (serves_advance luck s hworker h).served

end Session

end Timepiece
