import Mathlib
import Timepiece.Proofs.Link.Deliveries
import Timepiece.Proofs.Link.Ledgers

/-!
# Answers to alerts

Whoever sends an alert may name a handler for the answers to it.  The worker puts the handler in
its place when the upload of the alert has succeeded, and the other side of the session hands it
the answers that the watch reports.  The accounts of the work tell which uploads of alerts have
succeeded, and the handler in its place is that of the last one.

## Main definitions

* `Move.answer?` — the answer to an alert that the watch gives with a move.
* `Session.answers` — the answers that are handed to handlers.
* `Job.alerts?`, `Session.alerted` — the handlers of the alerts whose uploads have succeeded.
* `Session.due`, `Session.dueAfter` — the answers that are to be handed to handlers.
* `Session.Answered` — how alerts are answered.

## Main results

* `Session.answers_step` — **an answer of the watch is handed to the handler in its place**, and
  nothing else is handed to anyone.
* `WorkLedger.alerted_note` — the upload of an alert succeeds with a move, or nothing changes.
* `Session.heeds_step` — **a handler is put in its place with the success of an upload only**.
* `Session.handler_after` — the handler in its place is that of the last alert that succeeded.
* `Session.answered_after` — **answers go to the handler of the alert whose upload succeeded
  last**, each of them once.
-/

namespace Timepiece

/-! ### Answers and alerts -/

/-- The answer that is handed to a handler. -/
def Effect.answer? : Effect → Option (String × NotificationFunction)
  | .answerAlert handler function => some (handler, function)
  | _ => none

/-- The answer to an alert that the watch gives with a move. -/
def Move.answer? : Move → Option NotificationFunction
  | .radio (.received data) =>
    match Report.decode data with
    | .ok (.notification function) => if function.answersAlert then some function else none
    | _ => none
  | _ => none

/-- The handler of an alert whose upload is among the requests that succeeded.  An alert may come
without a handler. -/
def Job.alerts? (job : Job) (done : List Nat) : Option (Option String) :=
  match job with
  | .notification sent handler request =>
    if sent.isAlert ∧ request ∈ done then some handler else none
  | _ => none

/-- What a piece of work is transferred for, if all of it is one transfer. -/
def Job.purpose? : Job → Option Purpose
  | .upload _ request => some (.request request)
  | .notification sent handler request =>
    some (if sent.isAlert then .alert handler request else .request request)
  | .command _ request => some (.request request)
  | .syncClock => some .clock
  | .push _ | .pushExtension _ | .pushAll => none

namespace Session

/-- The answers that are handed to handlers, in order. -/
def answers (effects : List Effect) : List (String × NotificationFunction) :=
  effects.filterMap Effect.answer?

end Session

/-- The handler of an alert whose upload succeeded, by the account of it. -/
def Account.alerted? (a : Account) : Option (Option String) :=
  a.taking.job.alerts? (Session.succeeded a.record)

namespace WorkLedger

/-- The handlers of the alerts whose uploads have succeeded, one alert after the other. -/
def alerted (l : WorkLedger) : List (Option String) := l.accounts.filterMap Account.alerted?

/-- The piece of work that was taken up last. -/
def job? (l : WorkLedger) : Option Job := l.last.map fun a => a.taking.job

end WorkLedger

namespace Session

/-- The handlers of the alerts whose uploads have succeeded, one alert after the other. -/
def alerted (s : Session) (moves : List (Luck × Move)) : List (Option String) :=
  (s.ledger moves).alerted

/-- The handler of the alert that a piece of work uploads, if that succeeds with some effects. -/
def completes? (job : Option Job) (effects : List Effect) : Option (Option String) :=
  job.bind fun job => job.alerts? (succeeded effects)

/-- The handler of the alert whose upload succeeded last, if there is such an alert and it has
one. -/
def recipient (s : Session) (moves : List (Luck × Move)) : Option String :=
  (s.alerted moves).getLast?.join

/-- An answer is handed to a handler if there are both. -/
def delivery (answer : Option NotificationFunction) (handler : Option String) :
    List (String × NotificationFunction) :=
  match answer, handler with
  | some function, some handler => [(handler, function)]
  | _, _ => []

/-- The answers that are to be handed to handlers with a move after some others. -/
def due (s : Session) (past : List (Luck × Move)) (move : Move) :
    List (String × NotificationFunction) :=
  delivery move.answer? (s.recipient past)

/-- The answers that are to be handed to handlers with some moves after some others. -/
def dueAfter (s : Session) (past : List (Luck × Move)) :
    List (Luck × Move) → List (String × NotificationFunction)
  | [] => []
  | (luck, move) :: rest => s.due past move ++ s.dueAfter (past ++ [(luck, move)]) rest

/-! ### Who hands over answers -/

variable {s : Session} {luck : Luck} {move : Move} {job : Job} {purpose : Purpose}
  {effects more : List Effect}

theorem answers_append : answers (effects ++ more) = answers effects ++ answers more :=
  List.filterMap_append

/-- Who only writes hands over nothing. -/
theorem answers_of_writes (h : ∀ effect ∈ effects, effect.isWrite = true) :
    answers effects = [] := by
  refine List.filterMap_eq_nil_iff.2 ?_
  intro effect hmem
  have hwrite := h effect hmem
  cases effect with
  | write => rfl
  | _ => exact absurd hwrite (by simp [Effect.isWrite])

theorem answers_execute (luck : Luck) (s : Session) (directive : Directive) :
    answers (s.execute luck directive).2.1 = [] := by
  cases directive with
  | openLink | reconnect =>
    unfold execute
    dsimp only
    split <;> rfl
  | discover | scheduleSettle | armNotifications | clearPushCache | scheduleClockSync | syncClock
  | disconnect | close => rfl

theorem answers_executeAll (luck : Luck) (s : Session) (directives : List Directive) :
    answers (s.executeAll luck directives).2.1 = [] := by
  induction directives generalizing s with
  | nil => rfl
  | cons directive rest ih =>
    have hfirst := answers_execute luck s directive
    have hrest := ih (s.execute luck directive).2.2
    show answers ((s.execute luck directive).2.1 ++
      ((s.execute luck directive).2.2.executeAll luck rest).2.1) = []
    rw [answers_append, hfirst, hrest]
    rfl

theorem answers_tell (luck : Luck) (s : Session) (input : LinkInput) :
    answers (s.tell luck input).2.1 = [] := answers_executeAll luck _ _

theorem answers_ring (luck : Luck) (s : Session) : answers (s.ring luck).1 = [] := by
  unfold ring
  split
  · exact answers_tell luck _ _
  · rfl

theorem answers_requested (luck : Luck) (s : Session) (request : LinkRequest) :
    answers (s.requested luck request).1 = [] := by
  cases request with
  | connect address =>
    show answers ((s.tell luck (.connect address)).2.1 ++ _) = []
    rw [answers_append, answers_tell]
    rfl
  | disconnect => exact answers_tell luck s .disconnect
  | close => exact answers_tell luck s .close
  | setAutoReconnect enabled => exact answers_tell luck s (.setAutoReconnect enabled)

/-- A piece of work that is taken up is transferred, or refused, or nothing is done for it yet. -/
structure Begun (s : Session) (job : Job) (result : List Effect × Session) : Prop where
  effects : result.1 = [] ∨ ∃ request fault, result.1 = [.reply request (.error fault)]
  handler : result.2.handler = s.handler
  purpose : ∀ purpose transfer, result.2.worker = .transferring purpose transfer →
    job.purpose? = some purpose

theorem begun_beginRequest {request : Nat} {made : Except LinkFault Transfer}
    (hidle : s.worker = .idle) (hpurpose : job.purpose? = some purpose) :
    s.Begun job (s.beginRequest request purpose made) := by
  have hnone : ∀ purpose transfer, s.worker = .transferring purpose transfer →
      job.purpose? = some purpose := by
    intro purpose transfer hworker
    rw [hidle] at hworker
    exact absurd hworker (by simp)
  unfold beginRequest
  split
  · cases made with
    | ok transfer =>
      refine ⟨.inl rfl, rfl, fun purpose' transfer' hworker => ?_⟩
      rw [hpurpose, (Worker.transferring.inj hworker).1]
    | error fault => exact ⟨.inr ⟨_, _, rfl⟩, rfl, hnone⟩
  · exact ⟨.inr ⟨_, _, rfl⟩, rfl, hnone⟩

theorem begun_beginPush (hidle : s.worker = .idle) (job : Job) (picked : Property → Bool) :
    s.Begun job (s.beginPush picked) := by
  unfold beginPush
  split
  · exact ⟨.inl rfl, rfl, fun _ _ hworker => absurd hworker (by simp)⟩
  · exact ⟨.inl rfl, rfl, fun _ _ hworker => absurd (hidle.symm.trans hworker) (by simp)⟩

theorem begun_begin (luck : Luck) (hidle : s.worker = .idle) (job : Job) :
    s.Begun job (s.begin luck job) := by
  cases job with
  | upload | notification | command =>
    unfold begin
    exact begun_beginRequest hidle rfl
  | push | pushExtension | pushAll => exact begun_beginPush hidle _ _
  | syncClock =>
    have hnothing : s.Begun .syncClock ([], s) :=
      ⟨.inl rfl, rfl, fun _ _ hworker => absurd (hidle.symm.trans hworker) (by simp)⟩
    unfold begin
    dsimp only
    split
    · split
      · refine ⟨.inl rfl, rfl, fun purpose transfer hworker => ?_⟩
        rw [← (Worker.transferring.inj hworker).1]
        rfl
      · exact hnothing
    · exact hnothing

theorem Begun.answers_eq {result : List Effect × Session} (h : s.Begun job result) :
    answers result.1 = [] := by
  obtain hnothing | ⟨request, fault, hrefused⟩ := h.effects
  · rw [hnothing]
    rfl
  · rw [hrefused]
    rfl

theorem Begun.succeeded_eq {result : List Effect × Session} (h : s.Begun job result) :
    succeeded result.1 = [] := by
  obtain hnothing | ⟨request, fault, hrefused⟩ := h.effects
  · rw [hnothing]
    rfl
  · rw [hrefused]
    rfl

/-- What a step of a transfer does: writes are attempted, and then it goes on or is concluded. -/
inductive Advances (s : Session) (purpose : Purpose) : List Effect × Session → Prop
  | goesOn {attempts : List Effect} {signals : Signals} {next : Transfer} :
    (∀ effect ∈ attempts, effect.isWrite = true) →
    Advances s purpose
      (attempts, { s with signals, worker := .transferring purpose next })
  | ends {attempts : List Effect} {signals : Signals} {result : LinkResult} :
    (∀ effect ∈ attempts, effect.isWrite = true) →
    Advances s purpose
      (attempts ++ answer purpose.request? result,
        ({ s with signals }.conclude purpose result).2)

theorem advances_advance (luck : Luck) {transfer : Transfer}
    (hworker : s.worker = .transferring purpose transfer) :
    s.Advances purpose (s.advance luck purpose transfer) := by
  unfold advance
  generalize transfer.step s.config s.now luck.accepts s.signals = step
  have hwrites := writes_attempted step luck.accepts
  dsimp only
  split
  · exact .goesOn hwrites
  · have hblocked := @Advances.goesOn s purpose _ step.signals transfer hwrites
    rw [← hworker] at hblocked
    exact hblocked
  · rw [conclude_fst]
    exact .ends hwrites

/-- The worker hands over nothing. -/
theorem answers_work (luck : Luck) (s : Session) : answers (s.work luck).1 = [] := by
  have hworks := works_work luck s
  generalize s.work luck = result at hworks ⊢
  cases hworks with
  | rests | ends | looks => rfl
  | @takes job rest htakes =>
    obtain ⟨-, hidle, -⟩ := work_of_takes luck htakes
    exact (begun_begin luck (s := s.shifted rest) hidle job).answers_eq
  | advances hworker =>
    have hadvances := advances_advance luck hworker
    generalize s.advance luck _ _ = result at hadvances ⊢
    cases hadvances with
    | goesOn hwrites => exact answers_of_writes hwrites
    | ends hwrites =>
      rw [answers_append, answers_of_writes hwrites]
      generalize Purpose.request? _ = request
      cases request <;> rfl

/-- Who turns pages is no handler. -/
theorem answers_page (s : Session) (function : NotificationFunction) :
    answers (s.page function) =
      delivery (if function.answersAlert then some function else none) s.handler := by
  unfold page
  cases function with
  | alertDismiss | alertOption1 | alertOption2 => cases s.handler <;> rfl
  | showFirst | next =>
    show answers (if s.services.pages then _ else []) = []
    split <;> rfl
  | nextPart | previousPart =>
    show answers (if s.services.pages then (if _ then _ else []) else []) = []
    split
    · split <;> rfl
    · rfl

/-- What the radio reports is handed over if it answers an alert that has a handler. -/
theorem answers_receive (luck : Luck) (s : Session) (event : RadioEvent) :
    answers (s.receive luck event).1 = delivery (Move.radio event).answer? s.handler := by
  cases event with
  | linkUp => exact answers_tell luck s .linkUp
  | linkDown => exact answers_tell luck s .linkDown
  | servicesDiscovered success => exact answers_tell luck s (.servicesDiscovered success)
  | received data =>
    unfold receive Move.answer?
    dsimp only
    cases Report.decode data with
    | error fault => rfl
    | ok report =>
      cases report with
      | acknowledged | permission | activeWatchSet => rfl
      | callFunction index =>
        unfold dispatch
        dsimp only
        split <;> rfl
      | notification function => exact s.answers_page function

/-- **An answer of the watch is handed to the handler in its place**, and nothing else is handed
to anyone. -/
theorem answers_step (luck : Luck) (s : Session) (move : Move) :
    answers (s.step luck move).1 = delivery move.answer? s.handler := by
  cases move with
  | submit | offer | enter | wait | services => rfl
  | request request => exact answers_requested luck s request
  | radio event => exact answers_receive luck s event
  | alarm => exact answers_ring luck s
  | work => exact answers_work luck s

/-! ### Whose upload succeeds -/

theorem alerts?_nil (job : Job) : job.alerts? [] = none := by
  cases job with
  | notification => simp [Job.alerts?]
  | _ => rfl

/-- With the end of a transfer the handler of an alert is put in its place if it succeeded. -/
theorem handler_conclude (s : Session) (hpurpose : job.purpose? = some purpose)
    (result : LinkResult) :
    (s.conclude purpose result).2.handler =
      (job.alerts? (succeeded (answer purpose.request? result))).getD s.handler := by
  cases job with
  | push | pushExtension | pushAll => exact absurd hpurpose (by simp [Job.purpose?])
  | upload | command | syncClock =>
    obtain rfl := Option.some.inj hpurpose
    cases result <;> rfl
  | notification sent handler request =>
    obtain rfl := Option.some.inj hpurpose
    cases halert : sent.isAlert <;> cases result <;>
      simp [halert, conclude, Job.alerts?, succeeded, succeeded?, answer, Purpose.request?]

theorem handler_tell (luck : Luck) (s : Session) (input : LinkInput) :
    (s.tell luck input).2.2.handler = s.handler := by
  obtain ⟨lifecycle, alarms, cache, queue, htell⟩ := tell_eq luck s input
  rw [htell]

/-- The other side leaves the handler in its place. -/
theorem handler_beside (luck : Luck) (s : Session) (hwork : move ≠ .work) :
    (s.step luck move).2.handler = s.handler := by
  cases move with
  | work => exact absurd rfl hwork
  | enter | wait | services => rfl
  | submit job =>
    obtain ⟨queue, senders, hsubmit⟩ := s.submit_eq job
    show (s.submit job).handler = s.handler
    rw [hsubmit]
  | offer job =>
    obtain ⟨queue, hoffer⟩ := s.offer_eq job
    show (s.offer job).handler = s.handler
    rw [hoffer]
  | request request =>
    obtain ⟨input, hrequested⟩ := requested_eq luck s request
    exact (congrArg handler hrequested).trans (handler_tell luck s input)
  | radio event =>
    obtain ⟨input, htold⟩ | ⟨id, hswitched⟩ | ⟨signals, hheard, -⟩ := receive_cases luck s event
    · exact (congrArg handler htold).trans (handler_tell luck s input)
    · obtain ⟨queue, hactivate⟩ := s.activate_eq id
      show (s.receive luck event).2.handler = s.handler
      rw [hswitched, hactivate]
    · show (s.receive luck event).2.handler = s.handler
      rw [hheard]
  | alarm =>
    obtain ⟨lifecycle, alarms, cache, queue, hring⟩ := ring_eq luck s
    show (s.ring luck).2.handler = s.handler
    rw [hring]

/-- What is transferred belongs to a piece of work, unless it is a push. -/
def Attends (worker : Worker) (job : Option Job) : Prop :=
  ∀ purpose transfer, worker = .transferring purpose transfer → purpose.isPush = false →
    job.bind Job.purpose? = some purpose

theorem attends_of_not_transferring {worker : Worker}
    (h : ∀ purpose transfer, worker ≠ .transferring purpose transfer) (job : Option Job) :
    Attends worker job :=
  fun purpose transfer hworker => absurd hworker (h purpose transfer)

/-- A handler is put in its place if the upload of an alert succeeds, and what is transferred
belongs to the same piece of work. -/
structure Heeds (s : Session) (job : Option Job) (result : List Effect × Session) : Prop where
  handler : result.2.handler = (completes? job result.1).getD s.handler
  attends : Attends result.2.worker job

variable {working : Option Job}

theorem completes?_nil (working : Option Job) (h : succeeded effects = []) :
    completes? working effects = none := by
  unfold completes?
  rw [h]
  cases working with
  | none => rfl
  | some job => exact alerts?_nil job

theorem heeds_of_nothing {result : List Effect × Session} (hnone : succeeded result.1 = [])
    (hhandler : result.2.handler = s.handler) (hattends : Attends result.2.worker working) :
    s.Heeds working result := by
  refine ⟨?_, hattends⟩
  rw [completes?_nil working hnone]
  exact hhandler

/-- A step of a transfer. -/
theorem heeds_advance (luck : Luck) {transfer : Transfer} (h : Attends s.worker working)
    (hworker : s.worker = .transferring purpose transfer) :
    s.Heeds working (s.advance luck purpose transfer) := by
  have hadvances := advances_advance luck hworker
  generalize s.advance luck purpose transfer = result at hadvances ⊢
  cases hadvances with
  | goesOn hwrites =>
    refine heeds_of_nothing (succeeded_of_writes hwrites) rfl ?_
    intro purpose' transfer' hnext hpush
    obtain ⟨rfl, -⟩ := Worker.transferring.inj hnext
    exact h purpose transfer hworker hpush
  | @ends attempts signals result hwrites =>
    have hsucceeded : succeeded (attempts ++ answer purpose.request? result) =
        succeeded (answer purpose.request? result) := by
      rw [succeeded_append, succeeded_of_writes hwrites, List.nil_append]
    cases hpush : purpose.isPush with
    | true =>
      cases purpose with
      | push key value pending =>
        refine heeds_of_nothing hsucceeded ?_ (attends_of_not_transferring ?_ _)
        · cases result <;> rfl
        · cases result <;> intro _ _ <;> simp [conclude]
      | request | alert | clock => exact absurd hpush (by simp [Purpose.isPush])
    | false =>
      obtain ⟨job, rfl, hpurpose⟩ := Option.bind_eq_some_iff.1 (h purpose transfer hworker hpush)
      refine ⟨?_, attends_of_not_transferring ?_ _⟩
      · show _ = (job.alerts? (succeeded _)).getD _
        rw [hsucceeded]
        exact handler_conclude { s with signals } hpurpose result
      · intro purpose' transfer' hnext
        rw [idle_conclude _ result hpush] at hnext
        exact absurd hnext (by simp)

/-- **A handler is put in its place with the success of an upload only.** -/
theorem heeds_step (h : Attends s.worker working) (luck : Luck) (move : Move) :
    s.Heeds ((s.takes? move).or working) (s.step luck move) := by
  cases htakes : s.takes? move with
  | some job =>
    obtain ⟨rest, hidle, -, hstep⟩ := work_of_takes luck htakes
    have hbegun := begun_begin luck (s := s.shifted rest) hidle job
    rw [hstep]
    exact heeds_of_nothing hbegun.succeeded_eq hbegun.handler
      fun purpose transfer hworker _ => hbegun.purpose purpose transfer hworker
  | none =>
    rw [Option.none_or]
    by_cases hwork : move = .work
    · subst hwork
      have hworks := works_work luck s
      show s.Heeds working (s.work luck)
      generalize s.work luck = result at hworks ⊢
      cases hworks with
      | rests => exact heeds_of_nothing rfl rfl h
      | takes hjob => exact absurd (hjob.symm.trans htakes) (by simp)
      | ends => exact heeds_of_nothing rfl rfl (attends_of_not_transferring (by simp) _)
      | @looks entry pending hworker =>
        obtain ⟨-, hnext⟩ | ⟨-, hnext⟩ := s.pushOne_cases entry pending
        · rw [hnext]
          exact heeds_of_nothing rfl rfl (attends_of_not_transferring (by simp) _)
        · rw [hnext]
          refine heeds_of_nothing rfl rfl ?_
          intro purpose transfer hworker hpush
          obtain ⟨rfl, -⟩ := Worker.transferring.inj hworker
          exact absurd hpush (by simp [Purpose.isPush])
      | advances hworker => exact heeds_advance luck h hworker
    · refine heeds_of_nothing (silent_step luck s hwork).succeeded_eq
        (handler_beside luck s hwork) ?_
      rw [worker_step luck s hwork]
      exact h

end Session

/-! ### The accounts -/

/-- What succeeded is told by what the worker did. -/
theorem Session.succeeded_filter_ofWorker (effects : List Effect) :
    succeeded (effects.filter Effect.ofWorker) = succeeded effects := by
  induction effects with
  | nil => rfl
  | cons effect rest ih =>
    cases effect with
    | reply request result =>
      cases result with
      | ok => exact congrArg (request :: ·) ih
      | error => exact ih
    | _ => exact ih

namespace WorkLedger

open Session

variable {s : Session} {l : WorkLedger}

theorem job?_note (l : WorkLedger) (s : Session) (luck : Luck) (move : Move) :
    (l.note s luck move).job? = (s.takes? move).or l.job? := by
  unfold WorkLedger.note
  cases s.takes? move with
  | some job => rfl
  | none =>
    unfold job?
    cases l.last <;> rfl

theorem alerted_eq (l : WorkLedger) :
    l.alerted = l.earlier.filterMap Account.alerted? ++ (l.last.bind Account.alerted?).toList := by
  rw [alerted, accounts, List.filterMap_append]
  cases l.last with
  | none => rfl
  | some a => cases halerted : a.alerted? <;> simp [halerted]

/-- The accounts tell of an alert when its upload succeeds, and of no other one. -/
theorem alerted_note (h : l.Balanced s.worker) (luck : Luck) (move : Move) :
    (l.note s luck move).alerted =
      l.alerted ++ (completes? (l.note s luck move).job? (s.step luck move).1).toList := by
  have hlater : succeeded ((s.step luck move).1.filter Effect.ofWorker) =
      succeeded (s.step luck move).1 := succeeded_filter_ofWorker _
  rw [job?_note, alerted_eq (l.note s luck move)]
  unfold WorkLedger.note
  split
  · next job htakes =>
    refine congrArg (l.alerted ++ ·) ?_
    show (job.alerts? (succeeded (List.filter _ _))).toList = _
    rw [hlater, htakes]
    rfl
  · next htakes =>
    have hlast := h.last
    rw [alerted_eq, List.append_assoc, htakes, Option.none_or]
    refine congrArg (_ ++ ·) ?_
    unfold job?
    generalize l.last = last at hlast ⊢
    cases hlast with
    | nothing => rfl
    | settled hidle hsettled =>
      obtain ⟨hsilent, -⟩ := step_of_rest luck hidle htakes
      rw [completes?_nil _ hsilent.succeeded_eq, Option.map_some,
        filter_ofWorker_of_silent hsilent, Account.add_nil]
      exact (List.append_nil _).symm
    | @going a hgoing =>
      -- whoever is at a piece of work has answered nothing yet
      have hnone : succeeded a.record = [] := succeeded_of_writes hgoing.attempts
      show (a.taking.job.alerts? (succeeded (a.record ++ _))).toList =
        (a.taking.job.alerts? (succeeded a.record)).toList ++
          (a.taking.job.alerts? (succeeded _)).toList
      rw [succeeded_append, hnone, hlater, alerts?_nil]
      rfl

end WorkLedger

/-! ### All moves -/

namespace Session

variable {s : Session}

/-- The handler in its place is that of the alert whose upload succeeded last. -/
theorem handler_after (h : s.worker = .idle) (hnone : s.handler = none)
    (moves : List (Luck × Move)) :
    (s.after moves).handler = s.recipient moves ∧
      Attends (s.after moves).worker (s.ledger moves).job? := by
  induction moves using List.reverseRecOn with
  | nil =>
    refine ⟨hnone, attends_of_not_transferring (fun purpose transfer hworker => ?_) _⟩
    exact absurd (h.symm.trans hworker) (by simp)
  | append_singleton past last ih =>
    obtain ⟨luck, move⟩ := last
    obtain ⟨hhandler, hattends⟩ := ih
    have hheeds := heeds_step hattends luck move
    rw [← WorkLedger.job?_note, ← ledger_concat] at hheeds
    rw [after_concat]
    refine ⟨hheeds.handler.trans ?_, hheeds.attends⟩
    have halerted := WorkLedger.alerted_note (balanced_after h past) luck move
    rw [← ledger_concat] at halerted
    rw [recipient, alerted, halerted, hhandler, recipient, alerted]
    generalize completes? _ _ = completed
    cases completed <;> simp

/-- How alerts are answered. -/
structure Answered (s : Session) (moves : List (Luck × Move)) : Prop where
  /-- With a move an answer of the watch is handed to the handler of the alert whose upload
  succeeded last, and nothing else to anyone. -/
  handed : ∀ luck move, answers ((s.after moves).step luck move).1 = s.due moves move
  /-- So it was with all moves. -/
  all : answers (s.effects moves) = s.dueAfter [] moves
  /-- An alert counts with the move with which its upload succeeds, and nothing else does. -/
  counted : ∀ luck move, s.alerted (moves ++ [(luck, move)]) =
    s.alerted moves ++
      (completes? (s.ledger (moves ++ [(luck, move)])).job?
        ((s.after moves).step luck move).1).toList

theorem dueAfter_concat (s : Session) (before past : List (Luck × Move)) (luck : Luck)
    (move : Move) :
    s.dueAfter before (past ++ [(luck, move)]) =
      s.dueAfter before past ++ s.due (before ++ past) move := by
  induction past generalizing before with
  | nil =>
    rw [List.nil_append, List.append_nil]
    exact List.append_nil _
  | cons head rest ih =>
    obtain ⟨luck', move'⟩ := head
    show s.due before move' ++ s.dueAfter _ (rest ++ [(luck, move)]) = _
    rw [ih, ← List.append_assoc, List.append_assoc before]
    rfl

/-- **Answers go to the handler of the alert whose upload succeeded last**, each of them once. -/
theorem answered_after (config : LinkConfig) (services : Services) (moves : List (Luck × Move)) :
    (start config services).Answered moves := by
  let s := start config services
  have hhanded : ∀ past luck move,
      answers ((s.after past).step luck move).1 = s.due past move := by
    intro past luck move
    rw [answers_step, due, (handler_after rfl rfl past).1]
  refine ⟨hhanded moves, ?_, ?_⟩
  · induction moves using List.reverseRecOn with
    | nil => rfl
    | append_singleton past last ih =>
      obtain ⟨luck, move⟩ := last
      rw [effects_concat, answers_append, ih, dueAfter_concat, hhanded past luck move]
      rfl
  · intro luck move
    have halerted := WorkLedger.alerted_note (balanced_after (s := s) rfl moves) luck move
    rw [← ledger_concat] at halerted
    exact halerted

/-- An alert is sent and the watch is asked for it. -/
def alerting (handler : String) (request : Nat) : List (Luck × Move) :=
  [(radio true, .submit (.notification (.alert 1 0 0 []) (some handler) request)),
    (radio true, .work), (radio true, .work)]

/-- The watch takes the alert, and it is written. -/
def permitting : List (Luck × Move) :=
  (radio true, .radio (.received [4, 1])) :: List.replicate 4 (radio true, .work)

/-- While a second alert is on its way, an answer is for the first one. -/
example : answers ((start {} .none).effects (asking.take 5 ++ alerting "first" 1 ++ permitting ++
    alerting "second" 2 ++ [(radio true, .radio (.received [3, 2]))])) =
    [("first", .alertOption1)] := by decide +kernel

end Session

end Timepiece
