import Mathlib
import Timepiece.Link.Session
import Timepiece.Proofs.Link.Histories
import Timepiece.Proofs.Link.TransferSteps

/-!
# What a move of a session can do

The two sides of a session touch each other in few places.  What the side that hears does
leaves the worker alone and adds to the queue; it may switch the active watch set, and it may
forget what was pushed.  What the worker does changes neither the connection nor the active
watch set, takes the first piece of work out of the queue, and notes what it pushed.

## Main definitions

* `Session.after`, `Session.effects` — a session after some moves, and what they did.
* `Session.Beside` — what becomes of a session beside its worker.
* `Session.Took` — what becomes of a piece of work that is taken up.
* `Session.takes?`, `Session.taken` — the work that is taken up.

## Main results

* `Session.beside_step` — a move of the other side leaves the worker alone.
* `Session.took_begin`, `Session.advance_cases`, `Session.advance_write` — **what a step of the
  worker does**.
* `Session.queue_taken` — **work is taken up in the order in which it waits**.
-/

namespace Timepiece

/-- Whether a transfer is a push. -/
def Purpose.isPush : Purpose → Bool
  | .push _ _ _ => true
  | _ => false

namespace Session

/-- A session after some moves. -/
def after (s : Session) (moves : List (Luck × Move)) : Session := (s.run moves).2

/-- What some moves did to the world outside. -/
def effects (s : Session) (moves : List (Luck × Move)) : List Effect := (s.run moves).1

section Runs

variable (s : Session) (past rest : List (Luck × Move)) (luck : Luck) (move : Move)

theorem after_append : s.after (past ++ rest) = (s.after past).after rest := by
  rw [after, run_append]
  rfl

theorem effects_append :
    s.effects (past ++ rest) = s.effects past ++ (s.after past).effects rest := by
  rw [effects, run_append]
  rfl

theorem after_concat : s.after (past ++ [(luck, move)]) = ((s.after past).step luck move).2 :=
  s.after_append past [(luck, move)]

theorem effects_concat :
    s.effects (past ++ [(luck, move)]) = s.effects past ++ ((s.after past).step luck move).1 := by
  rw [effects_append]
  exact congrArg _ (List.append_nil _)

end Runs

/-! ### Beside the worker -/

/-- What becomes of a session beside its worker: the worker, the active watch set and the
values that are reported stay, the queue grows, and what was pushed is kept or forgotten. -/
structure Beside (s s' : Session) : Prop where
  worker : s'.worker = s.worker
  active : s'.active = s.active
  value : s'.services.value = s.services.value
  cache : s'.cache = s.cache ∨ s'.cache = .empty
  queue : s.queue <+: s'.queue

section Beside

variable {s s' s'' : Session}

theorem Beside.refl (s : Session) : Beside s s := ⟨rfl, rfl, rfl, .inl rfl, List.prefix_refl _⟩

theorem Beside.trans (h : Beside s s') (h' : Beside s' s'') : Beside s s'' where
  worker := h'.worker.trans h.worker
  active := h'.active.trans h.active
  value := h'.value.trans h.value
  cache := by
    rcases h'.cache with hcache | hcache
    · rw [hcache]
      exact h.cache
    · exact .inr hcache
  queue := List.IsPrefix.trans h.queue h'.queue

theorem beside_offer (s : Session) (job : Job) : Beside s (s.offer job) := by
  unfold offer
  split
  · exact ⟨rfl, rfl, rfl, .inl rfl, List.prefix_append _ _⟩
  · exact .refl s

theorem beside_submit (s : Session) (job : Job) : Beside s (s.submit job) := by
  unfold submit
  split
  · exact ⟨rfl, rfl, rfl, .inl rfl, List.prefix_append _ _⟩
  · exact ⟨rfl, rfl, rfl, .inl rfl, List.prefix_refl _⟩

theorem beside_enter (s : Session) : Beside s s.enter :=
  ⟨rfl, rfl, rfl, .inl rfl, List.prefix_append _ _⟩

theorem beside_execute (luck : Luck) (s : Session) (directive : Directive) :
    Beside s (s.execute luck directive).2.2 := by
  cases directive with
  | openLink | reconnect =>
    unfold execute
    dsimp only
    split <;> exact ⟨rfl, rfl, rfl, .inl rfl, List.prefix_refl _⟩
  | clearPushCache => exact ⟨rfl, rfl, rfl, .inr rfl, List.prefix_refl _⟩
  | syncClock => exact beside_offer s _
  | discover | scheduleSettle | armNotifications | scheduleClockSync | disconnect | close =>
    exact ⟨rfl, rfl, rfl, .inl rfl, List.prefix_refl _⟩

theorem beside_executeAll (luck : Luck) (s : Session) (directives : List Directive) :
    Beside s (s.executeAll luck directives).2.2 := by
  induction directives generalizing s with
  | nil => exact .refl s
  | cons directive rest ih => exact (beside_execute luck s directive).trans (ih _)

theorem beside_tell (luck : Luck) (s : Session) (input : LinkInput) :
    Beside s (s.tell luck input).2.2 := by
  have hlifecycle : Beside s { s with lifecycle := (s.lifecycle.step input).2 } :=
    ⟨rfl, rfl, rfl, .inl rfl, List.prefix_refl _⟩
  exact hlifecycle.trans (beside_executeAll luck _ _)

theorem beside_ring (luck : Luck) (s : Session) : Beside s (s.ring luck).2 := by
  unfold ring
  split
  · next alarm alarms _ =>
    have halarms : Beside s { s with alarms } := ⟨rfl, rfl, rfl, .inl rfl, List.prefix_refl _⟩
    exact halarms.trans (beside_tell luck _ _)
  · exact .refl s

theorem beside_requested (luck : Luck) (s : Session) (request : LinkRequest) :
    Beside s (s.requested luck request).2 := by
  cases request with
  | connect address => exact beside_tell luck s (.connect address)
  | disconnect => exact beside_tell luck s .disconnect
  | close => exact beside_tell luck s .close
  | setAutoReconnect enabled => exact beside_tell luck s (.setAutoReconnect enabled)

/-- What the radio reports leaves the worker alone, and switches the active watch set only if
it is the report that does. -/
theorem beside_receive (luck : Luck) (s : Session) (event : RadioEvent)
    (h : ∀ data, event = .received data → ∀ id, Report.decode data ≠ .ok (.activeWatchSet id)) :
    Beside s (s.receive luck event).2 := by
  cases event with
  | linkUp => exact beside_tell luck s .linkUp
  | linkDown => exact beside_tell luck s .linkDown
  | servicesDiscovered success => exact beside_tell luck s (.servicesDiscovered success)
  | received data =>
    unfold receive
    dsimp only
    split
    · next report hreport =>
      cases report with
      | activeWatchSet id => exact absurd hreport (h data rfl id)
      | callFunction index =>
        unfold dispatch
        dsimp only
        split <;> exact .refl s
      | acknowledged | permission =>
        exact ⟨rfl, rfl, rfl, .inl rfl, List.prefix_refl _⟩
      | notification => exact .refl s
    · exact .refl s

/-- **A move of the other side leaves the worker alone**, apart from a switch of the active
watch set and a change of the values. -/
theorem beside_step {move : Move} (luck : Luck) (hwork : move ≠ .work)
    (hactive : ∀ data, move = .radio (.received data) →
      ∀ id, Report.decode data ≠ .ok (.activeWatchSet id))
    (hvalues : ∀ services, move = .services services → services.value = s.services.value) :
    Beside s (s.step luck move).2 := by
  cases move with
  | submit job => exact beside_submit s job
  | offer job => exact beside_offer s job
  | enter => exact beside_enter s
  | request request => exact beside_requested luck s request
  | radio event =>
    refine beside_receive luck s event fun data hevent => hactive data ?_
    rw [hevent]
  | alarm => exact beside_ring luck s
  | work => exact absurd rfl hwork
  | wait moment => exact ⟨rfl, rfl, rfl, .inl rfl, List.prefix_refl _⟩
  | services services => exact ⟨rfl, rfl, hvalues services rfl, .inl rfl, List.prefix_refl _⟩

end Beside

/-! ### The worker -/

/-- What becomes of a piece of work that is taken up: nothing at all, or properties are looked
at, or a transfer begins that is no push.  Nothing is written yet. -/
structure Took (s : Session) (result : List Effect × Session) : Prop where
  unwritten : ∀ data taken, .write data taken ∉ result.1
  next : ∃ worker, result.2 = { s with worker } ∧
    (worker = s.worker ∨ (∃ picked, worker = .pushing (s.pick picked)) ∨
      ∃ purpose transfer, worker = .transferring purpose transfer ∧ purpose.isPush = false)

section Worker

variable {s : Session} {luck : Luck} {job : Job} {rest : List Job} {transfer : Transfer}
  {data : Bytes}

theorem took_beginPush (s : Session) (picked : Property → Bool) : s.Took (s.beginPush picked) := by
  unfold beginPush
  split
  · exact ⟨by simp, _, rfl, .inr (.inl ⟨picked, rfl⟩)⟩
  · exact ⟨by simp, s.worker, rfl, .inl rfl⟩

theorem took_beginRequest (s : Session) (request : Nat) (purpose : Purpose)
    (made : Except LinkFault Transfer) (h : purpose.isPush = false) :
    s.Took (s.beginRequest request purpose made) := by
  unfold beginRequest
  split
  · split
    · next transfer => exact ⟨by simp, _, rfl, .inr (.inr ⟨purpose, transfer, rfl, h⟩)⟩
    · exact ⟨by simp, s.worker, rfl, .inl rfl⟩
  · exact ⟨by simp, s.worker, rfl, .inl rfl⟩

theorem took_begin (luck : Luck) (s : Session) (job : Job) : s.Took (s.begin luck job) := by
  cases job with
  | upload payload request =>
    exact took_beginRequest s request (.request request) (.ok (.ofUpload payload)) rfl
  | notification notification handler request =>
    refine took_beginRequest s request _ _ ?_
    split <;> rfl
  | command command request =>
    exact took_beginRequest s request (.request request) (.ok (.ofWrite command.encode)) rfl
  | push | pushExtension | pushAll => exact took_beginPush s _
  | syncClock =>
    unfold begin
    dsimp only
    split
    · split
      · next command _ => exact ⟨by simp, _, rfl, .inr (.inr ⟨.clock, _, rfl, rfl⟩)⟩
      · exact ⟨by simp, s.worker, rfl, .inl rfl⟩
    · exact ⟨by simp, s.worker, rfl, .inl rfl⟩

/-- A step of a transfer lets it go on or ends it.  What is written is what the step of the
transfer attempts. -/
theorem advance_cases (s : Session) (luck : Luck) (purpose : Purpose) (transfer : Transfer)
    (hworker : s.worker = .transferring purpose transfer) :
    ∃ signals written, (∀ data taken, .write data taken ∈ written → taken = luck.accepts) ∧
      ((∃ next, s.advance luck purpose transfer =
          (written, { s with signals, worker := .transferring purpose next })) ∨
        ∃ result, s.advance luck purpose transfer =
          (written ++ ({ s with signals }.conclude purpose result).1,
            ({ s with signals }.conclude purpose result).2)) := by
  refine ⟨(transfer.step s.config s.now luck.accepts s.signals).signals,
    (transfer.step s.config s.now luck.accepts s.signals).attempt.toList.map
      fun data => Effect.write data luck.accepts, ?_, ?_⟩
  · intro data taken hmem
    obtain ⟨attempt, -, hattempt⟩ := List.mem_map.1 hmem
    exact (Effect.write.inj hattempt).2.symm
  · unfold advance
    dsimp only
    split
    · next next _ => exact .inl ⟨next, rfl⟩
    · exact .inl ⟨transfer, by rw [← hworker]⟩
    · next result _ => exact .inr ⟨result, rfl⟩

/-- A transfer that consists of one write waits, or the write is taken and the transfer ends,
or the write is refused. -/
theorem advance_write (s : Session) (luck : Luck) (purpose : Purpose)
    (h : transfer.tasks = [.write data none]) :
    s.advance luck purpose transfer = ([], s) ∨
      s.advance luck purpose transfer =
        (.write data true :: (s.conclude purpose (.ok ())).1, (s.conclude purpose (.ok ())).2) ∨
      .write data false ∈ (s.advance luck purpose transfer).1 := by
  have hattempts : Transfer.Attempts transfer luck.accepts s.signals data none []
      (transfer.step s.config s.now luck.accepts s.signals) := Transfer.attempts_step h
  unfold advance
  generalize transfer.step s.config s.now luck.accepts s.signals = step at hattempts ⊢
  cases hattempts with
  | rest => exact .inl rfl
  | taken htaken =>
    rw [htaken]
    exact .inr (.inl rfl)
  | again hrefused =>
    rw [hrefused]
    exact .inr (.inr (List.mem_singleton.2 rfl))
  | refused hrefused =>
    rw [hrefused]
    exact .inr (.inr (List.mem_append_left _ (List.mem_singleton.2 rfl)))

/-- When a transfer ends nothing is written.  After a push the next properties follow, and
its value may be noted; after any other transfer the worker is done. -/
theorem conclude_cases (s : Session) (purpose : Purpose) (result : LinkResult) :
    (∀ data taken, .write data taken ∉ (s.conclude purpose result).1) ∧
      ((purpose.isPush = false ∧
          ∃ handler, (s.conclude purpose result).2 = { s with worker := .idle, handler }) ∨
        ∃ key value pending cache, purpose = .push key value pending ∧
          (cache = s.cache ∨ cache = s.cache.record key value) ∧
          (s.conclude purpose result).2 = { s with worker := .pushing pending, cache }) := by
  cases purpose with
  | request request => exact ⟨by simp [conclude], .inl ⟨rfl, s.handler, rfl⟩⟩
  | alert handler request =>
    cases result with
    | ok => exact ⟨by simp [conclude], .inl ⟨rfl, handler, rfl⟩⟩
    | error => exact ⟨by simp [conclude], .inl ⟨rfl, s.handler, rfl⟩⟩
  | push key value pending =>
    cases result with
    | ok => exact ⟨by simp [conclude], .inr ⟨key, value, pending, _, rfl, .inr rfl, rfl⟩⟩
    | error => exact ⟨by simp [conclude], .inr ⟨key, value, pending, s.cache, rfl, .inl rfl, rfl⟩⟩
  | clock => exact ⟨by simp [conclude], .inl ⟨rfl, s.handler, rfl⟩⟩

/-! ### Work that is taken up -/

/-- The piece of work that is taken up with a move. -/
def takes? (s : Session) : Move → Option Job
  | .work =>
    match s.worker with
    | .idle => s.queue.head?
    | _ => none
  | _ => none

/-- The work that is taken up with some moves. -/
def taken (s : Session) : List (Luck × Move) → List Job
  | [] => []
  | (luck, move) :: rest => (s.takes? move).toList ++ (s.step luck move).2.taken rest

/-- The session when its first piece of work is taken up. -/
def shifted (s : Session) (rest : List Job) : Session :=
  { s with
    queue := rest, entering := s.entering ++ s.senders.take 1, senders := s.senders.drop 1 }

theorem work_of_takes {move : Move} (luck : Luck) (h : s.takes? move = some job) :
    ∃ rest, s.worker = .idle ∧ s.queue = job :: rest ∧
      s.step luck move = (s.shifted rest).begin luck job := by
  cases move with
  | work =>
    unfold takes? at h
    dsimp only at h
    split at h
    · next hidle =>
      obtain ⟨rest, hqueue⟩ := List.head?_eq_some_iff.1 h
      have hjob : s.takeJob? = some (job, s.shifted rest) := by
        rw [takeJob?, hqueue]
        rfl
      exact ⟨rest, hidle, hqueue, by simp only [step, work, hidle, hjob]⟩
    · exact nomatch h
  | _ => exact nomatch h

theorem work_of_empty {luck : Luck} (hworker : s.worker = .idle) (hqueue : s.queue = []) :
    s.work luck = ([], s) := by
  simp only [work, hworker, takeJob?, hqueue]

theorem work_of_done {luck : Luck} (hworker : s.worker = .pushing []) :
    s.work luck = ([], { s with worker := .idle }) := by
  simp only [work, hworker]

theorem work_of_pending {luck : Luck} {entry : Nat × Property} {pending : List (Nat × Property)}
    (hworker : s.worker = .pushing (entry :: pending)) :
    s.work luck = ([], s.pushOne entry.1 entry.2 pending) := by
  simp only [work, hworker]

theorem work_of_transfer {luck : Luck} {purpose : Purpose}
    (hworker : s.worker = .transferring purpose transfer) :
    s.work luck = s.advance luck purpose transfer := by
  simp only [work, hworker]

/-- A property that is looked at is current or cannot be named, or it is pushed. -/
theorem pushOne_cases (s : Session) (entry : Nat × Property) (pending : List (Nat × Property)) :
    (s.cache.isCurrent entry.2.key (s.services.value entry.2.key) = true ∨ maxIndex < entry.1) ∧
        s.pushOne entry.1 entry.2 pending = { s with worker := .pushing pending } ∨
      entry.1 ≤ maxIndex ∧
        s.pushOne entry.1 entry.2 pending =
          { s with
            worker := .transferring
              (.push entry.2.key (s.services.value entry.2.key) pending)
              (.ofWrite (Command.setProperty (UInt8.ofNat entry.1)
                (Value.encode entry.2 (s.services.value entry.2.key))).encode) } := by
  unfold pushOne
  dsimp only
  split
  · next hskip => exact .inl ⟨by simpa using hskip, rfl⟩
  · next hpush => exact .inr ⟨by simp at hpush; exact hpush.2, rfl⟩

/-- What a step of the worker leaves as it is, and what it takes out of the queue. -/
structure Worked (s : Session) (luck : Luck) (result : List Effect × Session) : Prop where
  writes : ∀ data taken, .write data taken ∈ result.1 → taken = luck.accepts
  lifecycle : result.2.lifecycle = s.lifecycle
  active : result.2.active = s.active
  services : result.2.services = s.services
  queue : (s.takes? .work).toList ++ result.2.queue = s.queue

theorem worked_work (luck : Luck) (s : Session) : s.Worked luck (s.work luck) := by
  cases hworker : s.worker with
  | idle =>
    cases hqueue : s.queue with
    | nil =>
      rw [work_of_empty hworker hqueue]
      exact ⟨by simp, rfl, rfl, rfl, by simp [takes?, hworker, hqueue]⟩
    | cons job rest =>
      have htakes : s.takes? .work = some job := by simp [takes?, hworker, hqueue]
      obtain ⟨rest', -, hqueue', hstep⟩ := work_of_takes luck htakes
      obtain ⟨hunwritten, worker, hnext, -⟩ := took_begin luck (s.shifted rest') job
      change s.work luck = _ at hstep
      rw [hstep]
      refine ⟨fun data taken hmem => absurd hmem (hunwritten data taken), ?_, ?_, ?_, ?_⟩
      · rw [hnext]; rfl
      · rw [hnext]; rfl
      · rw [hnext]; rfl
      · rw [hnext, htakes, hqueue']; rfl
  | pushing pending =>
    have htakes : s.takes? .work = none := by simp [takes?, hworker]
    cases pending with
    | nil =>
      rw [work_of_done hworker]
      exact ⟨by simp, rfl, rfl, rfl, by rw [htakes]; rfl⟩
    | cons entry pending =>
      rw [work_of_pending hworker]
      obtain ⟨-, hnext⟩ | ⟨-, hnext⟩ := s.pushOne_cases entry pending
      · rw [hnext]
        exact ⟨by simp, rfl, rfl, rfl, by rw [htakes]; rfl⟩
      · rw [hnext]
        exact ⟨by simp, rfl, rfl, rfl, by rw [htakes]; rfl⟩
  | transferring purpose transfer =>
    have htakes : s.takes? .work = none := by simp [takes?, hworker]
    rw [work_of_transfer hworker]
    obtain ⟨signals, written, hwritten, ⟨next, hnext⟩ | ⟨result, hnext⟩⟩ :=
      s.advance_cases luck purpose transfer hworker
    · rw [hnext]
      exact ⟨hwritten, rfl, rfl, rfl, by rw [htakes]; rfl⟩
    · obtain ⟨hunwritten, hconclude⟩ := conclude_cases { s with signals } purpose result
      have hwrites : ∀ data taken, .write data taken ∈
          written ++ ({ s with signals }.conclude purpose result).1 → taken = luck.accepts := by
        intro data taken hmem
        rcases List.mem_append.1 hmem with hmem | hmem
        · exact hwritten data taken hmem
        · exact absurd hmem (hunwritten data taken)
      rw [hnext]
      obtain ⟨-, handler, hlast⟩ | ⟨key, value, pending, cache, -, -, hlast⟩ := hconclude
      · exact ⟨hwrites, by rw [hlast], by rw [hlast], by rw [hlast], by rw [hlast, htakes]; rfl⟩
      · exact ⟨hwrites, by rw [hlast], by rw [hlast], by rw [hlast], by rw [hlast, htakes]; rfl⟩

/-- A switch of the active watch set adds to the queue, or leaves it. -/
theorem queue_activate (s : Session) (id : UInt32) : s.queue <+: (s.activate id).queue := by
  unfold activate
  dsimp only
  split
  · exact (beside_offer { s with active := s.services.find id, cache := .empty } .pushAll).queue
  · exact List.prefix_refl _

/-- With every move the queue grows at its end, and loses its first piece of work if that is
taken up. -/
theorem queue_step (s : Session) (luck : Luck) (move : Move) :
    s.queue <+: (s.takes? move).toList ++ (s.step luck move).2.queue := by
  by_cases hwork : move = .work
  · subst hwork
    show s.queue <+: (s.takes? .work).toList ++ (s.work luck).2.queue
    rw [(worked_work luck s).queue]
  · have htakes : s.takes? move = none := by
      cases move with
      | work => exact absurd rfl hwork
      | _ => rfl
    rw [htakes]
    show s.queue <+: (s.step luck move).2.queue
    -- a switch and a change of the values are the moves that do more than add to the queue
    by_cases hplain : (∀ data, move = .radio (.received data) →
        ∀ id, Report.decode data ≠ .ok (.activeWatchSet id)) ∧
      ∀ services, move = .services services → services.value = s.services.value
    · exact (beside_step luck hwork hplain.1 hplain.2).queue
    · rw [not_and_or, not_forall, not_forall] at hplain
      obtain ⟨data, hswitch⟩ | ⟨services, hchange⟩ := hplain
      · obtain ⟨rfl, id, hreport⟩ : move = .radio (.received data) ∧
            ∃ id, Report.decode data = .ok (.activeWatchSet id) := by
          simpa using hswitch
        show s.queue <+: (s.receive luck (.received data)).2.queue
        simp only [receive, hreport]
        exact s.queue_activate id
      · obtain ⟨rfl, -⟩ : move = .services services ∧ services.value ≠ s.services.value := by
          simpa using hchange
        exact List.prefix_refl _

theorem taken_append (s : Session) (past rest : List (Luck × Move)) :
    s.taken (past ++ rest) = s.taken past ++ (s.after past).taken rest := by
  induction past generalizing s with
  | nil => rfl
  | cons head past ih =>
    obtain ⟨luck, move⟩ := head
    rw [List.cons_append, taken, taken, ih, List.append_assoc]
    rfl

theorem taken_concat (s : Session) (past : List (Luck × Move)) (luck : Luck) (move : Move) :
    s.taken (past ++ [(luck, move)]) = s.taken past ++ ((s.after past).takes? move).toList := by
  rw [taken_append]
  exact congrArg _ (List.append_nil _)

/-- **Work is taken up in the order in which it waits**: the work that was taken up and the
work that waits begin with the work that waited first. -/
theorem queue_taken (s : Session) (moves : List (Luck × Move)) :
    s.queue <+: s.taken moves ++ (s.after moves).queue := by
  induction moves generalizing s with
  | nil => exact List.prefix_refl _
  | cons head rest ih =>
    obtain ⟨luck, move⟩ := head
    rw [taken, List.append_assoc]
    have hrest : (s.step luck move).2.queue <+:
        (s.step luck move).2.taken rest ++ (s.after ((luck, move) :: rest)).queue := ih _
    exact List.IsPrefix.trans (s.queue_step luck move) ((List.prefix_append_right_inj _).2 hrest)

end Worker

end Session

end Timepiece
