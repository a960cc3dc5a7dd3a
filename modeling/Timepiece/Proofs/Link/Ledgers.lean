import Mathlib
import Timepiece.Proofs.Link.Accounts

/-!
# One piece of work after the other

The worker takes up the work in the order in which it entered the queue, and is done with each
piece before it takes up the next.  So everything that it does belongs to the piece of work that
was taken up last, and nothing of one piece comes between what is done with another.

## Main definitions

* `WorkLedger`, `Session.ledger` — the accounts of the work that was taken up.
* `Session.entered` — the work that entered the queue.
* `WorkLedger.Balanced` — the worker is done with all work but perhaps the last piece.
* `Session.Serialized` — how the work of a session is done.

## Main results

* `WorkLedger.Balanced.note` — **the worker is done with a piece of work before it takes up the
  next**.
* `Session.queue_entered` — the work that entered the queue was taken up in its order, or waits.
* `Session.serialized_after` — **the work is done in the order in which it entered the queue**, each
  piece of it as it should be.
-/

namespace Timepiece

/-! ### Ledgers -/

/-- The accounts of the work that was taken up: those before the last one, and the last one. -/
structure WorkLedger where
  earlier : List Account
  last : Option Account

namespace WorkLedger

/-- Nothing was taken up. -/
def empty : WorkLedger := ⟨[], none⟩

/-- All accounts, in the order in which the work was taken up. -/
def accounts (l : WorkLedger) : List Account := l.earlier ++ l.last.toList

/-- The ledger after a move.  What the worker does belongs to the piece of work that is taken up
with the move, or to the one that was taken up last. -/
def note (l : WorkLedger) (s : Session) (luck : Luck) (move : Move) : WorkLedger :=
  match s.takes? move with
  | some job => ⟨l.accounts, some ⟨⟨s, luck, job⟩, (s.step luck move).1.filter Effect.ofWorker⟩⟩
  | none =>
    { l with last := l.last.map fun a => a.add ((s.step luck move).1.filter Effect.ofWorker) }

end WorkLedger

namespace Session

/-- The ledger after some more moves. -/
def keep (s : Session) (l : WorkLedger) : List (Luck × Move) → WorkLedger
  | [] => l
  | (luck, move) :: rest => (s.step luck move).2.keep (l.note s luck move) rest

/-- The ledger of some moves. -/
def ledger (s : Session) (moves : List (Luck × Move)) : WorkLedger := s.keep .empty moves

/-- The work that a move puts at the end of the queue. -/
def enters (s : Session) (luck : Luck) (move : Move) : List Job :=
  ((s.takes? move).toList ++ (s.step luck move).2.queue).drop s.queue.length

/-- The work that some moves put at the end of the queue, in order. -/
def entered (s : Session) : List (Luck × Move) → List Job
  | [] => []
  | (luck, move) :: rest => s.enters luck move ++ (s.step luck move).2.entered rest

end Session

/-! ### One move -/

namespace WorkLedger

open Session

variable {s : Session} {l : WorkLedger} {worker : Worker}

/-- How the worker stands to the piece of work that was taken up last. -/
inductive Current (worker : Worker) : Option Account → Prop
  | nothing : worker = .idle → Current worker none
  | settled {a : Account} : worker = .idle → a.Settled → Current worker (some a)
  | going {a : Account} : a.Going worker → Current worker (some a)

/-- The worker is done with all work but perhaps the last piece that was taken up. -/
structure Balanced (l : WorkLedger) (worker : Worker) : Prop where
  earlier : ∀ a ∈ l.earlier, a.Settled
  last : Current worker l.last

theorem balanced_empty : Balanced .empty .idle :=
  ⟨fun _ hmem => absurd hmem List.not_mem_nil, .nothing rfl⟩

/-- A worker without work is done with all that was taken up. -/
theorem Balanced.settled (h : l.Balanced .idle) : ∀ a ∈ l.accounts, a.Settled := by
  refine List.forall_mem_append.2 ⟨h.earlier, ?_⟩
  intro a hmem
  have hlast := h.last
  rw [Option.mem_toList.1 hmem] at hlast
  cases hlast with
  | settled _ hsettled => exact hsettled
  | going hgoing => exact absurd hgoing Account.not_going_idle

/-- **The worker is done with a piece of work before it takes up the next.** -/
theorem Balanced.note (h : l.Balanced s.worker) (luck : Luck) (move : Move) :
    (l.note s luck move).Balanced (s.step luck move).2.worker := by
  unfold WorkLedger.note
  split
  · next job htakes =>
    obtain ⟨-, hidle, -, -⟩ := work_of_takes luck htakes
    rw [hidle] at h
    refine ⟨h.settled, ?_⟩
    obtain hgoing | ⟨hdone, hsettled⟩ := begins_step luck htakes
    · exact .going hgoing
    · exact .settled hdone hsettled
  · next htakes =>
    refine ⟨h.earlier, ?_⟩
    have hlast := h.last
    generalize l.last = last at hlast
    cases hlast with
    | nothing hidle => exact .nothing (step_of_rest luck hidle htakes).2
    | settled hidle hsettled =>
      obtain ⟨hsilent, hnext⟩ := step_of_rest luck hidle htakes
      rw [Option.map_some, filter_ofWorker_of_silent hsilent, Account.add_nil]
      exact .settled hnext hsettled
    | going hgoing =>
      obtain hnext | ⟨hdone, hsettled⟩ := hgoing.step luck htakes
      · exact .going hnext
      · exact .settled hdone hsettled

/-- All that the worker does stands in the accounts. -/
theorem Balanced.records_note (h : l.Balanced s.worker) (luck : Luck) (move : Move) :
    (l.note s luck move).accounts.flatMap Account.record =
      l.accounts.flatMap Account.record ++ (s.step luck move).1.filter Effect.ofWorker := by
  unfold WorkLedger.note
  split
  · rw [accounts, List.flatMap_append]
    simp
  · next htakes =>
    have hlast := h.last
    unfold accounts
    generalize l.last = last at hlast
    cases hlast with
    | nothing hidle =>
      rw [filter_ofWorker_of_silent (step_of_rest luck hidle htakes).1, List.append_nil]
      rfl
    | settled | going => simp [Account.add]

theorem jobs_note (l : WorkLedger) (s : Session) (luck : Luck) (move : Move) :
    (l.note s luck move).accounts.map (fun a => a.taking.job) =
      l.accounts.map (fun a => a.taking.job) ++ (s.takes? move).toList := by
  unfold WorkLedger.note
  split
  · next job htakes =>
    rw [accounts, List.map_append, htakes]
    rfl
  · next htakes =>
    rw [htakes, accounts, accounts, List.map_append, List.map_append]
    cases l.last <;> simp [Account.add]

end WorkLedger

namespace Session

variable {s : Session}

/-! ### All moves -/

theorem keep_concat (s : Session) (l : WorkLedger) (past : List (Luck × Move)) (luck : Luck)
    (move : Move) :
    s.keep l (past ++ [(luck, move)]) = (s.keep l past).note (s.after past) luck move := by
  induction past generalizing s l with
  | nil => rfl
  | cons head rest ih =>
    obtain ⟨luck', move'⟩ := head
    exact ih (s.step luck' move').2 (l.note s luck' move')

theorem ledger_concat (s : Session) (past : List (Luck × Move)) (luck : Luck) (move : Move) :
    s.ledger (past ++ [(luck, move)]) = (s.ledger past).note (s.after past) luck move :=
  s.keep_concat .empty past luck move

theorem balanced_after (h : s.worker = .idle) (moves : List (Luck × Move)) :
    (s.ledger moves).Balanced (s.after moves).worker := by
  induction moves using List.reverseRecOn with
  | nil =>
    show WorkLedger.Balanced .empty s.worker
    rw [h]
    exact WorkLedger.balanced_empty
  | append_singleton past last ih =>
    obtain ⟨luck, move⟩ := last
    rw [ledger_concat, after_concat]
    exact ih.note luck move

/-- All that the worker does stands in the accounts. -/
theorem records_after (h : s.worker = .idle) (moves : List (Luck × Move)) :
    (s.effects moves).filter Effect.ofWorker =
      (s.ledger moves).accounts.flatMap Account.record := by
  induction moves using List.reverseRecOn with
  | nil => rfl
  | append_singleton past last ih =>
    obtain ⟨luck, move⟩ := last
    rw [ledger_concat, effects_concat, List.filter_append, ih,
      (balanced_after h past).records_note luck move]

/-- There is an account of every piece of work that was taken up. -/
theorem jobs_after (s : Session) (moves : List (Luck × Move)) :
    (s.ledger moves).accounts.map (fun a => a.taking.job) = s.taken moves := by
  induction moves using List.reverseRecOn with
  | nil => rfl
  | append_singleton past last ih =>
    obtain ⟨luck, move⟩ := last
    rw [ledger_concat, WorkLedger.jobs_note, ih, taken_concat]

theorem queue_enters (s : Session) (luck : Luck) (move : Move) :
    s.queue ++ s.enters luck move = (s.takes? move).toList ++ (s.step luck move).2.queue :=
  List.prefix_iff_eq_append.1 (s.queue_step luck move)

/-- The work that waited and the work that entered the queue was taken up or waits. -/
theorem queue_entered (s : Session) (moves : List (Luck × Move)) :
    s.queue ++ s.entered moves = s.taken moves ++ (s.after moves).queue := by
  induction moves generalizing s with
  | nil => exact List.append_nil _
  | cons head rest ih =>
    obtain ⟨luck, move⟩ := head
    have hrest := ih (s.step luck move).2
    rw [entered, taken, ← List.append_assoc, queue_enters, List.append_assoc, hrest,
      List.append_assoc]
    rfl

/-- How the work of a session is done. -/
structure Serialized (s : Session) (moves : List (Luck × Move)) : Prop where
  /-- The writes that were taken are those of one piece of work after the other. -/
  writes : accepted (s.effects moves) =
    (s.ledger moves).accounts.flatMap fun a => accepted a.record
  /-- So are all attempts to write and answers. -/
  records : (s.effects moves).filter Effect.ofWorker =
    (s.ledger moves).accounts.flatMap Account.record
  /-- The work was taken up in the order in which it entered the queue. -/
  order : (s.ledger moves).accounts.map (fun a => a.taking.job) ++ (s.after moves).queue =
    s.entered moves
  /-- The worker is done with all work but perhaps the last piece that was taken up. -/
  earlier : ∀ a ∈ (s.ledger moves).earlier, a.Settled
  /-- It is done with that one if it has nothing to do. -/
  last : ∀ a ∈ (s.ledger moves).last,
    ((s.after moves).worker = .idle → a.Settled) ∧ ((s.after moves).worker ≠ .idle → a.Open)

theorem accepted_flatMap_record (accounts : List Account) :
    accepted (accounts.flatMap Account.record) = accounts.flatMap fun a => accepted a.record := by
  induction accounts with
  | nil => rfl
  | cons a rest ih => rw [List.flatMap_cons, accepted_append, ih, List.flatMap_cons]

/-- **The work is done in the order in which it entered the queue**, each piece of it as it should
be. -/
theorem serialized_after (config : LinkConfig) (services : Services)
    (moves : List (Luck × Move)) : (start config services).Serialized moves := by
  have hbalanced := balanced_after (s := start config services) rfl moves
  have hrecords := records_after (s := start config services) rfl moves
  refine ⟨?_, hrecords, ?_, hbalanced.earlier, ?_⟩
  · rw [← accepted_filter_ofWorker, hrecords, accepted_flatMap_record]
  · rw [jobs_after, ← queue_entered]
    rfl
  · intro a hmem
    have hlast := hbalanced.last
    rw [hmem] at hlast
    cases hlast with
    | settled hidle hsettled => exact ⟨fun _ => hsettled, fun hbusy => absurd hidle hbusy⟩
    | going hgoing =>
      refine ⟨fun hidle => ?_, fun _ => hgoing.isOpen⟩
      rw [hidle] at hgoing
      exact absurd hgoing Account.not_going_idle

end Session

end Timepiece
