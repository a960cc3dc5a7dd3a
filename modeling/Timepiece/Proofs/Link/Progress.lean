import Mathlib
import Timepiece.Proofs.Link.Ledgers
import Timepiece.Proofs.Link.Loads

/-!
# Work that gets done

Every step of the worker leaves less to do, or waits for a moment that is to come.  So if the worker
is given steps again and again while time passes, it is done with every piece of work that entered
the queue at some time.

## Main definitions

* `Session.first` — the first of an endless sequence of moves.
* `Session.Fair` — the worker is given steps again and again while time passes.

## Main results

* `Session.drains` — the worker is done with what it is doing at some time.
* `Session.catches_up` — all work that entered the queue is taken up at some time.
* `Session.serialized_run` — **the work is done in the order in which it entered the queue**, and
  all of it gets done.
-/

namespace Timepiece

namespace Session

variable {s : Session} {past moves : List (Luck × Move)}

/-! ### Endless sequences of moves -/

/-- The first of an endless sequence of moves. -/
def first (moves : Nat → Luck × Move) (count : Nat) : List (Luck × Move) :=
  (List.range count).map moves

/-- The worker is given steps again and again while time passes. -/
def Fair (s : Session) (moves : Nat → Luck × Move) : Prop :=
  ∀ count moment, ∃ later, count ≤ later ∧ (moves later).2 = .work ∧
    moment ≤ (s.after (first moves later)).now

section Endless

variable {endless : Nat → Luck × Move} {count later : Nat}

theorem first_succ (moves : Nat → Luck × Move) (count : Nat) :
    first moves (count + 1) = first moves count ++ [moves count] := by
  rw [first, List.range_succ, List.map_append]
  rfl

theorem first_initial (moves : Nat → Luck × Move) (h : count ≤ later) :
    first moves count <+: first moves later := by
  obtain ⟨more, rfl⟩ := Nat.exists_eq_add_of_le h
  rw [first, first, List.range_add, List.map_append]
  exact List.prefix_append _ _

theorem after_first_succ (s : Session) (moves : Nat → Luck × Move) (count : Nat) :
    s.after (first moves (count + 1)) =
      ((s.after (first moves count)).step (moves count).1 (moves count).2).2 := by
  rw [first_succ]
  exact s.after_concat _ (moves count).1 (moves count).2

theorem taken_first_succ (s : Session) (moves : Nat → Luck × Move) (count : Nat) :
    s.taken (first moves (count + 1)) = s.taken (first moves count) ++
      ((s.after (first moves count)).takes? (moves count).2).toList := by
  rw [first_succ]
  exact s.taken_concat _ (moves count).1 (moves count).2

theorem takes?_of_busy (h : s.worker ≠ .idle) (move : Move) : s.takes? move = none := by
  cases htakes : s.takes? move with
  | none => rfl
  | some job =>
    obtain ⟨-, hidle, -, -⟩ := work_of_takes ⟨true, true, true, 0⟩ htakes
    exact absurd hidle h

/-- What a worker that is busy has done with the next move: it has less to do, or has made no
step but one with which it waits. -/
theorem busy_succ (hbusy : (s.after (first endless count)).worker ≠ .idle) :
    s.taken (first endless (count + 1)) = s.taken (first endless count) ∧
      ((s.after (first endless (count + 1))).worker.load s.config <
          (s.after (first endless count)).worker.load s.config ∨
        (s.after (first endless (count + 1))).worker = (s.after (first endless count)).worker ∧
          ((endless count).2 = .work → ∃ due,
            (s.after (first endless count)).worker.due? = some due ∧
              (s.after (first endless count)).now < due)) := by
  constructor
  · rw [taken_first_succ, takes?_of_busy hbusy]
    exact List.append_nil _
  · have hload := load_step (endless count).1 (endless count).2 hbusy
    rwa [config_after, ← after_first_succ] at hload

/-- What stays until something happens stays until the worker makes a step after some moment, or
that happens before. -/
theorem Fair.until (hfair : s.Fair endless) {P Q : Nat → Prop} (moment : Nat) (h : P count)
    (hstep : ∀ now, count ≤ now → P now → P (now + 1) ∨ Q (now + 1)) :
    (∃ later, count ≤ later ∧ Q later) ∨ ∃ later, count ≤ later ∧ P later ∧
      (endless later).2 = .work ∧ moment ≤ (s.after (first endless later)).now := by
  by_cases hhappens : ∃ later, count ≤ later ∧ Q later
  · exact .inl hhappens
  · have hstays : ∀ more, P (count + more) := by
      intro more
      induction more with
      | zero => exact h
      | succ more ih =>
        have hlater : count ≤ count + more := Nat.le_add_right _ _
        exact (hstep _ hlater ih).resolve_right fun hnow =>
          hhappens ⟨_, hlater.trans (Nat.le_succ _), hnow⟩
    obtain ⟨later, hlater, hwork, hmoment⟩ := hfair count moment
    obtain ⟨more, rfl⟩ := Nat.exists_eq_add_of_le hlater
    exact .inr ⟨_, hlater, hstays more, hwork, hmoment⟩

/-- A worker that is busy has less to do at some time. -/
theorem lessens (hfair : s.Fair endless) (hbusy : (s.after (first endless count)).worker ≠ .idle) :
    ∃ later, count ≤ later ∧
      s.taken (first endless later) = s.taken (first endless count) ∧
      (s.after (first endless later)).worker.load s.config <
        (s.after (first endless count)).worker.load s.config := by
  refine (hfair.until
    (P := fun now => s.taken (first endless now) = s.taken (first endless count) ∧
      (s.after (first endless now)).worker = (s.after (first endless count)).worker)
    ((s.after (first endless count)).worker.due?.getD 0) ⟨rfl, rfl⟩ ?_).elim id ?_
  · rintro now - ⟨htaken, hworker⟩
    obtain ⟨hnext, hload⟩ := busy_succ (hworker ▸ hbusy)
    rw [hworker] at hload
    obtain hless | ⟨hkept, -⟩ := hload
    · exact .inr ⟨hnext.trans htaken, hless⟩
    · exact .inl ⟨hnext.trans htaken, hkept⟩
  · -- the worker is given a step when the moment for which it waits has come
    rintro ⟨later, hlater, ⟨htaken, hworker⟩, hwork, hmoment⟩
    obtain ⟨hnext, hload⟩ := busy_succ (hworker ▸ hbusy)
    rw [hworker] at hload
    obtain hless | ⟨-, hwaits⟩ := hload
    · exact ⟨later + 1, hlater.trans (Nat.le_succ _), hnext.trans htaken, hless⟩
    · obtain ⟨due, hdue, hearly⟩ := hwaits hwork
      rw [hdue, Option.getD_some] at hmoment
      exact absurd hearly (Nat.not_lt.2 hmoment)

/-- **The worker is done with what it is doing at some time**, before it takes up other work. -/
theorem drains (hfair : s.Fair endless) (count : Nat) : ∃ later, count ≤ later ∧
    s.taken (first endless later) = s.taken (first endless count) ∧
      (s.after (first endless later)).worker = .idle := by
  -- by induction on what is left to do
  induction hload : (s.after (first endless count)).worker.load s.config using Nat.strongRecOn
    generalizing count with
  | ind load ih =>
    by_cases hidle : (s.after (first endless count)).worker = .idle
    · exact ⟨count, le_refl count, rfl, hidle⟩
    · obtain ⟨next, hnext, htaken, hless⟩ := lessens hfair hidle
      obtain ⟨later, hlater, htaken', hdone⟩ := ih _ (hload ▸ hless) next rfl
      exact ⟨later, hnext.trans hlater, htaken'.trans htaken, hdone⟩

/-- A worker without work takes up work that waits with the next move, unless that is not a step of
its own. -/
theorem rests_succ (hidle : (s.after (first endless count)).worker = .idle)
    (hqueue : (s.after (first endless count)).queue ≠ []) :
    (s.taken (first endless count)).length < (s.taken (first endless (count + 1))).length ∨
      s.taken (first endless (count + 1)) = s.taken (first endless count) ∧
        (s.after (first endless (count + 1))).worker = .idle ∧
        (s.after (first endless (count + 1))).queue ≠ [] ∧ (endless count).2 ≠ .work := by
  have hqueued := (s.after (first endless count)).queue_step (endless count).1 (endless count).2
  rw [taken_first_succ, after_first_succ]
  cases htakes : (s.after (first endless count)).takes? (endless count).2 with
  | some job =>
    left
    rw [List.length_append]
    exact Nat.lt_succ_self _
  | none =>
    right
    rw [htakes] at hqueued
    refine ⟨List.append_nil _, (step_of_rest _ hidle htakes).2, ?_, ?_⟩
    · intro hempty
      rw [hempty] at hqueued
      exact hqueue (List.prefix_nil.1 hqueued)
    · intro hwork
      rw [hwork] at htakes
      refine hqueue (List.head?_eq_none_iff.1 ?_)
      simpa [takes?, hidle] using htakes

/-- A worker without work takes up work that waits at some time. -/
theorem takes_up (hfair : s.Fair endless) (hidle : (s.after (first endless count)).worker = .idle)
    (hqueue : (s.after (first endless count)).queue ≠ []) : ∃ later, count ≤ later ∧
      (s.taken (first endless count)).length < (s.taken (first endless later)).length := by
  refine (hfair.until
    (P := fun now => s.taken (first endless now) = s.taken (first endless count) ∧
      (s.after (first endless now)).worker = .idle ∧ (s.after (first endless now)).queue ≠ [])
    0 ⟨rfl, hidle, hqueue⟩ ?_).elim id ?_
  · rintro now - ⟨htaken, hidle, hqueue⟩
    obtain hmore | ⟨hsame, hidle, hqueue, -⟩ := rests_succ hidle hqueue
    · rw [htaken] at hmore
      exact .inr hmore
    · exact .inl ⟨hsame.trans htaken, hidle, hqueue⟩
  · rintro ⟨later, hlater, ⟨htaken, hidle, hqueue⟩, hwork, -⟩
    obtain hmore | ⟨-, -, -, hother⟩ := rests_succ hidle hqueue
    · rw [htaken] at hmore
      exact ⟨later + 1, hlater.trans (Nat.le_succ _), hmore⟩
    · exact absurd hwork hother

theorem entered_append (s : Session) (past rest : List (Luck × Move)) :
    s.entered (past ++ rest) = s.entered past ++ (s.after past).entered rest := by
  induction past generalizing s with
  | nil => rfl
  | cons head past ih =>
    obtain ⟨luck, move⟩ := head
    rw [List.cons_append, entered, entered, ih, List.append_assoc]
    rfl

theorem entered_initial (s : Session) (h : past <+: moves) :
    s.entered past <+: s.entered moves := by
  obtain ⟨rest, rfl⟩ := h
  rw [entered_append]
  exact List.prefix_append _ _

/-- All work that entered the queue is taken up at some time, and then the worker is done with
it. -/
theorem catches_up (hfair : s.Fair endless) (hqueue : s.queue = []) {goal : Nat}
    (hgoal : goal ≤ (s.entered (first endless count)).length) : ∃ later, count ≤ later ∧
      goal ≤ (s.taken (first endless later)).length ∧
      (s.after (first endless later)).worker = .idle := by
  -- one piece of work after the other
  induction goal with
  | zero =>
    obtain ⟨later, hlater, -, hidle⟩ := drains hfair count
    exact ⟨later, hlater, Nat.zero_le _, hidle⟩
  | succ goal ih =>
    obtain ⟨now, hnow, htaken, hidle⟩ := ih (by omega)
    by_cases hmore : goal + 1 ≤ (s.taken (first endless now)).length
    · exact ⟨now, hnow, hmore, hidle⟩
    · have hwaits : (s.after (first endless now)).queue ≠ [] := by
        intro hempty
        have hall := s.queue_entered (first endless now)
        rw [hqueue, hempty, List.nil_append, List.append_nil] at hall
        have hlength := (s.entered_initial (first_initial endless hnow)).length_le
        rw [hall] at hlength
        omega
      obtain ⟨next, hnext, hgrows⟩ := takes_up hfair hidle hwaits
      obtain ⟨later, hlater, hkept, hdone⟩ := drains hfair next
      exact ⟨later, by omega, by rw [hkept]; omega, hdone⟩

end Endless

/-- **The work is done in the order in which it entered the queue**, each piece of it as it should
be.  If the worker is given steps again and again while time passes, it is done with all of it at
some time. -/
theorem serialized_run (config : LinkConfig) (services : Services) :
    (∀ moves, (start config services).Serialized moves) ∧
      ∀ endless, (start config services).Fair endless → ∀ count, ∃ later, count ≤ later ∧
        ∃ done rest, ((start config services).ledger (first endless later)).accounts =
            done ++ rest ∧
          done.map (fun a => a.taking.job) =
            (start config services).entered (first endless count) ∧
          ∀ a ∈ done, a.Settled := by
  refine ⟨serialized_after config services, ?_⟩
  intro endless hfair count
  obtain ⟨later, hlater, hall, hidle⟩ :=
    @catches_up (start config services) endless count hfair rfl _ (le_refl _)
  have hbalanced := balanced_after (s := start config services) rfl (first endless later)
  rw [hidle] at hbalanced
  -- what had entered the queue by then is what was taken up first
  have hentered : (start config services).entered (first endless count) <+:
      (start config services).taken (first endless later) := by
    have hqueue := (start config services).queue_entered (first endless later)
    have hprefix := (start config services).entered_initial (first_initial endless hlater)
    change (start config services).entered (first endless later) = _ at hqueue
    rw [hqueue] at hprefix
    exact List.prefix_of_prefix_length_le hprefix (List.prefix_append _ _) hall
  obtain ⟨more, hmore⟩ := hentered
  rw [← jobs_after] at hmore
  obtain ⟨done, rest, haccounts, hjobs, -⟩ := List.map_eq_append_iff.1 hmore.symm
  refine ⟨later, hlater, done, rest, haccounts, hjobs, ?_⟩
  intro a hmem
  refine hbalanced.settled a ?_
  rw [haccounts]
  exact List.mem_append_left rest hmem

/-- A bulk upload is asked for, and then the worker makes one step in every two milliseconds. -/
def ticking (count : Nat) : Luck × Move :=
  asking[count]?.getD (radio true, if count % 2 = 0 then .wait count else .work)

theorem fair_ticking (config : LinkConfig) (services : Services) :
    (start config services).Fair ticking := by
  intro count moment
  -- an odd move long after the first ones
  obtain ⟨half, hcount, hmoment, hlate⟩ : ∃ half, count ≤ half ∧ moment ≤ half ∧ 3 ≤ half :=
    ⟨max (max count moment) 3, by omega, by omega, by omega⟩
  have hwait : ticking (2 * half) = (radio true, .wait (2 * half)) := by
    have hnone : asking[2 * half]? = none := List.getElem?_eq_none (by simp [asking]; omega)
    rw [ticking, hnone, if_pos (Nat.mul_mod_right 2 half)]
    rfl
  have hwork : ticking (2 * half + 1) = (radio true, .work) := by
    have hnone : asking[2 * half + 1]? = none := List.getElem?_eq_none (by simp [asking]; omega)
    rw [ticking, hnone, if_neg (by omega)]
    rfl
  refine ⟨2 * half + 1, by omega, congrArg Prod.snd hwork, ?_⟩
  rw [after_first_succ, hwait]
  show moment ≤ max _ (2 * half)
  omega

/-- The upload is settled at some time. -/
theorem serialized_run_ticking : (start {} .none).Fair ticking ∧
    ∃ later, 6 ≤ later ∧ ∃ done rest,
      ((start {} .none).ledger (first ticking later)).accounts = done ++ rest ∧
      done.map (fun a => a.taking.job) = [.upload [1, 2, 3] 1] ∧ ∀ a ∈ done, a.Settled :=
  ⟨fair_ticking {} .none, (serialized_run {} .none).2 ticking (fair_ticking {} .none) 6⟩

end Session

end Timepiece
