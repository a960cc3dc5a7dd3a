import Mathlib
import Timepiece.Proofs.Link.Mirroring

/-!
# Where pushes go

A piece of work that pushes properties begins with those of the watch set that is active when it
is taken up, and works them off one after the other.  The value of a property is asked for when
it is its turn.  While a write is refused and waits to be tried again, another watch set may
become the active one, and the push goes on for the one before it.

## Main definitions

* `Session.Plain` — the host sets no property by a command of its own.
* `Session.Steady` — no report names another watch set.
* `Session.Busy` — a piece of work was taken up, and none since.
* `Session.Pushing` — the worker pushes properties of the watch set for which it began.

## Main results

* `Session.Tracks.step` — **what is pushed belongs to the watch set for which it began**.
* `Session.aimed_run` — **every property is set for the watch set that was active when the piece
  of work was taken up**, which is still the active one if no report named another.
* `Session.aimed_elsewhere` — if one did, a value may be told to a property of the other one.
-/

namespace Timepiece

/-- The worker pushes nothing. -/
def Worker.PushesNothing (worker : Worker) : Prop := worker.pending = [] ∧ worker.sends? = none

namespace Session

/-- The host sets no property by a command of its own. -/
def Plain (s : Session) (move : Move) : Prop := ∀ job ∈ s.takes? move, job.setsProperty = false

instance (s : Session) (move : Move) : Decidable (s.Plain move) :=
  inferInstanceAs (Decidable (∀ job ∈ s.takes? move, job.setsProperty = false))

/-- Every report of the watch set names the same known one. -/
def Steady (s : Session) (bundle : Bundle) (moves : List (Luck × Move)) : Prop :=
  Throughout (fun past move => ∀ data id, move.2 = .radio (.received data) →
    Report.decode data = .ok (.activeWatchSet id) →
      (s.after past).services.find id = some bundle) moves

/-- A piece of work was taken up with the first of some moves, and none since. -/
def Busy (s : Session) (moves : List (Luck × Move)) : Prop :=
  ∃ luck move rest job, moves = (luck, move) :: rest ∧ s.takes? move = some job ∧
    s.taken moves = [job]

/-- A value was reported of a property at some time after some moves. -/
def Reported (s : Session) (earlier later : List (Luck × Move)) (key : PropertyKey)
    (value : Option Value) : Prop :=
  ∃ between rest, later = between ++ rest ∧
    (s.after (earlier ++ between)).services.value key = value

/-- After some moves a piece of work was taken up, and the worker pushes properties of the watch
set that was active then, with values that were reported since. -/
structure Pushing (s : Session) (earlier later : List (Luck × Move)) (bundle : Bundle) : Prop where
  busy : (s.after earlier).Busy later
  active : (s.after earlier).active = some bundle
  within : (s.after (earlier ++ later)).worker.Within bundle
  reported : ∀ key value tasks, (s.after (earlier ++ later)).worker.sends? =
    some (key, value, tasks) → s.Reported earlier later key value

/-- What is known of the worker after some moves. -/
structure Tracks (s : Session) (moves : List (Luck × Move)) : Prop where
  reserved : (s.after moves).worker.Reserved
  pushes : (s.after moves).worker.PushesNothing ∨
    ∃ earlier later bundle, moves = earlier ++ later ∧ s.Pushing earlier later bundle

variable {s : Session} {luck : Luck} {move : Move} {past moves earlier later : List (Luck × Move)}
  {bundle : Bundle} {key : PropertyKey} {value : Option Value}

/-! ### The active watch set -/

/-- The active watch set stays while no report names another. -/
theorem active_of_steady (h : s.active = some bundle) (hsteady : s.Steady bundle moves) :
    (s.after moves).active = some bundle := by
  refine hsteady.induct (P := fun past => (s.after past).active = some bundle) h ?_
  rintro past ⟨luck, move⟩ hnames hactive
  rw [after_concat]
  by_cases hswitch : ∃ data id, move = .radio (.received data) ∧
      Report.decode data = .ok (.activeWatchSet id)
  · obtain ⟨data, id, rfl, hreport⟩ := hswitch
    rw [(switched luck hreport).2]
    simp only [switches?, hreport]
    exact hnames data id rfl hreport
  · rw [active_step luck _ hswitch]
    exact hactive

/-! ### What the worker pushes -/

theorem pushesNothing_of_not_push {purpose : Purpose} (transfer : Transfer)
    (h : purpose.isPush = false) : (Worker.transferring purpose transfer).PushesNothing :=
  Worker.sends?_of_not_push transfer h

/-- After a step of a transfer that is no push the worker pushes nothing. -/
theorem Served.pushesNothing {purpose : Purpose} {transfer : Transfer}
    {result : List Effect × Session} (h : Served purpose transfer result)
    (hpush : purpose.isPush = false) : result.2.worker.PushesNothing := by
  cases h with
  | @goesOn next hnext =>
    rw [hnext]
    exact pushesNothing_of_not_push next hpush
  | succeeds hidle | fails hidle =>
    rw [hidle]
    exact ⟨rfl, rfl⟩

/-- A worker that pushes nothing does not begin to before it takes up a piece of work. -/
theorem pushesNothing_step (luck : Luck) (h : s.worker.PushesNothing)
    (htakes : s.takes? move = none) : (s.step luck move).2.worker.PushesNothing := by
  by_cases hwork : move = .work
  · subst hwork
    have hworks := works_work luck s
    show (s.work luck).2.worker.PushesNothing
    generalize s.work luck = result at hworks ⊢
    cases hworks with
    | rests => exact h
    | takes hjob => exact nomatch hjob.symm.trans htakes
    | ends => exact ⟨rfl, rfl⟩
    | looks hworker =>
      rw [hworker] at h
      exact nomatch h.1
    | @advances purpose transfer hworker =>
      rw [hworker] at h
      cases purpose with
      | push key value pending => exact nomatch h.2
      | request | alert | clock => exact (served_advance luck s hworker rfl).pushesNothing rfl
  · rw [worker_step luck s hwork]
    exact h

/-- What a move does to what the worker pushes. -/
structure Keeps (bundle : Bundle) (s : Session) (worker : Worker) : Prop where
  within : worker.Within bundle
  sends : ∀ key value tasks, worker.sends? = some (key, value, tasks) →
    (∃ tasks, s.worker.sends? = some (key, value, tasks)) ∨ s.services.value key = value

/-- A worker that pushes nothing more keeps to the watch set. -/
theorem Keeps.of_nothing {worker : Worker} (hwithin : worker.Within bundle)
    (hsends : worker.sends? = none) : Keeps bundle s worker where
  within := hwithin
  sends key value tasks hsome := by
    rw [hsends] at hsome
    exact nomatch hsome

/-- A worker that pushes the properties of a watch set keeps to them: the next one is told the
value that is reported now. -/
theorem keeps_step (luck : Luck) (h : s.worker.Within bundle) (htakes : s.takes? move = none) :
    Keeps bundle s (s.step luck move).2.worker := by
  by_cases hwork : move = .work
  · subst hwork
    have hworks := works_work luck s
    show Keeps bundle s (s.work luck).2.worker
    generalize s.work luck = result at hworks ⊢
    cases hworks with
    | rests => exact ⟨h, fun _ _ tasks hsends => .inl ⟨tasks, hsends⟩⟩
    | takes hjob => exact nomatch hjob.symm.trans htakes
    | ends => exact .of_nothing trivial rfl
    | @looks entry pending hworker =>
      rw [hworker] at h
      have hpending : ∀ other ∈ pending, other ∈ bundle.places := fun other hmem =>
        h other (List.mem_cons_of_mem _ hmem)
      obtain ⟨-, hnext⟩ | ⟨hplace, hnext⟩ := s.pushOne_cases entry pending
      · rw [hnext]
        exact .of_nothing hpending rfl
      · rw [hnext]
        refine ⟨⟨hpending, entry, h entry List.mem_cons_self, rfl, hplace, rfl⟩, ?_⟩
        intro key value tasks hsends
        obtain ⟨rfl, rfl, -⟩ : entry.2.key = key ∧ s.services.value entry.2.key = value ∧ _ := by
          simpa [Worker.sends?] using hsends
        exact .inr rfl
    | @advances purpose transfer hworker =>
      cases purpose with
      | push key value pending =>
        rw [hworker] at h
        obtain ⟨hpending, entry, hentry, rfl, hplace, htasks⟩ := h
        have hpushed := pushed_advance luck hworker htasks
        generalize s.advance luck (.push entry.2.key value pending) transfer = result at hpushed ⊢
        cases hpushed with
        | told _ hnext _ | refused _ hnext _ =>
          rw [hnext]
          exact .of_nothing hpending rfl
        | goesOn _ hnext hwrite _ =>
          rw [hnext]
          refine ⟨⟨hpending, entry, hentry, rfl, hplace, hwrite⟩, ?_⟩
          intro key' value' tasks hsends
          obtain ⟨rfl, rfl, -⟩ : entry.2.key = key' ∧ value = value' ∧ _ := by
            simpa [Worker.sends?] using hsends
          exact .inl ⟨transfer.tasks, by rw [hworker]; rfl⟩
      | request | alert | clock =>
        have hserved := served_advance luck s hworker rfl
        exact .of_nothing (hserved.within rfl) (hserved.pushesNothing rfl).2
  · rw [worker_step luck s hwork]
    exact ⟨h, fun _ _ tasks hsends => .inl ⟨tasks, hsends⟩⟩

/-! ### All moves -/

theorem Busy.concat (h : s.Busy later) (htakes : (s.after later).takes? move = none) :
    s.Busy (later ++ [(luck, move)]) := by
  obtain ⟨luck', move', rest, job, rfl, hjob, htaken⟩ := h
  refine ⟨luck', move', rest ++ [(luck, move)], job, rfl, hjob, ?_⟩
  rw [taken_concat, htaken, htakes]
  rfl

theorem Reported.concat (h : s.Reported earlier later key value) :
    s.Reported earlier (later ++ [(luck, move)]) key value := by
  obtain ⟨between, rest, rfl, hvalue⟩ := h
  exact ⟨between, rest ++ [(luck, move)], List.append_assoc _ _ _, hvalue⟩

/-- The worker goes on with the properties for which it began. -/
theorem Pushing.concat (h : s.Pushing earlier later bundle)
    (htakes : (s.after (earlier ++ later)).takes? move = none) :
    s.Pushing earlier (later ++ [(luck, move)]) bundle := by
  have hkeeps := keeps_step luck h.within htakes
  rw [← after_concat, List.append_assoc] at hkeeps
  rw [after_append] at htakes
  refine ⟨h.busy.concat htakes, h.active, hkeeps.within, ?_⟩
  intro key value tasks hsends
  obtain ⟨tasks, hbefore⟩ | hnow := hkeeps.sends key value tasks hsends
  · exact (h.reported key value tasks hbefore).concat
  · exact ⟨later, [(luck, move)], rfl, hnow⟩

/-- With a piece of work that is taken up the worker pushes nothing, or it begins with the
properties of the active watch set. -/
theorem pushes_begin {job : Job} (h : (s.after past).takes? move = some job) :
    (s.after (past ++ [(luck, move)])).worker.PushesNothing ∨
      ∃ bundle, s.Pushing past [(luck, move)] bundle := by
  obtain ⟨rest, hidle, -, hstep⟩ := work_of_takes luck h
  obtain ⟨worker, hnext, hworker⟩ := (took_begin luck ((s.after past).shifted rest) job).next
  have hafter : (s.after (past ++ [(luck, move)])).worker = worker := by
    rw [after_concat, hstep, hnext]
  rw [hafter]
  obtain rfl | ⟨picked, rfl⟩ | ⟨purpose, transfer, rfl, hpurpose⟩ := hworker
  · refine .inl ?_
    show (s.after past).worker.PushesNothing
    rw [hidle]
    exact ⟨rfl, rfl⟩
  · cases hactive : (s.after past).active with
    | none =>
      have hnone : ((s.after past).shifted rest).pick picked = [] := by
        simp only [pick, shifted, hactive]
      rw [hnone]
      exact .inl ⟨rfl, rfl⟩
    | some bundle =>
      refine .inr ⟨bundle, ⟨luck, move, [], job, rfl, h, ?_⟩, hactive, ?_, ?_⟩
      · rw [taken, h]
        rfl
      · rw [hafter]
        intro entry hmem
        exact mem_places.2 ((mem_pick (s := (s.after past).shifted rest) hactive).1 hmem).1
      · rw [hafter]
        intro _ _ _ hsends
        cases hsends
  · exact .inl (pushesNothing_of_not_push transfer hpurpose)

theorem tracks_start (config : LinkConfig) (services : Services) :
    (start config services).Tracks [] := ⟨trivial, .inl ⟨rfl, rfl⟩⟩

/-- Whatever is pushed after a move, it is pushed for the watch set for which the worker began. -/
theorem pushes_concat (luck : Luck) (move : Move)
    (h : (s.after past).worker.PushesNothing ∨
      ∃ earlier later bundle, past = earlier ++ later ∧ s.Pushing earlier later bundle) :
    (s.after (past ++ [(luck, move)])).worker.PushesNothing ∨
      ∃ earlier later bundle, past ++ [(luck, move)] = earlier ++ later ∧
        s.Pushing earlier later bundle := by
  cases htakes : (s.after past).takes? move with
  | some job =>
    refine (pushes_begin htakes).imp_right ?_
    rintro ⟨bundle, hpushing⟩
    exact ⟨past, [(luck, move)], bundle, rfl, hpushing⟩
  | none =>
    obtain hnothing | ⟨earlier, later, bundle, rfl, hpushing⟩ := h
    · rw [after_concat]
      exact .inl (pushesNothing_step luck hnothing htakes)
    · exact .inr ⟨earlier, later ++ [(luck, move)], bundle, List.append_assoc _ _ _,
        hpushing.concat htakes⟩

theorem pushes_after (config : LinkConfig) (services : Services) (moves : List (Luck × Move)) :
    ((start config services).after moves).worker.PushesNothing ∨
      ∃ earlier later bundle, moves = earlier ++ later ∧
        (start config services).Pushing earlier later bundle := by
  induction moves using List.reverseRecOn with
  | nil => exact .inl ⟨rfl, rfl⟩
  | append_singleton past last ih => exact pushes_concat last.1 last.2 ih

/-- **What is pushed belongs to the watch set for which it began.** -/
theorem Tracks.step (h : s.Tracks past) (hplain : (s.after past).Plain move) :
    s.Tracks (past ++ [(luck, move)]) := by
  refine ⟨?_, pushes_concat luck move h.pushes⟩
  rw [after_concat]
  exact reserved_step luck h.reserved hplain

theorem tracks_after {config : LinkConfig} {services : Services}
    (h : Throughout (fun past move => ((start config services).after past).Plain move.2) moves) :
    (start config services).Tracks moves := by
  refine h.induct (tracks_start config services) ?_
  rintro past ⟨luck, move⟩ hmove htracks
  exact htracks.step hmove

/-! ### Writes -/

/-- Only a step of a push sets a property, and it is the one that is pushed. -/
theorem pushed_of_accepted {data : Bytes} {index : Nat} (hreserved : s.worker.Reserved)
    (hmem : data ∈ accepted (s.step luck move).1) (hplace : placeOf? data = some index) :
    ∃ key value tasks, s.worker.sends? = some (key, value, tasks) ∧
      ∀ bundle, s.worker.Within bundle → ∃ entry ∈ bundle.places, entry.2.key = key ∧
        entry.1 ≤ maxIndex ∧ data = pushWrite entry value := by
  by_cases hwork : move = .work
  · subst hwork
    have hworks := works_work luck s
    change data ∈ accepted (s.work luck).1 at hmem
    generalize s.work luck = result at hworks hmem
    cases hworks with
    | rests | ends | looks => exact absurd hmem List.not_mem_nil
    | @takes job rest =>
      rw [(took_begin luck (s.shifted rest) job).accepted_eq] at hmem
      exact absurd hmem List.not_mem_nil
    | @advances purpose transfer hworker =>
      rw [hworker] at hreserved ⊢
      cases purpose with
      | push key value pending =>
        refine ⟨key, value, transfer.tasks, rfl, ?_⟩
        rintro bundle ⟨-, entry, hentry, rfl, hmax, htasks⟩
        have hpushed := pushed_advance luck hworker htasks
        refine ⟨entry, hentry, rfl, hmax, ?_⟩
        cases hpushed with
        | told haccepted =>
          rw [haccepted] at hmem
          exact List.mem_singleton.1 hmem
        | refused haccepted | goesOn haccepted =>
          rw [haccepted] at hmem
          exact absurd hmem List.not_mem_nil
      | request | alert | clock =>
        have hserved := served_advance luck s hworker rfl
        rw [(hserved.unplaced (hreserved rfl)).1 data hmem] at hplace
        exact nomatch hplace
  · rw [(silent_step luck s hwork).accepted_eq] at hmem
    exact absurd hmem List.not_mem_nil

/-- A command that sets a property names its place. -/
theorem placeOf?_setProperty (index : UInt8) (bytes : Bytes) :
    placeOf? (Command.setProperty index bytes).encode = some index.toNat := rfl

/-- The write of a push names one property and one value. -/
theorem eq_of_pushWrite {entry : Nat × Property} {index : UInt8} {bytes : Bytes}
    (hplace : entry.1 ≤ maxIndex)
    (h : (Command.setProperty index bytes).encode = pushWrite entry value) :
    index.toNat = entry.1 ∧ bytes = Value.encode entry.2 value := by
  obtain ⟨hindex, hbytes⟩ := List.cons.inj (List.cons.inj h).2
  refine ⟨?_, hbytes⟩
  rw [hindex]
  exact UInt8.toNat_ofNat_of_lt' (Nat.lt_succ_of_le hplace)

/-- **Every property is set for the watch set that was active when the piece of work was taken
up.**  The host sets no property by a command of its own.  Then the property stands at the place
that is named in the watch set that was active when the piece of work was taken up, the bytes are
those of a value that was reported of it since, and that watch set is still the active one if no
report since then named another. -/
theorem aimed_run {config : LinkConfig} {services : Services} {index : UInt8} {bytes : Bytes}
    (hplain : Throughout
      (fun past move => ((start config services).after past).Plain move.2) moves)
    (hwrite : (Command.setProperty index bytes).encode ∈
      accepted (((start config services).after moves).step luck move).1) :
    ∃ earlier later bundle property value, moves = earlier ++ later ∧
      ((start config services).after earlier).Busy later ∧
      ((start config services).after earlier).active = some bundle ∧
      bundle.properties[index.toNat]? = some property ∧
      (start config services).Reported earlier later property.key value ∧
      bytes = Value.encode property value ∧
      (((start config services).after earlier).Steady bundle later →
        ((start config services).after moves).active = some bundle) := by
  have htracks := tracks_after hplain
  obtain ⟨key, value, tasks, hsends, haims⟩ :=
    pushed_of_accepted htracks.reserved hwrite (placeOf?_setProperty index bytes)
  obtain hnothing | ⟨earlier, later, bundle, rfl, hpushing⟩ := htracks.pushes
  · exact nomatch hsends.symm.trans hnothing.2
  · obtain ⟨entry, hentry, rfl, hmax, hdata⟩ := haims bundle hpushing.within
    obtain ⟨hindex, rfl⟩ := eq_of_pushWrite hmax hdata
    refine ⟨earlier, later, bundle, entry.2, value, rfl, hpushing.busy, hpushing.active, ?_,
      hpushing.reported _ value tasks hsends, rfl, ?_⟩
    · rw [hindex]
      exact mem_places.1 hentry
    · intro hsteady
      rw [after_append]
      exact active_of_steady hpushing.active hsteady

/-- The temperature is pushed to its place in the first watch set, with the second attempt. -/
theorem aimed_run_retried :
    [0x30, 0, 21] ∈ accepted (((start {} weather).after
        (greeting ++ [(radio true, .wait 2000)])).step (radio true) .work).1 ∧
      ∃ earlier later bundle property value,
        greeting ++ [(radio true, .wait 2000)] = earlier ++ later ∧
        ((start {} weather).after earlier).Busy later ∧
        ((start {} weather).after earlier).active = some bundle ∧
        bundle.properties[0]? = some property ∧
        (start {} weather).Reported earlier later property.key value ∧
        [21] = Value.encode property value ∧
        (((start {} weather).after earlier).Steady bundle later →
          ((start {} weather).after (greeting ++ [(radio true, .wait 2000)])).active =
            some bundle) := by
  have hwrite : (Command.setProperty 0 [21]).encode ∈ accepted (((start {} weather).after
      (greeting ++ [(radio true, .wait 2000)])).step (radio true) .work).1 := by decide +kernel
  exact ⟨hwrite, aimed_run (by decide +kernel) hwrite⟩

/-- The second watch set becomes the active one before the second attempt.  Its first property is
the humidity, of which nothing is reported, and it is told the temperature. -/
theorem aimed_elsewhere :
    ¬ ∀ (config : LinkConfig) (services : Services) (moves : List (Luck × Move)) (luck : Luck)
      (move : Move) (index : UInt8) (bytes : Bytes),
      Throughout (fun past move => ((start config services).after past).Plain move.2) moves →
      (Command.setProperty index bytes).encode ∈
          accepted (((start config services).after moves).step luck move).1 →
        ∃ bundle property past, ((start config services).after moves).active = some bundle ∧
          bundle.properties[index.toNat]? = some property ∧ past <+: moves ∧
          bytes = Value.encode property
            (((start config services).after past).services.value property.key) := by
  intro h
  obtain ⟨bundle, property, past, hactive, hproperty, hpast, hbytes⟩ := h {} weather
    (greeting ++ [(radio true, .radio (.received [1, 0, 0, 0, 8])), (radio true, .wait 2000)])
    (radio true) .work 0 [21] (by decide +kernel) (by decide +kernel)
  obtain rfl : large = bundle := Option.some.inj hactive
  obtain rfl : (⟨"weather", "humidity", .number, ⟨32⟩⟩ : Property) = property :=
    Option.some.inj hproperty
  -- no value of the humidity was reported at any time
  have hunreported : ∀ past ∈ List.inits (greeting ++
      [(radio true, .radio (.received [1, 0, 0, 0, 8])), (radio true, .wait 2000)]),
      (((start {} weather).after past).services.value ⟨"weather", "humidity"⟩).isNone = true := by
    decide +kernel
  have hnone := Option.isNone_iff_eq_none.1 (hunreported past ((List.mem_inits _ _).2 hpast))
  change [21] = Value.encode _ (((start {} weather).after past).services.value
    ⟨"weather", "humidity"⟩) at hbytes
  rw [hnone] at hbytes
  exact absurd hbytes (by decide)

end Session

end Timepiece
