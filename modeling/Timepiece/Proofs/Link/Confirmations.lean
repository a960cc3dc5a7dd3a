import Mathlib
import Timepiece.Proofs.Link.Destinations
import Timepiece.Proofs.Link.Suppression

/-!
# Nothing is noted but what was confirmed

A value is noted of a property when the write of a push is taken, and not before: the pauses
between the attempts are long, and what was pushed may be forgotten meanwhile.  So whatever is
noted was confirmed since then, and it was confirmed last.  A property that is passed over, or of
which no attempt is taken, leaves what is noted as it was.

## Main definitions

* `Session.Confirms` — the write of a push is taken with a move.
* `Session.Aims` — a write is that of a push, for the watch set for which the worker began.
* `Session.LastConfirmed` — a value was confirmed, and since then nothing was forgotten and no
  other value confirmed.
* `Session.Noting` — what becomes of the notes with a step of the worker.

## Main results

* `Session.noting_work` — **a step of the worker notes what it confirms**, and nothing else.
* `Session.find?_step` — what is noted of a property stays while nothing is forgotten and no value
  of it confirmed.
* `Session.noted_step` — what is noted after a move is what it confirmed, or was noted before.
* `Session.noted_confirmed` — **in every run, what is noted was confirmed last**, and only a
  confirmed push changes what is noted while nothing is forgotten.
-/

namespace Timepiece

namespace Session

variable {s : Session} {luck : Luck} {move : Move} {past moves : List (Luck × Move)}
  {bundle : Bundle} {key : PropertyKey} {value : Option Value} {v : Value}

/-- The write of a push is taken with a move: the watch was told the value of a property. -/
def Confirms (s : Session) (luck : Luck) (move : Move) (key : PropertyKey) (value : Option Value) :
    Prop :=
  (∃ tasks, s.worker.sends? = some (key, value, tasks)) ∧ accepted (s.step luck move).1 ≠ []

/-- What is written after some moves is the value of a property, at its place in the watch set that
was active when the piece of work was taken up, and the value was reported since. -/
def Aims (s : Session) (moves : List (Luck × Move)) (key : PropertyKey) (value : Option Value)
    (writes : List Bytes) : Prop :=
  ∃ earlier later bundle entry, moves = earlier ++ later ∧ (s.after earlier).Busy later ∧
    (s.after earlier).active = some bundle ∧ entry ∈ bundle.places ∧ entry.2.key = key ∧
    entry.1 ≤ maxIndex ∧ s.Reported earlier later key value ∧ writes = [pushWrite entry value]

/-- With one of some moves a value of a property was confirmed, and written as it has to be.  Since
then what was pushed was not forgotten, and no other value of the property was confirmed. -/
def LastConfirmed (s : Session) (moves : List (Luck × Move)) (key : PropertyKey) (v : Value) :
    Prop :=
  ∃ earlier luck later, moves = earlier ++ (luck, .work) :: later ∧
    (s.after earlier).Confirms luck .work key (some v) ∧
    s.Aims earlier key (some v) (accepted ((s.after earlier).step luck .work).1) ∧
    Throughout (fun past move =>
      ¬ (s.after (earlier ++ (luck, .work) :: past)).Forgets move.1 move.2 ∧
        ∀ value, (s.after (earlier ++ (luck, .work) :: past)).Confirms move.1 move.2 key value →
          value = some v) later

/-! ### Moves that confirm nothing -/

/-- Only the worker confirms anything. -/
theorem work_of_confirms (h : s.Confirms luck move key value) : move = .work := by
  by_contra hwork
  exact h.2 (silent_step luck s hwork).accepted_eq

/-- There is one property and one value at a time. -/
theorem Confirms.eq {key' : PropertyKey} {value' : Option Value}
    (h : s.Confirms luck move key value) (h' : s.Confirms luck move key' value') :
    key' = key ∧ value' = value := by
  obtain ⟨⟨tasks, hsends⟩, -⟩ := h
  obtain ⟨⟨tasks', hsends'⟩, -⟩ := h'
  rw [hsends] at hsends'
  simp only [Option.some.injEq, Prod.mk.injEq] at hsends'
  exact ⟨hsends'.1.symm, hsends'.2.1.symm⟩

theorem not_confirms_of_accepted (h : accepted (s.step luck move).1 = []) :
    ¬ s.Confirms luck move key value := fun hconfirms => hconfirms.2 h

theorem not_confirms_of_sends (h : s.worker.sends? = none) :
    ¬ s.Confirms luck move key value := by
  rintro ⟨⟨tasks, hsends⟩, -⟩
  rw [h] at hsends
  cases hsends

/-! ### Steps of the worker -/

/-- What becomes of the notes with a step of the worker: nothing is confirmed and they stay, or the
write of a push is taken, at the place of its property in the watch set, and its value is noted. -/
inductive Noting (bundle : Bundle) (s : Session) (luck : Luck) : Prop
  | kept : (∀ key value, ¬ s.Confirms luck .work key value) →
    (s.step luck .work).2.cache = s.cache → Noting bundle s luck
  | noted {entry : Nat × Property} {value : Option Value} :
    s.Confirms luck .work entry.2.key value → entry ∈ bundle.places → entry.1 ≤ maxIndex →
    accepted (s.step luck .work).1 = [pushWrite entry value] →
    (s.step luck .work).2.cache = s.cache.record entry.2.key value → Noting bundle s luck

/-- **A step of the worker notes what it confirms**, and nothing else. -/
theorem noting_work (luck : Luck) (h : s.worker.Within bundle) : Noting bundle s luck := by
  have hworks := works_work luck s
  have hstep : s.step luck .work = s.work luck := rfl
  generalize s.work luck = result at hworks hstep
  cases hworks with
  | rests =>
    refine .kept (fun key value => not_confirms_of_accepted ?_) ?_
    · rw [hstep]
      rfl
    · rw [hstep]
  | @takes job rest htakes =>
    have htook := took_begin luck (s.shifted rest) job
    obtain ⟨worker, hnext, -⟩ := htook.next
    refine .kept (fun key value => not_confirms_of_accepted ?_) ?_
    · rw [hstep]
      exact htook.accepted_eq
    · rw [hstep, hnext]
      rfl
  | ends =>
    refine .kept (fun key value => not_confirms_of_accepted ?_) ?_
    · rw [hstep]
      rfl
    · rw [hstep]
  | @looks entry pending =>
    refine .kept (fun key value => not_confirms_of_accepted ?_) ?_
    · rw [hstep]
      rfl
    · rw [hstep]
      obtain ⟨-, hnext⟩ | ⟨-, hnext⟩ := s.pushOne_cases entry pending
      · rw [hnext]
      · rw [hnext]
  | @advances purpose transfer hworker =>
    cases purpose with
    | push key value pending =>
      rw [hworker] at h
      -- the push is one of the watch set, and its write names the place of its property
      obtain ⟨-, entry, hentry, rfl, hplace, htasks⟩ := h
      have hpushed := pushed_advance luck hworker htasks
      rw [← hstep] at hpushed
      cases hpushed with
      | told haccepted _ hcache =>
        refine .noted ⟨⟨transfer.tasks, ?_⟩, ?_⟩ hentry hplace haccepted hcache
        · rw [hworker]
          rfl
        · rw [haccepted]
          exact List.cons_ne_nil _ _
      | refused haccepted _ hcache | goesOn haccepted _ _ hcache =>
        exact .kept (fun key value => not_confirms_of_accepted haccepted) hcache
    | request | alert | clock =>
      refine .kept (fun key value => not_confirms_of_sends ?_) ?_
      · rw [hworker]
        rfl
      · rw [hstep]
        exact cache_advance luck hworker rfl

theorem within_of_pushesNothing {worker : Worker} (bundle : Bundle) (h : worker.PushesNothing) :
    worker.Within bundle := by
  obtain ⟨hpending, hsends⟩ := h
  cases worker with
  | idle => trivial
  | pushing pending =>
    intro entry hentry
    rw [show pending = [] from hpending] at hentry
    cases hentry
  | transferring purpose transfer =>
    cases purpose with
    | push => cases hsends
    | request | alert | clock => trivial

/-- In every run the worker pushes nothing but to the places of some watch set. -/
theorem within_after (config : LinkConfig) (services : Services) (moves : List (Luck × Move)) :
    ∃ bundle, ((start config services).after moves).worker.Within bundle := by
  obtain hnothing | ⟨earlier, later, bundle, rfl, hpushing⟩ := pushes_after config services moves
  · exact ⟨⟨0, "", [], [], []⟩, within_of_pushesNothing _ hnothing⟩
  · exact ⟨bundle, hpushing.within⟩

/-- What a push writes is the value of its property, at its place in the watch set for which the
worker began. -/
theorem aims_of_confirms (config : LinkConfig) (services : Services) (moves : List (Luck × Move))
    (h : ((start config services).after moves).Confirms luck move key value) :
    (start config services).Aims moves key value
      (accepted (((start config services).after moves).step luck move).1) := by
  obtain rfl := work_of_confirms h
  obtain ⟨tasks, hsends⟩ := h.1
  obtain hnothing | ⟨earlier, later, bundle, rfl, hpushing⟩ := pushes_after config services moves
  · exact absurd h (not_confirms_of_sends hnothing.2)
  · have hreported := hpushing.reported key value tasks hsends
    cases noting_work luck hpushing.within with
    | kept hnone => exact absurd h (hnone key value)
    | @noted entry sent hconfirms hentry hplace haccepted =>
      obtain ⟨hkey, rfl⟩ := h.eq hconfirms
      exact ⟨earlier, later, bundle, entry, rfl, hpushing.busy, hpushing.active, hentry, hkey,
        hplace, hreported, haccepted⟩

/-! ### What is noted -/

/-- What is confirmed is noted. -/
theorem find?_of_confirms (hwithin : s.worker.Within bundle)
    (h : s.Confirms luck move key value) : (s.step luck move).2.cache.find? key = value := by
  obtain rfl := work_of_confirms h
  cases noting_work luck hwithin with
  | kept hnone => exact absurd h (hnone key value)
  | noted hconfirms _ _ _ hcache =>
    obtain ⟨rfl, rfl⟩ := hconfirms.eq h
    rw [hcache, PushCache.find?_record_self]

/-- What is noted of a property stays while nothing is forgotten and no value of it confirmed,
whatever is confirmed of others. -/
theorem find?_step (hwithin : s.worker.Within bundle) (hkept : ¬ s.Forgets luck move)
    (hnone : ∀ value, ¬ s.Confirms luck move key value) :
    (s.step luck move).2.cache.find? key = s.cache.find? key := by
  by_cases hwork : move = .work
  · subst hwork
    cases noting_work luck hwithin with
    | kept _ hcache => rw [hcache]
    | @noted entry value hconfirms _ _ _ hcache =>
      have hkey : key ≠ entry.2.key := by
        rintro rfl
        exact hnone value hconfirms
      rw [hcache, PushCache.find?_record_of_ne _ hkey]
  · obtain hcache | ⟨-, hforgets⟩ := cache_step luck s hwork
    · rw [hcache]
    · exact absurd hforgets hkept

/-- What is noted after a move is what it confirmed, or was noted before, and then nothing was
forgotten with the move. -/
theorem noted_step (luck : Luck) (move : Move) (hwithin : s.worker.Within bundle)
    (h : (s.step luck move).2.cache.find? key = some v) :
    move = .work ∧ s.Confirms luck .work key (some v) ∨
      s.cache.find? key = some v ∧ ¬ s.Forgets luck move ∧
        ∀ value, ¬ s.Confirms luck move key value := by
  by_cases hconfirms : ∃ value, s.Confirms luck move key value
  · obtain ⟨value, hvalue⟩ := hconfirms
    obtain rfl := work_of_confirms hvalue
    rw [find?_of_confirms hwithin hvalue] at h
    subst h
    exact .inl ⟨rfl, hvalue⟩
  · have hnone := not_exists.1 hconfirms
    have hkept : ¬ s.Forgets luck move := by
      intro hforgets
      rw [cache_of_forgets hforgets] at h
      cases h
    rw [find?_step hwithin hkept hnone] at h
    exact .inr ⟨h, hkept, hnone⟩

/-- What is noted stays the value that was confirmed last. -/
theorem LastConfirmed.concat (h : s.LastConfirmed moves key v)
    (hkept : ¬ (s.after moves).Forgets luck move)
    (hnone : ∀ value, ¬ (s.after moves).Confirms luck move key value) :
    s.LastConfirmed (moves ++ [(luck, move)]) key v := by
  obtain ⟨earlier, luck', later, rfl, hconfirms, haims, hlater⟩ := h
  refine ⟨earlier, luck', later ++ [(luck, move)], ?_, hconfirms, haims, ?_⟩
  · simp
  · exact throughout_concat.2 ⟨hlater, hkept, fun value hvalue => absurd hvalue (hnone value)⟩

/-- **What is noted was confirmed last.** -/
theorem lastConfirmed_after (config : LinkConfig) (services : Services)
    (moves : List (Luck × Move))
    (h : ((start config services).after moves).cache.find? key = some v) :
    (start config services).LastConfirmed moves key v := by
  induction moves using List.reverseRecOn with
  | nil => cases h
  | append_singleton past last ih =>
    obtain ⟨luck, move⟩ := last
    obtain ⟨bundle, hwithin⟩ := within_after config services past
    rw [after_concat] at h
    obtain ⟨rfl, hconfirms⟩ | ⟨hbefore, hkept, hnone⟩ := noted_step luck move hwithin h
    · have haims := aims_of_confirms config services past hconfirms
      exact ⟨past, luck, [], rfl, hconfirms, haims, throughout_nil⟩
    · exact (ih hbefore).concat hkept hnone

/-! ### What changes the notes -/

/-- A move with which nothing is forgotten and nothing confirmed leaves what is noted. -/
theorem cache_of_unconfirmed (hwithin : s.worker.Within bundle) (hkept : ¬ s.Forgets luck move)
    (hnone : ∀ key value, ¬ s.Confirms luck move key value) :
    (s.step luck move).2.cache = s.cache := by
  by_cases hwork : move = .work
  · subst hwork
    cases noting_work luck hwithin with
    | kept _ hcache => exact hcache
    | @noted entry value hconfirms => exact absurd hconfirms (hnone entry.2.key value)
  · obtain hcache | ⟨-, hforgets⟩ := cache_step luck s hwork
    · exact hcache
    · exact absurd hforgets hkept

/-- What is noted of a property is only removed by forgetting all, or when the watch was told that
there is no value. -/
theorem forgets_or_confirms (hwithin : s.worker.Within bundle)
    (hbefore : s.cache.find? key = some v)
    (hafter : (s.step luck move).2.cache.find? key = none) :
    s.Forgets luck move ∨ s.Confirms luck move key none := by
  by_cases hforgets : s.Forgets luck move
  · exact .inl hforgets
  by_cases hconfirms : ∃ value, s.Confirms luck move key value
  · obtain ⟨value, hvalue⟩ := hconfirms
    rw [find?_of_confirms hwithin hvalue] at hafter
    subst hafter
    exact .inr hvalue
  · rw [find?_step hwithin hforgets (not_exists.1 hconfirms), hbefore] at hafter
    cases hafter

/-- A property that is current, or whose place cannot be named, is passed over. -/
theorem passed_over (luck : Luck) {entry : Nat × Property} {pending : List (Nat × Property)}
    (hworker : s.worker = .pushing (entry :: pending))
    (h : s.cache.isCurrent entry.2.key (s.services.value entry.2.key) = true ∨
      maxIndex < entry.1) :
    s.step luck .work = ([], { s with worker := .pushing pending }) := by
  have hstep : s.step luck .work = ([], s.pushOne entry.1 entry.2 pending) :=
    work_of_pending hworker
  rw [hstep, pushOne]
  dsimp only
  rw [if_pos (by simpa using h)]

/-! ### All moves -/

/-- **In every run, what is noted was confirmed last.**

* What is noted of a property was confirmed by a push of it, and since then nothing was forgotten
  and no other value of it confirmed.
* What a push writes when it is confirmed is its value, at the place of its property in the watch
  set that was active when the piece of work was taken up.
* What is noted stays as it is while nothing is forgotten and no push is confirmed, as when every
  attempt is refused; and a property that is current or has no place in a command is passed over.
* A note is only removed by forgetting all, or when the absence of a value was confirmed.
* When a connection begins to be used, nothing is noted. -/
theorem noted_confirmed (config : LinkConfig) (services : Services) (moves : List (Luck × Move)) :
    let s := start config services
    let t := s.after moves
    (∀ key v, t.cache.find? key = some v → s.LastConfirmed moves key v) ∧
      (∀ luck move key value, t.Confirms luck move key value →
        s.Aims moves key value (accepted (t.step luck move).1)) ∧
      (∀ later, Throughout (fun past move => ¬ (t.after past).Forgets move.1 move.2 ∧
          ∀ key value, ¬ (t.after past).Confirms move.1 move.2 key value) later →
        (t.after later).cache = t.cache) ∧
      (∀ luck entry pending, t.worker = .pushing (entry :: pending) →
        t.cache.isCurrent entry.2.key (t.services.value entry.2.key) = true ∨ maxIndex < entry.1 →
          t.step luck .work = ([], { t with worker := .pushing pending })) ∧
      (∀ luck move key v, t.cache.find? key = some v →
        (t.step luck move).2.cache.find? key = none →
          t.Forgets luck move ∨ t.Confirms luck move key none) ∧
      ∀ luck move, t.isConnected = false → (t.step luck move).2.isConnected = true →
        (t.step luck move).2.cache = .empty := by
  intro s t
  obtain ⟨bundle, hwithin⟩ := within_after config services moves
  refine ⟨?_, ?_, ?_, ?_, ?_, ?_⟩
  · intro key v hnoted
    exact lastConfirmed_after config services moves hnoted
  · intro luck move key value hconfirms
    exact aims_of_confirms config services moves hconfirms
  · intro later hlater
    refine hlater.induct (P := fun past => (t.after past).cache = t.cache) rfl ?_
    rintro past ⟨luck, move⟩ ⟨hkept, hnone⟩ hcache
    obtain ⟨other, hother⟩ := within_after config services (moves ++ past)
    rw [after_append] at hother
    rw [after_concat]
    exact (cache_of_unconfirmed hother hkept hnone).trans hcache
  · intro luck entry pending hworker hpassed
    exact passed_over luck hworker hpassed
  · intro luck move key v hbefore hafter
    exact forgets_or_confirms hwithin hbefore hafter
  · intro luck move hbefore hafter
    exact cache_of_connected luck move hbefore hafter

/-- The temperature is noted after it was measured, and its write was taken. -/
theorem noted_confirmed_measured :
    ((start {} weather).after measuring).cache.find? temperature.key = some (.integer 21) ∧
      (start {} weather).LastConfirmed measuring temperature.key (.integer 21) := by
  have hnoted : ((start {} weather).after measuring).cache.find? temperature.key =
      some (.integer 21) := rfl
  exact ⟨hnoted, (noted_confirmed {} weather measuring).1 _ _ hnoted⟩

end Session

end Timepiece
