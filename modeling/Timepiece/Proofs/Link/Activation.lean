import Mathlib
import Timepiece.Proofs.Link.SessionSteps

/-!
# Switching the active watch set

When the watch reports which watch set it shows, what was pushed is forgotten and all
properties of that watch set are to be pushed.  The worker may still be busy with a push
for the watch set before it.  When that push ends, its value is noted under the name of the
property, and then the same value is not pushed to the place which the property has in the
new watch set.

## Main definitions

* `Session.Activates` — a report with which a known watch set becomes the active one.
* `Session.Calm`, `Session.Undisturbed` — moves during which nothing goes wrong.
* `Session.WorkedOff` — the piece of work behind some others was worked off.
* `Worker.Faithful` — the worker pushes nothing else under the name of a property.

## Main results

* `Session.Kept.step` — **what a move keeps**: a value counts as pushed only if the write
  for its place was taken.
* `Session.Kept.holds_step` — **a property that is due is pushed, or still due**.
* `Session.pushed_of_activates` — **all properties of the new watch set are pushed**, apart
  from those of which the worker was just pushing something else.
-/

namespace Timepiece

/-- The write with which a property at a place is told its value. -/
def pushWrite (entry : Nat × Property) (value : Option Value) : Bytes :=
  (Command.setProperty (UInt8.ofNat entry.1) (Value.encode entry.2 value)).encode

namespace Worker

/-- The properties that the worker is still to look at. -/
def pending : Worker → List (Nat × Property)
  | .pushing pending => pending
  | .transferring (.push _ _ pending) _ => pending
  | _ => []

/-- The push that is going on: the property, its value, and what is left to do. -/
def sends? : Worker → Option (PropertyKey × Option Value × List Task)
  | .transferring (.push key value _) transfer => some (key, value, transfer.tasks)
  | _ => none

/-- Under the name of a property the worker pushes a value only to the place of the
property. -/
structure Faithful (worker : Worker) (entry : Nat × Property) (value : Value) : Prop where
  pending : ∀ other ∈ worker.pending, other.2.key = entry.2.key → other.1 ≤ Session.maxIndex →
    pushWrite other (some value) = pushWrite entry (some value)
  sends : ∀ sent tasks, worker.sends? = some (entry.2.key, sent, tasks) →
    Value.sameOption sent (some value) = true →
      tasks = [.write (pushWrite entry (some value)) none]

/-- The worker is still to look at a property, or is pushing its value. -/
def Holds (worker : Worker) (entry : Nat × Property) (value : Value) : Prop :=
  entry ∈ worker.pending ∨
    ∃ sent, worker.sends? =
      some (entry.2.key, sent, [.write (pushWrite entry (some value)) none])

variable {worker : Worker} {entry : Nat × Property} {value : Value}

/-- A worker that pushes nothing pushes nothing else. -/
theorem faithful_of_pushes_nothing (hpending : worker.pending = [])
    (hsends : worker.sends? = none) : worker.Faithful entry value where
  pending := by
    rw [hpending]
    exact fun other hmem => absurd hmem List.not_mem_nil
  sends sent tasks h := by
    rw [hsends] at h
    exact nomatch h

/-- No property is due with a worker that pushes nothing. -/
theorem not_holds (hpending : worker.pending = []) (hsends : worker.sends? = none) :
    ¬ worker.Holds entry value := by
  rintro (hmem | ⟨sent, h⟩)
  · rw [hpending] at hmem
    exact absurd hmem List.not_mem_nil
  · rw [hsends] at h
    exact nomatch h

/-- A worker stays faithful while it looks at less. -/
theorem Faithful.pushing {left : List (Nat × Property)} (h : worker.Faithful entry value)
    (hleft : left ⊆ worker.pending) : (Worker.pushing left).Faithful entry value where
  pending other hmem := h.pending other (hleft hmem)
  sends _ _ h := nomatch h

theorem sends?_of_not_push {purpose : Purpose} (transfer : Transfer)
    (h : purpose.isPush = false) :
    (transferring purpose transfer).pending = [] ∧
      (transferring purpose transfer).sends? = none := by
  cases purpose with
  | push => exact nomatch h
  | request | alert | clock => exact ⟨rfl, rfl⟩

end Worker

namespace Session

/-- A report with which a known watch set becomes the active one while the connection can
be used.  There is room for the work that this brings, and the properties of the watch set
are few enough to be named, each once. -/
structure Activates (s : Session) (data : Bytes) (bundle : Bundle) : Prop where
  connected : s.isConnected = true
  known : ∃ id, Report.decode data = .ok (.activeWatchSet id) ∧ s.services.find id = some bundle
  room : s.hasRoom = true
  few : bundle.properties.length ≤ 255
  distinct : (bundle.properties.map Property.key).Nodup

/-- During a move the link stays up, every write is taken, no watch set becomes the active
one, and no value changes. -/
structure Calm (s : Session) (luck : Luck) (move : Move) : Prop where
  connected : (s.step luck move).2.isConnected = true
  taken : ∀ data, .write data false ∉ (s.step luck move).1
  active : ∀ data, move = .radio (.received data) →
    ∀ id, Report.decode data ≠ .ok (.activeWatchSet id)
  values : ∀ services, move = .services services → services.value = s.services.value

/-- All moves are calm. -/
def Undisturbed (s : Session) (moves : List (Luck × Move)) : Prop :=
  Throughout (fun past move => (s.after past).Calm move.1 move.2) moves

/-- The piece of work before which some others wait was worked off: it was the last one that
was taken up, and then the worker had nothing to do. -/
def WorkedOff (s : Session) (ahead : Nat) (moves : List (Luck × Move)) : Prop :=
  ∃ past, past <+: moves ∧ (s.taken past).length = ahead + 1 ∧ (s.after past).worker = .idle

/-- The value of a property counts as pushed only if the write for its place was taken, and
the worker pushes nothing else under its name. -/
structure Honest (entry : Nat × Property) (value : Value) (effects : List Effect) (s : Session) :
    Prop where
  cache : s.cache.isCurrent entry.2.key (some value) = true →
    .write (pushWrite entry (some value)) true ∈ effects
  worker : s.worker.Faithful entry value

/-- What is true of a property of the active watch set, while the connection can be used. -/
structure Kept (bundle : Bundle) (entry : Nat × Property) (value : Value)
    (effects : List Effect) (s : Session) : Prop where
  connected : s.isConnected = true
  active : s.active = some bundle
  reported : s.services.value entry.2.key = some value
  honest : Honest entry value effects s

variable {bundle : Bundle} {entry : Nat × Property} {value : Value} {effects : List Effect}
  {s s' : Session} {luck : Luck} {move : Move} {past moves : List (Luck × Move)}

/-! ### One move -/

theorem Honest.beside (h : Honest entry value effects s) (hbeside : Beside s s')
    (more : List Effect) : Honest entry value (effects ++ more) s' where
  cache hcurrent := by
    refine List.mem_append_left _ ?_
    rcases hbeside.cache with hcache | hcache
    · rw [hcache] at hcurrent
      exact h.cache hcurrent
    · rw [hcache] at hcurrent
      exact nomatch hcurrent
  worker := by
    rw [hbeside.worker]
    exact h.worker

/-- The properties that are picked are those of the active watch set, with their places. -/
theorem mem_pick (h : s.active = some bundle) {picked : Property → Bool}
    {other : Nat × Property} :
    other ∈ s.pick picked ↔ bundle.properties[other.1]? = some other.2 ∧ picked other.2 = true := by
  obtain ⟨index, property⟩ := other
  simp [pick, h, List.mem_zipIdx_iff_getElem?]

/-- Whoever pushes properties of a watch set that has each only once pushes nothing else under
the name of one. -/
theorem faithful_pick (h : s.active = some bundle)
    (hdistinct : (bundle.properties.map Property.key).Nodup)
    (hentry : bundle.properties[entry.1]? = some entry.2) (picked : Property → Bool) :
    (Worker.pushing (s.pick picked)).Faithful entry value where
  pending other hmem hkey _ := by
    have hother := ((mem_pick h).1 hmem).1
    -- the same name stands at the same place
    have hbound : other.1 < (bundle.properties.map Property.key).length := by
      rw [List.length_map]
      exact (List.getElem?_eq_some_iff.1 hother).1
    have hplace : other.1 = entry.1 := by
      refine (List.getElem?_inj hbound hdistinct).1 ?_
      rw [List.getElem?_map, List.getElem?_map, hother, hentry, Option.map_some, Option.map_some,
        hkey]
    rw [hplace, hentry] at hother
    rw [Prod.ext hplace (Option.some.inj hother).symm]
  sends _ _ h := nomatch h

/-- Taking up a piece of work notes nothing. -/
theorem Honest.took {rest : List Job} {result : List Effect × Session}
    (h : Honest entry value effects s) (hactive : s.active = some bundle)
    (hdistinct : (bundle.properties.map Property.key).Nodup)
    (hentry : bundle.properties[entry.1]? = some entry.2) (htook : (s.shifted rest).Took result) :
    Honest entry value (effects ++ result.1) result.2 := by
  obtain ⟨-, worker, hnext, hworker⟩ := htook
  rw [hnext]
  refine ⟨fun hcurrent => List.mem_append_left _ (h.cache hcurrent), ?_⟩
  obtain rfl | ⟨picked, rfl⟩ | ⟨purpose, transfer, rfl, hpurpose⟩ := hworker
  · exact h.worker
  · exact faithful_pick hactive hdistinct hentry picked
  · obtain ⟨hpending, hsends⟩ := Worker.sends?_of_not_push transfer hpurpose
    exact Worker.faithful_of_pushes_nothing hpending hsends

/-- Looking at a property notes nothing; what is pushed then is what the property is told. -/
theorem Honest.pushOne {other : Nat × Property} {pending : List (Nat × Property)}
    (h : Honest entry value effects s) (hreported : s.services.value entry.2.key = some value)
    (hworker : s.worker = .pushing (other :: pending)) :
    Honest entry value effects (s.pushOne other.1 other.2 pending) := by
  have hfaithful := h.worker
  rw [hworker] at hfaithful
  obtain ⟨-, hnext⟩ | ⟨hplace, hnext⟩ := s.pushOne_cases other pending
  · rw [hnext]
    exact ⟨h.cache, hfaithful.pushing (List.subset_cons_self other pending)⟩
  · rw [hnext]
    refine ⟨h.cache, fun later hmem => hfaithful.pending later (List.mem_cons_of_mem _ hmem), ?_⟩
    rintro sent tasks hsends -
    obtain ⟨hkey, -, rfl⟩ : other.2.key = entry.2.key ∧ _ ∧ _ := by
      simpa [Worker.sends?] using hsends
    have hsame := hfaithful.pending other List.mem_cons_self hkey hplace
    rw [← hsame, hkey, hreported]
    rfl

/-- A value that is not the one in question is noted under the name of a property without
harm. -/
theorem not_current_record {cache : PushCache} {key : PropertyKey} {sent : Option Value}
    (hother : ¬ (key = entry.2.key ∧ Value.sameOption sent (some value) = true))
    (hcurrent : (cache.record key sent).isCurrent entry.2.key (some value) = true) :
    cache.isCurrent entry.2.key (some value) = true := by
  unfold PushCache.isCurrent at hcurrent ⊢
  by_cases hkey : key = entry.2.key
  · subst hkey
    rw [PushCache.find?_record_self] at hcurrent
    exact absurd ⟨rfl, hcurrent⟩ hother
  · rwa [PushCache.find?_record_of_ne _ (Ne.symm hkey)] at hcurrent

/-- A step of a transfer notes the value of a property only if it was told. -/
theorem Honest.advance {purpose : Purpose} {transfer : Transfer}
    (h : Honest entry value effects s) (hworker : s.worker = .transferring purpose transfer)
    (hrefused : ∀ data, .write data false ∉ (s.advance luck purpose transfer).1) :
    Honest entry value (effects ++ (s.advance luck purpose transfer).1)
      (s.advance luck purpose transfer).2 := by
  have hfaithful := h.worker
  rw [hworker] at hfaithful
  by_cases htold : ∃ sent pending, purpose = .push entry.2.key sent pending ∧
      Value.sameOption sent (some value) = true
  · -- the property is just being told its value
    obtain ⟨sent, pending, rfl, hsame⟩ := htold
    obtain hnext | hnext | hwrite :=
      s.advance_write luck _ (hfaithful.sends sent transfer.tasks rfl hsame)
    · rw [hnext]
      exact h.beside (.refl s) []
    · rw [hnext]
      exact ⟨fun _ => List.mem_append_right _ List.mem_cons_self,
        hfaithful.pushing (List.Subset.refl pending)⟩
    · exact absurd hwrite (hrefused _)
  · obtain ⟨signals, written, -, ⟨next, hnext⟩ | ⟨result, hnext⟩⟩ :=
      s.advance_cases luck purpose transfer hworker
    · rw [hnext]
      refine ⟨fun hcurrent => List.mem_append_left _ (h.cache hcurrent), ?_⟩
      cases purpose with
      | push key sent pending =>
        refine ⟨hfaithful.pending, fun sent' tasks hsends hsame => absurd ?_ htold⟩
        obtain ⟨rfl, rfl, -⟩ : key = entry.2.key ∧ sent = sent' ∧ next.tasks = tasks := by
          simpa [Worker.sends?] using hsends
        exact ⟨sent, pending, rfl, hsame⟩
      | request | alert | clock => exact Worker.faithful_of_pushes_nothing rfl rfl
    · rw [hnext]
      obtain ⟨-, handler, hlast⟩ | ⟨key, sent, pending, cache, rfl, hcache, hlast⟩ :=
        (conclude_cases { s with signals } purpose result).2
      · rw [hlast]
        exact ⟨fun hcurrent => List.mem_append_left _ (h.cache hcurrent),
          Worker.faithful_of_pushes_nothing rfl rfl⟩
      · rw [hlast]
        refine ⟨fun hcurrent => List.mem_append_left _ (h.cache ?_),
          hfaithful.pushing (List.Subset.refl pending)⟩
        obtain rfl | rfl := hcache
        · exact hcurrent
        · refine not_current_record ?_ hcurrent
          rintro ⟨rfl, hsame⟩
          exact htold ⟨sent, pending, rfl, hsame⟩

/-- A step of the worker notes the value of a property only if it was told. -/
theorem Kept.work (h : Kept bundle entry value effects s)
    (hdistinct : (bundle.properties.map Property.key).Nodup)
    (hentry : bundle.properties[entry.1]? = some entry.2)
    (hrefused : ∀ data, .write data false ∉ (s.work luck).1) :
    Honest entry value (effects ++ (s.work luck).1) (s.work luck).2 := by
  cases hworker : s.worker with
  | idle =>
    cases hqueue : s.queue with
    | nil =>
      rw [work_of_empty hworker hqueue]
      exact h.honest.beside (.refl s) []
    | cons job rest =>
      have htakes : s.takes? .work = some job := by simp [takes?, hworker, hqueue]
      obtain ⟨rest, -, -, hstep⟩ := work_of_takes luck htakes
      change s.work luck = _ at hstep
      rw [hstep]
      exact h.honest.took h.active hdistinct hentry (took_begin luck (s.shifted rest) job)
  | pushing pending =>
    cases pending with
    | nil =>
      rw [work_of_done hworker]
      exact ⟨fun hcurrent => List.mem_append_left _ (h.honest.cache hcurrent),
        Worker.faithful_of_pushes_nothing rfl rfl⟩
    | cons other pending =>
      rw [work_of_pending hworker, List.append_nil]
      exact h.honest.pushOne h.reported hworker
  | transferring purpose transfer =>
    rw [work_of_transfer hworker] at hrefused ⊢
    exact h.honest.advance hworker hrefused

/-- **What a move keeps**: a value counts as pushed only if the write for its place was
taken. -/
theorem Kept.step (h : Kept bundle entry value effects s) (hcalm : s.Calm luck move)
    (hdistinct : (bundle.properties.map Property.key).Nodup)
    (hentry : bundle.properties[entry.1]? = some entry.2) :
    Kept bundle entry value (effects ++ (s.step luck move).1) (s.step luck move).2 := by
  by_cases hwork : move = .work
  · subst hwork
    have hworked := worked_work luck s
    refine ⟨hcalm.connected, hworked.active.trans h.active, ?_,
      h.work hdistinct hentry hcalm.taken⟩
    show (s.work luck).2.services.value entry.2.key = some value
    rw [hworked.services]
    exact h.reported
  · have hbeside := beside_step luck hwork hcalm.active hcalm.values
    refine ⟨hcalm.connected, hbeside.active.trans h.active, ?_, h.honest.beside hbeside _⟩
    rw [hbeside.value]
    exact h.reported

/-- A property that is due is pushed when it is looked at, unless its value is current. -/
theorem Kept.holds_pushOne {other : Nat × Property} {pending : List (Nat × Property)}
    (h : Kept bundle entry value effects s) (hplace : entry.1 ≤ maxIndex)
    (hmem : entry ∈ other :: pending) :
    .write (pushWrite entry (some value)) true ∈ effects ∨
      (s.pushOne other.1 other.2 pending).worker.Holds entry value := by
  rcases List.mem_cons.1 hmem with rfl | hmem
  · obtain ⟨hcurrent | htoofar, -⟩ | ⟨-, hnext⟩ := s.pushOne_cases entry pending
    · rw [h.reported] at hcurrent
      exact .inl (h.honest.cache hcurrent)
    · exact absurd htoofar (Nat.not_lt.2 hplace)
    · rw [hnext, h.reported]
      exact .inr (.inr ⟨some value, rfl⟩)
  · -- its turn has not come
    obtain ⟨-, hnext⟩ | ⟨-, hnext⟩ := s.pushOne_cases other pending
    · rw [hnext]
      exact .inr (.inl hmem)
    · rw [hnext]
      exact .inr (.inl hmem)

/-- A property that is due stays due while another one is pushed, and is pushed when it is its
turn. -/
theorem holds_advance {purpose : Purpose} {transfer : Transfer}
    (hworker : s.worker = .transferring purpose transfer) (hholds : s.worker.Holds entry value)
    (hrefused : ∀ data, .write data false ∉ (s.advance luck purpose transfer).1) :
    .write (pushWrite entry (some value)) true ∈ (s.advance luck purpose transfer).1 ∨
      (s.advance luck purpose transfer).2.worker.Holds entry value := by
  have hdue := hholds
  rw [hworker] at hdue
  cases purpose with
  | push key sent pending =>
    obtain hmem | ⟨sent', hsends⟩ := hdue
    · obtain ⟨signals, written, -, ⟨next, hnext⟩ | ⟨result, hnext⟩⟩ :=
        s.advance_cases luck _ transfer hworker
      · rw [hnext]
        exact .inr (.inl hmem)
      · rw [hnext]
        cases result <;> exact .inr (.inl hmem)
    · obtain ⟨rfl, rfl, htasks⟩ : key = entry.2.key ∧ sent = sent' ∧
          transfer.tasks = [.write (pushWrite entry (some value)) none] := by
        simpa [Worker.sends?] using hsends
      obtain hnext | hnext | hwrite := s.advance_write luck _ htasks
      · rw [hnext]
        exact .inr hholds
      · rw [hnext]
        exact .inl List.mem_cons_self
      · exact absurd hwrite (hrefused _)
  | request | alert | clock => exact absurd hdue (Worker.not_holds rfl rfl)

/-- **A property that is due is pushed, or still due.** -/
theorem Kept.holds_step (h : Kept bundle entry value effects s) (hcalm : s.Calm luck move)
    (hplace : entry.1 ≤ maxIndex) (hholds : s.worker.Holds entry value) :
    .write (pushWrite entry (some value)) true ∈ effects ++ (s.step luck move).1 ∨
      (s.step luck move).2.worker.Holds entry value := by
  by_cases hwork : move = .work
  · subst hwork
    have hrefused := hcalm.taken
    change ∀ data, .write data false ∉ (s.work luck).1 at hrefused
    show .write _ true ∈ effects ++ (s.work luck).1 ∨ (s.work luck).2.worker.Holds entry value
    cases hworker : s.worker with
    | idle =>
      rw [hworker] at hholds
      exact absurd hholds (Worker.not_holds rfl rfl)
    | pushing pending =>
      rw [hworker] at hholds
      have hmem : entry ∈ pending := hholds.resolve_right fun ⟨_, hsends⟩ => nomatch hsends
      cases pending with
      | nil => exact absurd hmem List.not_mem_nil
      | cons other pending =>
        rw [work_of_pending hworker, List.append_nil]
        exact h.holds_pushOne hplace hmem
    | transferring purpose transfer =>
      rw [work_of_transfer hworker] at hrefused ⊢
      exact (holds_advance hworker hholds hrefused).imp_left (List.mem_append_right _)
  · rw [(beside_step luck hwork hcalm.active hcalm.values).worker]
    exact .inr hholds

/-! ### All moves until the work is done -/

/-- After a switch all properties of the new watch set are to be pushed. -/
theorem Activates.step {data : Bytes} (h : s.Activates data bundle) (luck : Luck) :
    (s.step luck (.radio (.received data))).2 =
      { s with active := some bundle, cache := .empty, queue := s.queue ++ [.pushAll] } := by
  obtain ⟨id, hreport, hfind⟩ := h.known
  have hroom := h.room
  show (s.receive luck (.received data)).2 = _
  simp only [receive, hreport, dispatch, activate, hfind, Option.isSome_some, if_true, offer]
  exact if_pos hroom

/-- Nothing counts as pushed after a switch. -/
theorem Activates.kept {data : Bytes} (h : s.Activates data bundle) (luck : Luck)
    (hreported : s.services.value entry.2.key = some value)
    (hfaithful : s.worker.Faithful entry value) :
    Kept bundle entry value [] (s.step luck (.radio (.received data))).2 := by
  rw [h.step luck]
  exact ⟨h.connected, rfl, hreported, ⟨fun hcurrent => (nomatch hcurrent), hfaithful⟩⟩

/-- With the piece of work that pushes all properties every one of them is due. -/
theorem holds_pushAll {rest : List Job} (h : Kept bundle entry value effects s)
    (hentry : bundle.properties[entry.1]? = some entry.2) (luck : Luck) :
    ((s.shifted rest).begin luck .pushAll).2.worker.Holds entry value := by
  have hbegin : (s.shifted rest).begin luck .pushAll =
      ([], { s.shifted rest with worker := .pushing (s.pick fun _ => true) }) := by
    show (if s.isConnected = true then _ else _) = _
    rw [if_pos h.connected]
    rfl
  rw [hbegin]
  have hmem : entry ∈ s.pick fun _ => true := (mem_pick h.active).2 ⟨hentry, rfl⟩
  exact .inl hmem

/-- What is known of a property after some moves: it is kept, and once the piece of work
that pushes all properties was taken up, it is pushed or still due. -/
theorem kept_of_undisturbed {ahead : List Job} (hqueue : s.queue = ahead ++ [.pushAll])
    (h : Kept bundle entry value [] s) (hplace : entry.1 ≤ maxIndex)
    (hdistinct : (bundle.properties.map Property.key).Nodup)
    (hentry : bundle.properties[entry.1]? = some entry.2) (hcalm : s.Undisturbed moves) :
    Kept bundle entry value (s.effects moves) (s.after moves) ∧
      (ahead.length < (s.taken moves).length →
        .write (pushWrite entry (some value)) true ∈ s.effects moves ∨
          (s.taken moves).length = ahead.length + 1 ∧
            (s.after moves).worker.Holds entry value) := by
  refine hcalm.induct (P := fun past => Kept bundle entry value (s.effects past) (s.after past) ∧
    (ahead.length < (s.taken past).length →
      .write (pushWrite entry (some value)) true ∈ s.effects past ∨
        (s.taken past).length = ahead.length + 1 ∧ (s.after past).worker.Holds entry value))
    ⟨h, fun hlt => absurd hlt (Nat.not_lt_zero _)⟩ ?_
  rintro past ⟨luck, move⟩ hmove ⟨hkept, hdue⟩
  rw [effects_concat, after_concat, taken_concat]
  refine ⟨hkept.step hmove hdistinct hentry, fun hlt => ?_⟩
  cases htakes : (s.after past).takes? move with
  | none =>
    rw [htakes] at hlt
    simp only [Option.toList_none, List.append_nil] at hlt ⊢
    obtain hwritten | ⟨hlength, hholds⟩ := hdue hlt
    · exact .inl (List.mem_append_left _ hwritten)
    · exact (hkept.holds_step hmove hplace hholds).imp_right fun hnext => ⟨hlength, hnext⟩
  | some job =>
    rw [htakes] at hlt
    simp only [Option.toList_some, List.length_append, List.length_singleton] at hlt ⊢
    obtain ⟨rest, hidle, hwaits, hstep⟩ := work_of_takes luck htakes
    obtain hbefore | hnow := Nat.lt_or_ge ahead.length (s.taken past).length
    · -- the worker was done before
      obtain hwritten | ⟨-, hholds⟩ := hdue hbefore
      · exact .inl (List.mem_append_left _ hwritten)
      · rw [hidle] at hholds
        exact absurd hholds (Worker.not_holds rfl rfl)
    · have hlength : (s.taken past).length = ahead.length := by omega
      -- it is the piece of work that pushes all properties
      have hjob : job = .pushAll := by
        obtain ⟨more, horder⟩ := s.queue_taken past
        rw [hqueue, hwaits, List.append_assoc] at horder
        exact (List.cons.inj (List.append_inj horder hlength.symm).2).1.symm
      rw [hstep, hjob]
      exact .inr ⟨by rw [hlength], holds_pushAll hkept hentry luck⟩

/-- **All properties of the new watch set are pushed.**  A known watch set becomes the active
one while the connection can be used, and nothing goes wrong until the work that this brings is
worked off.  Then for every property for which a value is reported the write of that value to
its place was taken, unless the worker was just pushing something else under the name of the
property. -/
theorem pushed_of_activates {data : Bytes} {index : Nat} {property : Property}
    (h : s.Activates data bundle)
    (hcalm : (s.step luck (.radio (.received data))).2.Undisturbed moves)
    (hdone : (s.step luck (.radio (.received data))).2.WorkedOff s.queue.length moves)
    (hproperty : bundle.properties[index]? = some property)
    (hreported : s.services.value property.key = some value)
    (hfaithful : s.worker.Faithful (index, property) value) :
    .write (pushWrite (index, property) (some value)) true ∈
      (s.step luck (.radio (.received data))).2.effects moves := by
  obtain ⟨past, ⟨rest, rfl⟩, hlength, hidle⟩ := hdone
  have hkept : Kept bundle (index, property) value [] (s.step luck (.radio (.received data))).2 :=
    h.kept luck hreported hfaithful
  have hqueue : (s.step luck (.radio (.received data))).2.queue = s.queue ++ [.pushAll] := by
    rw [h.step luck]
  have hbound : index < bundle.properties.length := (List.getElem?_eq_some_iff.1 hproperty).1
  have hplace : index ≤ maxIndex := (hbound.trans_le h.few).le
  have hpast := hcalm.earlier (List.prefix_append past rest)
  obtain ⟨-, hdue⟩ := kept_of_undisturbed hqueue hkept hplace h.distinct hproperty hpast
  rw [effects_append]
  obtain hwritten | ⟨-, hholds⟩ := hdue (by omega)
  · exact List.mem_append_left _ hwritten
  · rw [hidle] at hholds
    exact absurd hholds (Worker.not_holds rfl rfl)

/-! ### Pushes that go on during a switch -/

/-- The bytes of a write that was taken. -/
def taken? : Effect → Option Bytes
  | .write data true => some data
  | _ => none

theorem mem_taken {data : Bytes} (h : .write data true ∈ effects) :
    data ∈ effects.filterMap taken? :=
  List.mem_filterMap.2 ⟨_, h, rfl⟩

/-- A step of the worker during which every write is taken is calm. -/
theorem calm_work (h : s.isConnected = true) (haccepts : luck.accepts = true) :
    s.Calm luck .work where
  connected := by
    show decide ((s.work luck).2.lifecycle.state = .connected) = true
    rw [(worked_work luck s).lifecycle]
    exact h
  taken data hmem := by
    have hrefused := (worked_work luck s).writes data false hmem
    rw [haccepts] at hrefused
    exact nomatch hrefused
  active _ h := nomatch h
  values _ h := nomatch h

/-- While time passes nothing goes wrong. -/
theorem calm_wait (h : s.isConnected = true) (moment : Nat) : s.Calm luck (.wait moment) where
  connected := h
  taken _ hmem := nomatch hmem
  active _ h := nomatch h
  values _ h := nomatch h

/-- While only the worker moves and time passes, and every write is taken, nothing goes
wrong. -/
theorem undisturbed_of_work (h : s.isConnected = true)
    (hmoves : ∀ move ∈ moves, move.1.accepts = true ∧
      (move.2 = .work ∨ ∃ moment, move.2 = .wait moment)) : s.Undisturbed moves := by
  induction moves generalizing s with
  | nil => exact throughout_nil
  | cons move rest ih =>
    obtain ⟨luck, move⟩ := move
    have hcalm : s.Calm luck move := by
      obtain ⟨haccepts, rfl | ⟨moment, rfl⟩⟩ := hmoves (luck, move) List.mem_cons_self
      · exact calm_work h haccepts
      · exact calm_wait h moment
    exact throughout_cons.2
      ⟨hcalm, ih hcalm.connected fun move hmem => hmoves move (List.mem_cons_of_mem _ hmem)⟩

/-- A weather station with two watch sets.  Both show the temperature, but at different
places. -/
def weather : Services :=
  let temperature : Property := ⟨"weather", "temperature", .number, ⟨32⟩⟩
  let humidity : Property := ⟨"weather", "humidity", .number, ⟨32⟩⟩
  { value := fun key => if key = temperature.key then some (.integer 21) else none
    find := fun id =>
      if id = 7 then some ⟨7, "small", [], [temperature], []⟩
      else if id = 8 then some ⟨8, "large", [], [humidity, temperature], []⟩
      else none
    pages := false }

/-- The second watch set of the weather station. -/
def large : Bundle :=
  ⟨8, "large", [],
    [⟨"weather", "humidity", .number, ⟨32⟩⟩, ⟨"weather", "temperature", .number, ⟨32⟩⟩], []⟩

/-- A radio that takes every write, or none. -/
def radio (accepts : Bool) : Luck := ⟨true, true, accepts, 0⟩

/-- The connection is made, the first of the watch sets becomes the active one, and the worker
begins to push the temperature.  The write is refused once. -/
def greeting : List (Luck × Move) :=
  [(radio true, .request (.connect "C4:7C:8D:6A:10:02")), (radio true, .radio .linkUp),
    (radio true, .radio (.servicesDiscovered true)), (radio true, .wait 1000),
    (radio true, .alarm), (radio true, .radio (.received [1, 0, 0, 0, 7])), (radio true, .work),
    (radio true, .work), (radio false, .work)]

/-- The pause after the refused write is over, and the worker makes some steps. -/
def steps (count : Nat) : List (Luck × Move) :=
  (radio true, .wait 2000) :: List.replicate count (radio true, .work)

theorem steps_steady {count : Nat} : ∀ move ∈ steps count, move.1.accepts = true ∧
    (move.2 = .work ∨ ∃ moment, move.2 = .wait moment) := by
  intro move hmem
  rcases List.mem_cons.1 hmem with rfl | hmem
  · exact ⟨rfl, .inr ⟨2000, rfl⟩⟩
  · obtain rfl := List.eq_of_mem_replicate hmem
    exact ⟨rfl, .inl rfl⟩

/-- The second watch set becomes the active one when the push for the first one is over. -/
theorem pushed_of_activates_idle :
    (((start {} weather).after greeting).after (steps 2)).Activates [1, 0, 0, 0, 8] large ∧
      .write [0x30, 1, 21] true ∈ ((((start {} weather).after greeting).after (steps 2)).step
        (radio true) (.radio (.received [1, 0, 0, 0, 8]))).2.effects (steps 5) := by
  have hactivates :
      (((start {} weather).after greeting).after (steps 2)).Activates [1, 0, 0, 0, 8] large :=
    ⟨by decide +kernel, ⟨8, rfl, rfl⟩, by decide +kernel, by decide, by decide⟩
  have hfaithful : (((start {} weather).after greeting).after (steps 2)).worker.Faithful
      (1, ⟨"weather", "temperature", .number, ⟨32⟩⟩) (.integer 21) :=
    Worker.faithful_of_pushes_nothing rfl rfl
  exact ⟨hactivates, pushed_of_activates hactivates
    (undisturbed_of_work (by decide +kernel) steps_steady)
    ⟨_, List.prefix_refl _, by decide +kernel, rfl⟩ rfl rfl hfaithful⟩

/-- The push of the temperature goes on when the second watch set becomes the active one.  Its
value is noted, and then not pushed to the place that the temperature has in the second one. -/
theorem activation_loses_push :
    ¬ ∀ (config : LinkConfig) (services : Services) (earlier moves : List (Luck × Move))
      (luck : Luck) (data : Bytes) (bundle : Bundle) (index : Nat) (property : Property)
      (value : Value),
      ((start config services).after earlier).Activates data bundle →
      (((start config services).after earlier).step luck
        (.radio (.received data))).2.Undisturbed moves →
      (((start config services).after earlier).step luck (.radio (.received data))).2.WorkedOff
        ((start config services).after earlier).queue.length moves →
      bundle.properties[index]? = some property →
      ((start config services).after earlier).services.value property.key = some value →
        .write (pushWrite (index, property) (some value)) true ∈
          (((start config services).after earlier).step luck (.radio (.received data))).2.effects
            moves := by
  intro h
  have hactivates : ((start {} weather).after greeting).Activates [1, 0, 0, 0, 8] large :=
    ⟨by decide +kernel, ⟨8, rfl, rfl⟩, by decide +kernel, by decide, by decide⟩
  have hwritten := h {} weather greeting (steps 6) (radio true) [1, 0, 0, 0, 8] large 1 _
    (.integer 21) hactivates (undisturbed_of_work (by decide +kernel) steps_steady)
    ⟨_, List.prefix_refl _, by decide +kernel, rfl⟩ rfl rfl
  exact absurd (mem_taken hwritten) (by decide +kernel)

end Session

end Timepiece
