import Mathlib
import Timepiece.Proofs.Link.Forgetting
import Timepiece.Proofs.Link.Places

/-!
# What is noted of the pushes

What is noted of a property of the active watch set is what was written last for its place.  A push
changes both together, nothing else touches either, and both begin anew when what was pushed is
forgotten.  This depends on the worker pushing nothing but to the places of the active watch set:
when another one becomes active, a push for the one before it may still be going on.

## Main definitions

* `Bundle.places` — the properties of a watch set, with their places.
* `Worker.Within`, `Session.Seamless` — the worker pushes nothing but to the places of a watch set.
* `Worker.Reserved`, `Session.Regular` — only pushes set properties.
* `Session.Agrees`, `Session.Mirrors` — what is noted is what was written.
* `Session.Pushed` — what becomes of a push.

## Main results

* `Session.mirrors_aside`, `Session.Mirrors.work` — **what is noted stays what was written**, with
  the moves of the side that hears and with the steps of the worker.
* `Session.reserved_step` — only pushes set properties, as long as the host does not.
-/

namespace Timepiece

/-- Whether a piece of work is a command with which the host sets a property by itself. -/
def Job.setsProperty : Job → Bool
  | .command (.setProperty _ _) _ => true
  | _ => false

/-! ### Places -/

/-- The properties of a watch set, with their places. -/
def Bundle.places (bundle : Bundle) : List (Nat × Property) :=
  bundle.properties.zipIdx.map fun entry => (entry.2, entry.1)

/-- A watch set has each of its properties once. -/
def Bundle.Distinct (bundle : Bundle) : Prop := (bundle.properties.map Property.key).Nodup

instance (bundle : Bundle) : Decidable bundle.Distinct := inferInstanceAs (Decidable (List.Nodup _))

section Places

variable {bundle : Bundle} {entry other : Nat × Property}

theorem mem_places : entry ∈ bundle.places ↔ bundle.properties[entry.1]? = some entry.2 := by
  obtain ⟨index, property⟩ := entry
  simp [Bundle.places, List.mem_zipIdx_iff_getElem?]

/-- There is one property at a place. -/
theorem eq_of_place (h : entry ∈ bundle.places) (h' : other ∈ bundle.places)
    (hplace : entry.1 = other.1) : entry = other := by
  rw [mem_places] at h h'
  rw [hplace, h'] at h
  exact Prod.ext hplace (Option.some.inj h).symm

/-- There is one place for a property. -/
theorem Bundle.Distinct.eq_of_key (hdistinct : bundle.Distinct) (h : entry ∈ bundle.places)
    (h' : other ∈ bundle.places) (hkey : entry.2.key = other.2.key) : entry = other := by
  refine eq_of_place h h' ?_
  rw [mem_places] at h h'
  have hbound : entry.1 < (bundle.properties.map Property.key).length := by
    rw [List.length_map]
    exact (List.getElem?_eq_some_iff.1 h).1
  refine (List.getElem?_inj hbound hdistinct).1 ?_
  rw [List.getElem?_map, List.getElem?_map, h, h', Option.map_some, Option.map_some, hkey]

end Places

/-! ### What the worker pushes -/

namespace Worker

/-- The worker pushes nothing but to the places of a watch set. -/
def Within (bundle : Bundle) : Worker → Prop
  | .pushing pending => ∀ entry ∈ pending, entry ∈ bundle.places
  | .transferring (.push key value pending) transfer =>
    (∀ entry ∈ pending, entry ∈ bundle.places) ∧
      ∃ entry ∈ bundle.places, entry.2.key = key ∧ entry.1 ≤ Session.maxIndex ∧
        transfer.tasks = [.write (pushWrite entry value) none]
  | _ => True

instance (bundle : Bundle) (worker : Worker) : Decidable (worker.Within bundle) :=
  match worker with
  | .idle => .isTrue trivial
  | .pushing pending => inferInstanceAs (Decidable (∀ entry ∈ pending, entry ∈ bundle.places))
  | .transferring (.push _ _ _) _ => inferInstanceAs (Decidable (_ ∧ _))
  | .transferring (.request _) _ => .isTrue trivial
  | .transferring (.alert _ _) _ => .isTrue trivial
  | .transferring .clock _ => .isTrue trivial

/-- Only pushes set properties. -/
def Reserved : Worker → Prop
  | .transferring purpose transfer => purpose.isPush = false → Transfer.Unplaced transfer.tasks
  | _ => True

theorem within_of_not_push {bundle : Bundle} {purpose : Purpose} (transfer : Transfer)
    (h : purpose.isPush = false) : (transferring purpose transfer).Within bundle := by
  cases purpose with
  | push => exact nomatch h
  | request | alert | clock => trivial

end Worker

namespace Session

variable {s s' : Session} {luck : Luck} {move : Move} {past moves : List (Luck × Move)}
  {bundle : Bundle} {entry : Nat × Property} {writes more : List Bytes}

/-- The host sets no property by a command of its own, and a watch set that becomes the active one
has each property once. -/
structure Regular (s : Session) (move : Move) : Prop where
  commands : ∀ job ∈ s.takes? move, job.setsProperty = false
  distinct : ∀ bundle ∈ s.switches? move, bundle.Distinct

instance (s : Session) (move : Move) : Decidable (s.Regular move) :=
  decidable_of_iff ((∀ job ∈ s.takes? move, job.setsProperty = false) ∧
      ∀ bundle ∈ s.switches? move, bundle.Distinct)
    ⟨fun h => ⟨h.1, h.2⟩, fun h => ⟨h.commands, h.distinct⟩⟩

/-- When a watch set becomes the active one, the worker pushes nothing but to its places. -/
def Seamless (s : Session) (move : Move) : Prop :=
  ∀ bundle ∈ s.switches? move, s.worker.Within bundle

instance (s : Session) (move : Move) : Decidable (s.Seamless move) :=
  inferInstanceAs (Decidable (∀ bundle ∈ s.switches? move, s.worker.Within bundle))

/-- What is noted of a property is what was written last for its place, or neither is anything. -/
def Agrees (writes : List Bytes) (cache : PushCache) (entry : Nat × Property) : Prop :=
  lastFor writes entry.1 = some (pushWrite entry (cache.find? entry.2.key)) ∨
    lastFor writes entry.1 = none ∧ cache.find? entry.2.key = none

/-- What is noted of the properties of a watch set is what was written last for their places, and
the worker pushes nothing but to these. -/
structure Mirrors (bundle : Bundle) (writes : List Bytes) (s : Session) : Prop where
  distinct : bundle.Distinct
  within : s.worker.Within bundle
  agrees : ∀ entry ∈ bundle.places, Agrees writes s.cache entry

/-! ### Moves of the other side -/

/-- After what was pushed is forgotten nothing is noted, and nothing was written since. -/
theorem mirrors_of_empty (hdistinct : bundle.Distinct) (hwithin : s.worker.Within bundle)
    (hcache : s.cache = .empty) : Mirrors bundle [] s where
  distinct := hdistinct
  within := hwithin
  agrees entry _ := by
    rw [hcache]
    exact .inr ⟨rfl, rfl⟩

theorem Agrees.append {cache : PushCache} (h : Agrees writes cache entry)
    (hmore : ∀ data ∈ more, placeOf? data ≠ some entry.1) :
    Agrees (writes ++ more) cache entry := by
  rw [Agrees, lastFor_append_of_ne hmore]
  exact h

/-- What is noted stays what was written while no property is set. -/
theorem Mirrors.unplaced (h : Mirrors bundle writes s) (hwithin : s'.worker.Within bundle)
    (hcache : s'.cache = s.cache) (hmore : ∀ data ∈ more, placeOf? data = none) :
    Mirrors bundle (writes ++ more) s' where
  distinct := h.distinct
  within := hwithin
  agrees entry hentry := by
    rw [hcache]
    refine (h.agrees entry hentry).append fun data hmem hplace => ?_
    rw [hmore data hmem] at hplace
    exact nomatch hplace

/-- **What is noted stays what the watch was told**, or is forgotten: the moves of the side that
hears. -/
theorem mirrors_aside (luck : Luck) (hwork : move ≠ .work) (hregular : s.Regular move)
    (hseamless : s.Seamless move)
    (h : ∀ bundle, s.active = some bundle → Mirrors bundle writes s) :
    (∀ bundle, (s.step luck move).2.active = some bundle →
        Mirrors bundle (writes ++ accepted (s.step luck move).1) (s.step luck move).2) ∨
      s.Forgets luck move ∧ ∀ bundle, (s.step luck move).2.active = some bundle →
        Mirrors bundle [] (s.step luck move).2 := by
  have hworker : (s.step luck move).2.worker = s.worker := worker_step luck s hwork
  -- a report of the watch set begins anew with what it names; any other move keeps the watch set
  by_cases hswitch : ∃ data id, move = .radio (.received data) ∧
      Report.decode data = .ok (.activeWatchSet id)
  · obtain ⟨data, id, rfl, hreport⟩ := hswitch
    obtain ⟨hcache, hactive⟩ := switched (s := s) luck hreport
    refine .inr ⟨.inr ⟨data, id, rfl, hreport⟩, fun bundle hbundle => ?_⟩
    have hswitches : bundle ∈ s.switches? (.radio (.received data)) := hactive.symm.trans hbundle
    exact mirrors_of_empty (hregular.distinct bundle hswitches)
      (hworker.symm ▸ hseamless bundle hswitches) hcache
  · have hactive : (s.step luck move).2.active = s.active := active_step luck s hswitch
    obtain hcache | ⟨hcache, hforgets⟩ := cache_step luck s hwork
    · refine .inl fun bundle hbundle => ?_
      have hmirrors := h bundle (hactive.symm.trans hbundle)
      refine hmirrors.unplaced (hworker.symm ▸ hmirrors.within) hcache ?_
      rw [(silent_step luck s hwork).accepted_eq]
      simp
    · refine .inr ⟨hforgets, fun bundle hbundle => ?_⟩
      have hmirrors := h bundle (hactive.symm.trans hbundle)
      exact mirrors_of_empty hmirrors.distinct (hworker.symm ▸ hmirrors.within) hcache

/-! ### The worker -/

/-- What becomes of a push: its write is taken and the value is noted, it is given up, or it goes
on. -/
inductive Pushed (s : Session) (key : PropertyKey) (value : Option Value)
    (pending : List (Nat × Property)) (data : Bytes) (result : List Effect × Session) : Prop
  | told : accepted result.1 = [data] → result.2.worker = .pushing pending →
    result.2.cache = s.cache.record key value → Pushed s key value pending data result
  | refused : accepted result.1 = [] → result.2.worker = .pushing pending →
    result.2.cache = s.cache → Pushed s key value pending data result
  | goesOn {next : Transfer} : accepted result.1 = [] →
    result.2.worker = .transferring (.push key value pending) next →
    next.tasks = [.write data none] → result.2.cache = s.cache →
    Pushed s key value pending data result

theorem pushed_advance (luck : Luck) {key : PropertyKey} {value : Option Value}
    {pending : List (Nat × Property)} {transfer : Transfer} {data : Bytes}
    (hworker : s.worker = .transferring (.push key value pending) transfer)
    (h : transfer.tasks = [.write data none]) :
    Pushed s key value pending data (s.advance luck (.push key value pending) transfer) := by
  have hattempts : Transfer.Attempts transfer luck.accepts s.signals data none []
      (transfer.step s.config s.now luck.accepts s.signals) := Transfer.attempts_step h
  unfold advance
  generalize transfer.step s.config s.now luck.accepts s.signals = step at hattempts ⊢
  cases hattempts with
  | rest => exact .goesOn rfl hworker h rfl
  | taken htaken =>
    rw [htaken]
    exact .told rfl rfl rfl
  | again hrefused =>
    rw [hrefused]
    exact .goesOn rfl rfl h rfl
  | refused hrefused =>
    rw [hrefused]
    exact .refused rfl rfl rfl

/-- A push that is taken changes what is noted of its property, and what was written for its
place. -/
theorem Mirrors.told {other : Nat × Property} {value : Option Value}
    (h : Mirrors bundle writes s) (hother : other ∈ bundle.places) (hplace : other.1 ≤ maxIndex)
    (hwithin : s'.worker.Within bundle) (hcache : s'.cache = s.cache.record other.2.key value) :
    Mirrors bundle (writes ++ [pushWrite other value]) s' where
  distinct := h.distinct
  within := hwithin
  agrees entry hentry := by
    rw [hcache]
    -- another property has another place and another name
    by_cases hsame : entry = other
    · subst hsame
      rw [Agrees, lastFor_append, lastFor_singleton (placeOf?_pushWrite hplace value),
        PushCache.find?_record_self]
      exact .inl rfl
    · have hkey : entry.2.key ≠ other.2.key := fun hkey =>
        hsame (h.distinct.eq_of_key hentry hother hkey)
      have helsewhere : placeOf? (pushWrite other value) ≠ some entry.1 := by
        rw [placeOf?_pushWrite hplace value]
        exact fun heq => hsame (eq_of_place hentry hother (Option.some.inj heq).symm)
      have hagrees : Agrees (writes ++ [pushWrite other value]) s.cache entry :=
        (h.agrees entry hentry).append fun data hmem => List.mem_singleton.1 hmem ▸ helsewhere
      rw [Agrees, PushCache.find?_record_of_ne _ hkey]
      exact hagrees

/-- Nothing is written when a piece of work is taken up. -/
theorem Took.accepted_eq {result : List Effect × Session} (h : s.Took result) :
    accepted result.1 = [] := by
  refine List.filterMap_eq_nil_iff.2 fun effect hmem => ?_
  cases effect with
  | write data taken => exact absurd hmem (h.unwritten data taken)
  | _ => rfl

/-- Whoever begins to push properties of the active watch set pushes them to their places. -/
theorem Mirrors.took {rest : List Job} {result : List Effect × Session}
    (h : Mirrors bundle writes s) (hactive : s.active = some bundle)
    (htook : (s.shifted rest).Took result) :
    Mirrors bundle (writes ++ accepted result.1) result.2 := by
  obtain ⟨worker, hnext, hworker⟩ := htook.next
  have hwithin : worker.Within bundle := by
    obtain rfl | ⟨picked, rfl⟩ | ⟨purpose, transfer, rfl, hpurpose⟩ := hworker
    · exact h.within
    · exact fun entry hmem => mem_places.2 ((mem_pick (s := s.shifted rest) hactive).1 hmem).1
    · exact Worker.within_of_not_push transfer hpurpose
  refine h.unplaced ?_ ?_ ?_
  · rw [hnext]
    exact hwithin
  · rw [hnext]
    rfl
  · rw [htook.accepted_eq]
    simp

/-- Looking at a property notes nothing, and what is pushed then is for its place. -/
theorem Mirrors.pushOne {pending : List (Nat × Property)} (h : Mirrors bundle writes s)
    (hworker : s.worker = .pushing (entry :: pending)) :
    Mirrors bundle (writes ++ []) (s.pushOne entry.1 entry.2 pending) := by
  have hwithin := h.within
  rw [hworker] at hwithin
  have hpending : ∀ other ∈ pending, other ∈ bundle.places := fun other hmem =>
    hwithin other (List.mem_cons_of_mem _ hmem)
  obtain ⟨-, hnext⟩ | ⟨hplace, hnext⟩ := s.pushOne_cases entry pending
  · rw [hnext]
    exact h.unplaced hpending rfl (by simp)
  · rw [hnext]
    refine h.unplaced ⟨hpending, entry, hwithin entry List.mem_cons_self, rfl, hplace, rfl⟩ rfl ?_
    simp

/-- A transfer that is no push leaves what is noted. -/
theorem cache_advance (luck : Luck) {purpose : Purpose} {transfer : Transfer}
    (hworker : s.worker = .transferring purpose transfer) (h : purpose.isPush = false) :
    (s.advance luck purpose transfer).2.cache = s.cache := by
  obtain ⟨signals, written, -, ⟨next, hnext⟩ | ⟨result, hnext⟩⟩ :=
    s.advance_cases luck purpose transfer hworker
  · rw [hnext]
  · rw [hnext]
    obtain ⟨-, handler, hlast⟩ | ⟨key, value, pending, cache, rfl, -, -⟩ :=
      (conclude_cases { s with signals } purpose result).2
    · rw [hlast]
    · exact nomatch h

/-- What a transfer that is no push writes sets no property, nor does what it writes later. -/
theorem Served.unplaced {purpose : Purpose} {transfer : Transfer} {result : List Effect × Session}
    (h : Served purpose transfer result) (hunplaced : Transfer.Unplaced transfer.tasks) :
    (∀ data ∈ accepted result.1, placeOf? data = none) ∧ result.2.worker.Reserved := by
  cases h with
  | goesOn hnext _ hscripts =>
    obtain ⟨hlater, hwritten⟩ := hunplaced.later hscripts
    rw [hnext]
    exact ⟨hwritten, fun _ => hlater⟩
  | succeeds hidle hscript =>
    rw [hidle]
    exact ⟨hunplaced _ hscript, trivial⟩
  | fails hidle hnone _ =>
    rw [hidle, hnone]
    exact ⟨by simp, trivial⟩

/-- After a step of a transfer that is no push the worker pushes nothing. -/
theorem Served.within {purpose : Purpose} {transfer : Transfer} {result : List Effect × Session}
    (h : Served purpose transfer result) (hpush : purpose.isPush = false) :
    result.2.worker.Within bundle := by
  cases h with
  | @goesOn next hnext =>
    rw [hnext]
    exact Worker.within_of_not_push next hpush
  | succeeds hidle =>
    rw [hidle]
    trivial
  | fails hidle =>
    rw [hidle]
    trivial

/-- A step of a push leaves what is noted and what was written in agreement. -/
theorem Mirrors.push {key : PropertyKey} {value : Option Value} {pending : List (Nat × Property)}
    {transfer : Transfer} (h : Mirrors bundle writes s)
    (hworker : s.worker = .transferring (.push key value pending) transfer) :
    Mirrors bundle (writes ++ accepted (s.advance luck (.push key value pending) transfer).1)
      (s.advance luck (.push key value pending) transfer).2 := by
  have hwithin := h.within
  rw [hworker] at hwithin
  -- the push is one of the watch set, and its write names the place of its property
  obtain ⟨hpending, other, hother, rfl, hplace, htasks⟩ := hwithin
  have hpushed := pushed_advance luck hworker htasks
  generalize s.advance luck (.push other.2.key value pending) transfer = result at hpushed ⊢
  cases hpushed with
  | told haccepted hnext hcache =>
    rw [haccepted]
    exact h.told hother hplace (hnext.symm ▸ hpending) hcache
  | refused haccepted hnext hcache =>
    rw [haccepted]
    exact h.unplaced (hnext.symm ▸ hpending) hcache (by simp)
  | goesOn haccepted hnext htasks hcache =>
    rw [haccepted]
    exact h.unplaced (hnext.symm ▸ ⟨hpending, other, hother, rfl, hplace, htasks⟩) hcache (by simp)

/-- A step of a transfer that is no push leaves what is noted and what was written for a place. -/
theorem Mirrors.serve {purpose : Purpose} {transfer : Transfer} (h : Mirrors bundle writes s)
    (hworker : s.worker = .transferring purpose transfer) (hpush : purpose.isPush = false)
    (hreserved : s.worker.Reserved) :
    Mirrors bundle (writes ++ accepted (s.advance luck purpose transfer).1)
      (s.advance luck purpose transfer).2 := by
  rw [hworker] at hreserved
  have hserved := served_advance luck s hworker hpush
  exact h.unplaced (hserved.within hpush) (cache_advance luck hworker hpush)
    (hserved.unplaced (hreserved hpush)).1

/-- **What is noted stays what the watch was told**: the steps of the worker. -/
theorem Mirrors.work (luck : Luck) (h : Mirrors bundle writes s) (hactive : s.active = some bundle)
    (hreserved : s.worker.Reserved) :
    Mirrors bundle (writes ++ accepted (s.work luck).1) (s.work luck).2 := by
  have hworks := works_work luck s
  generalize s.work luck = result at hworks ⊢
  cases hworks with
  | rests => exact h.unplaced h.within rfl (by simp)
  | @takes job rest _ => exact h.took hactive (took_begin luck (s.shifted rest) job)
  | ends => exact h.unplaced trivial rfl (by simp)
  | looks hworker => exact h.pushOne hworker
  | @advances purpose transfer hworker =>
    cases purpose with
    | push key value pending => exact h.push hworker
    | request | alert | clock => exact h.serve hworker rfl hreserved

theorem reserved_beginPush (h : s.worker.Reserved) (picked : Property → Bool) :
    (s.beginPush picked).2.worker.Reserved := by
  unfold beginPush
  split
  · trivial
  · exact h

theorem reserved_beginRequest (h : s.worker.Reserved) (number : Nat) (purpose : Purpose)
    {made : Except LinkFault Transfer}
    (hmade : ∀ transfer, made = .ok transfer → Transfer.Unplaced transfer.tasks) :
    (s.beginRequest number purpose made).2.worker.Reserved := by
  obtain hrefused | ⟨-, transfer, hok, hnext⟩ := s.beginRequest_cases number purpose made
  · rw [hrefused]
    exact h
  · rw [hnext]
    exact fun _ => hmade transfer hok

/-- A piece of work that is taken up sets no property, unless it is a push. -/
theorem reserved_begin (luck : Luck) {job : Job} (h : s.worker.Reserved)
    (hjob : job.setsProperty = false) : (s.begin luck job).2.worker.Reserved := by
  cases job with
  | upload payload number =>
    refine reserved_beginRequest h number _ fun transfer hmade => ?_
    obtain rfl := Except.ok.inj hmade
    exact Transfer.unplaced_upload payload
  | notification notification handler number =>
    refine reserved_beginRequest h number _ fun transfer hmade => ?_
    unfold notificationTransfer at hmade
    split at hmade
    · exact Transfer.unplaced_notification hmade
    · exact nomatch hmade
  | command command number =>
    refine reserved_beginRequest h number _ fun transfer hmade => ?_
    obtain rfl := Except.ok.inj hmade
    refine Transfer.unplaced_command ?_
    rintro index value rfl
    exact nomatch hjob
  | push | pushExtension | pushAll => exact reserved_beginPush h _
  | syncClock =>
    unfold begin Command.setTime?
    dsimp only
    split
    · split
      · next command hcommand =>
        split at hcommand
        · obtain rfl := Except.ok.inj hcommand
          exact fun _ => Transfer.unplaced_command nofun
        · exact nomatch hcommand
      · exact h
    · exact h

/-- After a step of a push the worker pushes. -/
theorem reserved_push (luck : Luck) {key : PropertyKey} {value : Option Value}
    {pending : List (Nat × Property)} {transfer : Transfer}
    (hworker : s.worker = .transferring (.push key value pending) transfer) :
    (s.advance luck (.push key value pending) transfer).2.worker.Reserved := by
  obtain ⟨signals, written, -, ⟨next, hnext⟩ | ⟨result, hnext⟩⟩ :=
    s.advance_cases luck _ transfer hworker
  · rw [hnext]
    exact fun hpush => nomatch hpush
  · rw [hnext]
    cases result <;> trivial

/-- Only pushes set properties, as long as the host does not. -/
theorem reserved_step (luck : Luck) (h : s.worker.Reserved)
    (hcommands : ∀ job ∈ s.takes? move, job.setsProperty = false) :
    (s.step luck move).2.worker.Reserved := by
  by_cases hwork : move = .work
  · subst hwork
    have hworks := works_work luck s
    show (s.work luck).2.worker.Reserved
    generalize s.work luck = result at hworks ⊢
    cases hworks with
    | rests => exact h
    | @takes job rest htakes =>
      exact reserved_begin (s := s.shifted rest) luck h (hcommands job htakes)
    | ends => trivial
    | @looks entry pending =>
      obtain ⟨-, hnext⟩ | ⟨-, hnext⟩ := s.pushOne_cases entry pending
      · rw [hnext]
        trivial
      · rw [hnext]
        exact fun hpush => nomatch hpush
    | @advances purpose transfer hworker =>
      rw [hworker] at h
      cases purpose with
      | push key value pending => exact reserved_push luck hworker
      | request | alert | clock =>
        exact ((served_advance luck s hworker rfl).unplaced (h rfl)).2
  · rw [worker_step luck s hwork]
    exact h

end Session

end Timepiece
