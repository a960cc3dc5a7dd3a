import Mathlib
import Timepiece.Proofs.Link.Confirmations

/-!
# What is not said twice

A property that was pushed with a value is passed over when the same value is reported again.  It
stays so while what was pushed is not forgotten and no other value of the property is confirmed,
and a push of any other property does not matter: a note is found under both names of its
property, and not under the text that they make together.

The values have to be equal for that, and floats are compared as numbers.  What is not a number
equals nothing, so a property that reports it is pushed again and again.

## Main definitions

* `Session.Settles` — with a step of the worker a push of a value ends well: it is confirmed, or the
  property is passed over because the value is current.
* `Session.Retains` — nothing is forgotten with some moves, and no value of a property confirmed.

## Main results

* `Session.Retains.find?_after` — **what is noted of a property is retained**.
* `Session.Settles.isCurrent` — a value is current after a push of it, unless it is not a number.
* `Session.unrepeated` — **in every run, a value that was pushed is not pushed again**, and exactly
  what is not a number is.
-/

namespace Timepiece

namespace Session

variable {s : Session} {luck : Luck} {moves earlier later : List (Luck × Move)}
  {bundle : Bundle} {key : PropertyKey} {value : Option Value} {entry : Nat × Property}
  {pending : List (Nat × Property)}

/-- With a step of the worker a push of a value ends well: its write is taken, or the property is
passed over because the value is current. -/
inductive Settles (s : Session) (luck : Luck) (key : PropertyKey) (value : Option Value) : Prop
  | taken : s.Confirms luck .work key value → Settles s luck key value
  | current {entry : Nat × Property} : s.Suppresses entry → entry.2.key = key →
    s.services.value key = value → Settles s luck key value

/-- With none of some moves is what was pushed forgotten, or any value of a property confirmed. -/
def Retains (s : Session) (key : PropertyKey) (moves : List (Luck × Move)) : Prop :=
  Throughout (fun past move => ¬ (s.after past).Forgets move.1 move.2 ∧
    ∀ value, ¬ (s.after past).Confirms move.1 move.2 key value) moves

/-! ### Moves that leave a note -/

/-- While a connection is used, only a report of the watch makes the session forget, and a push of
another property confirms nothing of this one. -/
theorem retains_of_connected
    (hsends : Throughout (fun past _ => (s.after past).isConnected = true ∧
      (s.after past).worker.sends?.map Prod.fst ≠ some key) moves)
    (hmoves : ∀ move ∈ moves, ∀ data, move.2 ≠ .radio (.received data)) : s.Retains key moves := by
  intro past move hpast
  obtain ⟨hconnected, hother⟩ := hsends past move hpast
  refine ⟨?_, ?_⟩
  · rintro (⟨hbefore, -⟩ | ⟨data, id, hreport, -⟩)
    · rw [hconnected] at hbefore
      cases hbefore
    · have hmem : move ∈ moves := hpast.subset (List.mem_append_right _ List.mem_cons_self)
      exact hmoves move hmem data hreport
  · rintro value ⟨⟨tasks, hsends⟩, -⟩
    rw [hsends] at hother
    exact hother rfl

/-- **What is noted of a property is retained**, whatever is confirmed of others. -/
theorem Retains.find?_after (config : LinkConfig) (services : Services)
    (h : ((start config services).after earlier).Retains key later) :
    (((start config services).after earlier).after later).cache.find? key =
      ((start config services).after earlier).cache.find? key := by
  refine h.induct (P := fun past =>
    (((start config services).after earlier).after past).cache.find? key =
      ((start config services).after earlier).cache.find? key) rfl ?_
  rintro past ⟨luck, move⟩ ⟨hkept, hnone⟩ hpast
  obtain ⟨bundle, hwithin⟩ := within_after config services (earlier ++ past)
  rw [after_append] at hwithin
  rw [after_concat, find?_step hwithin hkept hnone, hpast]

/-! ### When a value is current -/

/-- A value is current after a push of it that ended well, unless it is not a number. -/
theorem Settles.isCurrent (hwithin : s.worker.Within bundle) (h : s.Settles luck key value) :
    (s.step luck .work).2.cache.isCurrent key value = !value.any Value.isNaN := by
  cases h with
  | taken hconfirms =>
    rw [PushCache.isCurrent, find?_of_confirms hwithin hconfirms]
    exact Value.sameOption_self value
  | @current entry hsuppresses hkey hvalue =>
    subst hkey hvalue
    obtain ⟨⟨pending, hworker⟩, hcurrent⟩ := hsuppresses
    -- it was current before, and so it is a number
    rw [passed_over luck hworker (.inl hcurrent), Value.any_isNaN_of_sameOption hcurrent]
    exact hcurrent

/-! ### Pushes that begin -/

/-- A property that is not current is pushed, if its place can be named. -/
theorem pushed_on (luck : Luck) (hworker : s.worker = .pushing (entry :: pending))
    (hcurrent : s.cache.isCurrent entry.2.key (s.services.value entry.2.key) = false)
    (hplace : entry.1 ≤ maxIndex) :
    s.step luck .work = ([], { s with
      worker := .transferring (.push entry.2.key (s.services.value entry.2.key) pending)
        (.ofWrite (pushWrite entry (s.services.value entry.2.key))) }) := by
  have hstep : s.step luck .work = ([], s.pushOne entry.1 entry.2 pending) :=
    work_of_pending hworker
  rw [hstep]
  obtain ⟨hcurrent' | htoofar, -⟩ | ⟨-, hnext⟩ := s.pushOne_cases entry pending
  · rw [hcurrent] at hcurrent'
    cases hcurrent'
  · exact absurd htoofar hplace.not_gt
  · rw [hnext]
    rfl

/-- What a transfer attempts to write is written. -/
theorem mem_advance {purpose : Purpose} {transfer : Transfer} {data : Bytes}
    (h : (transfer.step s.config s.now luck.accepts s.signals).attempt = some data) :
    .write data luck.accepts ∈ (s.advance luck purpose transfer).1 := by
  unfold advance
  dsimp only
  rw [h]
  split
  · exact List.mem_singleton_self _
  · exact List.mem_singleton_self _
  · exact List.mem_append_left _ (List.mem_singleton_self _)

/-- A write that has just begun is attempted with the next step. -/
theorem write_begun (luck : Luck) {purpose : Purpose} {data : Bytes}
    (hworker : s.worker = .transferring purpose (.ofWrite data)) :
    .write data luck.accepts ∈ (s.step luck .work).1 := by
  have hstep : s.step luck .work = s.advance luck purpose (.ofWrite data) :=
    work_of_transfer hworker
  rw [hstep]
  refine mem_advance ?_
  show (Transfer.attemptWrite _ _ _ _ _ _ _ _ _).attempt = _
  -- the attempt is made whether or not it is taken
  unfold Transfer.attemptWrite
  split
  · rfl
  · split <;> rfl

/-! ### All moves -/

/-- **In every run, a value that was pushed is not pushed again.**  A push of it ended well.  Since
then nothing is forgotten and no value of the property is confirmed, while anything else may happen
and anything may be confirmed of other properties.  When the worker looks at the property then, and
the host reports the same value:

* If it is a number, a text or nothing, the property is passed over and nothing is written.
* If it is not a number, its write is attempted once more, though the watch was told it. -/
theorem unrepeated {config : LinkConfig} {services : Services} (luck' : Luck)
    (hsettles : ((start config services).after earlier).Settles luck key value)
    (hretains : ((start config services).after (earlier ++ [(luck, .work)])).Retains key later)
    (hworker : ((start config services).after (earlier ++ (luck, .work) :: later)).worker =
      .pushing (entry :: pending))
    (hkey : entry.2.key = key)
    (hvalue : ((start config services).after
      (earlier ++ (luck, .work) :: later)).services.value key = value) :
    let t := (start config services).after (earlier ++ (luck, .work) :: later)
    (value.any Value.isNaN = false →
        t.step luck' .work = ([], { t with worker := .pushing pending })) ∧
      (value.any Value.isNaN = true → entry.1 ≤ maxIndex → ∀ luck'',
        .write (pushWrite entry value) luck''.accepts ∈
          ((t.step luck' .work).2.step luck'' .work).1) := by
  intro t
  have hcurrent : t.cache.isCurrent key value = !value.any Value.isNaN := by
    obtain ⟨bundle, hwithin⟩ := within_after config services earlier
    have hsplit : t = ((start config services).after (earlier ++ [(luck, .work)])).after later := by
      rw [← after_append, List.append_assoc, List.singleton_append]
    rw [← hsettles.isCurrent hwithin, PushCache.isCurrent, hsplit,
      hretains.find?_after config services, after_concat]
    rfl
  subst hkey hvalue
  refine ⟨?_, ?_⟩
  · intro hnumber
    rw [hnumber] at hcurrent
    exact passed_over luck' hworker (.inl hcurrent)
  · intro hnan hplace luck''
    rw [hnan] at hcurrent
    rw [pushed_on luck' hworker hcurrent hplace]
    exact write_begun luck'' rfl

/-- Something else, whose names make the same text as those of the temperature. -/
def namesake : Property := ⟨"weathert", "emperature", .number, ⟨32⟩⟩

/-- A weather station that reports one value of every property.  Its watch set shows both of the
properties that are named so much alike. -/
def reporting (value : Value) : Services where
  value := fun _ => some value
  find := fun id => if id = 7 then some ⟨7, "alike", [], [temperature, namesake], []⟩ else none
  pages := false

/-- The connection is made, the watch set becomes the active one, and the temperature is looked at
and found to be new. -/
def found : List (Luck × Move) :=
  [(radio true, .request (.connect "C4:7C:8D:6A:10:02")), (radio true, .radio .linkUp),
    (radio true, .radio (.servicesDiscovered true)), (radio true, .wait 1000),
    (radio true, .alarm), (radio true, .radio (.received [1, 0, 0, 0, 7])), (radio true, .work),
    (radio true, .work)]

/-- The namesake is pushed, and then the temperature is reported once more. -/
def reportedAgain : List (Luck × Move) :=
  [(radio true, .work), (radio true, .work), (radio true, .work),
    (radio true, .offer (.push temperature.key)), (radio true, .work)]

set_option maxRecDepth 4000 in
theorem settles_found (value : Value) :
    ((start {} (reporting value)).after found).Settles (radio true) temperature.key
      (some value) := by
  have haccepted : accepted (((start {} (reporting value)).after found).step (radio true) .work).1 =
    [pushWrite (0, temperature) (some value)] := rfl
  refine .taken ⟨⟨[.write (pushWrite (0, temperature) (some value)) none], rfl⟩, ?_⟩
  rw [haccepted]
  exact List.cons_ne_nil _ _

theorem retains_reportedAgain {value : Value} (h : value ∈ [.integer 21, .float (0 / 0)]) :
    ((start {} (reporting value)).after (found ++ [(radio true, .work)])).Retains temperature.key
      reportedAgain := by
  refine retains_of_connected ?_ ?_
  · obtain rfl | rfl := List.mem_pair.1 h
    · decide +kernel
    · decide +kernel
  · simp [reportedAgain]

/-- The temperature is not pushed a second time, though its namesake was pushed meanwhile. -/
theorem unrepeated_namesake :
    accepted ((start {} (reporting (.integer 21))).effects
        (found ++ (radio true, .work) :: reportedAgain)) = [[0x30, 0, 21], [0x30, 1, 21]] ∧
      (((start {} (reporting (.integer 21))).after
        (found ++ (radio true, .work) :: reportedAgain)).step (radio true) .work).1 = [] := by
  have hworker : ((start {} (reporting (.integer 21))).after
      (found ++ (radio true, .work) :: reportedAgain)).worker = .pushing [(0, temperature)] := rfl
  have hpassed := (unrepeated (radio true) (settles_found (.integer 21))
    (retains_reportedAgain (by simp)) hworker rfl rfl).1 rfl
  exact ⟨by decide +kernel, by rw [hpassed]⟩

/-- What is not a number is pushed once more, though it is what the watch was told. -/
theorem repeated_nan :
    ¬ ∀ (config : LinkConfig) (services : Services) (earlier later : List (Luck × Move))
      (luck luck' : Luck) (key : PropertyKey) (value : Option Value) (entry : Nat × Property)
      (pending : List (Nat × Property)),
      ((start config services).after earlier).Settles luck key value →
      ((start config services).after (earlier ++ [(luck, .work)])).Retains key later →
      ((start config services).after (earlier ++ (luck, .work) :: later)).worker =
        .pushing (entry :: pending) →
      entry.2.key = key →
      ((start config services).after
        (earlier ++ (luck, .work) :: later)).services.value key = value →
        ((start config services).after (earlier ++ (luck, .work) :: later)).step luck' .work =
          ([], { (start config services).after (earlier ++ (luck, .work) :: later) with
            worker := .pushing pending }) := by
  intro h
  have hpassed := h {} (reporting (.float (0 / 0))) found reportedAgain (radio true) (radio true)
    temperature.key (some (.float (0 / 0))) (0, temperature) [] (settles_found _)
    (retains_reportedAgain (by simp)) rfl rfl rfl
  have hsends := congrArg (fun result => result.2.worker.sends?.isSome) hpassed
  exact absurd hsends (by decide +kernel)

end Session

end Timepiece
