import Mathlib
import Timepiece.Proofs.Link.Mirroring
import Timepiece.Proofs.Numbers.Zeros

/-!
# Properties that are not pushed again

A property whose value is the one that was pushed last is not pushed again.  Since what was pushed
was forgotten, that is what the watch was told last of its place, unless a push for another watch
set was still going on.  If the property has no value and nothing is noted of it, the watch may
still show what it was told before that.

## Main definitions

* `Session.Suppresses` — a property is not pushed, because its value is the one that is noted.
* `Session.Tracked` — since what was pushed was forgotten, what is noted is what the watch was told.

## Main results

* `Session.Tracked.step` — **what is noted stays what the watch was told**, or is forgotten.
* `Session.suppressed_redundant` — **a property that is not pushed is what the watch was told last
  of its place**, or is nothing and was not told since what was pushed was forgotten.
-/

namespace Timepiece

namespace Session

variable {s : Session} {luck : Luck} {move : Move} {past moves : List (Luck × Move)}
  {bundle : Bundle}

/-- What was pushed was forgotten with the last of some moves, or there were none. -/
def Forgotten (s : Session) (moves : List (Luck × Move)) : Prop :=
  moves = [] ∨ ∃ past luck move, moves = past ++ [(luck, move)] ∧ (s.after past).Forgets luck move

/-- A property is not pushed because its value is the one that is noted. -/
structure Suppresses (s : Session) (entry : Nat × Property) : Prop where
  looks : ∃ pending, s.worker = .pushing (entry :: pending)
  current : s.cache.isCurrent entry.2.key (s.services.value entry.2.key) = true

/-- What is known after some moves: since what was pushed was forgotten, what is noted is what the
watch was told. -/
structure Tracked (s : Session) (moves : List (Luck × Move)) : Prop where
  reserved : (s.after moves).worker.Reserved
  mirrors : ∃ earlier later, moves = earlier ++ later ∧ s.Forgotten earlier ∧
    ∀ bundle, (s.after moves).active = some bundle →
      Mirrors bundle (accepted ((s.after earlier).effects later)) (s.after moves)

theorem tracked_start (config : LinkConfig) (services : Services) :
    (start config services).Tracked [] :=
  ⟨trivial, [], [], rfl, .inl rfl, fun _ hactive => nomatch hactive⟩

/-- **What is noted stays what the watch was told**, or is forgotten. -/
theorem Tracked.step (h : s.Tracked past) (hregular : (s.after past).Regular move)
    (hseamless : (s.after past).Seamless move) : s.Tracked (past ++ [(luck, move)]) := by
  obtain ⟨hreserved, earlier, later, rfl, hforgotten, hmirrors⟩ := h
  refine ⟨?_, ?_⟩
  · rw [after_concat]
    exact reserved_step luck hreserved hregular.commands
  have hwrites : accepted ((s.after earlier).effects (later ++ [(luck, move)])) =
      accepted ((s.after earlier).effects later) ++
        accepted ((s.after (earlier ++ later)).step luck move).1 := by
    rw [effects_concat, accepted_append, after_append]
  rw [after_concat]
  -- what was written since is longer by one move, or there is nothing since
  by_cases hwork : move = .work
  · subst hwork
    refine ⟨earlier, later ++ [(luck, .work)], List.append_assoc _ _ _, hforgotten, ?_⟩
    intro bundle hbundle
    rw [hwrites]
    have hactive : (s.after (earlier ++ later)).active = some bundle :=
      (worked_work luck _).active.symm.trans hbundle
    exact (hmirrors bundle hactive).work luck hactive hreserved
  · obtain hkept | ⟨hforgets, hfresh⟩ := mirrors_aside luck hwork hregular hseamless hmirrors
    · refine ⟨earlier, later ++ [(luck, move)], List.append_assoc _ _ _, hforgotten, ?_⟩
      rw [hwrites]
      exact hkept
    · exact ⟨earlier ++ later ++ [(luck, move)], [], (List.append_nil _).symm,
        .inr ⟨_, luck, move, rfl, hforgets⟩, hfresh⟩

theorem tracked_after {config : LinkConfig} {services : Services}
    (hregular : Throughout
      (fun past move => ((start config services).after past).Regular move.2) moves)
    (hseamless : Throughout
      (fun past move => ((start config services).after past).Seamless move.2) moves) :
    (start config services).Tracked moves := by
  refine (hregular.and hseamless).induct (tracked_start config services) ?_
  rintro past ⟨luck, move⟩ ⟨hmove, hwithin⟩ htracked
  exact htracked.step hmove hwithin

/-- **A property that is not pushed is what the watch was told last of its place.**  The host sets
no property by itself, the watch sets that become active have each property once, and whenever one
becomes active the worker pushes nothing but to its places.  Then a property of which the value is
noted stands at its place in the active watch set, and the last write for that place that was taken
is the one of its value.  The zeros of the floats count as one value here.  Or it has no value, and
since what was pushed was forgotten no write for its place was taken. -/
theorem suppressed_redundant {config : LinkConfig} {services : Services} {index : Nat}
    {property : Property}
    (hregular : Throughout
      (fun past move => ((start config services).after past).Regular move.2) moves)
    (hseamless : Throughout
      (fun past move => ((start config services).after past).Seamless move.2) moves)
    (hactive : ((start config services).after moves).active = some bundle)
    (hsuppresses : ((start config services).after moves).Suppresses (index, property)) :
    let value := ((start config services).after moves).services.value property.key
    bundle.properties[index]? = some property ∧
      ((∃ sent, lastFor (accepted ((start config services).effects moves)) index =
            some (pushWrite (index, property) sent) ∧
          (sent = value ∨ (∃ v, sent = some v ∧ v.isZero = true) ∧
            ∃ v, value = some v ∧ v.isZero = true)) ∨
        value = none ∧ ∃ earlier later, moves = earlier ++ later ∧
          (start config services).Forgotten earlier ∧
          lastFor (accepted (((start config services).after earlier).effects later)) index =
            none) := by
  intro value
  obtain ⟨-, earlier, later, rfl, hforgotten, hmirrors⟩ := tracked_after hregular hseamless
  have hkept := hmirrors bundle hactive
  obtain ⟨⟨pending, hworker⟩, hcurrent⟩ := hsuppresses
  have hwithin := hkept.within
  rw [hworker] at hwithin
  have hplace : (index, property) ∈ bundle.places := hwithin _ List.mem_cons_self
  refine ⟨mem_places.1 hplace, ?_⟩
  have hsame := Value.eq_or_zero_of_sameOption hcurrent
  obtain htold | ⟨huntold, hnone⟩ := hkept.agrees _ hplace
  · refine .inl ⟨_, ?_, hsame⟩
    rw [effects_append, accepted_append, lastFor_append, htold, Option.some_or]
  · refine .inr ⟨?_, earlier, later, rfl, hforgotten, huntold⟩
    rw [hnone] at hsame
    obtain hvalue | ⟨⟨v, hv, -⟩, -⟩ := hsame
    · exact hvalue.symm
    · exact nomatch hv

/-- What the weather station measures in both of its watch sets. -/
def temperature : Property := ⟨"weather", "temperature", .number, ⟨32⟩⟩

/-- The connection is made, the first watch set of the weather station becomes the active one, the
temperature is pushed, and then it is reported once more. -/
def measuring : List (Luck × Move) :=
  [(radio true, .request (.connect "C4:7C:8D:6A:10:02")), (radio true, .radio .linkUp),
    (radio true, .radio (.servicesDiscovered true)), (radio true, .wait 1000),
    (radio true, .alarm), (radio true, .radio (.received [1, 0, 0, 0, 7])), (radio true, .work),
    (radio true, .work), (radio true, .work), (radio true, .work),
    (radio true, .offer (.push temperature.key)), (radio true, .work)]

/-- The temperature is not pushed a second time, and the watch was told it. -/
theorem suppressed_redundant_measured :
    ((start {} weather).after measuring).Suppresses (0, temperature) ∧
      ∃ sent, lastFor (accepted ((start {} weather).effects measuring)) 0 =
        some (pushWrite (0, temperature) sent) := by
  have hsuppresses : ((start {} weather).after measuring).Suppresses (0, temperature) :=
    ⟨⟨[], rfl⟩, by decide +kernel⟩
  have hactive : ((start {} weather).after measuring).active =
      some ⟨7, "small", [], [temperature], []⟩ := rfl
  obtain ⟨-, ⟨sent, htold, -⟩ | ⟨hnone, -⟩⟩ :=
    suppressed_redundant (by decide +kernel) (by decide +kernel) hactive hsuppresses
  · exact ⟨hsuppresses, sent, htold⟩
  · exact nomatch hnone

/-- The temperature is still pushed for the first watch set when the second one becomes active.  It
is not pushed for that one, of which the watch was never told it. -/
theorem suppressed_untold :
    ¬ ∀ (config : LinkConfig) (services : Services) (moves : List (Luck × Move)) (bundle : Bundle)
      (index : Nat) (property : Property),
      Throughout (fun past move => ((start config services).after past).Regular move.2) moves →
      ((start config services).after moves).active = some bundle →
      ((start config services).after moves).Suppresses (index, property) →
        lastFor (accepted ((start config services).effects moves)) index =
            some (pushWrite (index, property)
              (((start config services).after moves).services.value property.key)) ∨
          lastFor (accepted ((start config services).effects moves)) index = none ∧
            ((start config services).after moves).services.value property.key = none := by
  intro h
  have hsuppresses : ((start {} weather).after
      (greeting ++ (radio true, .radio (.received [1, 0, 0, 0, 8])) :: steps 4)).Suppresses
        (1, temperature) := ⟨⟨[], rfl⟩, by decide +kernel⟩
  have huntold : lastFor (accepted ((start {} weather).effects
      (greeting ++ (radio true, .radio (.received [1, 0, 0, 0, 8])) :: steps 4))) 1 = none := by
    decide +kernel
  obtain htold | ⟨-, hnone⟩ :=
    h {} weather _ large 1 temperature (by decide +kernel) rfl hsuppresses
  · rw [huntold] at htold
    exact nomatch htold
  · exact nomatch hnone

end Session

end Timepiece
