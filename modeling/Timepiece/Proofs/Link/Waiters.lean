import Mathlib
import Timepiece.Proofs.Link.Histories
import Timepiece.Proofs.Link.Rendezvous

/-!
# Who gets an answer

Any number of people may have tickets for one slot.  An answer goes to whoever armed the slot last,
unless he has had one, has given up, or has given his ticket away; the others get nothing.  But the
slot does not know who it is armed for.  When somebody finds out that he was replaced, he takes back
whatever arming there is, and that is the arming of the one who replaced him.

## Main definitions

* `SlotMove`, `SlotRun` — what can happen at a slot, and what has come of it.
* `SlotMark` — what is seen of that.
* `SlotRun.Open`, `SlotRun.Waits` — somebody was the last to arm the slot and should get the next
  answer; and nobody who was replaced has given up since.
* `SlotRun.Delivered` — an answer was handed over to a ticket.

## Main results

* `SlotRun.Happens.slot` — what keeps the slot armed for a ticket.
* `SlotRun.delivered_newest` — **an answer is delivered to the last who armed the slot**, if nobody
  who was replaced has given up since.  He gets it, once, and nobody else does.
* `SlotRun.undelivered_replaced` — somebody who was replaced takes the arming of another back.
-/

namespace Timepiece

/-! ### Slots that many wait at -/

/-- What can happen at a slot. -/
inductive SlotMove (α : Type) where
  /-- Somebody arms the slot and gets a ticket. -/
  | arm
  /-- An answer comes. -/
  | fulfill (value : α)
  /-- The arming is taken back. -/
  | disarm
  /-- Somebody gives his ticket away. -/
  | drop (ticket : Nat)
  /-- Somebody who waits looks for his answer; his time may be up. -/
  | look (ticket : Nat) (timeUp : Bool)

/-- What is seen of a slot. -/
inductive SlotMark (α : Type) where
  /-- The slot was armed for a new ticket. -/
  | armed (ticket : Nat)
  /-- An answer came, and was delivered or lost. -/
  | fulfilled (value : α) (delivered : Bool)
  /-- The arming was taken back. -/
  | disarmed
  /-- A ticket was given away. -/
  | dropped (ticket : Nat)
  /-- A wait ended, with an answer or without one. -/
  | ended (ticket : Nat) (answer : Option α)

namespace SlotMark

variable {α : Type}

/-- Whether it should not be the turn of a ticket any more after a mark. -/
def closes (ticket : Nat) : SlotMark α → Bool
  | armed _ | fulfilled _ _ | disarmed => true
  | dropped other | ended other _ => other == ticket

/-- Whether somebody waited for nothing. -/
def givesUp : SlotMark α → Bool
  | ended _ none => true
  | _ => false

end SlotMark

/-- A slot, and what has happened at it. -/
structure SlotRun (α : Type) where
  slot : Rendezvous α
  /-- The tickets that somebody has. -/
  held : List Nat
  log : List (SlotMark α)

namespace SlotRun

variable {α : Type} {r r' : SlotRun α} {ticket other : Nat} {value : α}
  {log past : List (SlotMark α)} {mark : SlotMark α} {P : SlotMark α → Prop}

/-- A slot that was never armed. -/
def start : SlotRun α := ⟨.empty, [], []⟩

/-- The tickets that are left when one is used up. -/
def without (ticket : Nat) (r : SlotRun α) : List Nat := r.held.filter (· != ticket)

/-- What a move does.  Nobody can use a ticket that he has not got. -/
def step (r : SlotRun α) : SlotMove α → SlotRun α
  | .arm => ⟨r.slot.arm.2, r.slot.next :: r.held, r.log ++ [.armed r.slot.next]⟩
  | .fulfill value =>
    let (delivered, slot) := r.slot.fulfill value
    { r with slot, log := r.log ++ [.fulfilled value delivered] }
  | .disarm => { r with slot := r.slot.disarm, log := r.log ++ [.disarmed] }
  | .drop ticket =>
    if ticket ∈ r.held then
      ⟨r.slot.drop ticket, r.without ticket, r.log ++ [.dropped ticket]⟩
    else r
  | .look ticket timeUp =>
    if ticket ∈ r.held then
      match r.slot.await? ticket timeUp with
      | some (answer, slot) => ⟨slot, r.without ticket, r.log ++ [.ended ticket answer]⟩
      | none => r
    else r

/-- What comes of moves, one after the other. -/
def run (moves : List (SlotMove α)) : SlotRun α := moves.foldl step start

/-! ### Whose turn it is -/

/-- The slot was armed for a ticket, and all that was seen since then is of one kind. -/
def SinceArmed (P : SlotMark α → Prop) (ticket : Nat) (log : List (SlotMark α)) : Prop :=
  ∃ past since, log = past ++ .armed ticket :: since ∧ ∀ mark ∈ since, P mark

/-- The slot was last armed for the ticket, and since then no answer came, the arming was not taken
back, and whoever has the ticket has neither given it away nor given up. -/
def Open (ticket : Nat) (log : List (SlotMark α)) : Prop :=
  SinceArmed (fun mark => mark.closes ticket = false) ticket log

/-- It is the turn of the ticket, and nobody else has given up since the slot was armed for it. -/
def Waits (ticket : Nat) (log : List (SlotMark α)) : Prop :=
  SinceArmed (fun mark => mark.closes ticket = false ∧ mark.givesUp = false) ticket log

/-- An answer was delivered when the slot waited for the ticket. -/
def Delivered (ticket : Nat) (value : α) (log : List (SlotMark α)) : Prop :=
  ∃ past rest, log = past ++ .fulfilled value true :: rest ∧ Waits ticket past

/-- Every wait is the first of its ticket that ends, and an answer that it ends with was delivered
for the ticket. -/
def EndsRightly (past : List (SlotMark α)) (mark : SlotMark α) : Prop :=
  ∀ ticket answer, mark = .ended ticket answer →
    (∀ earlier, .ended ticket earlier ∉ past) ∧
      ∀ value, answer = some value → Delivered ticket value past

/-- One more mark either is the arming, or is one of those that were seen since. -/
theorem sinceArmed_concat :
    SinceArmed P ticket (log ++ [mark]) ↔
      mark = .armed ticket ∨ SinceArmed P ticket log ∧ P mark := by
  constructor
  · rintro ⟨past, since, heq, hsince⟩
    rcases List.eq_nil_or_concat since with rfl | ⟨others, last, rfl⟩
    · exact .inl (List.singleton_inj.1 (List.append_inj' heq rfl).2)
    · rw [List.concat_eq_append, ← List.cons_append, ← List.append_assoc] at heq
      obtain ⟨rfl, hlast⟩ := List.append_inj' heq rfl
      obtain rfl := List.singleton_inj.1 hlast
      rw [List.concat_eq_append] at hsince
      obtain ⟨hothers, hmark⟩ := List.forall_mem_append.1 hsince
      exact .inr ⟨⟨past, others, rfl, hothers⟩, hmark mark List.mem_cons_self⟩
  · rintro (rfl | ⟨⟨past, since, rfl, hsince⟩, hmark⟩)
    · exact ⟨log, [], rfl, fun _ hmem => absurd hmem List.not_mem_nil⟩
    · refine ⟨past, since ++ [mark], by simp, List.forall_mem_append.2 ⟨hsince, ?_⟩⟩
      exact fun other hmem => List.mem_singleton.1 hmem ▸ hmark

theorem waits_concat :
    Waits ticket (log ++ [mark]) ↔ mark = .armed ticket ∨
      Waits ticket log ∧ mark.closes ticket = false ∧ mark.givesUp = false :=
  sinceArmed_concat

theorem Delivered.append (h : Delivered ticket value past) (rest : List (SlotMark α)) :
    Delivered ticket value (past ++ rest) := by
  obtain ⟨first, others, rfl, hwaits⟩ := h
  exact ⟨first, others ++ rest, by simp, hwaits⟩

/-! ### What a move does -/

/-- What a move that leaves a mark does. -/
inductive Happens (r : SlotRun α) : SlotMark α → SlotRun α → Prop
  | arm : Happens r (.armed r.slot.next)
      ⟨r.slot.arm.2, r.slot.next :: r.held, r.log ++ [.armed r.slot.next]⟩
  | fulfill (value : α) : Happens r (.fulfilled value (r.slot.fulfill value).1)
      ⟨(r.slot.fulfill value).2, r.held, r.log ++ [.fulfilled value (r.slot.fulfill value).1]⟩
  | disarm : Happens r .disarmed ⟨r.slot.disarm, r.held, r.log ++ [.disarmed]⟩
  | drop {ticket : Nat} : ticket ∈ r.held → Happens r (.dropped ticket)
      ⟨r.slot.drop ticket, r.without ticket, r.log ++ [.dropped ticket]⟩
  | answered {ticket : Nat} {value : α} : ticket ∈ r.held →
      r.slot.letters.lookup ticket = some value → Happens r (.ended ticket (some value))
        ⟨r.slot.drop ticket, r.without ticket, r.log ++ [.ended ticket (some value)]⟩
  | unanswered {ticket : Nat} : ticket ∈ r.held → r.slot.letters.lookup ticket = none →
      Happens r (.ended ticket none)
        ⟨(r.slot.drop ticket).disarm, r.without ticket, r.log ++ [.ended ticket none]⟩

theorem lookup_of_look (h : r.slot.look ticket = .here value) :
    r.slot.letters.lookup ticket = some value := by
  unfold Rendezvous.look at h
  cases hlookup : r.slot.letters.lookup ticket with
  | some found =>
    rw [hlookup] at h
    rw [Mail.here.inj h]
  | none =>
    rw [hlookup] at h
    dsimp only at h
    split at h <;> cases h

theorem lookup_eq_none_of_look (h : r.slot.look ticket = .lost ∨ r.slot.look ticket = .coming) :
    r.slot.letters.lookup ticket = none := by
  unfold Rendezvous.look at h
  cases hlookup : r.slot.letters.lookup ticket with
  | none => rfl
  | some found =>
    rw [hlookup] at h
    rcases h with h | h <;> cases h

/-- A move changes nothing, or leaves a mark. -/
theorem step_cases (r : SlotRun α) (move : SlotMove α) :
    step r move = r ∨ ∃ mark, Happens r mark (step r move) := by
  cases move with
  | arm => exact .inr ⟨_, .arm⟩
  | fulfill value => exact .inr ⟨_, .fulfill value⟩
  | disarm => exact .inr ⟨_, .disarm⟩
  | drop ticket =>
    by_cases hheld : ticket ∈ r.held
    · rw [step, if_pos hheld]
      exact .inr ⟨_, .drop hheld⟩
    · rw [step, if_neg hheld]
      exact .inl rfl
  | look ticket timeUp =>
    by_cases hheld : ticket ∈ r.held
    · rw [step, if_pos hheld]
      cases hawait : r.slot.await? ticket timeUp with
      | none => exact .inl rfl
      | some result =>
        obtain ⟨answer, slot⟩ := result
        obtain ⟨value, rfl, hlook, rfl⟩ | ⟨rfl, hlook, rfl⟩ := Rendezvous.await_cases hawait
        · exact .inr ⟨_, .answered hheld (lookup_of_look hlook)⟩
        · exact .inr ⟨_, .unanswered hheld (lookup_eq_none_of_look (hlook.imp_right And.left))⟩
    · rw [step, if_neg hheld]
      exact .inl rfl

/-! ### What a mark leaves -/

theorem lookup_drop (slot : Rendezvous α) (ticket other : Nat) :
    (slot.drop ticket).letters.lookup other =
      if other = ticket then none else slot.letters.lookup other := by
  obtain ⟨next, armed, letters⟩ := slot
  show (letters.filter fun letter => letter.1 != ticket).lookup other = _
  induction letters with
  | nil => simp
  | cons letter letters ih =>
    obtain ⟨owner, value⟩ := letter
    by_cases howner : owner = ticket
    · subst howner
      by_cases hother : other = owner
      · simpa [hother] using ih
      · have hbeq : (other == owner) = false := beq_false_of_ne hother
        simpa [hother, hbeq, List.lookup_cons] using ih
    · by_cases hother : other = owner
      · subst hother
        simp [howner]
      · have hbeq : (other == owner) = false := beq_false_of_ne hother
        simpa [howner, hbeq, List.lookup_cons] using ih

theorem slot_drop_eq_some_iff {slot : Rendezvous α} :
    (slot.drop ticket).slot = some ⟨other, true⟩ ↔
      slot.slot = some ⟨other, true⟩ ∧ ticket ≠ other := by
  obtain ⟨next, armed, letters⟩ := slot
  cases armed with
  | none => simp [Rendezvous.drop]
  | some armed =>
    obtain ⟨owner, listening⟩ := armed
    by_cases howner : owner = ticket
    · subst howner
      simp only [Rendezvous.drop, Option.map_some, if_true, Option.some.injEq, ArmedSlot.mk.injEq]
      grind
    · simp only [Rendezvous.drop, Option.map_some, if_neg howner, Option.some.injEq,
        ArmedSlot.mk.injEq]
      grind

/-- **The slot stays armed for a ticket** until a mark closes it, or somebody gives up. -/
theorem Happens.slot (h : Happens r mark r') :
    r'.slot.slot = some ⟨ticket, true⟩ ↔ mark = .armed ticket ∨
      r.slot.slot = some ⟨ticket, true⟩ ∧ mark.closes ticket = false ∧ mark.givesUp = false := by
  cases h with
  | arm => simp [Rendezvous.arm, SlotMark.closes]
  | fulfill value =>
    have hslot : (r.slot.fulfill value).2.slot = none := by
      unfold Rendezvous.fulfill
      split
      · next hnone => exact hnone
      · rfl
      · rfl
    simp [hslot, SlotMark.closes]
  | disarm => simp [Rendezvous.disarm, SlotMark.closes]
  | drop => simp [slot_drop_eq_some_iff, SlotMark.closes, SlotMark.givesUp]
  | answered => simp [slot_drop_eq_some_iff, SlotMark.closes, SlotMark.givesUp]
  | unanswered => simp [Rendezvous.disarm, SlotMark.givesUp]

theorem fulfill_eq_true_iff {slot : Rendezvous α} :
    (slot.fulfill value).1 = true ↔ ∃ ticket, slot.slot = some ⟨ticket, true⟩ := by
  unfold Rendezvous.fulfill
  split
  · next hslot => simp [hslot]
  · next ticket hslot => simp [hslot]
  · next hslot => simp [hslot]

/-- An answer that is there came before, or has just come. -/
theorem Happens.letters (h : Happens r mark r')
    (hthere : r'.slot.letters.lookup ticket = some value) :
    r.slot.letters.lookup ticket = some value ∨
      mark = .fulfilled value true ∧ r.slot.slot = some ⟨ticket, true⟩ := by
  cases h with
  | arm | disarm => exact .inl hthere
  | fulfill found =>
    cases hslot : r.slot.slot with
    | none => exact .inl (by simpa [Rendezvous.fulfill, hslot] using hthere)
    | some armed =>
      obtain ⟨owner, listening⟩ := armed
      cases listening with
      | false => exact .inl (by simpa [Rendezvous.fulfill, hslot, Rendezvous.disarm] using hthere)
      | true =>
        simp only [Rendezvous.fulfill, hslot, List.lookup_cons] at hthere ⊢
        by_cases howner : ticket = owner
        · subst howner
          simp only [beq_self_eq_true, Option.some.injEq] at hthere
          exact .inr ⟨by rw [hthere], rfl⟩
        · have hbeq : (ticket == owner) = false := beq_false_of_ne howner
          exact .inl (by simpa [hbeq] using hthere)
  | drop | answered | unanswered =>
    left
    have hdrop := lookup_drop r.slot _ ticket ▸ hthere
    split at hdrop
    · cases hdrop
    · exact hdrop

theorem Happens.log_eq (h : Happens r mark r') : r'.log = r.log ++ [mark] := by
  cases h <;> rfl

theorem Happens.next_le (h : Happens r mark r') : r.slot.next ≤ r'.slot.next := by
  cases h with
  | arm => exact Nat.le_succ _
  | fulfill value =>
    show r.slot.next ≤ (r.slot.fulfill value).2.next
    unfold Rendezvous.fulfill
    split <;> exact le_refl _
  | disarm | drop | answered | unanswered => exact le_refl _

theorem Happens.sound (h : Happens r mark r') (hsound : r.slot.Sound) : r'.slot.Sound := by
  cases h with
  | arm => exact hsound.arm
  | fulfill value => exact hsound.fulfill value
  | disarm => exact hsound.disarm
  | drop | answered => exact hsound.drop _
  | unanswered => exact (hsound.drop _).disarm

/-- A ticket that somebody has was just given out, or he had it before and has not used it. -/
theorem Happens.held (h : Happens r mark r') (hheld : ticket ∈ r'.held) :
    ticket ∈ r.held ∧ (∀ answer, mark ≠ .ended ticket answer) ∧ mark ≠ .dropped ticket ∨
      mark = .armed ticket ∧ ticket = r.slot.next := by
  cases h with
  | arm =>
    rcases List.mem_cons.1 hheld with rfl | hheld
    · exact .inr ⟨rfl, rfl⟩
    · exact .inl ⟨hheld, by simp, by simp⟩
  | fulfill | disarm => exact .inl ⟨hheld, by simp, by simp⟩
  | drop | answered | unanswered =>
    obtain ⟨hheld, hne⟩ := List.mem_filter.1 hheld
    have hne := (bne_iff_ne.1 hne).symm
    exact .inl ⟨hheld, by simp [hne], by simp [hne]⟩

/-- A ticket that nobody has used is still there. -/
theorem Happens.held_of_waits (h : Happens r mark r') (hheld : ticket ∈ r.held)
    (hopen : mark.closes ticket = false) : ticket ∈ r'.held := by
  cases h with
  | arm | fulfill | disarm => cases hopen
  | drop | answered | unanswered =>
    refine List.mem_filter.2 ⟨hheld, bne_iff_ne.2 ?_⟩
    rintro rfl
    simp [SlotMark.closes] at hopen

/-! ### What is true at any time -/

/-- What is true of a slot whatever has happened at it. -/
structure Inv (r : SlotRun α) : Prop where
  sound : r.slot.Sound
  given : ∀ ticket ∈ r.held, ticket < r.slot.next
  slot_iff : ∀ ticket, r.slot.slot = some ⟨ticket, true⟩ ↔ Waits ticket r.log
  held : ∀ ticket, Waits ticket r.log → ticket ∈ r.held
  /-- There is no answer yet for the ticket that the slot is armed for. -/
  unanswered : ∀ armed, r.slot.slot = some armed → r.slot.letters.lookup armed.ticket = none
  delivered : ∀ ticket value, r.slot.letters.lookup ticket = some value →
    Delivered ticket value r.log
  used : ∀ ticket answer, .ended ticket answer ∈ r.log → ticket < r.slot.next ∧ ticket ∉ r.held
  rightly : Throughout EndsRightly r.log

theorem inv_start : Inv (start : SlotRun α) where
  sound := .empty
  given := fun _ h => absurd h List.not_mem_nil
  slot_iff := fun _ => iff_of_false (fun h => nomatch h) fun ⟨_, _, h, _⟩ => by simp [start] at h
  held := fun _ ⟨_, _, h, _⟩ => by simp [start] at h
  unanswered := fun _ h => nomatch h
  delivered := fun _ _ h => nomatch h
  used := fun _ _ h => absurd h List.not_mem_nil
  rightly := throughout_nil

/-- The slot is not armed for a ticket that has its answer. -/
theorem Happens.lookup_armed (h : Happens r mark r') (hinv : Inv r) {armed : ArmedSlot}
    (harmed : r'.slot.slot = some armed) : r'.slot.letters.lookup armed.ticket = none := by
  have hnone : (r'.slot.slot = none) → r'.slot.letters.lookup armed.ticket = none := by
    intro hslot
    rw [hslot] at harmed
    exact nomatch harmed
  cases h with
  | arm =>
    obtain rfl := Option.some.inj harmed
    exact hinv.sound.lookup_next
  | fulfill value =>
    refine hnone ?_
    show (r.slot.fulfill value).2.slot = none
    unfold Rendezvous.fulfill
    split
    · next hslot => exact hslot
    · rfl
    · rfl
  | disarm | unanswered => exact hnone rfl
  | drop | answered =>
    -- a slot keeps its ticket, whoever goes
    obtain ⟨before, hbefore, heq⟩ := Option.map_eq_some_iff.1 harmed
    have hticket : armed.ticket = before.ticket := by
      split at heq
      · next hsame => rw [← heq, hsame]
      · rw [heq]
    have hbefore := hinv.unanswered before hbefore
    rw [lookup_drop, hticket, hbefore, ite_self]

theorem Inv.happens (h : Inv r) (hmark : Happens r mark r') : Inv r' where
  sound := hmark.sound h.sound
  given := by
    intro ticket hheld
    rcases hmark.held hheld with ⟨hheld, -⟩ | ⟨rfl, rfl⟩
    · exact (h.given ticket hheld).trans_le hmark.next_le
    · cases hmark
      exact Nat.lt_succ_self _
  slot_iff := by
    intro ticket
    rw [hmark.slot, hmark.log_eq, waits_concat, h.slot_iff]
  held := by
    intro ticket hwaits
    rw [hmark.log_eq, waits_concat] at hwaits
    rcases hwaits with rfl | ⟨hwaits, hopen, -⟩
    · cases hmark
      exact List.mem_cons_self
    · exact hmark.held_of_waits (h.held ticket hwaits) hopen
  unanswered := fun _ harmed => hmark.lookup_armed h harmed
  delivered := by
    intro ticket value hthere
    rw [hmark.log_eq]
    rcases hmark.letters hthere with hthere | ⟨rfl, hslot⟩
    · exact (h.delivered ticket value hthere).append _
    · exact ⟨r.log, [], rfl, (h.slot_iff ticket).1 hslot⟩
  used := by
    intro ticket answer hended
    rw [hmark.log_eq, List.mem_append, List.mem_singleton] at hended
    rcases hended with hended | rfl
    · -- a ticket that was used up is not given out again
      obtain ⟨hlt, hunheld⟩ := h.used ticket answer hended
      refine ⟨hlt.trans_le hmark.next_le, fun hheld => ?_⟩
      rcases hmark.held hheld with ⟨hheld, -⟩ | ⟨-, rfl⟩
      · exact hunheld hheld
      · exact absurd hlt (Nat.lt_irrefl _)
    · have hbefore : ticket ∈ r.held := by cases hmark <;> assumption
      refine ⟨(h.given ticket hbefore).trans_le hmark.next_le, fun hheld => ?_⟩
      rcases hmark.held hheld with ⟨-, hended, -⟩ | ⟨harmed, -⟩
      · exact hended answer rfl
      · exact nomatch harmed
  rightly := by
    rw [hmark.log_eq]
    refine throughout_concat.2 ⟨h.rightly, ?_⟩
    rintro ticket answer rfl
    have hheld : ticket ∈ r.held := by cases hmark <;> assumption
    refine ⟨fun earlier hended => (h.used ticket earlier hended).2 hheld, ?_⟩
    rintro value rfl
    cases hmark with
    | answered _ hlookup => exact h.delivered ticket value hlookup

theorem Inv.moved (h : Inv r) (move : SlotMove α) : Inv (step r move) := by
  rcases step_cases r move with heq | ⟨mark, hmark⟩
  · rw [heq]
    exact h
  · exact h.happens hmark

theorem inv_foldl (h : Inv r) (moves : List (SlotMove α)) : Inv (moves.foldl step r) := by
  induction moves generalizing r with
  | nil => exact h
  | cons move moves ih => exact ih (h.moved move)

theorem inv_run (moves : List (SlotMove α)) : Inv (run moves) := inv_foldl inv_start moves

/-! ### Answers that are there -/

/-- Whoever has the ticket has an answer. -/
structure Served (ticket : Nat) (value : α) (r : SlotRun α) : Prop where
  given : ticket < r.slot.next
  there : ticket ∈ r.held → r.slot.letters.lookup ticket = some value

/-- An answer stays where it is until it is fetched. -/
theorem Happens.served (h : Happens r mark r') (hinv : Inv r) (hserved : Served ticket value r) :
    Served ticket value r' := by
  refine ⟨hserved.given.trans_le h.next_le, fun hheld => ?_⟩
  rcases h.held hheld with ⟨hbefore, hunended, hundropped⟩ | ⟨-, rfl⟩
  · have hthere := hserved.there hbefore
    cases h with
    | arm | disarm => exact hthere
    | fulfill found =>
      show (r.slot.fulfill found).2.letters.lookup ticket = some value
      unfold Rendezvous.fulfill
      split
      · exact hthere
      · next owner hslot =>
        -- the slot is armed for somebody else, for he has no answer
        have hnone := hinv.unanswered _ hslot
        have hne : ticket ≠ owner := by
          rintro rfl
          rw [hthere] at hnone
          exact nomatch hnone
        rw [List.lookup_cons, beq_false_of_ne hne]
        exact hthere
      · exact hthere
    | drop =>
      rw [lookup_drop, if_neg fun heq => hundropped (by rw [heq])]
      exact hthere
    | answered | unanswered =>
      show (r.slot.drop _).letters.lookup ticket = some value
      rw [lookup_drop, if_neg fun heq => hunended _ (by rw [heq])]
      exact hthere
  · exact absurd hserved.given (Nat.lt_irrefl _)

theorem served_foldl (hinv : Inv r) (hserved : Served ticket value r) (moves : List (SlotMove α)) :
    Served ticket value (moves.foldl step r) := by
  induction moves generalizing r with
  | nil => exact hserved
  | cons move moves ih =>
    refine ih (hinv.moved move) ?_
    rcases step_cases r move with heq | ⟨mark, hmark⟩
    · rw [heq]
      exact hserved
    · exact hmark.served hinv hserved

/-- The next answer is for whoever the slot waits for. -/
theorem Inv.served_fulfill (h : Inv r) (hwaits : Waits ticket r.log) (value : α) :
    Served ticket value (step r (.fulfill value)) := by
  have hslot := (h.slot_iff ticket).2 hwaits
  refine ⟨?_, fun _ => ?_⟩
  · exact (h.given ticket (h.held ticket hwaits)).trans_le (Happens.fulfill value).next_le
  · show (r.slot.fulfill value).2.letters.lookup ticket = some value
    simp [Rendezvous.fulfill, hslot]

/-- Whoever has an answer and looks for it gets it, also when his time is up. -/
theorem Served.await_eq (h : Served ticket value r) (hheld : ticket ∈ r.held) (timeUp : Bool) :
    r.slot.await? ticket timeUp = some (some value, r.slot.drop ticket) := by
  have hlook : r.slot.look ticket = .here value := by
    rw [Rendezvous.look, h.there hheld]
  rw [Rendezvous.await?, hlook]

/-- **An answer is delivered to the last who armed the slot**, unless an answer has come since, the
arming was taken back, his ticket is gone, or somebody who was replaced has given up.  He has his
ticket then, and if he keeps it he gets the answer whenever he looks for it, whatever happens
meanwhile.  Everybody else waits for nothing: a wait that ends with an answer ends with one that was
delivered to it, and no ticket is waited for twice. -/
theorem delivered_newest (moves : List (SlotMove α)) :
    (∀ value, ((run moves).slot.fulfill value).1 = true ↔ ∃ ticket, Waits ticket (run moves).log) ∧
      (∀ ticket, Waits ticket (run moves).log → ticket ∈ (run moves).held ∧
        ∀ value later timeUp, ticket ∈ (run (moves ++ .fulfill value :: later)).held →
          ∃ slot, (run (moves ++ .fulfill value :: later)).slot.await? ticket timeUp =
            some (some value, slot)) ∧
      Throughout EndsRightly (run moves).log := by
  have hinv := inv_run moves
  refine ⟨fun value => ?_, fun ticket hwaits => ⟨hinv.held ticket hwaits, ?_⟩, hinv.rightly⟩
  · rw [fulfill_eq_true_iff]
    exact exists_congr hinv.slot_iff
  · intro value later timeUp hheld
    have hrun : run (moves ++ .fulfill value :: later) =
        later.foldl step (step (run moves) (.fulfill value)) := by
      rw [run, List.foldl_append]
      rfl
    rw [hrun] at hheld ⊢
    have hserved := served_foldl (hinv.moved _) (hinv.served_fulfill hwaits value) later
    exact ⟨_, hserved.await_eq hheld timeUp⟩

/-- Two people arm the slot.  The second gets the answer, although the first one, who was replaced,
looks for his before that is fetched, and the time of both is up. -/
theorem delivered_newest_late : ∃ ticket, Waits ticket (run [.arm, .arm] : SlotRun Nat).log ∧
    ∃ slot, (run [.arm, .arm, .fulfill 7, .look 0 true]).slot.await? ticket true =
      some (some 7, slot) := by
  obtain ⟨hdelivered, hserved, -⟩ := delivered_newest (α := Nat) [.arm, .arm]
  obtain ⟨ticket, hwaits⟩ := (hdelivered 7).1 rfl
  refine ⟨ticket, hwaits, (hserved ticket hwaits).2 7 [.look 0 true] true ?_⟩
  -- the slot waits for the second ticket
  obtain rfl : 1 = ticket := by
    have hslot := ((inv_run [.arm, .arm]).slot_iff ticket).2 hwaits
    exact congrArg ArmedSlot.ticket (Option.some.inj hslot)
  decide

/-- Somebody who was replaced takes the arming of another back: the slot was last armed for the
second ticket, nothing has come of that, and yet the next answer is lost. -/
theorem undelivered_replaced :
    ¬ ∀ (moves : List (SlotMove Nat)) (value : Nat),
      ((run moves).slot.fulfill value).1 = true ↔ ∃ ticket, Open ticket (run moves).log := by
  intro h
  have hopen : Open 1 (run [.arm, .arm, .look 0 false] : SlotRun Nat).log := by
    refine ⟨[.armed 0], [.ended 0 none], rfl, fun mark hmem => ?_⟩
    obtain rfl := List.mem_singleton.1 hmem
    rfl
  exact absurd ((h [.arm, .arm, .look 0 false] 7).2 ⟨1, hopen⟩) (by decide)

end SlotRun

end Timepiece
