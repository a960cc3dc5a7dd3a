import Mathlib
import Timepiece.Proofs.Link.TransferSteps

/-!
# Writes that are tried again

A write that the link refuses is tried again after a pause, as often as the settings allow.
Whenever it is given the chance to go on, no attempt is made before the pause is over, none after
one that was taken, and none beyond the last.  A write that is left to its timer ends, and every
attempt is made at the very end of a pause.

The pauses that are asked for grow by powers of five, as far as 64 bits go.  No wait of the timer
is longer than the longest one, so that the pauses stop growing long before.

## Main definitions

* `WriteRun`, `WriteRun.step`, `WriteRun.run` — a write that is given the chance to go on at some
  moments, with a log of its attempts.
* `WriteRun.timed` — a write that goes on as soon as its pause is over.
* `WriteRun.Retries`, `WriteRun.Timely` — what a write promises at any moments, and what it comes
  to by its timer.

## Main results

* `WriteRun.Stage.step` — **every step keeps the order of the attempts.**
* `WriteRun.retried_run` — **a write is tried until it is taken**, as often as allowed and with the
  pauses between.
* `WriteRun.shortened_pause` — a pause may be shorter than what is asked for.
-/

namespace Timepiece

/-! ### Runs -/

/-- An attempt to write: when it was made, and whether the link took it. -/
structure WriteAttempt where
  moment : ℕ
  data : Bytes
  taken : Bool
  deriving DecidableEq, Repr

/-- A single write over a link. -/
structure WriteRun where
  transfer : Transfer
  signals : Signals
  /-- The result, and the moment of the end. -/
  result : Option (LinkResult × ℕ)
  /-- The attempts that were made, in order. -/
  attempts : List WriteAttempt

namespace WriteRun

open Finset (range)

/-- A write that has not begun. -/
def start (data : Bytes) (signals : Signals) : WriteRun := ⟨.ofWrite data, signals, none, []⟩

/-- The write after a step. -/
def after (run : WriteRun) (now : ℕ) (taken : Bool) (s : TransferStep) : WriteRun :=
  let attempts := run.attempts ++ (s.attempt.map fun data => ⟨now, data, taken⟩).toList
  match s.progress with
  | .running transfer => ⟨transfer, s.signals, none, attempts⟩
  | .blocked => ⟨run.transfer, s.signals, none, attempts⟩
  | .finished result => ⟨run.transfer, s.signals, some (result, now), attempts⟩

/-- The write after a step at some moment.  Whether the link takes an attempt is given by the
number of the attempt.  A write that has ended makes no steps. -/
def step (config : LinkConfig) (accepts : ℕ → Bool) (run : WriteRun) (now : ℕ) : WriteRun :=
  let taken := accepts run.attempts.length
  match run.result with
  | some _ => run
  | none => run.after now taken (run.transfer.step config now taken run.signals)

/-- The write after steps at some moments. -/
def run (config : LinkConfig) (accepts : ℕ → Bool) (data : Bytes) (signals : Signals)
    (moments : List ℕ) : WriteRun :=
  moments.foldl (step config accepts) (start data signals)

/-- The moment at which the write goes on by itself: the end of its pause, or the moment at which
it is begun. -/
def due (begun : ℕ) (run : WriteRun) : ℕ := run.transfer.wakeup?.getD begun

/-- The write after some steps, each at the moment at which it goes on by itself. -/
def timed (config : LinkConfig) (accepts : ℕ → Bool) (data : Bytes) (signals : Signals)
    (begun count : ℕ) : WriteRun :=
  (fun run => step config accepts run (run.due begun))^[count] (start data signals)

/-! ### Pauses -/

/-- The pause that is asked for after a refused attempt, the attempts counted from zero. -/
def asked (attempt : ℕ) : ℕ := min (5 ^ attempt) (2 ^ 64 - 1)

/-- The pause that the timer keeps. -/
def pause (attempt : ℕ) : ℕ := min (asked attempt) longestWait

theorem retryDelay_eq_asked (attempt : ℕ) : LinkConfig.retryDelay attempt = asked attempt := by
  have hmax : LinkConfig.maxDelay = 2 ^ 64 - 1 := rfl
  unfold LinkConfig.retryDelay asked
  split
  · rw [hmax]
    rfl
  · next hlarge =>
    -- the powers beyond have more than 64 bits
    have hpow : 5 ^ 28 ≤ 5 ^ attempt := Nat.pow_le_pow_right (by decide) (by omega)
    rw [hmax, min_eq_right (le_trans (by norm_num) hpow)]

theorem endOfWait_retryDelay (now attempt : ℕ) :
    endOfWait now (LinkConfig.retryDelay attempt) = now + pause attempt := by
  rw [endOfWait, retryDelay_eq_asked, pause]

/-- Up to the eighteenth pause the timer keeps what is asked for. -/
theorem pause_eq_asked {attempt : ℕ} (h : attempt ≤ 17) : pause attempt = asked attempt := by
  have hpow : 5 ^ attempt ≤ 5 ^ 17 := Nat.pow_le_pow_right (by decide) h
  have hmax : 5 ^ 17 ≤ longestWait := by decide
  unfold pause asked
  omega

/-! ### The order of the attempts -/

variable {config : LinkConfig} {accepts : ℕ → Bool} {data : Bytes} {now begun : ℕ} {t : Transfer}
  {signals : Signals} {attempts : List WriteAttempt}

/-- The attempts are of the same data, and no pause between two of them was cut short. -/
structure InOrder (accepts : ℕ → Bool) (data : Bytes) (attempts : List WriteAttempt) : Prop where
  made : ∀ i a, attempts[i]? = some a → a.data = data ∧ a.taken = accepts i
  spaced : ∀ i a b, attempts[i]? = some a → attempts[i + 1]? = some b →
    a.moment + pause i ≤ b.moment

theorem inOrder_nil : InOrder accepts data [] where
  made := fun _ _ h => by simp at h
  spaced := fun _ _ _ h => by simp at h

/-- The attempt that is made next. -/
def next (accepts : ℕ → Bool) (data : Bytes) (attempts : List WriteAttempt) (now : ℕ) :
    WriteAttempt :=
  ⟨now, data, accepts attempts.length⟩

/-- The pause after the last attempt is over, if there was one. -/
def Rested (attempts : List WriteAttempt) (now : ℕ) : Prop :=
  ∀ last ∈ attempts.getLast?, last.moment + pause (attempts.length - 1) ≤ now

/-- Among the attempts with one more, each is one of those before or the last. -/
theorem getElem?_concat_cases {last a : WriteAttempt} {i : ℕ}
    (h : (attempts ++ [last])[i]? = some a) :
    attempts[i]? = some a ∨ i = attempts.length ∧ a = last := by
  rcases Nat.lt_trichotomy i attempts.length with hi | rfl | hi
  · rw [List.getElem?_append_left hi] at h
    exact .inl h
  · rw [List.getElem?_concat_length] at h
    exact .inr ⟨rfl, (Option.some.inj h).symm⟩
  · rw [List.getElem?_eq_none (by simp; omega)] at h
    cases h

theorem InOrder.concat (h : InOrder accepts data attempts) (hnow : Rested attempts now) :
    InOrder accepts data (attempts ++ [next accepts data attempts now]) where
  made := by
    intro i a ha
    rcases getElem?_concat_cases ha with ha | ⟨rfl, rfl⟩
    · exact h.made i a ha
    · exact ⟨rfl, rfl⟩
  spaced := by
    intro i a b ha hb
    rcases getElem?_concat_cases hb with hb | ⟨hi, rfl⟩
    · obtain ⟨hlt, -⟩ := List.getElem?_eq_some_iff.1 hb
      rw [List.getElem?_append_left (Nat.lt_of_succ_lt hlt)] at ha
      exact h.spaced i a b ha hb
    · -- the attempt before the new one is the last so far
      rw [List.getElem?_append_left (by omega)] at ha
      have hlast : attempts.getLast? = some a := by
        rw [List.getLast?_eq_getElem?, ← hi]
        exact ha
      have hrested := hnow a hlast
      rwa [← hi] at hrested

/-! ### Steps -/

/-- What comes of the next attempt: the write ends well, or pauses, or is given up. -/
def tried (config : LinkConfig) (accepts : ℕ → Bool) (data : Bytes) (t : Transfer)
    (signals : Signals) (attempts : List WriteAttempt) (now : ℕ) : WriteRun :=
  let made := attempts ++ [next accepts data attempts now]
  if accepts attempts.length then ⟨t, signals, some (.ok (), now), made⟩
  else if made.length < config.attempts then
    ⟨{ t with mode := .resting made.length (now + pause attempts.length) }, signals, none, made⟩
  else ⟨t, signals, some (.error (.writeFailed config.attempts), now), made⟩

theorem attempts_tried : (tried config accepts data t signals attempts now).attempts =
    attempts ++ [next accepts data attempts now] := by
  unfold tried
  dsimp only
  split
  · rfl
  · split
    · rfl
    · rfl

theorem step_eq_tried (h : t.step config now (accepts attempts.length) signals =
    t.attemptWrite config now (accepts attempts.length) signals attempts.length data none []) :
    step config accepts ⟨t, signals, none, attempts⟩ now =
      tried config accepts data t signals attempts now := by
  show after _ now _ (t.step config now (accepts attempts.length) signals) = _
  rw [h, Transfer.attemptWrite, tried, endOfWait_retryDelay]
  by_cases htaken : accepts attempts.length = true
  · rw [if_pos htaken, if_pos htaken]
    rfl
  · rw [if_neg htaken, if_neg htaken]
    have hlength : (attempts ++ [next accepts data attempts now]).length = attempts.length + 1 :=
      List.length_append
    by_cases hmore : attempts.length + 1 < config.attempts
    · rw [if_pos hmore, if_pos (by rwa [hlength]), hlength]
      rfl
    · rw [if_neg hmore, if_neg (by rwa [hlength])]
      rfl

/-- What a write waits for: nothing before the first attempt, and later the end of the pause. -/
inductive Waits (t : Transfer) : List WriteAttempt → Prop
  | unbegun : t.mode = .ready → Waits t []
  | paused {attempts : List WriteAttempt} {last : WriteAttempt} :
    attempts.getLast? = some last →
    t.mode = .resting attempts.length (last.moment + pause (attempts.length - 1)) →
    Waits t attempts

/-- A write that is given the chance before its pause is over makes no attempt. -/
theorem Waits.step_of_not_rested (h : Waits t attempts) (htasks : t.tasks = [.write data none])
    (hnow : ¬ Rested attempts now) :
    step config accepts ⟨t, signals, none, attempts⟩ now = ⟨t, signals, none, attempts⟩ := by
  cases h with
  | unbegun hmode => exact absurd (fun last hlast => by simp at hlast) hnow
  | @paused _ last hlast hmode =>
    have hearly : now < last.moment + pause (attempts.length - 1) := by
      by_contra hlate
      refine hnow fun last' hlast' => ?_
      obtain rfl := Option.some.inj (hlast.symm.trans hlast')
      exact Nat.le_of_not_lt hlate
    have hstep : t.step config now (accepts attempts.length) signals =
        ⟨.blocked, signals, none⟩ := by
      simp only [Transfer.step, htasks, Transfer.stepWrite, hmode, if_pos hearly]
    show after _ now _ (t.step config now (accepts attempts.length) signals) = _
    rw [hstep, after]
    exact congrArg _ (List.append_nil attempts)

/-- Once its pause is over, the write makes an attempt. -/
theorem Waits.step_of_rested (h : Waits t attempts) (htasks : t.tasks = [.write data none])
    (hnow : Rested attempts now) :
    step config accepts ⟨t, signals, none, attempts⟩ now =
      tried config accepts data t signals attempts now := by
  refine step_eq_tried ?_
  cases h with
  | unbegun hmode => simp only [Transfer.step, htasks, Transfer.stepWrite, hmode, List.length_nil]
  | @paused _ last hlast hmode =>
    have hlate := Nat.not_lt.2 (hnow last hlast)
    simp only [Transfer.step, htasks, Transfer.stepWrite, hmode, if_neg hlate]

/-! ### What the steps keep -/

/-- How far a write has come. -/
inductive Stage (config : LinkConfig) (accepts : ℕ → Bool) (data : Bytes) : WriteRun → Prop
  /-- All attempts so far were refused, and there are more to come. -/
  | pending {t : Transfer} {signals : Signals} {attempts : List WriteAttempt} :
    t.tasks = [.write data none] → Waits t attempts → attempts.length < config.attempts →
    (∀ i < attempts.length, accepts i = false) →
    Stage config accepts data ⟨t, signals, none, attempts⟩
  /-- The last attempt was taken, and ended the write. -/
  | taken {t : Transfer} {signals : Signals} {attempts : List WriteAttempt} (last : WriteAttempt) :
    accepts attempts.length = true → attempts.length < config.attempts →
    (∀ i < attempts.length, accepts i = false) →
    Stage config accepts data ⟨t, signals, some (.ok (), last.moment), attempts ++ [last]⟩
  /-- All attempts were refused. -/
  | refused {t : Transfer} {signals : Signals} {attempts : List WriteAttempt}
    (last : WriteAttempt) :
    (attempts ++ [last]).length = config.attempts → (∀ i < config.attempts, accepts i = false) →
    Stage config accepts data
      ⟨t, signals, some (.error (.writeFailed config.attempts), last.moment), attempts ++ [last]⟩

theorem Stage.tried (htasks : t.tasks = [.write data none])
    (hlt : attempts.length < config.attempts)
    (hrefused : ∀ i < attempts.length, accepts i = false) :
    Stage config accepts data (tried config accepts data t signals attempts now) := by
  unfold WriteRun.tried
  dsimp only
  split
  · next htaken => exact .taken (next accepts data attempts now) htaken hlt hrefused
  · next hnot =>
    have hnext : accepts attempts.length = false := Bool.eq_false_iff.2 hnot
    have hall : ∀ i < attempts.length + 1, accepts i = false := by
      intro i hi
      rcases Nat.lt_succ_iff_lt_or_eq.1 hi with hi | rfl
      · exact hrefused i hi
      · exact hnext
    split
    · next hmore =>
      have hlast := List.getLast?_concat (l := attempts) (a := next accepts data attempts now)
      refine .pending htasks (.paused hlast ?_) hmore ?_
      · simp [next]
      · simpa using hall
    · next hmore =>
      have hlength : (attempts ++ [next accepts data attempts now]).length = attempts.length + 1 :=
        List.length_append
      have hlast : attempts.length + 1 = config.attempts := by
        rw [hlength] at hmore
        omega
      refine .refused (next accepts data attempts now) (hlength.trans hlast) ?_
      rwa [← hlast]

/-- **Every step keeps the order of the attempts.** -/
theorem Stage.step {run : WriteRun} (h : Stage config accepts data run)
    (horder : InOrder accepts data run.attempts) (now : ℕ) :
    Stage config accepts data (step config accepts run now) ∧
      InOrder accepts data (WriteRun.step config accepts run now).attempts := by
  cases h with
  | @pending t signals attempts htasks hwaits hlt hrefused =>
    by_cases hnow : Rested attempts now
    · rw [hwaits.step_of_rested htasks hnow]
      refine ⟨.tried htasks hlt hrefused, ?_⟩
      rw [attempts_tried]
      exact horder.concat hnow
    · rw [hwaits.step_of_not_rested htasks hnow]
      exact ⟨.pending htasks hwaits hlt hrefused, horder⟩
  | taken last htaken hlt hrefused => exact ⟨.taken last htaken hlt hrefused, horder⟩
  | refused last hlength hrefused => exact ⟨.refused last hlength hrefused, horder⟩

theorem attempts_pos (config : LinkConfig) : 0 < config.attempts :=
  Nat.lt_of_lt_of_le Nat.zero_lt_one (Nat.le_max_left 1 config.writeAttempts)

theorem stage_start (data : Bytes) (signals : Signals) :
    Stage config accepts data (start data signals) :=
  .pending rfl (.unbegun rfl) (attempts_pos config) fun i hi => absurd hi (Nat.not_lt_zero i)

theorem stage_run (config : LinkConfig) (accepts : ℕ → Bool) (data : Bytes) (signals : Signals)
    (moments : List ℕ) :
    Stage config accepts data (run config accepts data signals moments) ∧
      InOrder accepts data (run config accepts data signals moments).attempts := by
  induction moments using List.reverseRecOn with
  | nil => exact ⟨stage_start data signals, inOrder_nil⟩
  | append_singleton moments now ih =>
    rw [run, List.foldl_concat]
    exact ih.1.step ih.2 now

/-! ### What a write promises -/

/-- How the write ended, if it did. -/
def outcome (run : WriteRun) : Option LinkResult := run.result.map Prod.fst

/-- When the write ended. -/
def ending (run : WriteRun) : Option ℕ := run.result.map Prod.snd

/-- What the link took. -/
def accepted (run : WriteRun) : List Bytes :=
  (run.attempts.filter WriteAttempt.taken).map WriteAttempt.data

/-- What a write promises, whenever it is given the chance to go on. -/
structure Retries (config : LinkConfig) (accepts : ℕ → Bool) (data : Bytes) (run : WriteRun) :
    Prop where
  /-- The attempts are of the same data, with the pauses between them. -/
  inOrder : InOrder accepts data run.attempts
  /-- There are no more of them than allowed, but one is. -/
  length_le : run.attempts.length ≤ max 1 config.writeAttempts
  /-- None is made after one that was taken. -/
  refused : ∀ i, i + 1 < run.attempts.length → accepts i = false
  /-- The write ends well with the attempt that is taken. -/
  ok_iff : run.outcome = some (.ok ()) ↔ ∃ i, run.attempts.length = i + 1 ∧ accepts i = true
  /-- It fails with the last attempt that is allowed, if all are refused. -/
  failed_iff : run.outcome = some (.error (.writeFailed (max 1 config.writeAttempts))) ↔
    run.attempts.length = max 1 config.writeAttempts ∧
      ∀ i < max 1 config.writeAttempts, accepts i = false
  /-- There is no other end. -/
  ends : ∀ result, run.outcome = some result →
    result = .ok () ∨ result = .error (.writeFailed (max 1 config.writeAttempts))
  /-- The end comes with the last attempt, without a pause. -/
  ending : run.ending.isSome → run.ending = run.attempts.getLast?.map WriteAttempt.moment
  /-- The data is taken once if the write ends well. -/
  accepted_of_ok : run.outcome = some (.ok ()) → run.accepted = [data]
  /-- Otherwise it is not taken. -/
  accepted_of_not_ok : run.outcome ≠ some (.ok ()) → run.accepted = []

/-- Nothing of what is refused is taken. -/
theorem InOrder.filter_taken (h : InOrder accepts data attempts)
    (hrefused : ∀ i < attempts.length, accepts i = false) :
    attempts.filter WriteAttempt.taken = [] := by
  rw [List.filter_eq_nil_iff]
  intro a ha
  obtain ⟨i, hi⟩ := List.mem_iff_getElem?.1 ha
  obtain ⟨hlt, -⟩ := List.getElem?_eq_some_iff.1 hi
  rw [(h.made i a hi).2, hrefused i hlt]
  exact Bool.false_ne_true

/-- What comes before the last attempt is in order too. -/
theorem InOrder.of_concat {last : WriteAttempt} (h : InOrder accepts data (attempts ++ [last])) :
    InOrder accepts data attempts where
  made := by
    intro i a ha
    obtain ⟨hlt, -⟩ := List.getElem?_eq_some_iff.1 ha
    exact h.made i a (by rwa [List.getElem?_append_left hlt])
  spaced := by
    intro i a b ha hb
    obtain ⟨hlt, -⟩ := List.getElem?_eq_some_iff.1 hb
    refine h.spaced i a b ?_ (by rwa [List.getElem?_append_left hlt])
    rwa [List.getElem?_append_left (Nat.lt_of_succ_lt hlt)]

theorem InOrder.last {last : WriteAttempt} (h : InOrder accepts data (attempts ++ [last])) :
    last.data = data ∧ last.taken = accepts attempts.length :=
  h.made attempts.length last List.getElem?_concat_length

/-- Before the end all attempts were refused, and fewer than allowed were made. -/
theorem retries_pending (horder : InOrder accepts data attempts)
    (hlt : attempts.length < config.attempts)
    (hrefused : ∀ i < attempts.length, accepts i = false) :
    Retries config accepts data ⟨t, signals, none, attempts⟩ where
  inOrder := horder
  length_le := Nat.le_of_lt hlt
  refused := fun i hi => hrefused i (Nat.lt_of_succ_lt hi)
  ok_iff := by
    constructor
    · intro hok
      cases hok
    · rintro ⟨i, hi, htaken⟩
      rw [hrefused i (hi ▸ Nat.lt_succ_self i)] at htaken
      cases htaken
  failed_iff := by
    constructor
    · intro hfailed
      cases hfailed
    · rintro ⟨hlength, -⟩
      exact absurd hlength (Nat.ne_of_lt hlt)
  ends := fun result hresult => by cases hresult
  ending := fun hsome => by cases hsome
  accepted_of_ok := fun hok => by cases hok
  accepted_of_not_ok := fun _ => by
    rw [accepted, horder.filter_taken hrefused]
    rfl

theorem retries_taken {last : WriteAttempt} (horder : InOrder accepts data (attempts ++ [last]))
    (htaken : accepts attempts.length = true) (hlt : attempts.length < config.attempts)
    (hrefused : ∀ i < attempts.length, accepts i = false) :
    Retries config accepts data ⟨t, signals, some (.ok (), last.moment), attempts ++ [last]⟩ where
  inOrder := horder
  length_le := by
    rw [List.length_append]
    exact hlt
  refused := fun i hi => by
    rw [List.length_append] at hi
    exact hrefused i (Nat.lt_of_succ_lt_succ hi)
  ok_iff := iff_of_true rfl ⟨attempts.length, List.length_append, htaken⟩
  failed_iff := by
    constructor
    · intro hfailed
      cases hfailed
    · rintro ⟨-, hall⟩
      rw [hall attempts.length hlt] at htaken
      cases htaken
  ends := fun result hresult => .inl (Option.some.inj hresult).symm
  ending := fun _ => by
    rw [List.getLast?_concat]
    rfl
  accepted_of_ok := fun _ => by
    obtain ⟨hdata, htook⟩ := horder.last
    rw [htaken] at htook
    rw [accepted, List.filter_append, horder.of_concat.filter_taken hrefused, List.nil_append,
      List.filter_cons_of_pos htook, List.filter_nil, List.map_singleton, hdata]
  accepted_of_not_ok := fun hnot => absurd rfl hnot

theorem retries_refused {last : WriteAttempt} (horder : InOrder accepts data (attempts ++ [last]))
    (hlength : (attempts ++ [last]).length = config.attempts)
    (hrefused : ∀ i < config.attempts, accepts i = false) :
    Retries config accepts data
      ⟨t, signals, some (.error (.writeFailed config.attempts), last.moment),
        attempts ++ [last]⟩ where
  inOrder := horder
  length_le := Nat.le_of_eq hlength
  refused := fun i hi => hrefused i (hlength ▸ Nat.lt_of_succ_lt hi)
  ok_iff := by
    constructor
    · intro hok
      cases hok
    · rintro ⟨i, hi, htaken⟩
      have hlt : i < config.attempts := hlength ▸ Nat.lt_of_lt_of_eq (Nat.lt_succ_self i) hi.symm
      rw [hrefused i hlt] at htaken
      cases htaken
  failed_iff := iff_of_true rfl ⟨hlength, hrefused⟩
  ends := fun result hresult => .inr (Option.some.inj hresult).symm
  ending := fun _ => by
    rw [List.getLast?_concat]
    rfl
  accepted_of_ok := fun hok => by cases hok
  accepted_of_not_ok := fun _ => by
    rw [accepted, horder.filter_taken (by rwa [hlength])]
    rfl

/-- A write keeps its promises at every stage. -/
theorem Stage.retries {run : WriteRun} (h : Stage config accepts data run)
    (horder : InOrder accepts data run.attempts) : Retries config accepts data run := by
  cases h with
  | pending _ _ hlt hrefused => exact retries_pending horder hlt hrefused
  | taken _ htaken hlt hrefused => exact retries_taken horder htaken hlt hrefused
  | refused _ hlength hrefused => exact retries_refused horder hlength hrefused

/-! ### By the timer -/

/-- Every attempt is made at the end of the pauses before it. -/
def Punctual (begun : ℕ) (attempts : List WriteAttempt) : Prop :=
  ∀ i a, attempts[i]? = some a → a.moment = begun + ∑ j ∈ range i, pause j

theorem punctual_nil : Punctual begun [] := fun _ _ h => by simp at h

theorem Punctual.concat (h : Punctual begun attempts)
    (hnow : now = begun + ∑ j ∈ range attempts.length, pause j) :
    Punctual begun (attempts ++ [next accepts data attempts now]) := by
  intro i a ha
  rcases getElem?_concat_cases ha with ha | ⟨rfl, rfl⟩
  · exact h i a ha
  · exact hnow

/-- The pause after the last attempt ends when all pauses so far are over. -/
theorem Punctual.rested_iff (h : Punctual begun attempts) {last : WriteAttempt}
    (hlast : attempts.getLast? = some last) :
    last.moment + pause (attempts.length - 1) = begun + ∑ j ∈ range attempts.length, pause j := by
  rw [List.getLast?_eq_getElem?] at hlast
  obtain ⟨hlt, -⟩ := List.getElem?_eq_some_iff.1 hlast
  have hlength : attempts.length = attempts.length - 1 + 1 := by omega
  rw [h _ last hlast, Nat.add_assoc, ← Finset.sum_range_succ, ← hlength]

theorem Waits.due_eq (h : Waits t attempts) (hpunctual : Punctual begun attempts)
    (signals : Signals) :
    due begun ⟨t, signals, none, attempts⟩ = begun + ∑ j ∈ range attempts.length, pause j := by
  cases h with
  | unbegun hmode => simp [due, Transfer.wakeup?, hmode]
  | @paused _ last hlast hmode =>
    rw [← hpunctual.rested_iff hlast]
    simp [due, Transfer.wakeup?, hmode]

theorem Punctual.rested (h : Punctual begun attempts) :
    Rested attempts (begun + ∑ j ∈ range attempts.length, pause j) :=
  fun _ hlast => Nat.le_of_eq (h.rested_iff hlast)

/-- By its timer a write makes an attempt with every step, until it ends. -/
theorem timed_stage (config : LinkConfig) (accepts : ℕ → Bool) (data : Bytes) (signals : Signals)
    (begun count : ℕ) :
    let run := timed config accepts data signals begun count
    Stage config accepts data run ∧ InOrder accepts data run.attempts ∧
      Punctual begun run.attempts ∧ (run.result = none → run.attempts.length = count) := by
  induction count with
  | zero => exact ⟨stage_start data signals, inOrder_nil, punctual_nil, fun _ => rfl⟩
  | succ count ih =>
    have hsucc : timed config accepts data signals begun (count + 1) =
        step config accepts (timed config accepts data signals begun count)
          (due begun (timed config accepts data signals begun count)) :=
      Function.iterate_succ_apply' _ _ _
    dsimp only at ih ⊢
    rw [hsucc]
    generalize timed config accepts data signals begun count = run at ih
    obtain ⟨hstage, horder, hpunctual, hcount⟩ := ih
    obtain ⟨hstage', horder'⟩ := hstage.step horder (due begun run)
    refine ⟨hstage', horder', ?_⟩
    cases hstage with
    | @pending t signals attempts htasks hwaits hlt hrefused =>
      have hdue := hwaits.due_eq hpunctual signals
      rw [hdue, hwaits.step_of_rested htasks hpunctual.rested, attempts_tried]
      refine ⟨hpunctual.concat rfl, fun _ => ?_⟩
      rw [List.length_append, hcount rfl]
      rfl
    | taken => exact ⟨hpunctual, fun hnone => by cases hnone⟩
    | refused => exact ⟨hpunctual, fun hnone => by cases hnone⟩

/-- What a write comes to by its timer. -/
structure Timely (config : LinkConfig) (accepts : ℕ → Bool) (data : Bytes) (begun : ℕ)
    (run : WriteRun) : Prop where
  /-- It ends well if and only if the link takes one of the attempts that are allowed. -/
  ok_iff : run.outcome = some (.ok ()) ↔ ∃ i < max 1 config.writeAttempts, accepts i = true
  /-- Otherwise it fails. -/
  failed_iff : run.outcome = some (.error (.writeFailed (max 1 config.writeAttempts))) ↔
    ∀ i < max 1 config.writeAttempts, accepts i = false
  /-- Every attempt is made at the end of the pauses before it. -/
  punctual : Punctual begun run.attempts
  /-- The write takes as long as the pauses between its attempts. -/
  ending : run.ending = some (begun + ∑ j ∈ range (run.attempts.length - 1), pause j)
  /-- With few attempts the pauses are those that are asked for. -/
  unhurried : run.attempts.length ≤ 19 →
    run.ending = some (begun + ∑ j ∈ range (run.attempts.length - 1), asked j)

/-- An end comes when the pauses before the last attempt are over. -/
theorem Retries.ending_eq {run : WriteRun} (h : Retries config accepts data run)
    (hpunctual : Punctual begun run.attempts) (hended : run.ending.isSome) :
    run.ending = some (begun + ∑ j ∈ range (run.attempts.length - 1), pause j) := by
  have hlast := h.ending hended
  rw [List.getLast?_eq_getElem?] at hlast
  cases hget : run.attempts[run.attempts.length - 1]? with
  | none =>
    rw [hlast, hget] at hended
    cases hended
  | some last =>
    rw [hlast, hget, Option.map_some, hpunctual _ last hget]

/-- A write that has ended by its timer was tried until it was taken. -/
theorem Retries.timely {run : WriteRun} (h : Retries config accepts data run)
    (hpunctual : Punctual begun run.attempts) (hended : run.result ≠ none) :
    Timely config accepts data begun run := by
  obtain ⟨result, hresult⟩ := Option.ne_none_iff_exists'.1 hended
  have houtcome : run.outcome = some result.1 := by rw [outcome, hresult, Option.map_some]
  have hsome : run.ending.isSome := by
    rw [WriteRun.ending, hresult, Option.map_some, Option.isSome_some]
  have hending := h.ending_eq hpunctual hsome
  -- a write that ends well has an attempt that was taken, and one that fails has none
  have hok : run.outcome = some (.ok ()) → ∃ i < max 1 config.writeAttempts, accepts i = true := by
    intro hok
    obtain ⟨i, hi, htaken⟩ := h.ok_iff.1 hok
    have hle := h.length_le
    exact ⟨i, by omega, htaken⟩
  have hfailed : run.outcome = some (.error (.writeFailed (max 1 config.writeAttempts))) →
      ∀ i < max 1 config.writeAttempts, accepts i = false :=
    fun hfailed => (h.failed_iff.1 hfailed).2
  refine ⟨⟨hok, ?_⟩, ⟨hfailed, ?_⟩, hpunctual, hending, ?_⟩
  · rintro ⟨i, hi, htaken⟩
    rcases h.ends result.1 houtcome with hresult | hresult
    · rw [houtcome, hresult]
    · rw [hfailed (by rw [houtcome, hresult]) i hi] at htaken
      cases htaken
  · intro hall
    rcases h.ends result.1 houtcome with hresult | hresult
    · obtain ⟨i, hi, htaken⟩ := hok (by rw [houtcome, hresult])
      rw [hall i hi] at htaken
      cases htaken
    · rw [houtcome, hresult]
  · intro hfew
    have hsum : ∑ j ∈ range (run.attempts.length - 1), pause j =
        ∑ j ∈ range (run.attempts.length - 1), asked j := by
      refine Finset.sum_congr rfl fun j hj => pause_eq_asked ?_
      have := Finset.mem_range.1 hj
      omega
    rw [hending, hsum]

/-- **A write is tried until it is taken**, as often as allowed and with the pauses between. -/
theorem retried_run (config : LinkConfig) (accepts : ℕ → Bool) (data : Bytes) (signals : Signals) :
    (∀ moments, Retries config accepts data (run config accepts data signals moments)) ∧
      ∀ begun, ∃ count, let run := timed config accepts data signals begun count
        Retries config accepts data run ∧ Timely config accepts data begun run := by
  constructor
  · intro moments
    obtain ⟨hstage, horder⟩ := stage_run config accepts data signals moments
    exact hstage.retries horder
  · intro begun
    obtain ⟨hstage, horder, hpunctual, hcount⟩ := timed_stage config accepts data signals begun
      config.attempts
    have hretries := hstage.retries horder
    refine ⟨config.attempts, hretries, hretries.timely hpunctual fun hnone => ?_⟩
    -- a write that has not ended has attempts left
    have hlength := hcount hnone
    generalize timed config accepts data signals begun config.attempts = run at *
    cases hstage with
    | pending _ _ hlt _ => exact absurd hlength (Nat.ne_of_lt hlt)
    | taken => cases hnone
    | refused => cases hnone

/-- The pauses before the fifth attempt take 156 milliseconds. -/
example : (timed {} (fun attempt => attempt == 4) [0x25] .empty 0 5).ending = some 156 := by
  decide +kernel

/-- The pause before the twentieth attempt is shorter than what is asked for. -/
theorem shortened_pause :
    let run := timed { writeAttempts := 20 } (fun _ => false) [0x25] .empty 0 20
    run.attempts.length = 20 ∧ run.ending = some 1899754316406 ∧
      run.ending ≠ some (∑ i ∈ range (run.attempts.length - 1), min (5 ^ i) (2 ^ 64 - 1)) := by
  decide +kernel

end WriteRun

end Timepiece
