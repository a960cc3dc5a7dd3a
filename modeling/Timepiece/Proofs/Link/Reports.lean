import Mathlib
import Timepiece.Link.Report
import Timepiece.Proofs.Numbers.Words

/-!
# Reports in bytes

A report is read from its bytes whatever follows them, and from nothing else: what is read begins
with the bytes of the report, but that any byte except zero grants a permission.  How long a report
is, its first bytes tell: the opcode, and the byte of a function.  So bytes are no report if they
are empty, if those first bytes are unknown, or if they are shorter than the report that they
announce.

## Main definitions

* `Report.Lays` — the bytes that a report may arrive as.
* `Report.heading` — the first bytes of a report, which tell what it is.
* `Report.Broken` — bytes that are no report.

## Main results

* `NotificationFunction.decode_append`, `Report.decode_append` — what is written is read, whatever
  follows it.
* `Report.broken_or_begins` — bytes are no report, or they begin with the bytes of one.
* `Report.decoded_exactly` — **reports are read exactly.**
-/

namespace Timepiece

/-! ### Functions -/

namespace NotificationFunction

variable {function : NotificationFunction} {code : UInt8} {arguments : Bytes}

/-- A function is read from its arguments, whatever follows them. -/
theorem decode_append (function : NotificationFunction) (rest : Bytes) :
    decode function.code (function.arguments ++ rest) = .ok function := by
  cases function with
  | alertDismiss | alertOption1 | alertOption2 | showFirst => rfl
  | next id =>
    show Except.ok (next (UInt16.ofNat (ofBigEndian (wordBytes id)))) = _
    rw [ofBigEndian_wordBytes, UInt16.ofNat_toNat]
  | nextPart id part =>
    show Except.ok (nextPart (UInt16.ofNat (ofBigEndian (wordBytes id))) part) = _
    rw [ofBigEndian_wordBytes, UInt16.ofNat_toNat]
  | previousPart id part =>
    show Except.ok (previousPart (UInt16.ofNat (ofBigEndian (wordBytes id))) part) = _
    rw [ofBigEndian_wordBytes, UInt16.ofNat_toNat]

/-- Bytes that are long enough begin with the arguments of a function of the same kind. -/
theorem exists_arguments (h : function.arguments.length ≤ arguments.length) :
    ∃ other : NotificationFunction, other.code = function.code ∧
      ∃ rest, arguments = other.arguments ++ rest := by
  have hpart (h : 3 ≤ arguments.length) :
      ∃ id part rest, arguments = wordBytes id ++ [part] ++ rest := by
    obtain ⟨id, after, rfl⟩ := exists_wordBytes (Nat.le_of_succ_le h)
    rw [List.length_append, length_wordBytes] at h
    obtain ⟨part, rest, rfl⟩ := List.exists_cons_of_length_pos (Nat.le_of_add_le_add_left h)
    exact ⟨id, part, rest, by simp⟩
  cases function with
  | alertDismiss => exact ⟨.alertDismiss, rfl, arguments, rfl⟩
  | alertOption1 => exact ⟨.alertOption1, rfl, arguments, rfl⟩
  | alertOption2 => exact ⟨.alertOption2, rfl, arguments, rfl⟩
  | showFirst => exact ⟨.showFirst, rfl, arguments, rfl⟩
  | next id =>
    obtain ⟨id, rest, rfl⟩ := exists_wordBytes h
    exact ⟨.next id, rfl, rest, rfl⟩
  | nextPart id part =>
    obtain ⟨id, part, rest, rfl⟩ := hpart h
    exact ⟨.nextPart id part, rfl, rest, rfl⟩
  | previousPart id part =>
    obtain ⟨id, part, rest, rfl⟩ := hpart h
    exact ⟨.previousPart id part, rfl, rest, rfl⟩

/-- From bytes that are too short for it, no function is read. -/
theorem exists_error_of_short (h : arguments.length < function.arguments.length) :
    ∃ fault, decode function.code arguments = .error fault := by
  cases function with
  | alertDismiss | alertOption1 | alertOption2 | showFirst => exact absurd h (Nat.not_lt_zero _)
  | next id =>
    rcases arguments with _ | ⟨a, _ | ⟨b, rest⟩⟩
    · exact ⟨_, rfl⟩
    · exact ⟨_, rfl⟩
    · simp [NotificationFunction.arguments] at h
  | nextPart id part | previousPart id part =>
    rcases arguments with _ | ⟨a, _ | ⟨b, _ | ⟨c, rest⟩⟩⟩
    · exact ⟨_, rfl⟩
    · exact ⟨_, rfl⟩
    · exact ⟨_, rfl⟩
    · simp [NotificationFunction.arguments] at h
      omega

/-- From a byte that is unknown, no function is read. -/
theorem exists_error_of_unknown (h : ∀ function : NotificationFunction, function.code ≠ code) :
    ∃ fault, decode code arguments = .error fault := by
  have hne (known : UInt8) (function : NotificationFunction) (hcode : function.code = known) :
      code ≠ known := by
    rintro rfl
    exact h function hcode
  refine ⟨.unknownFunction code, ?_⟩
  unfold decode
  rw [if_neg (hne 0x01 .alertDismiss rfl), if_neg (hne 0x02 .alertOption1 rfl),
    if_neg (hne 0x03 .alertOption2 rfl), if_neg (hne 0x10 .showFirst rfl),
    if_neg (hne 0x11 (.next 0) rfl), if_neg (hne 0x12 (.nextPart 0 0) rfl),
    if_neg (hne 0x13 (.previousPart 0 0) rfl)]

end NotificationFunction

/-! ### Reports -/

namespace Report

variable {report other : Report} {bytes data rest : Bytes}

/-- The bytes that a report may arrive as: those that are written of it, and for a permission that
is granted any byte except zero. -/
inductive Lays : Report → Bytes → Prop
  | written (report : Report) : Lays report report.encode
  | granted {byte : UInt8} : byte ≠ 0 → Lays (.permission true) [0x04, byte]

/-- The first bytes of a report, which tell what it is: its opcode, and the byte of a function. -/
def heading : Report → Bytes
  | activeWatchSet _ => [0x01]
  | callFunction _ => [0x02]
  | notification function => [0x03, function.code]
  | permission _ => [0x04]
  | acknowledged => [0x05]

/-- Bytes that are no report. -/
inductive Broken : Bytes → Prop
  | empty : Broken []
  | unknown {opcode : UInt8} {rest : Bytes} :
    (∀ report : Report, report.encode.head? ≠ some opcode) → Broken (opcode :: rest)
  | unknownFunction {code : UInt8} {rest : Bytes} :
    (∀ function : NotificationFunction, function.code ≠ code) → Broken (0x03 :: code :: rest)
  /-- The byte of a function is missing, and so is what would follow it. -/
  | functionless : Broken [0x03]
  /-- The first bytes announce a report, which is longer. -/
  | short {report : Report} {data : Bytes} : report.heading <+: data →
    data.length < report.encode.length → Broken data

/-! ### What is read -/

/-- A report is read from its bytes, whatever follows them. -/
theorem decode_append (h : report.Lays bytes) (rest : Bytes) :
    decode (bytes ++ rest) = .ok report := by
  cases h with
  | written =>
    cases report with
    | activeWatchSet id =>
      show Except.ok (activeWatchSet (UInt32.ofNat (ofBigEndian (longBytes id)))) = _
      rw [ofBigEndian_longBytes, UInt32.ofNat_toNat]
    | callFunction index => rfl
    | notification function =>
      exact congrArg (Except.map notification) (NotificationFunction.decode_append function rest)
    | permission granted => cases granted <;> rfl
    | acknowledged => rfl
  | @granted byte hbyte =>
    show Except.ok (permission (byte != 0)) = _
    rw [bne_iff_ne.2 hbyte]

/-- Bytes that announce a report and are long enough begin with the bytes of a report. -/
theorem exists_lays (hheading : report.heading <+: data)
    (hlength : report.encode.length ≤ data.length) :
    ∃ (other : Report) (bytes rest : Bytes), other.Lays bytes ∧ data = bytes ++ rest := by
  obtain ⟨payload, rfl⟩ := hheading
  rw [List.length_append] at hlength
  cases report with
  | activeWatchSet id =>
    have hlong : 4 ≤ payload.length := by
      simpa [heading, encode, Nat.add_comm] using hlength
    obtain ⟨id, rest, rfl⟩ := exists_longBytes hlong
    exact ⟨_, _, rest, .written (.activeWatchSet id), rfl⟩
  | callFunction index =>
    obtain ⟨index, rest, rfl⟩ := List.exists_cons_of_length_pos (Nat.le_of_add_le_add_left hlength)
    exact ⟨_, _, rest, .written (.callFunction index), rfl⟩
  | notification function =>
    have hlong : function.arguments.length ≤ payload.length := by
      simp only [heading, encode, List.length_cons, List.length_nil] at hlength
      omega
    obtain ⟨other, hcode, rest, rfl⟩ := NotificationFunction.exists_arguments hlong
    refine ⟨_, _, rest, .written (.notification other), ?_⟩
    rw [heading, encode, hcode]
    rfl
  | permission granted =>
    obtain ⟨byte, rest, rfl⟩ := List.exists_cons_of_length_pos (Nat.le_of_add_le_add_left hlength)
    by_cases hbyte : byte = 0
    · subst hbyte
      exact ⟨_, _, rest, .written (.permission false), rfl⟩
    · exact ⟨_, _, rest, .granted hbyte, rfl⟩
  | acknowledged => exact ⟨_, _, payload, .written .acknowledged, rfl⟩

/-- Apart from a call of a function, the opcode alone announces a report. -/
theorem heading_eq {opcode : UInt8} (h : report.encode.head? = some opcode)
    (hopcode : opcode ≠ 0x03) : report.heading = [opcode] := by
  cases report with
  | notification function => exact absurd (Option.some.inj h).symm hopcode
  | activeWatchSet | callFunction | permission | acknowledged =>
    obtain rfl := Option.some.inj h
    rfl

/-- Bytes are no report, or they begin with the bytes of one. -/
theorem broken_or_begins (data : Bytes) :
    Broken data ∨ ∃ (report : Report) (bytes rest : Bytes), report.Lays bytes ∧
      data = bytes ++ rest := by
  have hannounced (report : Report) {data : Bytes} (hheading : report.heading <+: data) :
      Broken data ∨ ∃ (report : Report) (bytes rest : Bytes), report.Lays bytes ∧
        data = bytes ++ rest := by
    by_cases hlength : report.encode.length ≤ data.length
    · exact .inr (exists_lays hheading hlength)
    · exact .inl (.short hheading (Nat.not_le.1 hlength))
  cases data with
  | nil => exact .inl .empty
  | cons opcode payload =>
    by_cases hknown : ∃ report : Report, report.encode.head? = some opcode
    · obtain ⟨report, hreport⟩ := hknown
      by_cases hopcode : opcode = 0x03
      · subst hopcode
        cases payload with
        | nil => exact .inl .functionless
        | cons code arguments =>
          by_cases hcode : ∃ function : NotificationFunction, function.code = code
          · obtain ⟨function, rfl⟩ := hcode
            exact hannounced (.notification function) ⟨arguments, rfl⟩
          · exact .inl (.unknownFunction (not_exists.1 hcode))
      · have hheading : report.heading <+: opcode :: payload :=
          ⟨payload, by rw [heading_eq hreport hopcode]; rfl⟩
        exact hannounced report hheading
    · exact .inl (.unknown (not_exists.1 hknown))

/-! ### What is not read -/

/-- From bytes that announce a report and are too short for it, nothing is read. -/
theorem exists_error_of_short (hheading : report.heading <+: data)
    (hlength : data.length < report.encode.length) : ∃ fault, decode data = .error fault := by
  obtain ⟨payload, rfl⟩ := hheading
  rw [List.length_append] at hlength
  cases report with
  | activeWatchSet id =>
    rcases payload with _ | ⟨a, _ | ⟨b, _ | ⟨c, _ | ⟨d, rest⟩⟩⟩⟩
    · exact ⟨_, rfl⟩
    · exact ⟨_, rfl⟩
    · exact ⟨_, rfl⟩
    · exact ⟨_, rfl⟩
    · simp [heading, encode] at hlength
      omega
  | callFunction | permission =>
    cases payload with
    | nil => exact ⟨_, rfl⟩
    | cons byte rest =>
      simp [heading, encode] at hlength
  | notification function =>
    have hshort : payload.length < function.arguments.length := by
      simp only [heading, encode, List.length_cons, List.length_nil] at hlength
      omega
    obtain ⟨fault, hfault⟩ := NotificationFunction.exists_error_of_short hshort
    exact ⟨fault, congrArg (Except.map notification) hfault⟩
  | acknowledged => exact absurd hlength (Nat.not_lt.2 (Nat.le_add_right 1 _))

/-- From bytes that are no report nothing is read. -/
theorem Broken.exists_error (h : Broken data) : ∃ fault, decode data = .error fault := by
  cases h with
  | empty => exact ⟨.empty, rfl⟩
  | @unknown opcode rest hunknown =>
    have hne (known : UInt8) (report : Report) (hopcode : report.encode.head? = some known) :
        opcode ≠ known := by
      rintro rfl
      exact hunknown report hopcode
    refine ⟨.unknown opcode, ?_⟩
    show decodePayload opcode rest = _
    unfold decodePayload
    rw [if_neg (hne 0x01 (.activeWatchSet 0) rfl), if_neg (hne 0x02 (.callFunction 0) rfl),
      if_neg (hne 0x03 (.notification .showFirst) rfl), if_neg (hne 0x04 (.permission true) rfl),
      if_neg (hne 0x05 .acknowledged rfl)]
  | @unknownFunction code rest hunknown =>
    obtain ⟨fault, hfault⟩ := @NotificationFunction.exists_error_of_unknown code rest hunknown
    exact ⟨fault, congrArg (Except.map notification) hfault⟩
  | functionless => exact ⟨.truncated 0x03, rfl⟩
  | short hheading hlength => exact exists_error_of_short hheading hlength

/-! ### Exactness -/

/-- A report is read from what begins with its bytes, and from nothing else. -/
theorem decode_eq_ok_iff : decode data = .ok report ↔
    ∃ bytes rest, report.Lays bytes ∧ data = bytes ++ rest := by
  constructor
  · intro h
    obtain hbroken | ⟨other, bytes, rest, hlays, rfl⟩ := broken_or_begins data
    · obtain ⟨fault, hfault⟩ := hbroken.exists_error
      rw [h] at hfault
      cases hfault
    · rw [decode_append hlays] at h
      obtain rfl := Except.ok.inj h
      exact ⟨bytes, rest, hlays, rfl⟩
  · rintro ⟨bytes, rest, hlays, rfl⟩
    exact decode_append hlays rest

theorem exists_error_iff : (∃ fault, decode data = .error fault) ↔ Broken data := by
  constructor
  · rintro ⟨fault, hfault⟩
    obtain hbroken | ⟨report, bytes, rest, hlays, rfl⟩ := broken_or_begins data
    · exact hbroken
    · rw [decode_append hlays] at hfault
      cases hfault
  · exact Broken.exists_error

/-- **Reports are read exactly.**

* A report is read from its bytes, whatever follows them.
* What is read begins with the bytes of the report, where any byte except zero may grant a
  permission, and goes on being read whatever is added to it.
* Nothing is read from bytes that are empty, that are led by an unknown opcode or function, or that
  are shorter than the report that they announce; from all others a report is read. -/
theorem decoded_exactly :
    (∀ (report : Report) (rest : Bytes), decode (report.encode ++ rest) = .ok report) ∧
    (∀ (data : Bytes) (report : Report), decode data = .ok report →
      (∃ bytes, report.Lays bytes ∧ bytes <+: data) ∧
        ∀ rest, decode (data ++ rest) = .ok report) ∧
    ∀ data : Bytes, (∃ fault, decode data = .error fault) ↔ Broken data := by
  refine ⟨fun report rest => decode_append (.written report) rest, ?_, fun _ => exists_error_iff⟩
  intro data report h
  obtain ⟨bytes, after, hlays, rfl⟩ := decode_eq_ok_iff.1 h
  refine ⟨⟨bytes, hlays, List.prefix_append bytes after⟩, fun rest => ?_⟩
  rw [List.append_assoc]
  exact decode_append hlays (after ++ rest)

/-- A permission is granted by any byte except zero, and there are bytes behind it. -/
theorem decoded_exactly_granted : decode [0x04, 0x07, 0xff] = .ok (.permission true) ∧
    ∃ bytes, (permission true).Lays bytes ∧ bytes <+: [0x04, 0x07, 0xff] := by
  have hread : decode [0x04, 0x07, 0xff] = .ok (.permission true) := rfl
  exact ⟨hread, (decoded_exactly.2.1 _ _ hread).1⟩

end Report

end Timepiece
