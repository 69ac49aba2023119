import Runnerd.Protocol

/-!
# The SUBMIT codec

A SUBMIT payload is the command, a timeout, the number of arguments and the arguments, each behind
its length. `encodeSubmitRequest` adds up the size before it writes and guards each addition by a
subtraction; `decodeSubmitRequest` moves an offset. Both are compared with `submitPayload`, the
format itself.
-/

namespace Runnerd

/-! ## The format -/

/-- An argument behind its length. -/
def argumentField (argument : Bytes) : Bytes := bigEndian sizeofUint32 argument.length ++ argument

/-- The arguments, one after another. -/
def argumentFields (argv : List Bytes) : Bytes := (argv.map argumentField).flatten

/-- The payload with this timeout and these arguments. -/
def submitPayload (timeoutMs : ℕ) (argv : List Bytes) : Bytes :=
  kSubmitCommand ++ bigEndian sizeofUint32 timeoutMs ++ bigEndian sizeofUint32 argv.length ++
    argumentFields argv

/-- The timeout that a payload's number stands for. -/
def decodedTimeout (timeoutMs : ℕ) : Option JobTimeout :=
  if timeoutMs ≠ 0 then some (timeoutMs : ℤ) else none

theorem length_argumentField (argument : Bytes) :
    (argumentField argument).length = sizeofUint32 + argument.length := by
  unfold argumentField
  rw [List.length_append, length_bigEndian]

@[simp] theorem argumentFields_nil : argumentFields [] = [] := rfl

@[simp] theorem argumentFields_cons (argument : Bytes) (argv : List Bytes) :
    argumentFields (argument :: argv) = argumentField argument ++ argumentFields argv := rfl

theorem length_argumentFields_cons (argument : Bytes) (argv : List Bytes) :
    (argumentFields (argument :: argv)).length =
      sizeofUint32 + argument.length + (argumentFields argv).length := by
  rw [argumentFields_cons, List.length_append, length_argumentField]

/-- Every argument takes at least its length field. -/
theorem length_le_argumentFields (argv : List Bytes) :
    argv.length * sizeofUint32 ≤ (argumentFields argv).length := by
  induction argv with
  | nil => simp
  | cons argument argv ih =>
    rw [length_argumentFields_cons, List.length_cons, Nat.add_mul]
    omega

theorem length_of_mem_argumentFields {argument : Bytes} {argv : List Bytes} (h : argument ∈ argv) :
    argument.length ≤ (argumentFields argv).length := by
  induction argv with
  | nil => cases h
  | cons first argv ih =>
    rw [length_argumentFields_cons]
    obtain rfl | h := List.mem_cons.mp h
    · omega
    · have := ih h
      omega

/-- The size of the payload before its arguments. -/
theorem length_submitPayload (timeoutMs : ℕ) (argv : List Bytes) :
    (submitPayload timeoutMs argv).length =
      kSubmitCommand.length + sizeofUint32 * 2 + (argumentFields argv).length := by
  unfold submitPayload
  simp only [List.length_append, length_bigEndian]
  omega

/-! ## Encoding -/

theorem subSize_of_le {a b : ℕ} (h : b ≤ a) : subSize a b = .ok (a - b) := if_pos h

/-- One round of the loop: the argument fits in what is left of a frame, or the loop throws. -/
theorem addArgumentSizes_cons {payloadSize : ℕ} (argument : Bytes) (rest : List Bytes)
    (hstart : payloadSize ≤ kMaxFrameSize) :
    (payloadSize + sizeofUint32 + argument.length ≤ kMaxFrameSize →
        addArgumentSizes payloadSize (argument :: rest) =
          addArgumentSizes (payloadSize + sizeofUint32 + argument.length) rest) ∧
      (kMaxFrameSize < payloadSize + sizeofUint32 + argument.length →
        ∃ what, addArgumentSizes payloadSize (argument :: rest) = .error (.lengthError what)) := by
  have hlimit : subSize kMaxFrameSize sizeofUint32 = .ok (kMaxFrameSize - sizeofUint32) := rfl
  have hmax : kMaxFrameSize ≤ uint32Max := by decide
  have hword : sizeofUint32 ≤ kMaxFrameSize := by decide
  have hroom (h : ¬ payloadSize > kMaxFrameSize - sizeofUint32) :
      subSize kMaxFrameSize (payloadSize + sizeofUint32) =
        .ok (kMaxFrameSize - (payloadSize + sizeofUint32)) :=
    subSize_of_le (by unfold kMaxFrameSize sizeofUint32 at *; omega)
  constructor
  · intro hfits
    rw [addArgumentSizes, if_neg (by omega), hlimit]
    simp only [bind, Except.bind]
    rw [if_neg (by omega), hroom (by omega)]
    simp only
    rw [if_neg (by omega)]
  · intro hover
    rw [addArgumentSizes]
    by_cases hbig : argument.length > uint32Max
    · exact ⟨_, if_pos hbig⟩
    rw [if_neg hbig, hlimit]
    simp only [bind, Except.bind]
    by_cases hfull : payloadSize > kMaxFrameSize - sizeofUint32
    · exact ⟨_, if_pos hfull⟩
    rw [if_neg hfull, hroom hfull]
    simp only
    exact ⟨_, if_pos (by omega)⟩

/-- The sizes add up exactly when they stay within a frame. -/
theorem addArgumentSizes_cases {payloadSize : ℕ} (argv : List Bytes)
    (hstart : payloadSize ≤ kMaxFrameSize) :
    (payloadSize + (argumentFields argv).length ≤ kMaxFrameSize ∧
        ∃ size, addArgumentSizes payloadSize argv = .ok size) ∨
      (kMaxFrameSize < payloadSize + (argumentFields argv).length ∧
        ∃ what, addArgumentSizes payloadSize argv = .error (.lengthError what)) := by
  induction argv generalizing payloadSize with
  | nil => exact Or.inl ⟨by simpa using hstart, payloadSize, rfl⟩
  | cons argument argv ih =>
    obtain ⟨hfits, hover⟩ := addArgumentSizes_cons argument argv hstart
    rw [length_argumentFields_cons, ← Nat.add_assoc, ← Nat.add_assoc]
    by_cases h : payloadSize + sizeofUint32 + argument.length ≤ kMaxFrameSize
    · rw [hfits h]
      exact ih h
    · exact Or.inr ⟨by omega, hover (by omega)⟩

theorem appendArguments_eq (payload : Bytes) (argv : List Bytes) :
    appendArguments payload argv = payload ++ argumentFields argv := by
  induction argv generalizing payload with
  | nil => rw [appendArguments, argumentFields_nil, List.append_nil]
  | cons argument argv ih =>
    rw [appendArguments, ih, argumentFields_cons]
    unfold appendUint32 argumentField
    simp only [List.append_assoc]

/-- The number `encodeSubmitRequest` writes for a timeout. -/
def timeoutNumber : Option JobTimeout → ℕ
  | none => 0
  | some timeout => timeout.toNat

/-- What `encodeSubmitRequest` asks of a specification. -/
structure Encodable (spec : JobSpec) : Prop where
  valid : validateJobSpec spec = .ok ()
  timeout_le : ∀ t, spec.executionTimeout = some t → t ≤ uint32Max
  size_le : (submitPayload (timeoutNumber spec.executionTimeout) spec.argv).length ≤ kMaxFrameSize

theorem encodeTimeout_cases (timeout : Option JobTimeout) :
    ((∀ t, timeout = some t → t ≤ uint32Max) ∧
        encodeTimeout timeout = .ok (timeoutNumber timeout)) ∨
      (¬ (∀ t, timeout = some t → t ≤ uint32Max) ∧
        ∃ what, encodeTimeout timeout = .error (.lengthError what)) := by
  cases timeout with
  | none => exact Or.inl ⟨by simp, rfl⟩
  | some t =>
    by_cases h : t > uint32Max
    · exact Or.inr ⟨fun hall => absurd (hall t rfl) (not_le.mpr h), _, if_pos h⟩
    · exact Or.inl ⟨fun t' ht => Option.some.inj ht ▸ not_lt.mp h, if_neg h⟩

/-- What `encodeSubmitRequest` does: the payload of the format, or an exception. -/
theorem encodeSubmitRequest_cases (spec : JobSpec) :
    (Encodable spec ∧ encodeSubmitRequest spec =
        .ok (submitPayload (timeoutNumber spec.executionTimeout) spec.argv)) ∨
      (¬ Encodable spec ∧ ∃ what, encodeSubmitRequest spec = .error (.invalidArgument what) ∨
        encodeSubmitRequest spec = .error (.lengthError what)) := by
  unfold encodeSubmitRequest
  rcases hvalid : validateJobSpec spec with e | done
  · obtain ⟨what, rfl⟩ := validateJobSpec_error hvalid
    refine Or.inr ⟨fun h => ?_, what, Or.inl rfl⟩
    rw [h.valid] at hvalid
    cases hvalid
  simp only [bind, Except.bind]
  have hstart : kSubmitCommand.length + sizeofUint32 * 2 ≤ kMaxFrameSize := by decide
  have hargc := length_le_argumentFields spec.argv
  by_cases hcount : spec.argv.length > uint32Max
  · rw [if_pos hcount]
    refine Or.inr ⟨fun h => ?_, _, Or.inr rfl⟩
    have := h.size_le
    rw [length_submitPayload] at this
    unfold uint32Max kMaxFrameSize sizeofUint32 at *
    omega
  rw [if_neg hcount]
  obtain ⟨htimeout, hnumber⟩ | ⟨htimeout, what, herror⟩ := encodeTimeout_cases spec.executionTimeout
  swap
  · rw [herror]
    exact Or.inr ⟨fun h => htimeout h.timeout_le, what, Or.inr rfl⟩
  rw [hnumber]
  obtain ⟨hsize, size, hok⟩ | ⟨hsize, what, herror⟩ := addArgumentSizes_cases spec.argv hstart
  · simp only [hok]
    refine Or.inl ⟨⟨hvalid, htimeout, by rw [length_submitPayload]; exact hsize⟩, ?_⟩
    rw [appendArguments_eq]
    rfl
  · simp only [herror]
    refine Or.inr ⟨fun h => ?_, what, Or.inr rfl⟩
    have := h.size_le
    rw [length_submitPayload] at this
    omega

/-! ## Decoding -/

theorem readUint32_eq (input : Bytes) {offset : ℕ} (h : offset ≤ input.length) :
    readUint32 input offset =
      if offset + sizeofUint32 ≤ input.length then
        .ok (fromBigEndian ((input.drop offset).take sizeofUint32), offset + sizeofUint32)
      else .error (.invalidArgument (text "submit request is truncated")) := by
  unfold readUint32
  rw [if_neg (not_lt.mpr h), subSize_of_le h]
  simp only [bind, Except.bind]
  by_cases hroom : offset + sizeofUint32 ≤ input.length
  · rw [if_pos hroom, if_neg (by omega)]
    rfl
  · rw [if_neg hroom, if_pos (by omega)]
    rfl

/-- A number that a payload holds at an offset, with what follows it. -/
theorem readUint32_ok_iff {input : Bytes} {offset value next : ℕ} (h : offset ≤ input.length) :
    readUint32 input offset = .ok (value, next) ↔
      value ≤ uint32Max ∧ next = offset + sizeofUint32 ∧
        input.drop offset = bigEndian sizeofUint32 value ++ input.drop next := by
  rw [readUint32_eq input h]
  constructor
  · intro hread
    split_ifs at hread with hroom
    obtain ⟨rfl, rfl⟩ := Prod.mk.inj (Except.ok.inj hread)
    have hlen : ((input.drop offset).take sizeofUint32).length = sizeofUint32 := by
      rw [List.length_take, List.length_drop]
      omega
    have hlt := fromBigEndian_lt ((input.drop offset).take sizeofUint32)
    have hwrite := bigEndian_fromBigEndian ((input.drop offset).take sizeofUint32)
    rw [hlen] at hlt hwrite
    refine ⟨?_, rfl, ?_⟩
    · unfold uint32Max sizeofUint32 at *
      omega
    · rw [hwrite, ← List.drop_drop, List.take_append_drop]
  · rintro ⟨hvalue, rfl, hdrop⟩
    have hlen := congrArg List.length hdrop
    rw [List.length_append, length_bigEndian, List.length_drop, List.length_drop] at hlen
    have hpos : 0 < sizeofUint32 := by decide
    rw [if_pos (by omega), hdrop, List.take_left' (length_bigEndian _ _), fromBigEndian_bigEndian]
    unfold uint32Max sizeofUint32 at *
    omega

theorem readUint32_error {input : Bytes} {offset : ℕ} {e : Exception} (h : offset ≤ input.length)
    (hread : readUint32 input offset = .error e) : ∃ what, e = .invalidArgument what := by
  rw [readUint32_eq input h] at hread
  split_ifs at hread
  exact ⟨_, (Except.error.inj hread).symm⟩

/-- The loop of `decodeSubmitRequest` from an offset within the payload: it reads as many arguments
as it is told to, or throws `invalid_argument`. No subtraction wraps around. -/
theorem decodeArguments_cases (payload : Bytes) (count : ℕ) {offset : ℕ}
    (h : offset ≤ payload.length) (argv : List Bytes) :
    (∃ what, decodeArguments payload count offset argv = .error (.invalidArgument what)) ∨
      ∃ args next, decodeArguments payload count offset argv = .ok (next, argv ++ args) ∧
        args.length = count ∧ (∀ argument ∈ args, argument.length ≤ uint32Max) ∧
        next ≤ payload.length ∧ payload.drop offset = argumentFields args ++ payload.drop next := by
  induction count generalizing offset argv with
  | zero => exact Or.inr ⟨[], offset, by rw [decodeArguments, List.append_nil], rfl, by simp, h, rfl⟩
  | succ count ih =>
    unfold decodeArguments
    rcases hread : readUint32 payload offset with e | ⟨size, start⟩
    · obtain ⟨what, rfl⟩ := readUint32_error h hread
      exact Or.inl ⟨what, rfl⟩
    obtain ⟨hsize, rfl, hdrop⟩ := (readUint32_ok_iff h).mp hread
    have hlen := congrArg List.length hdrop
    rw [List.length_append, length_bigEndian, List.length_drop, List.length_drop] at hlen
    have hpos : 0 < sizeofUint32 := by decide
    simp only [bind, Except.bind]
    rw [subSize_of_le (by omega)]
    simp only
    by_cases hroom : size > payload.length - (offset + sizeofUint32)
    · rw [if_pos hroom]
      exact Or.inl ⟨_, rfl⟩
    rw [if_neg hroom]
    set argument := (payload.drop (offset + sizeofUint32)).take size with hargument
    have hlength : argument.length = size := by
      rw [hargument, List.length_take, List.length_drop]
      omega
    obtain ⟨what, herror⟩ | ⟨args, next, hok, hcount, hall, hnext, hrest⟩ :=
      @ih (offset + sizeofUint32 + size) (by omega) (argv ++ [argument])
    · exact Or.inl ⟨what, herror⟩
    · refine Or.inr ⟨argument :: args, next, ?_, ?_, ?_, hnext, ?_⟩
      · rw [hok, List.append_assoc, List.singleton_append]
      · rw [List.length_cons, hcount]
      · intro a ha
        obtain rfl | ha := List.mem_cons.mp ha
        · omega
        · exact hall a ha
      · have hsplit : payload.drop (offset + sizeofUint32) =
            argument ++ payload.drop (offset + sizeofUint32 + size) := by
          rw [← List.drop_drop (i := size), hargument, List.take_append_drop]
        rw [hdrop, hsplit, argumentFields_cons, List.append_assoc, ← hrest, argumentField, hlength,
          List.append_assoc]

/-- The loop reads back fields that stand at its offset. -/
theorem decodeArguments_argumentFields {payload rest : Bytes} {args : List Bytes} {offset : ℕ}
    (h : payload.drop offset = argumentFields args ++ rest) (hoffset : offset ≤ payload.length)
    (hall : ∀ argument ∈ args, argument.length ≤ uint32Max) (argv : List Bytes) :
    decodeArguments payload args.length offset argv =
      .ok (offset + (argumentFields args).length, argv ++ args) := by
  induction args generalizing offset argv with
  | nil => simp [decodeArguments]
  | cons argument args ih =>
    have hlen := congrArg List.length h
    rw [List.length_append, length_argumentFields_cons, List.length_drop] at hlen
    have hnext : payload.drop (offset + sizeofUint32) = argument ++ (argumentFields args ++ rest) := by
      rw [← List.drop_drop, h, argumentFields_cons, argumentField, List.append_assoc,
        List.append_assoc, List.drop_left' (length_bigEndian _ _)]
    have hread : readUint32 payload offset = .ok (argument.length, offset + sizeofUint32) := by
      refine (readUint32_ok_iff hoffset).mpr ⟨hall argument List.mem_cons_self, rfl, ?_⟩
      rw [h, hnext, argumentFields_cons, argumentField, List.append_assoc, List.append_assoc]
    have hafter : payload.drop (offset + sizeofUint32 + argument.length) =
        argumentFields args ++ rest := by
      rw [← List.drop_drop, hnext, List.drop_left' rfl]
    rw [List.length_cons, decodeArguments, hread]
    simp only [bind, Except.bind]
    rw [subSize_of_le (by omega)]
    simp only
    rw [if_neg (by omega), ih hafter (by omega) (fun a ha => hall a (List.mem_cons_of_mem _ ha)),
      hnext, List.take_left' rfl, List.append_assoc, List.singleton_append,
      length_argumentFields_cons]
    congr 2
    omega

theorem isSubmitRequest_iff (payload : Bytes) :
    isSubmitRequest payload ↔ payload = kSubmitCommand ++ payload.drop kSubmitCommand.length := by
  unfold isSubmitRequest startsWith
  rw [Bool.and_eq_true, decide_eq_true_iff, beq_iff_eq]
  constructor
  · rintro ⟨-, htake⟩
    nth_rewrite 1 [← List.take_append_drop kSubmitCommand.length payload, htake]
    rfl
  · intro h
    refine ⟨?_, ?_⟩
    · rw [h, List.length_append]
      omega
    · rw [h]
      exact List.take_left' rfl

/-- `payload` is the SUBMIT payload of this timeout and these arguments. -/
structure IsSubmitPayload (payload : Bytes) (timeoutMs : ℕ) (argv : List Bytes) : Prop where
  eq : payload = submitPayload timeoutMs argv
  timeoutMs_le : timeoutMs ≤ uint32Max
  argc_le : argv.length ≤ uint32Max
  argument_le : ∀ argument ∈ argv, argument.length ≤ uint32Max

/-- What `decodeSubmitRequest` does with a payload of at most 64 KiB: it reads a payload of the
format, or throws `invalid_argument`. -/
theorem decodeSubmitRequest_cases {payload : Bytes} (h : payload.length ≤ kMaxFrameSize) :
    (∃ what, decodeSubmitRequest payload = .error (.invalidArgument what)) ∨
      ∃ timeoutMs argv, IsSubmitPayload payload timeoutMs argv ∧
        decodeSubmitRequest payload =
          .ok { argv, executionTimeout := decodedTimeout timeoutMs } := by
  unfold decodeSubmitRequest
  rw [if_neg (not_lt.mpr h)]
  by_cases hcommand : isSubmitRequest payload = false
  · rw [if_pos hcommand]
    exact Or.inl ⟨_, rfl⟩
  rw [if_neg hcommand]
  have hpayload := (isSubmitRequest_iff payload).mp (by simpa using hcommand)
  have hstart : kSubmitCommand.length ≤ payload.length := by
    rw [hpayload, List.length_append]
    omega
  simp only [bind, Except.bind]
  rcases htimeout : readUint32 payload kSubmitCommand.length with e | ⟨timeoutMs, offset⟩
  · obtain ⟨what, rfl⟩ := readUint32_error hstart htimeout
    exact Or.inl ⟨what, rfl⟩
  obtain ⟨htimeoutMs, rfl, hdrop⟩ := (readUint32_ok_iff hstart).mp htimeout
  have hlen := congrArg List.length hdrop
  rw [List.length_append, length_bigEndian, List.length_drop, List.length_drop] at hlen
  have hword : 0 < sizeofUint32 := by decide
  simp only
  rcases hcount : readUint32 payload (kSubmitCommand.length + sizeofUint32) with e | ⟨argc, offset⟩
  · obtain ⟨what, rfl⟩ := readUint32_error (by omega) hcount
    exact Or.inl ⟨what, rfl⟩
  obtain ⟨hargc, rfl, hdrop'⟩ := (readUint32_ok_iff (by omega)).mp hcount
  have hlen' := congrArg List.length hdrop'
  rw [List.length_append, length_bigEndian, List.length_drop, List.length_drop] at hlen'
  simp only
  rw [subSize_of_le (by omega)]
  simp only
  by_cases hmany :
      argc > (payload.length - (kSubmitCommand.length + sizeofUint32 + sizeofUint32)) / sizeofUint32
  · rw [if_pos hmany]
    exact Or.inl ⟨_, rfl⟩
  rw [if_neg hmany]
  obtain ⟨what, herror⟩ | ⟨argv, next, hok, hargv, hall, hnext, hrest⟩ :=
    @decodeArguments_cases payload argc (kSubmitCommand.length + sizeofUint32 + sizeofUint32)
      (by omega) []
  · rw [herror]
    exact Or.inl ⟨what, rfl⟩
  rw [hok, List.nil_append]
  simp only
  by_cases htrailing : next ≠ payload.length
  · rw [if_pos htrailing]
    exact Or.inl ⟨_, rfl⟩
  rw [if_neg htrailing]
  refine Or.inr ⟨timeoutMs, argv, ⟨?_, htimeoutMs, hargv ▸ hargc, hall⟩, rfl⟩
  rw [not_not.mp htrailing, List.drop_length, List.append_nil] at hrest
  rw [hpayload, hdrop, hdrop', hrest, ← hargv]
  unfold submitPayload
  simp only [List.append_assoc]

/-- A payload of the format is read back. -/
theorem decodeSubmitRequest_of_isSubmitPayload {payload : Bytes} {timeoutMs : ℕ}
    {argv : List Bytes} (h : payload.length ≤ kMaxFrameSize)
    (hpayload : IsSubmitPayload payload timeoutMs argv) :
    decodeSubmitRequest payload = .ok { argv, executionTimeout := decodedTimeout timeoutMs } := by
  obtain ⟨rfl, htimeoutMs, hargc, hall⟩ := hpayload
  have hlen := length_submitPayload timeoutMs argv
  have hfields := length_le_argumentFields argv
  have hword : 0 < sizeofUint32 := by decide
  have hdrop : (submitPayload timeoutMs argv).drop kSubmitCommand.length =
      bigEndian sizeofUint32 timeoutMs ++
        (bigEndian sizeofUint32 argv.length ++ argumentFields argv) := by
    unfold submitPayload
    simp only [List.append_assoc]
    exact List.drop_left' rfl
  have hdrop' : (submitPayload timeoutMs argv).drop (kSubmitCommand.length + sizeofUint32) =
      bigEndian sizeofUint32 argv.length ++ argumentFields argv := by
    rw [← List.drop_drop, hdrop, List.drop_left' (length_bigEndian _ _)]
  have hargs : (submitPayload timeoutMs argv).drop
      (kSubmitCommand.length + sizeofUint32 + sizeofUint32) = argumentFields argv ++ [] := by
    rw [← List.drop_drop, hdrop', List.drop_left' (length_bigEndian _ _), List.append_nil]
  have hcommand : isSubmitRequest (submitPayload timeoutMs argv) = true := by
    rw [isSubmitRequest_iff, hdrop]
    unfold submitPayload
    simp only [List.append_assoc]
  have htimeout : readUint32 (submitPayload timeoutMs argv) kSubmitCommand.length =
      .ok (timeoutMs, kSubmitCommand.length + sizeofUint32) :=
    (readUint32_ok_iff (by omega)).mpr ⟨htimeoutMs, rfl, by rw [hdrop, hdrop']⟩
  have hcount : readUint32 (submitPayload timeoutMs argv) (kSubmitCommand.length + sizeofUint32) =
      .ok (argv.length, kSubmitCommand.length + sizeofUint32 + sizeofUint32) :=
    (readUint32_ok_iff (by omega)).mpr ⟨hargc, rfl, by rw [hdrop', hargs, List.append_nil]⟩
  have hroom : argv.length ≤ ((submitPayload timeoutMs argv).length -
      (kSubmitCommand.length + sizeofUint32 + sizeofUint32)) / sizeofUint32 :=
    (Nat.le_div_iff_mul_le hword).mpr (by omega)
  unfold decodeSubmitRequest
  rw [if_neg (not_lt.mpr h), if_neg (by simp [hcommand]), htimeout]
  simp only [bind, Except.bind]
  rw [hcount]
  simp only
  rw [subSize_of_le (by omega)]
  simp only
  rw [if_neg (not_lt.mpr hroom), decodeArguments_argumentFields hargs (by omega) hall,
    List.nil_append]
  simp only
  rw [if_neg (by omega)]
  rfl

/-! ## Round trips -/

theorem timeoutNumber_decodedTimeout (timeoutMs : ℕ) :
    timeoutNumber (decodedTimeout timeoutMs) = timeoutMs := by
  unfold decodedTimeout
  split_ifs with h
  · exact Int.toNat_natCast timeoutMs
  · exact (not_not.mp h).symm

/-- A valid timeout is positive, so its number is told apart from the absence of one. -/
theorem decodedTimeout_timeoutNumber {spec : JobSpec} (h : validateJobSpec spec = .ok ()) :
    decodedTimeout (timeoutNumber spec.executionTimeout) = spec.executionTimeout := by
  obtain ⟨-, -, hpositive⟩ := (validateJobSpec_ok_iff spec).mp h
  cases ht : spec.executionTimeout with
  | none => rfl
  | some t =>
    have ht0 : (0 : ℤ) < t := hpositive t ht
    have hnumber : ((t.toNat : ℕ) : ℤ) = t := Int.toNat_of_nonneg ht0.le
    have hpos : 0 < t.toNat := Int.lt_toNat.mpr ht0
    unfold decodedTimeout timeoutNumber
    rw [if_pos hpos.ne', hnumber]

theorem timeoutNumber_le {spec : JobSpec} (h : Encodable spec) :
    timeoutNumber spec.executionTimeout ≤ uint32Max := by
  have hle := h.timeout_le
  cases ht : spec.executionTimeout with
  | none => exact Nat.zero_le _
  | some t => exact Int.toNat_le.mpr (hle t ht)

theorem isSubmitPayload_of_encodable {spec : JobSpec} (h : Encodable spec) :
    IsSubmitPayload (submitPayload (timeoutNumber spec.executionTimeout) spec.argv)
      (timeoutNumber spec.executionTimeout) spec.argv := by
  have hsize := h.size_le
  rw [length_submitPayload] at hsize
  have hmax : kMaxFrameSize ≤ uint32Max := by decide
  have hargc := length_le_argumentFields spec.argv
  have hword : 1 ≤ sizeofUint32 := by decide
  refine ⟨rfl, timeoutNumber_le h, ?_, fun argument ha => ?_⟩
  · have := Nat.le_mul_of_pos_right spec.argv.length hword
    omega
  · have := length_of_mem_argumentFields ha
    omega

/-- `encodeSubmitRequest` and `decodeSubmitRequest` are inverse to each other, and each accepts
exactly the specifications and the payloads of the format. -/
theorem submitCodec_bijective :
    (∀ spec, ((∃ payload, encodeSubmitRequest spec = .ok payload) ↔
          validateJobSpec spec = .ok () ∧
            (∀ t, spec.executionTimeout = some t → t ≤ uint32Max) ∧
            (submitPayload (timeoutNumber spec.executionTimeout) spec.argv).length ≤
              kMaxFrameSize) ∧
        ∀ payload, encodeSubmitRequest spec = .ok payload →
          decodeSubmitRequest payload = .ok spec) ∧
      ∀ payload : Bytes, payload.length ≤ kMaxFrameSize →
        (∀ spec, decodeSubmitRequest payload = .ok spec ↔
            ∃ timeoutMs, IsSubmitPayload payload timeoutMs spec.argv ∧
              spec.executionTimeout = decodedTimeout timeoutMs) ∧
          (∀ e, decodeSubmitRequest payload = .error e → ∃ what, e = .invalidArgument what) ∧
          ∀ spec, decodeSubmitRequest payload = .ok spec → validateJobSpec spec = .ok () →
            encodeSubmitRequest spec = .ok payload := by
  refine ⟨fun spec => ?_, fun payload hsize => ?_⟩
  · obtain ⟨hspec, hok⟩ | ⟨hspec, what, herror⟩ := encodeSubmitRequest_cases spec
    · refine ⟨⟨fun _ => ⟨hspec.valid, hspec.timeout_le, hspec.size_le⟩, fun _ => ⟨_, hok⟩⟩, ?_⟩
      intro payload hencode
      rw [hok] at hencode
      obtain rfl := Except.ok.inj hencode
      rw [decodeSubmitRequest_of_isSubmitPayload hspec.size_le (isSubmitPayload_of_encodable hspec),
        decodedTimeout_timeoutNumber hspec.valid]
    · have hno : ∀ payload, encodeSubmitRequest spec ≠ .ok payload := by
        intro payload hencode
        obtain h | h := herror <;> rw [h] at hencode <;> cases hencode
      refine ⟨⟨?_, ?_⟩, fun payload hencode => absurd hencode (hno payload)⟩
      · rintro ⟨payload, hencode⟩
        exact absurd hencode (hno payload)
      · rintro ⟨hvalid, htimeout, hlen⟩
        exact absurd ⟨hvalid, htimeout, hlen⟩ hspec
  · obtain ⟨what, herror⟩ | ⟨timeoutMs, argv, hpayload, hok⟩ := decodeSubmitRequest_cases hsize
    · refine ⟨fun spec => ⟨fun hdecode => ?_, ?_⟩, fun e hdecode => ?_, fun spec hdecode => ?_⟩
      · rw [herror] at hdecode
        cases hdecode
      · rintro ⟨timeoutMs, hpayload, -⟩
        rw [decodeSubmitRequest_of_isSubmitPayload hsize hpayload] at herror
        cases herror
      · rw [herror] at hdecode
        exact ⟨what, (Except.error.inj hdecode).symm⟩
      · rw [herror] at hdecode
        cases hdecode
    · refine ⟨fun spec => ⟨fun hdecode => ?_, ?_⟩, fun e hdecode => ?_, fun spec hdecode hvalid => ?_⟩
      · rw [hok] at hdecode
        obtain rfl := Except.ok.inj hdecode
        exact ⟨timeoutMs, hpayload, rfl⟩
      · rintro ⟨timeoutMs', hpayload', htimeout⟩
        rw [decodeSubmitRequest_of_isSubmitPayload hsize hpayload', ← htimeout]
      · rw [hok] at hdecode
        cases hdecode
      · rw [hok] at hdecode
        obtain rfl := Except.ok.inj hdecode
        obtain ⟨hspec, hencode⟩ | ⟨hspec, -⟩ := encodeSubmitRequest_cases
          { argv, executionTimeout := decodedTimeout timeoutMs }
        · rw [hencode, timeoutNumber_decodedTimeout, hpayload.eq]
        · refine absurd ⟨hvalid, fun t ht => ?_, ?_⟩ hspec
          · have hle := hpayload.timeoutMs_le
            unfold decodedTimeout at ht
            simp only at ht
            split_ifs at ht
            obtain rfl := Option.some.inj ht
            exact_mod_cast hle
          · rw [timeoutNumber_decodedTimeout, ← hpayload.eq]
            exact hsize

/-- A job with an empty argument and one that is a timeout of 1 ms. -/
theorem submitCodec_bijective_run :
    decodeSubmitRequest (submitPayload 1 [text "/a", []]) =
      .ok { argv := [text "/a", []], executionTimeout := some 1 } := by
  have hsize : (submitPayload 1 [text "/a", []]).length ≤ kMaxFrameSize := by decide
  have h := ((submitCodec_bijective.2 _ hsize).1
    { argv := [text "/a", []], executionTimeout := some 1 }).mpr
  refine h ⟨1, ⟨rfl, by decide, by decide, by decide⟩, rfl⟩

end Runnerd
