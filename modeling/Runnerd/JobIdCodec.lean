import Runnerd.Protocol

/-!
# STATUS and CANCEL requests

The 8 bytes behind the command are the big-endian form of the job id: the encoder writes them with
shifts and masks, the decoder reads them with shifts.
-/

namespace Runnerd

variable {command name payload : Bytes} {jobId : JobId}

/-- Below 64 bits, the loop of the decoder reads the big-endian number. -/
theorem readJobId_eq (bytes : Bytes) {start : ℕ}
    (hstart : start * 256 ^ bytes.length + 256 ^ bytes.length ≤ 2 ^ 64) :
    readJobId start bytes = start * 256 ^ bytes.length + fromBigEndian bytes := by
  induction bytes generalizing start with
  | nil => simp [readJobId, fromBigEndian]
  | cons byte rest ih =>
    have hbyte : byte.toNat < 2 ^ 8 := byte.toNat_lt
    have hpow : 0 < 256 ^ rest.length := Nat.pow_pos (by decide)
    have hfits : (start * 256 + 256) * 256 ^ rest.length ≤ 2 ^ 64 := by
      refine le_trans (le_of_eq ?_) hstart
      rw [List.length_cons, pow_succ]
      ring
    have hlt : start * 256 < 2 ^ 64 := by
      have hle := Nat.le_mul_of_pos_right (start * 256 + 256) hpow
      omega
    have hrest : (start * 256 + byte.toNat) * 256 ^ rest.length + 256 ^ rest.length ≤ 2 ^ 64 := by
      refine le_trans ?_ hfits
      rw [← Nat.succ_mul]
      exact Nat.mul_le_mul_right _ (by omega)
    have hstep : (start <<< 8 % 2 ^ 64) ||| byte.toNat = start * 256 + byte.toNat := by
      have hshift : start <<< 8 = start * 256 := Nat.shiftLeft_eq start 8
      rw [hshift, Nat.mod_eq_of_lt hlt, ← hshift, ← Nat.shiftLeft_add_eq_or_of_lt hbyte, hshift]
    rw [readJobId, hstep, ih hrest, List.length_cons, fromBigEndian_cons, pow_succ]
    ring

theorem readJobId_zero {bytes : Bytes} (h : bytes.length = sizeofJobId) :
    readJobId 0 bytes = fromBigEndian bytes := by
  rw [readJobId_eq bytes (by rw [h]; decide), Nat.zero_mul, Nat.zero_add]

/-- The encoder writes the big-endian form. -/
theorem appendJobId_eq (output : Bytes) (jobId : JobId) :
    appendJobId output jobId = output ++ bigEndian sizeofJobId jobId := by
  have hbyte : ∀ shift, ((jobId >>> (shift * 8)) &&& 0xff).toUInt8 = (jobId / 256 ^ shift).toUInt8 := by
    intro shift
    rw [Nat.shiftRight_eq_div_pow, Nat.mul_comm, pow_mul,
      show (0xff : ℕ) = 2 ^ 8 - 1 from rfl, Nat.and_two_pow_sub_one_eq_mod]
    apply UInt8.toNat_inj.mp
    exact Nat.mod_mod _ _
  unfold appendJobId
  congr 1
  show [7, 6, 5, 4, 3, 2, 1, 0].map (fun shift => ((jobId >>> (shift * 8)) &&& 0xff).toUInt8) = _
  rw [List.map_congr_left fun shift _ => hbyte shift]
  rfl

theorem startsWith_iff : startsWith command payload ↔ command <+: payload := by
  unfold startsWith
  rw [Bool.and_eq_true, decide_eq_true_iff, beq_iff_eq, List.prefix_iff_eq_take]
  constructor
  · exact fun h => h.2.symm
  · exact fun h => ⟨by rw [h]; exact List.length_take_le' _ _, h.symm⟩

/-- A payload starts with one command at most. -/
theorem startsWith_inj {command command' payload : Bytes} (h : startsWith command payload)
    (h' : startsWith command' payload) (hlength : command.length = command'.length) :
    command = command' := by
  unfold startsWith at h h'
  simp only [Bool.and_eq_true, beq_iff_eq] at h h'
  rw [← h.2, ← h'.2, hlength]

/-- A request with a command of six letters is none of the short ones. -/
theorem ne_of_startsWith {command request : Bytes} (h : startsWith command request)
    (hlength : command.length = 6) : request ≠ text "PING" ∧ request ≠ text "LIST" := by
  have hle : command.length ≤ request.length := (startsWith_iff.mp h).length_le
  rw [hlength] at hle
  constructor <;> rintro rfl <;> revert hle <;> decide

/-- A command and a job id behind it. -/
def IsJobIdRequest (command payload : Bytes) (jobId : JobId) : Prop :=
  payload = command ++ bigEndian sizeofJobId jobId ∧ 0 < jobId ∧ jobId < 2 ^ 64

/-- The decoder reads a request of the format, or throws `invalid_argument`. -/
theorem decodeJobIdRequest_cases (command name payload : Bytes) :
    (∃ what, decodeJobIdRequest command name payload = .error (.invalidArgument what)) ∨
      ∃ jobId, IsJobIdRequest command payload jobId ∧
        decodeJobIdRequest command name payload = .ok jobId := by
  unfold decodeJobIdRequest
  split_ifs with hcommand hsize hzero
  · exact Or.inl ⟨_, rfl⟩
  · exact Or.inl ⟨_, rfl⟩
  · exact Or.inl ⟨_, rfl⟩
  · have hpayload := List.prefix_iff_eq_append.mp (startsWith_iff.mp (by simpa using hcommand))
    have hlength : (payload.drop command.length).length = sizeofJobId := by
      rw [List.length_drop]
      omega
    rw [readJobId_zero hlength] at hzero ⊢
    refine Or.inr ⟨_, ⟨?_, Nat.pos_of_ne_zero hzero, ?_⟩, rfl⟩
    · rw [← hlength, bigEndian_fromBigEndian, hpayload]
    · have hlt := fromBigEndian_lt (payload.drop command.length)
      rw [hlength] at hlt
      exact hlt

theorem decodeJobIdRequest_of_isJobIdRequest (h : IsJobIdRequest command payload jobId) :
    decodeJobIdRequest command name payload = .ok jobId := by
  obtain ⟨rfl, hpos, hlt⟩ := h
  have hdrop : (command ++ bigEndian sizeofJobId jobId).drop command.length =
      bigEndian sizeofJobId jobId := List.drop_left
  have hread : readJobId 0 (bigEndian sizeofJobId jobId) = jobId := by
    rw [readJobId_zero (length_bigEndian _ _)]
    exact fromBigEndian_bigEndian hlt
  have hcommand : startsWith command (command ++ bigEndian sizeofJobId jobId) :=
    startsWith_iff.mpr (List.prefix_append _ _)
  unfold decodeJobIdRequest
  rw [hdrop, hread, hcommand, if_neg (by simp), if_neg (by simp), if_neg (Nat.ne_of_gt hpos)]

theorem startsWith_of_decode (h : decodeJobIdRequest command name payload = .ok jobId) :
    startsWith command payload := by
  unfold decodeJobIdRequest at h
  rw [← Bool.not_eq_false]
  intro hnot
  rw [if_pos (by exact hnot)] at h
  cases h

theorem isStatusRequest_of_decode (h : decodeStatusRequest payload = .ok jobId) :
    isStatusRequest payload := startsWith_of_decode h

theorem isCancelRequest_of_decode (h : decodeCancelRequest payload = .ok jobId) :
    isCancelRequest payload := startsWith_of_decode h

theorem isSubmitRequest_of_decode {spec : JobSpec} (h : decodeSubmitRequest payload = .ok spec) :
    isSubmitRequest payload := by
  unfold decodeSubmitRequest at h
  rw [← Bool.not_eq_false]
  intro hnot
  split_ifs at h

theorem encodeJobIdRequest_eq (hpos : 0 < jobId) (hlt : jobId < 2 ^ 64) :
    ∃ payload, encodeJobIdRequest command jobId = .ok payload ∧
      IsJobIdRequest command payload jobId := by
  unfold encodeJobIdRequest
  rw [if_neg (Nat.ne_of_gt hpos)]
  exact ⟨_, rfl, appendJobId_eq _ _, hpos, hlt⟩

/-- The encoder and the decoder of a command with a job id are inverse to each other, and the decoder
takes nothing but the command and 8 bytes that spell a job id. -/
structure ExactCodec (command : Bytes) (encode : JobId → Except Exception Bytes)
    (decode : Bytes → Except Exception JobId) : Prop where
  decode_encode : ∀ jobId, 0 < jobId → jobId < 2 ^ 64 →
    ∃ payload, encode jobId = .ok payload ∧ decode payload = .ok jobId
  decode_iff : ∀ payload, (∃ jobId, decode payload = .ok jobId) ↔
    ∃ bytes, payload = command ++ bytes ∧ bytes.length = 8 ∧ fromBigEndian bytes ≠ 0
  encode_decode : ∀ payload jobId, decode payload = .ok jobId → encode jobId = .ok payload

theorem exactCodec (command name : Bytes) :
    ExactCodec command (encodeJobIdRequest command) (decodeJobIdRequest command name) where
  decode_encode jobId hpos hlt := by
    obtain ⟨payload, hencode, hrequest⟩ := @encodeJobIdRequest_eq command jobId hpos hlt
    exact ⟨payload, hencode, decodeJobIdRequest_of_isJobIdRequest hrequest⟩
  decode_iff payload := by
    constructor
    · rintro ⟨jobId, hdecode⟩
      obtain ⟨what, herror⟩ | ⟨jobId, ⟨rfl, hpos, hlt⟩, -⟩ :=
        decodeJobIdRequest_cases command name payload
      · cases hdecode.symm.trans herror
      · refine ⟨_, rfl, length_bigEndian _ _, ?_⟩
        rw [fromBigEndian_bigEndian hlt]
        exact Nat.ne_of_gt hpos
    · rintro ⟨bytes, rfl, hlength, hne⟩
      have hlt := fromBigEndian_lt bytes
      rw [hlength] at hlt
      have hbytes : bigEndian sizeofJobId (fromBigEndian bytes) = bytes := by
        rw [show sizeofJobId = bytes.length from hlength.symm, bigEndian_fromBigEndian]
      exact ⟨_, decodeJobIdRequest_of_isJobIdRequest
        ⟨by rw [hbytes], Nat.pos_of_ne_zero hne, hlt⟩⟩
  encode_decode payload jobId hdecode := by
    obtain ⟨what, herror⟩ | ⟨_, ⟨rfl, hpos, -⟩, hok⟩ :=
      decodeJobIdRequest_cases command name payload
    · cases hdecode.symm.trans herror
    · obtain rfl := Except.ok.inj (hdecode.symm.trans hok)
      unfold encodeJobIdRequest
      rw [if_neg (Nat.ne_of_gt hpos), appendJobId_eq]

/-- STATUS and CANCEL have exact codecs, and no payload is two requests. -/
theorem jobIdCodecs_exact :
    ExactCodec kStatusCommand encodeStatusRequest decodeStatusRequest ∧
      ExactCodec kCancelCommand encodeCancelRequest decodeCancelRequest ∧
      ∀ payload : Bytes, [∃ spec, decodeSubmitRequest payload = .ok spec,
        ∃ jobId, decodeStatusRequest payload = .ok jobId,
        ∃ jobId, decodeCancelRequest payload = .ok jobId,
        payload = text "PING", payload = text "LIST"].Pairwise fun p q => ¬ (p ∧ q) := by
  refine ⟨exactCodec _ _, exactCodec _ _, fun payload => ?_⟩
  have hsubmit : (∃ spec, decodeSubmitRequest payload = .ok spec) →
      startsWith kSubmitCommand payload := fun ⟨_, h⟩ => isSubmitRequest_of_decode h
  have hstatus : (∃ jobId, decodeStatusRequest payload = .ok jobId) →
      startsWith kStatusCommand payload := fun ⟨_, h⟩ => isStatusRequest_of_decode h
  have hcancel : (∃ jobId, decodeCancelRequest payload = .ok jobId) →
      startsWith kCancelCommand payload := fun ⟨_, h⟩ => isCancelRequest_of_decode h
  have hshort : ∀ {command : Bytes}, command.length = 6 → startsWith command payload →
      payload ≠ text "PING" ∧ payload ≠ text "LIST" := fun hlength h => ne_of_startsWith h hlength
  have hsubmitStatus : ¬ (startsWith kSubmitCommand payload ∧ startsWith kStatusCommand payload) :=
    fun h => absurd (startsWith_inj h.1 h.2 (by decide)) (by decide)
  have hsubmitCancel : ¬ (startsWith kSubmitCommand payload ∧ startsWith kCancelCommand payload) :=
    fun h => absurd (startsWith_inj h.1 h.2 (by decide)) (by decide)
  have hstatusCancel : ¬ (startsWith kStatusCommand payload ∧ startsWith kCancelCommand payload) :=
    fun h => absurd (startsWith_inj h.1 h.2 (by decide)) (by decide)
  have hping : ¬ (payload = text "PING" ∧ payload = text "LIST") :=
    fun h => absurd (h.1.symm.trans h.2) (by decide)
  simp only [List.pairwise_cons, List.mem_cons, List.not_mem_nil, or_false, forall_eq_or_imp,
    forall_eq]
  exact ⟨⟨fun h => hsubmitStatus ⟨hsubmit h.1, hstatus h.2⟩,
      fun h => hsubmitCancel ⟨hsubmit h.1, hcancel h.2⟩,
      fun h => (hshort (by decide) (hsubmit h.1)).1 h.2,
      fun h => (hshort (by decide) (hsubmit h.1)).2 h.2⟩,
    ⟨fun h => hstatusCancel ⟨hstatus h.1, hcancel h.2⟩,
      fun h => (hshort (by decide) (hstatus h.1)).1 h.2,
      fun h => (hshort (by decide) (hstatus h.1)).2 h.2⟩,
    ⟨fun h => (hshort (by decide) (hcancel h.1)).1 h.2,
      fun h => (hshort (by decide) (hcancel h.1)).2 h.2⟩, hping, fun _ h => h.elim, .nil⟩

end Runnerd
