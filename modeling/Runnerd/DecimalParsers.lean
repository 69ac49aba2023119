import Mathlib.Data.Nat.Digits.Defs
import Runnerd.Runnerctl

/-!
# Decimal parsers

The parsers of `runnerctl_main.cpp` and `runnerd_main.cpp` as the machine runs them: the arithmetic
is unsigned and wraps around, and the number and the error are written through references.

The loop is compared with the same loop over natural numbers, and this one with the number that the
digits spell.
-/

namespace Runnerd

namespace DecimalParsers

open Runnerctl

variable {α : Type} {maximum value n : ℕ} {s rest : Bytes} {c : UInt8}

/-- The largest `size_t`. -/
def sizeMax : ℕ := 2 ^ 64 - 1

/-! ## The parsers -/

/-- What is left of a number in a type with this maximum. -/
def wrap (maximum n : ℕ) : ℕ := n % (maximum + 1)

/-- `maximum - digit`. -/
def subDigit (maximum digit : ℕ) : ℕ := wrap maximum (maximum + (maximum + 1) - digit)

/-- `value * 10U + digit`. -/
def appendDigit (maximum value digit : ℕ) : ℕ := wrap maximum (wrap maximum (value * 10) + digit)

/-- The loop over the digits. -/
def digitLoop (maximum : ℕ) : ℕ → Bytes → Except BadNumber ℕ
  | value, [] => .ok value
  | value, character :: rest =>
    if character < 48 ∨ character > 57 then .error .character
    else if value > subDigit maximum (character.toNat - 48) / 10 then .error .tooLarge
    else digitLoop maximum (appendDigit maximum value (character.toNat - 48)) rest

/-- The references that a parser writes to. -/
structure Outputs (α : Type) where
  result : α
  error : Bytes

def parsePositive (maximum : ℕ) (errors : NumberErrors) (convert : ℕ → α) (argument : Bytes)
    (out : Outputs α) : Bool × Outputs α :=
  if argument = [] then (false, { out with error := errors.empty })
  else
    match digitLoop maximum 0 argument with
    | .error .character => (false, { out with error := errors.character })
    | .error .tooLarge => (false, { out with error := errors.tooLarge })
    | .ok value =>
      if value = 0 then (false, { out with error := errors.zero })
      else (true, { out with result := convert value })

def parsePositiveTimeout : Bytes → Outputs JobTimeout → Bool × Outputs JobTimeout :=
  parsePositive uint32Max {
    empty := text "--timeout requires a positive integer"
    character := text "--timeout must be a positive integer"
    tooLarge := text "--timeout is too large"
    zero := text "--timeout must be greater than zero" } fun value => (value : ℤ)

def parseJobId : Bytes → Outputs JobId → Bool × Outputs JobId :=
  parsePositive uint64Max {
    empty := text "job id must not be empty"
    character := text "job id must be a positive integer"
    tooLarge := text "job id is too large"
    zero := text "job id must be greater than zero" } id

def parsePositiveMaxRunning : Bytes → Outputs ℕ → Bool × Outputs ℕ :=
  parsePositive sizeMax {
    empty := text "--max-running requires a positive integer"
    character := text "--max-running must be a positive integer"
    tooLarge := text "--max-running is too large"
    zero := text "--max-running must be greater than zero" } id

def parseSubmitSuccessResponse (response : Bytes) (jobId : JobId) : Bool × JobId :=
  if response.take 3 ≠ text "OK " ∨ response.length = 3 then (false, jobId)
  else
    match digitLoop uint64Max 0 (response.drop 3) with
    | .error _ => (false, jobId)
    | .ok value => if value = 0 then (false, jobId) else (true, value)

/-! ## The arithmetic does not wrap around -/

def IsDigit (c : UInt8) : Prop := 48 ≤ c.toNat ∧ c.toNat ≤ 57

/-- The digit that a character stands for. -/
def digit (c : UInt8) : ℕ := c.toNat - 48

theorem digit_le (h : IsDigit c) : digit c ≤ 9 := by
  have := h.2
  unfold digit
  omega

theorem isDigit_iff : IsDigit c ↔ ¬ (c < 48 ∨ c > 57) := by
  rw [gt_iff_lt, UInt8.lt_iff_toNat_lt, UInt8.lt_iff_toNat_lt, not_or, Nat.not_lt, Nat.not_lt]
  rfl

theorem wrap_of_le (h : n ≤ maximum) : wrap maximum n = n := Nat.mod_eq_of_lt (Nat.lt_succ_of_le h)

theorem subDigit_eq {d : ℕ} (h : d ≤ maximum) : subDigit maximum d = maximum - d := by
  unfold subDigit wrap
  rw [show maximum + (maximum + 1) - d = maximum - d + (maximum + 1) by omega, Nat.add_mod_right]
  exact Nat.mod_eq_of_lt (by omega)

/-- The guard lets exactly the steps pass that stay within the maximum. -/
theorem guard_iff {d : ℕ} (hd : d ≤ maximum) :
    value > (maximum - d) / 10 ↔ maximum < value * 10 + d := by
  rw [gt_iff_lt, Nat.div_lt_iff_lt_mul (by decide)]
  omega

theorem appendDigit_eq {d : ℕ} (h : value * 10 + d ≤ maximum) :
    appendDigit maximum value d = value * 10 + d := by
  unfold appendDigit
  rw [wrap_of_le (le_trans (Nat.le_add_right _ _) h), wrap_of_le h]

/-- One step of the loop. -/
theorem digitLoop_cons (hmax : 9 ≤ maximum) (hc : IsDigit c) :
    digitLoop maximum value (c :: rest) =
      if maximum < value * 10 + digit c then .error .tooLarge
      else digitLoop maximum (value * 10 + digit c) rest := by
  have hle : digit c ≤ maximum := (digit_le hc).trans hmax
  rw [digitLoop, if_neg (isDigit_iff.mp hc)]
  change (if value > subDigit maximum (digit c) / 10 then _
    else digitLoop maximum (appendDigit maximum value (digit c)) rest) = _
  rw [subDigit_eq hle]
  by_cases h : maximum < value * 10 + digit c
  · rw [if_pos ((guard_iff hle).mpr h), if_pos h]
  · rw [if_neg fun hguard => h ((guard_iff hle).mp hguard), if_neg h,
      appendDigit_eq (Nat.not_lt.mp h)]

/-- The loop without bounds. -/
theorem digitLoop_eq (hmax : 9 ≤ maximum) :
    digitLoop maximum value s = parseDigits maximum value s := by
  induction s generalizing value with
  | nil => rfl
  | cons c rest ih =>
    by_cases hc : IsDigit c
    · have hle : digit c ≤ maximum := (digit_le hc).trans hmax
      rw [digitLoop_cons hmax hc, parseDigits, if_neg (isDigit_iff.mp hc)]
      by_cases h : maximum < value * 10 + digit c
      · exact (if_pos h).trans (if_pos ((guard_iff hle).mpr h)).symm
      · refine (if_neg h).trans (ih.trans (if_neg fun hguard => h ?_).symm)
        exact (guard_iff hle).mp hguard
    · have hbad : c < 48 ∨ c > 57 := by rwa [isDigit_iff, not_not] at hc
      rw [digitLoop, parseDigits, if_pos hbad, if_pos hbad]

/-! ## The number that is read -/

/-- The number that a string of digits spells. -/
def numeral (s : Bytes) : ℕ := Nat.ofDigits 10 (s.reverse.map digit)

theorem numeral_cons : numeral (c :: rest) = digit c * 10 ^ rest.length + numeral rest := by
  unfold numeral
  rw [List.reverse_cons, List.map_append, Nat.ofDigits_append, List.length_map,
    List.length_reverse, List.map_singleton, Nat.ofDigits_singleton]
  ring

/-- The loop reads strings of digits, as long as they spell no number beyond the maximum. -/
theorem digitLoop_ok_iff (hmax : 9 ≤ maximum) (hvalue : value ≤ maximum) :
    digitLoop maximum value s = .ok n ↔ (∀ c ∈ s, IsDigit c) ∧
      n = value * 10 ^ s.length + numeral s ∧ n ≤ maximum := by
  induction s generalizing value with
  | nil =>
    have hzero : value * 10 ^ ([] : Bytes).length + numeral [] = value := by simp [numeral]
    rw [hzero]
    constructor
    · intro h
      obtain rfl := Except.ok.inj h
      exact ⟨nofun, rfl, hvalue⟩
    · rintro ⟨-, rfl, -⟩
      rfl
  | cons c rest ih =>
    by_cases hc : IsDigit c
    · have hnumber : value * 10 ^ (c :: rest).length + numeral (c :: rest) =
          (value * 10 + digit c) * 10 ^ rest.length + numeral rest := by
        rw [numeral_cons, List.length_cons, pow_succ]
        ring
      rw [digitLoop_cons hmax hc, hnumber, List.forall_mem_cons]
      split_ifs with hlarge
      · have hpow : 0 < 10 ^ rest.length := Nat.pow_pos (by decide)
        have hle := Nat.le_mul_of_pos_right (value * 10 + digit c) hpow
        refine iff_of_false nofun ?_
        rintro ⟨-, rfl, hn⟩
        omega
      · rw [ih (Nat.not_lt.mp hlarge), and_iff_right hc]
    · have hbad : c < 48 ∨ c > 57 := by rwa [isDigit_iff, not_not] at hc
      rw [digitLoop, if_pos hbad]
      exact iff_of_false nofun fun h => hc (h.1 c List.mem_cons_self)

/-- A string of digits that spells a number from 1 to the maximum. -/
def Spells (maximum : ℕ) (s : Bytes) (n : ℕ) : Prop :=
  s ≠ [] ∧ (∀ c ∈ s, IsDigit c) ∧ numeral s = n ∧ 1 ≤ n ∧ n ≤ maximum

theorem spells_iff (hmax : 9 ≤ maximum) :
    Spells maximum s n ↔ s ≠ [] ∧ digitLoop maximum 0 s = .ok n ∧ n ≠ 0 := by
  rw [digitLoop_ok_iff hmax (Nat.zero_le _), Nat.zero_mul, Nat.zero_add]
  unfold Spells
  constructor
  · rintro ⟨hne, hdigits, hn, hpos, hle⟩
    exact ⟨hne, ⟨hdigits, hn.symm, hle⟩, Nat.ne_of_gt hpos⟩
  · rintro ⟨hne, ⟨hdigits, hn, hle⟩, hzero⟩
    exact ⟨hne, hdigits, hn.symm, Nat.one_le_iff_ne_zero.mpr hzero, hle⟩

/-! ## The parsers are exact -/

/-- A parser with outputs `σ` accepts the strings that spell a number up to the maximum, and writes
this number. It leaves its result alone when it rejects. -/
structure Exact {σ : Type} (maximum : ℕ) (convert : ℕ → α) (result : σ → α)
    (parse : Bytes → σ → Bool × σ) : Prop where
  accepts : ∀ s out, (parse s out).1 = true ↔ ∃ n, Spells maximum s n
  reads : ∀ s out n, Spells maximum s n → result (parse s out).2 = convert n
  rejects : ∀ s out, (parse s out).1 = false → result (parse s out).2 = result out

/-- A parser that succeeds with what is spelled, and fails otherwise, is exact. -/
theorem exact_of_cases {σ : Type} {convert : ℕ → α} {result : σ → α}
    {parse : Bytes → σ → Bool × σ}
    (h : ∀ s out, (∃ n, Spells maximum s n ∧ (parse s out).1 = true ∧
        result (parse s out).2 = convert n) ∨
      (∀ n, ¬ Spells maximum s n) ∧ (parse s out).1 = false ∧
        result (parse s out).2 = result out) : Exact maximum convert result parse where
  accepts s out := by
    obtain ⟨n, hn, htrue, -⟩ | ⟨hnone, hfalse, -⟩ := h s out
    · exact iff_of_true htrue ⟨n, hn⟩
    · refine iff_of_false (fun htrue => ?_) fun ⟨n, hn⟩ => hnone n hn
      cases htrue.symm.trans hfalse
  reads s out n hn := by
    obtain ⟨m, hm, -, hresult⟩ | ⟨hnone, -⟩ := h s out
    · rwa [← hn.2.2.1, hm.2.2.1]
    · exact absurd hn (hnone n)
  rejects s out hfalse := by
    obtain ⟨n, -, htrue, -⟩ | ⟨-, -, hresult⟩ := h s out
    · cases htrue.symm.trans hfalse
    · exact hresult

theorem parsePositive_exact (hmax : 9 ≤ maximum) (errors : NumberErrors) (convert : ℕ → α) :
    Exact maximum convert Outputs.result (parsePositive maximum errors convert) := by
  refine exact_of_cases fun s out => ?_
  unfold parsePositive
  by_cases hempty : s = []
  · rw [if_pos hempty]
    exact Or.inr ⟨fun n hn => hn.1 hempty, rfl, rfl⟩
  rw [if_neg hempty]
  cases hloop : digitLoop maximum 0 s with
  | error bad =>
    have hnone : ∀ n, ¬ Spells maximum s n := fun n hn => by
      cases hloop.symm.trans ((spells_iff hmax).mp hn).2.1
    cases bad <;> exact Or.inr ⟨hnone, rfl, rfl⟩
  | ok value =>
    simp only
    split_ifs with hzero
    · refine Or.inr ⟨fun n hn => ?_, rfl, rfl⟩
      obtain ⟨-, hn, hne⟩ := (spells_iff hmax).mp hn
      exact hne ((Except.ok.inj (hn.symm.trans hloop)).trans hzero)
    · exact Or.inl ⟨value, (spells_iff hmax).mpr ⟨hempty, hloop, hzero⟩, rfl, rfl⟩

/-- The number behind `OK `. -/
theorem parseSubmitSuccessResponse_exact : Exact uint64Max id id fun number jobId =>
    parseSubmitSuccessResponse (text "OK " ++ number) jobId := by
  refine exact_of_cases fun s jobId => ?_
  have hmax : 9 ≤ uint64Max := by decide
  have htake : (text "OK " ++ s).take 3 = text "OK " := List.take_left' (by decide)
  have hdrop : (text "OK " ++ s).drop 3 = s := List.drop_left' (by decide)
  have hlength : (text "OK " ++ s).length = 3 ↔ s = [] := by
    rw [List.length_append, show (text "OK ").length = 3 by decide, ← List.length_eq_zero_iff]
    omega
  unfold parseSubmitSuccessResponse
  rw [htake, hdrop]
  by_cases hempty : s = []
  · rw [if_pos (Or.inr (hlength.mpr hempty))]
    exact Or.inr ⟨fun n hn => hn.1 hempty, rfl, rfl⟩
  rw [if_neg (not_or.mpr ⟨not_not.mpr rfl, fun h => hempty (hlength.mp h)⟩)]
  cases hloop : digitLoop uint64Max 0 s with
  | error bad =>
    refine Or.inr ⟨fun n hn => ?_, rfl, rfl⟩
    cases hloop.symm.trans ((spells_iff hmax).mp hn).2.1
  | ok value =>
    simp only
    split_ifs with hzero
    · refine Or.inr ⟨fun n hn => ?_, rfl, rfl⟩
      obtain ⟨-, hn, hne⟩ := (spells_iff hmax).mp hn
      exact hne ((Except.ok.inj (hn.symm.trans hloop)).trans hzero)
    · exact Or.inl ⟨value, (spells_iff hmax).mpr ⟨hempty, hloop, hzero⟩, rfl, rfl⟩

/-- A step of the loop, with `value` read so far: the subtraction and the two operations behind the
guard are those of natural numbers, and the guard rejects what would wrap around. -/
structure Guarded (maximum value : ℕ) (c : UInt8) : Prop where
  sub : digit c ≤ maximum ∧ subDigit maximum (digit c) = maximum - digit c
  reject_iff : value > (maximum - digit c) / 10 ↔ maximum < value * 10 + digit c
  append : ¬ value > (maximum - digit c) / 10 → value * 10 ≤ maximum ∧
    appendDigit maximum value (digit c) = value * 10 + digit c
  step : ∀ rest, digitLoop maximum value (c :: rest) =
    if maximum < value * 10 + digit c then .error .tooLarge
    else digitLoop maximum (value * 10 + digit c) rest

theorem guarded (hmax : 9 ≤ maximum) (hc : IsDigit c) : Guarded maximum value c := by
  have hle : digit c ≤ maximum := (digit_le hc).trans hmax
  refine ⟨⟨hle, subDigit_eq hle⟩, guard_iff hle, fun hguard => ?_, fun rest => digitLoop_cons hmax hc⟩
  rw [guard_iff hle, Nat.not_lt] at hguard
  exact ⟨le_trans (Nat.le_add_right _ _) hguard, appendDigit_eq hguard⟩

/-- The parsers read exactly the numbers of their types, and no step of their loops wraps around. -/
theorem decimalParsers_exact :
    Exact uint64Max id Outputs.result parseJobId ∧
      Exact uint32Max (fun value => (value : ℤ)) Outputs.result parsePositiveTimeout ∧
      Exact sizeMax id Outputs.result parsePositiveMaxRunning ∧
      Exact uint64Max id id (fun number jobId =>
        parseSubmitSuccessResponse (text "OK " ++ number) jobId) ∧
      ∀ maximum ∈ [uint64Max, uint32Max, sizeMax], ∀ value c, IsDigit c →
        Guarded maximum value c := by
  have hmax : ∀ maximum ∈ [uint64Max, uint32Max, sizeMax], 9 ≤ maximum := by decide
  refine ⟨parsePositive_exact (by decide) _ _, parsePositive_exact (by decide) _ _,
    parsePositive_exact (by decide) _ _, parseSubmitSuccessResponse_exact, ?_⟩
  exact fun maximum hmaximum value c hc => guarded (hmax maximum hmaximum) hc

/-! ## Without machine arithmetic -/

/-- The parser of the model of the client, which has natural numbers and no outputs. -/
theorem parsePositive_eq (hmax : 9 ≤ maximum) (errors : NumberErrors) (convert : ℕ → α) (s : Bytes)
    (out : Outputs α) : parsePositive maximum errors convert s out =
      match Runnerctl.parsePositive maximum errors s with
      | .ok value => (true, { out with result := convert value })
      | .error error => (false, { out with error }) := by
  unfold parsePositive Runnerctl.parsePositive
  rw [digitLoop_eq hmax]
  split_ifs with hempty
  · rfl
  cases parseDigits maximum 0 s with
  | error bad => cases bad <;> rfl
  | ok value =>
    simp only
    split_ifs <;> rfl

theorem parseSubmitSuccessResponse_eq (response : Bytes) (jobId : JobId) :
    parseSubmitSuccessResponse response jobId =
      match Runnerctl.parseSubmitSuccessResponse response with
      | some value => (true, value)
      | none => (false, jobId) := by
  unfold parseSubmitSuccessResponse Runnerctl.parseSubmitSuccessResponse
  rw [digitLoop_eq (by decide)]
  split_ifs with hprefix
  · rfl
  cases parseDigits uint64Max 0 (response.drop 3) with
  | error bad => rfl
  | ok value =>
    simp only
    split_ifs <;> rfl

end DecimalParsers

end Runnerd
