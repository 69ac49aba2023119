import Mathlib.Data.PNat.Basic

/-!
# Bytes, exceptions and the operating system's vocabulary

The types every module of the daemon shares. A `std::string` is a list of bytes, whether it holds a
text or a binary payload. The exceptions are the standard ones the daemon throws and tells apart in
its `catch` clauses.
-/

namespace Runnerd

/-- The contents of a `std::string` or of a `std::vector<char>`. -/
abbrev Bytes := List UInt8

/-- An ASCII literal as bytes. -/
def text (s : String) : Bytes := s.toList.map fun c => c.toNat.toUInt8

/-- `std::to_string` of a non-negative integer. -/
def decimal (n : ℕ) : Bytes := (Nat.toDigits 10 n).map fun c => c.toNat.toUInt8

/-- Digits are written with one byte each. -/
theorem ofNat_toUInt8_of_isDigit {c : Char} (h : c.isDigit) :
    Char.ofNat c.toNat.toUInt8.toNat = c := by
  have hrange : 48 ≤ c.toNat ∧ c.toNat ≤ 57 := by
    simp only [Char.isDigit, Bool.and_eq_true, decide_eq_true_eq] at h
    exact ⟨UInt32.le_iff_toNat_le.mp h.1, UInt32.le_iff_toNat_le.mp h.2⟩
  have hbyte : c.toNat.toUInt8.toNat = c.toNat := by
    rw [Nat.toUInt8_eq, UInt8.toNat_ofNat']
    omega
  rw [hbyte, Char.ofNat_toNat]

theorem decimal_injective : Function.Injective decimal := by
  intro m n h
  have hback : ∀ k, (decimal k).map (fun b => Char.ofNat b.toNat) = Nat.toDigits 10 k := by
    intro k
    unfold decimal
    rw [List.map_map]
    refine (List.map_congr_left fun c hc => ?_).trans (List.map_id _)
    exact ofNat_toUInt8_of_isDigit (Nat.isDigit_of_mem_toDigits (by decide) (by decide) hc)
  have hdigits : Nat.toDigits 10 m = Nat.toDigits 10 n := by rw [← hback m, ← hback n, h]
  rw [← Nat.ofDigitChars_ten_toDigits (n := m), hdigits, Nat.ofDigitChars_ten_toDigits]

/-- The largest `uint32_t`. -/
def uint32Max : ℕ := 2 ^ 32 - 1

/-! ## The operating system -/

/-- A file descriptor that a call has returned. -/
abbrev Fd := ℕ

/-- A process id, or a process group id, as `fork` returns it to the parent. -/
abbrev Pid := ℕ+

/-- An `errno` value, less `EINTR` and `EAGAIN`: the results of the calls list these two apart. -/
inductive Errno where
  | ESRCH
  | ECHILD
  | EBADF
  | EACCES
  | other (code : ℕ)
  deriving DecidableEq, Repr

/-- The number of an `errno` value. -/
def Errno.number : Errno → ℤ
  | .ESRCH => 3
  | .ECHILD => 10
  | .EBADF => 9
  | .EACCES => 13
  | .other code => code

/-- The signals the daemon sends to process groups. -/
inductive Signal where
  | SIGTERM
  | SIGKILL
  deriving DecidableEq, Repr

/-- A status reported by `waitpid`, by the macro that recognises it. -/
inductive WaitStatus where
  /-- `WIFEXITED`, with `WEXITSTATUS`. -/
  | exited (code : ℕ)
  /-- `WIFSIGNALED`, with `WTERMSIG`. -/
  | signaled (signal : ℕ)
  /-- Neither. -/
  | other
  deriving DecidableEq, Repr

/-! ## Exceptions -/

/-- The standard exceptions, with the text they were built from. -/
inductive Exception where
  | invalidArgument (what : Bytes)
  | lengthError (what : Bytes)
  | logicError (what : Bytes)
  | outOfRange
  | runtimeError (what : Bytes)
  | overflowError (what : Bytes)
  | systemError (errno : Errno) (what : Bytes)
  /-- A `size_t` subtraction went below zero. No call throws this: the value wraps around in the
  source, and the model stops there instead. -/
  | sizeUnderflow
  deriving DecidableEq, Repr

/-- The result is no `invalid_argument`, the only exception that a request is answered with. -/
def NotInvalid {α : Type} (r : Except Exception α) : Prop := ∀ what, r ≠ .error (.invalidArgument what)

/-- `exception.what()`, given `strerror`. -/
def Exception.what (strerror : ℤ → Bytes) : Exception → Bytes
  | .invalidArgument what | .lengthError what | .logicError what | .runtimeError what
  | .overflowError what => what
  | .outOfRange => text "map::at"
  | .systemError errno what => what ++ text ": " ++ strerror errno.number
  | .sizeUnderflow => []

end Runnerd
