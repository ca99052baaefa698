import KubeYamls.Data.Paging
import Mathlib.Data.Nat.Count

/-! # Commands that are retried

`retry_command` runs a command until it has succeeded a number of times in a row, or has
failed a number of times in all. The command is its exit codes, one for each run. That
`sleep` succeeds is assumed, and what is written to the standard error is left out. Numbers
have 64 bits in the shell, so a limit from 2^63 on is a negative one. -/
namespace KubeYamls.Jenkins
open Data

/-- The environment variables that set the limits. -/
structure RetryEnv where
  ATTEMPTS : Option Nat := none
  SUCCESS_ATTEMPTS : Option Nat := none

def RetryEnv.maxAttempts (env : RetryEnv) : Nat := env.ATTEMPTS.getD 3

def RetryEnv.maxSuccessAttempt (env : RetryEnv) : Nat := env.SUCCESS_ATTEMPTS.getD 1

/-- The variables of the loop. -/
structure Retry where
  attempt : Int := 0
  successAttempt : Int := 0
  exitCode : UInt8 := 0

def failures (codes : Nat → UInt8) (runs : Nat) : Nat := Nat.count (codes · ≠ 0) runs

/-- Did the last runs all succeed, so many of them? -/
def LastSucceeded (codes : Nat → UInt8) (runs n : Nat) : Prop := n ≤ runs ∧ ∀ i, runs - n ≤ i → i < runs → codes i = 0

section loop
variable {env : RetryEnv} {codes : Nat → UInt8} {runs : Nat} {s : Retry}

/-- How many runs there can still be. A failure ends a row of successes that is shorter than it has to be. -/
def runsLeft (env : RetryEnv) (s : Retry) : Nat :=
  (env.maxAttempts - s.attempt).toNat * env.maxSuccessAttempt - s.successAttempt.toNat

/-- What holds at the head of the loop. -/
structure Retrying (env : RetryEnv) (codes : Nat → UInt8) (runs : Nat) (s : Retry) : Prop where
  attempt : failures codes runs = s.attempt
  success : 0 ≤ s.successAttempt ∧ s.successAttempt < env.maxSuccessAttempt
  succeeded : LastSucceeded codes runs s.successAttempt.toNat
  bound : runs + runsLeft env s ≤ env.maxAttempts * env.maxSuccessAttempt
  failed : env.maxAttempts ≤ s.attempt →
    s.attempt = env.maxAttempts ∧ 0 < runs ∧ s.exitCode = codes (runs - 1) ∧ s.exitCode ≠ 0

theorem lastSucceeded_zero : LastSucceeded codes runs 0 :=
  ⟨Nat.zero_le runs, fun _ hi hlt => absurd hlt (Nat.not_lt.mpr hi)⟩

theorem LastSucceeded.succ {n : Int} (hn : 0 ≤ n) (h : LastSucceeded codes runs n.toNat) (hcode : codes runs = 0) :
    LastSucceeded codes (runs + 1) (n + 1).toNat := by
  have hle := h.1
  refine ⟨by omega, fun i hi hlt => ?_⟩
  obtain hi' | rfl : i < runs ∨ i = runs := by omega
  · exact h.2 i (by omega) hi'
  · exact hcode

theorem Retrying.init (hattempts : 1 ≤ env.maxAttempts) (hsuccess : 1 ≤ env.maxSuccessAttempt) :
    Retrying env codes 0 {} where
  attempt := rfl
  success := ⟨Int.le_refl 0, by dsimp only; omega⟩
  succeeded := lastSucceeded_zero
  bound := by simp [runsLeft]
  failed hle := by dsimp only at hle; omega

section
variable (h : Retrying env codes runs s) (hattempt : s.attempt < env.maxAttempts)
include h hattempt

theorem runsLeft_fail (code : UInt8) :
    runsLeft env { attempt := s.attempt + 1, successAttempt := 0, exitCode := code } < runsLeft env s := by
  have hsuccess := h.success
  obtain ⟨k, hk⟩ : ∃ k, (env.maxAttempts - s.attempt).toNat = k + 1 :=
    ⟨(env.maxAttempts - s.attempt).toNat - 1, by omega⟩
  have hk' : (env.maxAttempts - (s.attempt + 1)).toNat = k := by omega
  simp only [runsLeft, hk, hk', Nat.succ_mul]
  omega

theorem Retrying.fail (hcode : codes runs ≠ 0) :
    Retrying env codes (runs + 1) { attempt := s.attempt + 1, successAttempt := 0, exitCode := codes runs } where
  attempt := by simp [failures, Nat.count_succ, hcode, ← h.attempt]
  success := ⟨Int.le_refl 0, Int.lt_of_le_of_lt h.success.1 h.success.2⟩
  succeeded := lastSucceeded_zero
  bound := by
    have hless := runsLeft_fail h hattempt (codes runs)
    have hbound := h.bound
    omega
  failed hle := ⟨by dsimp only at hle ⊢; omega, Nat.succ_pos runs, rfl, hcode⟩

end

end loop

end KubeYamls.Jenkins
